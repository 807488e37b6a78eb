/-
# Net.EthernetReceive -- frames on their way from the DMA

The DMA stores a frame in the buffer of the descriptor it is at, with its CRC, writes its length
and flags into the descriptor and takes the OWN bit away, and raises the receive interrupt; where
the OWN bit is not set, the frame is missed.  A frame longer than a buffer goes into several
descriptors, the first with the FS bit and the last with the LS bit.  `ETH_IRQHandler` hands frames
up for as long as `ETH_GetRxPktSize` finds one at `DMARxDescToGet`: `low_level_input` copies it into
pbufs, one after the other, and gives the descriptor back.  Then the handler clears the interrupt.
The DMA may store frames between any two of these steps.

`pbuf_alloc` is not part of this: it comes back with pbufs or with null, as a step of its own, and
the run shows which.
-/
import Stm32Robot.Net.EthernetDescriptors
import Stm32Robot.Theory.EventRun

namespace Stm32Robot.Net

open Stm32Robot.Theory.ByteStore
open Stm32Robot.Theory.RingAddress
open Stm32Robot.Theory.OwnedRing
open Stm32Robot.Theory.PartialRun
open Stm32Robot.Theory.EventRun

set_option autoImplicit false

/-- `FrameTypeDef`; a null descriptor is `none`. -/
structure FrameTypeDef where
  length : BitVec 32
  buffer : Nat
  descriptor : Option Int
  deriving DecidableEq

/-- What the handler and the DMA share: the descriptors and `Rx_Buff`, `DMARxDescToGet`, the bits
RBUS and R of `ETH->DMASR`, and the descriptor the DMA is at. -/
structure EthRx where
  dmaRxDscrTab : DscrTab
  rxBuff : Nat → UInt8
  dmaRxDescToGet : Int
  rbus : Bool
  r : Bool
  current : Int

/-- Where the receive interrupt is served; `outside` is where it is not.  `p` is the chain of
pbufs, by the bytes in it, or null; while they are copied, `lens` are the lengths of the pbufs
that are still empty. -/
inductive IrqAt where
  | outside
  | sizeTest
  | rxPacket
  | pbufAlloc (frame : FrameTypeDef)
  | copy (frame : FrameTypeDef) (lens : List Nat) (p : List UInt8)
  | release (descriptor : Option Int) (p : Option (List UInt8))
  | resume (p : Option (List UInt8))
  | input (p : Option (List UInt8))
  | clearIt
  deriving DecidableEq

structure EthInput where
  eth : EthRx
  pc : IrqAt

/-- What the DMA writes: the bytes of a frame and its CRC, or as much of them as goes into this
buffer, and the status of the descriptor. -/
structure StoredFrame where
  status : BitVec 32
  bytes : List UInt8
  deriving DecidableEq

inductive RxAction where
  | dma (x : StoredFrame)
  | irq
  | cpu
  /-- `pbuf_alloc` comes back with pbufs of these lengths, or with null. -/
  | pbufAlloc (lens : Option (List Nat))

/-- What a run shows: a frame stored, or missed; whether `pbuf_alloc` has given pbufs; what then
became of the frame, handed up or dropped; a look that found no frame, and the end of a handler. -/
inductive RxEvent where
  | stored (x : StoredFrame)
  | missed
  | allocated (given : Bool)
  | handled (p : Option (List UInt8))
  | sawNone
  | cleared
  deriving DecidableEq

/-- `ETH_GetDMARxDescFrameLength` -/
def ethGetDmaRxDescFrameLength (d : EthDmaDesc) : BitVec 32 :=
  (d.status &&& ETH_DMARxDesc_FL) >>> 16

def ethGetRxPktSize (d : EthDmaDesc) : BitVec 32 :=
  if d.status &&& ETH_DMADesc_OWN = 0 ∧ d.status &&& ETH_DMARxDesc_ES = 0 ∧
      d.status &&& ETH_DMARxDesc_LS ≠ 0 then
    ethGetDmaRxDescFrameLength d
  else 0

namespace EthRx

variable (e : EthRx)

def toGet : EthDmaDesc := e.dmaRxDscrTab e.dmaRxDescToGet

/-- `ETH_Rx_Packet` -/
def ethRxPacket : FrameTypeDef × EthRx :=
  if e.toGet.Own then (⟨0, 0, none⟩, { e with rbus := false })
  else
    let (framelength, buffer) :=
      if e.toGet.status &&& ETH_DMARxDesc_ES = 0 ∧ e.toGet.status &&& ETH_DMARxDesc_LS ≠ 0 ∧
          e.toGet.status &&& ETH_DMARxDesc_FS ≠ 0 then
        (((e.toGet.status &&& ETH_DMARxDesc_FL) >>> 16) - 4, e.toGet.buffer1Addr)
      else (0, 0)
    (⟨framelength, buffer, some e.dmaRxDescToGet⟩,
      { e with dmaRxDescToGet := e.toGet.buffer2NextDescAddr })

/-- `frame.descriptor->Status=ETH_DMARxDesc_OWN;` -/
def giveBack (c : Int) : EthRx :=
  { e with
    dmaRxDscrTab := Function.update e.dmaRxDscrTab c
      { e.dmaRxDscrTab c with status := ETH_DMADesc_OWN } }

/-- The DMA stores what it has received and hands the descriptor over, or has no descriptor for
it, in one step. -/
def dma (x : StoredFrame) : EthRx × List RxEvent :=
  let d := e.dmaRxDscrTab e.current
  if d.Own then
    ({ e with
      dmaRxDscrTab := Function.update e.dmaRxDscrTab e.current { d with status := x.status }
      rxBuff := writeAt e.rxBuff d.buffer1Addr x.bytes
      r := true
      current := d.buffer2NextDescAddr }, [.stored x])
  else ({ e with rbus := true }, [.missed])

end EthRx

namespace EthInput

/-- The steps of the handler but for `pbuf_alloc`.  It clears the bit R and then NIS, which sums up
R and others; here that is one step, and NIS is left out. -/
def cpu (s : EthInput) : Option (EthInput × List RxEvent) :=
  let e := s.eth
  match s.pc with
  | .outside => none
  | .sizeTest =>
      if ethGetRxPktSize e.toGet ≠ 0 then some (⟨e, .rxPacket⟩, [])
      else some (⟨e, .clearIt⟩, [.sawNone])
  | .rxPacket => some (⟨e.ethRxPacket.2, .pbufAlloc e.ethRxPacket.1⟩, [])
  | .pbufAlloc _ => none
  | .copy frame [] p => some (⟨e, .release frame.descriptor (some p)⟩, [])
  | .copy frame (len :: lens) p =>
      -- `l` is the length of what has been copied
      some (⟨e, .copy frame lens (p ++ readAt e.rxBuff (frame.buffer + p.length) len)⟩, [])
  | .release none _ => none
  | .release (some c) p =>
      some (⟨e.giveBack c, .resume p⟩, [])
  | .resume p => some (⟨if e.rbus then { e with rbus := false } else e, .input p⟩, [])
  | .input p => some (⟨e, .sizeTest⟩, [.handled p])
  | .clearIt => some (⟨{ e with r := false }, .outside⟩, [.cleared])

/-- The pbufs that `pbuf_alloc` gives are as long together as the length asked for, a `u16_t`. -/
def step (s : EthInput) : RxAction → Option (EthInput × List RxEvent)
  | .dma x => some (⟨(s.eth.dma x).1, s.pc⟩, (s.eth.dma x).2)
  | .irq => if s.pc = .outside ∧ s.eth.r then some (⟨s.eth, .sizeTest⟩, []) else none
  | .cpu => s.cpu
  | .pbufAlloc lens =>
      match s.pc with
      | .pbufAlloc frame =>
          match lens with
          | none => some (⟨s.eth, .release frame.descriptor none⟩, [.allocated false])
          | some ns =>
              if ns.sum = (frame.length.setWidth 16).toNat then
                some (⟨s.eth, .copy frame ns []⟩, [.allocated true])
              else none
      | _ => none

end EthInput

/-- The receive side as `low_level_init` leaves it. -/
def lowLevelInitRx (tab : DscrTab) (rxBuff : Nat → UInt8) : EthInput where
  eth :=
    { dmaRxDscrTab := ethDmaRxDescChainInit tab ETH_RXBUFNB
      rxBuff := rxBuff
      dmaRxDescToGet := 0
      rbus := false
      r := false
      current := 0 }
  pc := .outside

/-! ## What the DMA writes -/

/-- The status of a frame that lies whole in its descriptor and has no error. -/
def WholeFrame (status : BitVec 32) : Prop :=
  status &&& ETH_DMARxDesc_ES = 0 ∧ status &&& ETH_DMARxDesc_LS ≠ 0 ∧
    status &&& ETH_DMARxDesc_FS ≠ 0

instance (status : BitVec 32) : Decidable (WholeFrame status) := inferInstanceAs (Decidable (_ ∧ _))

namespace StoredFrame

variable (x : StoredFrame)

/-- The length in the status: that of the frame, in its last descriptor. -/
def frameLength : Nat := ((x.status &&& ETH_DMARxDesc_FL) >>> 16).toNat

/-- The OWN bit is not set and the bytes fit the buffer.  Of a frame that is whole the length in
the status is that of the bytes, at least a CRC; nothing is said of the lengths of others. -/
def Fits : Prop :=
  x.status.getLsbD 31 = false ∧ x.bytes.length ≤ ETH_RX_BUF_SIZE ∧
    (WholeFrame x.status → x.frameLength = x.bytes.length ∧ 4 ≤ x.bytes.length)

/-- What `ETH_GetRxPktSize` finds: the end of a frame without an error, with its length. -/
def Seen : Prop :=
  x.status &&& ETH_DMARxDesc_ES = 0 ∧ x.status &&& ETH_DMARxDesc_LS ≠ 0 ∧ x.frameLength ≠ 0

instance : Decidable x.Seen := inferInstanceAs (Decidable (_ ∧ _))

/-- The frame without its CRC; nothing where it has begun in another descriptor. -/
def frame : List UInt8 :=
  if x.status &&& ETH_DMARxDesc_FS ≠ 0 then x.bytes.take (x.bytes.length - 4) else []

/-- What becomes of it: it is handed up if there are pbufs for it, and else dropped. -/
def outcome (given : Bool) : Option (List UInt8) := if given then some x.frame else none

theorem Fits.seen {x : StoredFrame} (fits : x.Fits) (whole : WholeFrame x.status) : x.Seen := by
  obtain ⟨count, long⟩ := fits.2.2 whole
  exact ⟨whole.1, whole.2.1, by omega⟩

end StoredFrame

end Stm32Robot.Net
