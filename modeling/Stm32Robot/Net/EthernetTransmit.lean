/-
# Net.EthernetTransmit -- frames on their way to the DMA

`low_level_output` copies a frame, pbuf by pbuf, into the buffer of the descriptor at
`DMATxDescToSet` and calls `ETH_Tx_Packet`, which looks at the OWN bit, fills in the descriptor,
sets the OWN bit, wakes the DMA where it has run out of frames, and moves on.  The DMA sends the
frame of the descriptor it is at and takes its OWN bit away, or stops there.  The two work at the
same time: each `memcpy` and each statement of `ETH_Tx_Packet` is a step here, the wake-up as a
whole being one, and so is the sending of a frame; the steps of the DMA may come between any two
of the others.

The copy comes before the OWN bit is looked at.  `Outbox` is what the driver does for its caller:
a queue of five frames in which what is copied of a sixth one goes over the first.
-/
import Stm32Robot.Net.EthernetDescriptors
import Stm32Robot.Net.TcpThread
import Stm32Robot.Theory.EventRun

namespace Stm32Robot.Net

open Stm32Robot.Theory.ByteStore
open Stm32Robot.Theory.RingAddress
open Stm32Robot.Theory.OwnedRing
open Stm32Robot.Theory.PartialRun
open Stm32Robot.Theory.EventRun

set_option autoImplicit false

/-! ## The driver and the DMA -/

/-- What the driver and the DMA share: the descriptors and `Tx_Buff`, `DMATxDescToSet`, the bit
TBUS of `ETH->DMASR`, the descriptor the DMA is at and whether it waits there to be woken. -/
structure EthTx where
  dmaTxDscrTab : DscrTab
  txBuff : Nat → UInt8
  dmaTxDescToSet : Int
  tbus : Bool
  current : Int
  suspended : Bool

/-- Where a call of `low_level_output` is; `idle` is between two calls.  In the loop `q` are the
pbufs that are left. -/
inductive OutputAt where
  | idle
  | copy (buffer l : Nat) (q : List Pbuf)
  | ownTest (frameLength : BitVec 16)
  | setLength (frameLength : BitVec 16)
  | setSegments
  | setOwn
  | resume
  | moveOn
  deriving DecidableEq

structure EthOutput where
  eth : EthTx
  pc : OutputAt

inductive TxAction where
  | lowLevelOutput (p : List Pbuf)
  | cpu
  | dma

/-- What the DMA sends of a descriptor: a frame if its first and last segment. -/
structure Segment where
  first : Bool
  last : Bool
  bytes : List UInt8
  deriving DecidableEq

/-- What a run shows: a call with a frame, and whether the ring is full; so many bytes more of it
copied into a buffer of the driver, or over a frame that the DMA has still to send; then the frame
put into the ring, or refused with `ERR_MEM`; and what is sent. -/
inductive TxEvent where
  | offered (full : Bool) (frame : List UInt8)
  | copied (n : Nat)
  | overwrote (n : Nat)
  | queued
  | refused
  | sent (segment : Segment)
  deriving DecidableEq

namespace EthTx

variable (e : EthTx)

/-- The descriptor at `DMATxDescToSet`. -/
def toSet : EthDmaDesc := e.dmaTxDscrTab e.dmaTxDescToSet

/-- A statement that changes the descriptor at `DMATxDescToSet`. -/
def set (d : EthDmaDesc) : EthTx :=
  { e with dmaTxDscrTab := Function.update e.dmaTxDscrTab e.dmaTxDescToSet d }

def ethGetCurrentTxBuffer : Nat := e.toSet.buffer1Addr

/-- What the DMA reads at a descriptor. -/
def segment (c : Int) : Segment :=
  let d := e.dmaTxDscrTab c
  { first := d.status &&& ETH_DMATxDesc_FS ≠ 0
    last := d.status &&& ETH_DMATxDesc_LS ≠ 0
    bytes := readAt e.txBuff d.buffer1Addr (d.controlBufferSize &&& ETH_DMATxDesc_TBS1).toNat }

/-- The DMA sends what is at its descriptor, gives it back and goes to the next, or stops.  Of the
hardware this assumes that it reads the OWN bit and then sends the frame and gives the descriptor
back, or sets TBUS and stops, in one step; and that it gives a descriptor back before it reads the
next one, though `ETH_SecondFrameOperate`, which is enabled, lets it read the next one first. -/
def dma : Option (EthTx × List TxEvent) :=
  let d := e.dmaTxDscrTab e.current
  if e.suspended then none
  else if d.Own then
    some ({ e with
      dmaTxDscrTab :=
        Function.update e.dmaTxDscrTab e.current
          { d with status := d.status &&& ~~~ETH_DMADesc_OWN }
      current := d.buffer2NextDescAddr }, [.sent (e.segment e.current)])
  else some ({ e with tbus := true, suspended := true }, [])

end EthTx

namespace EthOutput

/-- The loop of `low_level_output` and the statements of `ETH_Tx_Packet`. -/
def cpu (s : EthOutput) : Option (EthOutput × List TxEvent) :=
  let e := s.eth
  match s.pc with
  | .idle => none
  | .copy _ l [] => some (⟨e, .ownTest (BitVec.ofNat 16 l)⟩, [])
  | .copy buffer l (q :: qs) =>
      let n := q.payload.length
      some (⟨{ e with txBuff := writeAt e.txBuff (buffer + l) q.payload }, .copy buffer (l + n) qs⟩,
        [if e.toSet.Own then .overwrote n else .copied n])
  | .ownTest n =>
      if e.toSet.Own then some (⟨e, .idle⟩, [.refused]) else some (⟨e, .setLength n⟩, [])
  | .setLength n =>
      some (⟨e.set { e.toSet with controlBufferSize := n.setWidth 32 &&& ETH_DMATxDesc_TBS1 },
        .setSegments⟩, [])
  | .setSegments =>
      some (⟨e.set
        { e.toSet with status := e.toSet.status ||| (ETH_DMATxDesc_LS ||| ETH_DMATxDesc_FS) },
        .setOwn⟩, [])
  | .setOwn =>
      some (⟨e.set { e.toSet with status := e.toSet.status ||| ETH_DMADesc_OWN }, .resume⟩,
        [.queued])
  | .resume =>
      -- the DMA is woken only where it has set TBUS
      some (⟨if e.tbus then { e with tbus := false, suspended := false } else e, .moveOn⟩, [])
  | .moveOn => some (⟨{ e with dmaTxDescToSet := e.toSet.buffer2NextDescAddr }, .idle⟩, [])

def step (s : EthOutput) : TxAction → Option (EthOutput × List TxEvent)
  | .lowLevelOutput p =>
      if s.pc = .idle then
        some (⟨s.eth, .copy s.eth.ethGetCurrentTxBuffer 0 p⟩,
          [.offered (decide s.eth.toSet.Own) (p.flatMap Pbuf.payload)])
      else none
  | .cpu => s.cpu
  | .dma => s.eth.dma.map fun (e, events) => (⟨e, s.pc⟩, events)

end EthOutput

/-- The transmit side as `low_level_init` leaves it: the descriptors chained, their checksums set,
and the DMA started at the first. -/
def lowLevelInitTx (tab : DscrTab) (txBuff : Nat → UInt8) : EthOutput where
  eth :=
    { dmaTxDscrTab := forEach ETH_TXBUFNB
        (fun _ d => ethDmaTxDescChecksumInsertionConfig d ETH_DMATxDesc_ChecksumTCPUDPICMPFull)
        (ethDmaTxDescChainInit tab ETH_TXBUFNB)
      txBuff := txBuff
      dmaTxDescToSet := 0
      tbus := false
      current := 0
      suspended := false }
  pc := .idle

/-! ## What it is for -/

/-- The frames that wait to be sent, and the one a call has offered, with how much of it has been
copied. -/
structure Outbox where
  waiting : List (List UInt8)
  offered : Option (List UInt8 × Nat)

namespace Outbox

def Full (o : Outbox) : Prop := o.waiting.length = ETH_TXBUFNB

instance (o : Outbox) : Decidable o.Full := inferInstanceAs (Decidable (_ = _))

/-- The first frame that waits is written over, from its byte `l` on. -/
def spoil (l : Nat) (bytes : List UInt8) : List (List UInt8) → List (List UInt8)
  | [] => []
  | g :: gs => overlay l bytes g :: gs

/-- A frame is copied while there is room and written over the first one while there is none, and
it is put in only while there is. -/
def step (o : Outbox) : TxEvent → Option Outbox
  | .offered full frame =>
      if full = decide o.Full ∧ o.offered = none then some ⟨o.waiting, some (frame, 0)⟩ else none
  | .copied n =>
      o.offered.bind fun (frame, l) =>
        if ¬ o.Full ∧ l + n ≤ frame.length then some ⟨o.waiting, some (frame, l + n)⟩ else none
  | .overwrote n =>
      o.offered.bind fun (frame, l) =>
        if o.Full ∧ l + n ≤ frame.length then
          some ⟨spoil l ((frame.drop l).take n) o.waiting, some (frame, l + n)⟩
        else none
  | .queued =>
      o.offered.bind fun (frame, l) =>
        if ¬ o.Full ∧ l = frame.length then some ⟨o.waiting ++ [frame], none⟩ else none
  | .refused =>
      o.offered.bind fun (frame, l) =>
        if o.Full ∧ l = frame.length then some ⟨o.waiting, none⟩ else none
  | .sent segment =>
      match o.waiting with
      | [] => none
      | frame :: rest => if segment = ⟨true, true, frame⟩ then some ⟨rest, o.offered⟩ else none

/-- Nothing waits. -/
def empty : Outbox := ⟨[], none⟩

end Outbox

/-! ## The bits of a descriptor -/

theorem and_bit_ne_zero_iff (x : BitVec 32) (i : Nat) :
    x &&& BitVec.twoPow 32 i ≠ 0 ↔ x.getLsbD i = true := by
  rw [BitVec.and_twoPow]
  by_cases within : i < 32
  · have bit : BitVec.twoPow 32 i ≠ 0#32 := by
      intro zero
      have := congrArg (fun y : BitVec 32 => y.getLsbD i) zero
      simp [within] at this
    cases x.getLsbD i <;> simp [bit]
  · simp [BitVec.getLsbD_of_ge _ _ (Nat.not_lt.mp within)]

theorem EthDmaDesc.own_iff (d : EthDmaDesc) : d.Own ↔ d.status.getLsbD 31 = true :=
  and_bit_ne_zero_iff d.status 31

/-- The LS and FS bits of a descriptor that is filled in. -/
def EthDmaDesc.Whole (d : EthDmaDesc) : Prop :=
  d.status.getLsbD 28 = true ∧ d.status.getLsbD 29 = true

/-- How many bytes the DMA reads. -/
def EthDmaDesc.count (d : EthDmaDesc) : Nat := (d.controlBufferSize &&& ETH_DMATxDesc_TBS1).toNat

namespace EthTx

variable {e : EthTx} {c : Int}

theorem segment_eq (e : EthTx) (c : Int) :
    e.segment c =
      { first := (e.dmaTxDscrTab c).status.getLsbD 28
        last := (e.dmaTxDscrTab c).status.getLsbD 29
        bytes := readAt e.txBuff (e.dmaTxDscrTab c).buffer1Addr (e.dmaTxDscrTab c).count } := by
  have bit (i : Nat) (x : BitVec 32) :
      (decide (x &&& BitVec.twoPow 32 i ≠ 0)) = x.getLsbD i := by
    simp only [and_bit_ne_zero_iff, Bool.decide_eq_true]
  simp only [segment, Segment.mk.injEq]
  exact ⟨bit 28 _, bit 29 _, rfl⟩

end EthTx

end Stm32Robot.Net
