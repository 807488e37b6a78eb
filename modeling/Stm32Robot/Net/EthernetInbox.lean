/-
# Net.EthernetInbox -- what the DMA has stored is handed up in order

`Holding s front l` relates the descriptors to the frames stored and not yet given back: the
descriptors that the DMA does not own hold `l`, from `front` on, which is where the handler is.

`receive_in_order` says that frames are handed up in the order in which they were stored and with
the bytes that were stored, but for those for which `pbuf_alloc` came back with null.
`receive_stuck` says that a frame with an error, or one that takes several descriptors, is the end
of it, and `receive_interrupts` when the interrupt tells of every frame.
-/
import Stm32Robot.Net.EthernetReceive
import Stm32Robot.Theory.History

namespace Stm32Robot.Net

open Stm32Robot.Theory.ByteStore
open Stm32Robot.Theory.RingAddress
open Stm32Robot.Theory.OwnedRing
open Stm32Robot.Theory.PartialRun
open Stm32Robot.Theory.EventRun
open Stm32Robot.Theory.History

set_option autoImplicit false

/-! ## The relation -/

/-- Of a frame that is not whole the handler never looks at the bytes. -/
def StoredFrame.visible (x : StoredFrame) : StoredFrame :=
  ⟨x.status, if WholeFrame x.status then x.bytes else []⟩

/-- Where two of them look the same. -/
theorem StoredFrame.visible_eq_iff {x y : StoredFrame} : x.visible = y.visible ↔
    x.status = y.status ∧ (WholeFrame x.status → x.bytes = y.bytes) := by
  obtain ⟨status, bytes⟩ := x
  obtain ⟨status', bytes'⟩ := y
  simp only [visible, mk.injEq]
  apply and_congr_right
  rintro rfl
  by_cases whole : WholeFrame status
  · simp [whole]
  · simp [whole]

namespace EthRx

/-- A descriptor that the DMA has filled. -/
def Filled (e : EthRx) (c : Int) : Prop := ¬ (e.dmaRxDscrTab c).Own

/-- What lies at a descriptor. -/
def item (e : EthRx) (c : Int) : StoredFrame :=
  .visible ⟨(e.dmaRxDscrTab c).status, readAt e.rxBuff (e.dmaRxDscrTab c).buffer1Addr
    (ethGetDmaRxDescFrameLength (e.dmaRxDscrTab c)).toNat⟩

end EthRx

/-- `ETH_Rx_Packet` has given this frame. -/
structure Grabbed (frame : FrameTypeDef) (front : Int) (x : StoredFrame) : Prop where
  descriptor : frame.descriptor = some front
  length : (frame.length.setWidth 16).toNat = x.frame.length
  buffer : x.frame ≠ [] → frame.buffer = front.toNat * ETH_RX_BUF_SIZE

/-- Where `DMARxDescToGet` is, and the frame that the handler is at. -/
def InHand (e : EthRx) (front : Int) (l : List StoredFrame) : IrqAt → Prop
  | .rxPacket => e.dmaRxDescToGet = front ∧ ∃ x rest, l = x :: rest ∧ x.Seen
  | .pbufAlloc frame =>
      e.dmaRxDescToGet = advance ETH_RXBUFNB front ∧
        ∃ x rest, l = x :: rest ∧ x.Seen ∧ Grabbed frame front x
  | .copy frame lens p =>
      e.dmaRxDescToGet = advance ETH_RXBUFNB front ∧
        ∃ x rest, l = x :: rest ∧ x.Seen ∧ Grabbed frame front x ∧ p <+: x.frame ∧
          p.length + lens.sum = x.frame.length
  | .release descriptor p =>
      e.dmaRxDescToGet = advance ETH_RXBUFNB front ∧
        ∃ x rest, l = x :: rest ∧ x.Seen ∧ descriptor = some front ∧ p = x.outcome p.isSome
  | _ => e.dmaRxDescToGet = front

/-- One more frame behind the others is no concern of the handler. -/
theorem InHand.append {e e' : EthRx} {front : Int} {l : List StoredFrame} {pc : IrqAt}
    (inHand : InHand e front l pc) (same : e'.dmaRxDescToGet = e.dmaRxDescToGet)
    (x : StoredFrame) : InHand e' front (l ++ [x]) pc := by
  cases pc with
  | rxPacket | pbufAlloc | copy | release =>
      obtain ⟨get, y, rest, rfl, seen⟩ := inHand
      exact ⟨same.trans get, y, rest ++ [x], rfl, seen⟩
  | outside | sizeTest | resume | input | clearIt => exact same.trans inHand

structure Holding (s : EthInput) (front : Int) (l : List StoredFrame) : Prop where
  chained : Chained ETH_RX_BUF_SIZE ETH_RXBUFNB s.eth.dmaRxDscrTab
  bounded : ∀ c, InRing ETH_RXBUFNB c → s.eth.Filled c → WholeFrame (s.eth.dmaRxDscrTab c).status →
    (ethGetDmaRxDescFrameLength (s.eth.dmaRxDscrTab c)).toNat ≤ ETH_RX_BUF_SIZE
  holds : Holds s.eth.Filled s.eth.item ETH_RXBUFNB front (l.map StoredFrame.visible)
  fits : ∀ x ∈ l, x.Fits
  current : s.eth.current = back ETH_RXBUFNB front (l.map StoredFrame.visible)
  inHand : InHand s.eth front l s.pc

/-! ## Steps -/

theorem not_own_iff (d : EthDmaDesc) : ¬ d.Own ↔ d.status &&& ETH_DMADesc_OWN = 0 := not_not

theorem StoredFrame.Fits.not_own {x : StoredFrame} (fits : x.Fits) :
    x.status &&& ETH_DMADesc_OWN = 0 := by
  have bit : ETH_DMADesc_OWN = BitVec.twoPow 32 31 := rfl
  rw [bit, BitVec.and_twoPow, fits.1]
  rfl

namespace Holding

variable {s : EthInput} {front : Int} {l : List StoredFrame} {x : StoredFrame}

theorem length_le (holding : Holding s front l) : l.length ≤ ETH_RXBUFNB := by
  have fits := holding.holds.fits
  rw [List.length_map] at fits
  exact Int.ofNat_le.mp fits

/-- The DMA finds its descriptor filled where all are. -/
theorem own_current_iff (holding : Holding s front l) :
    (s.eth.dmaRxDscrTab s.eth.current).Own ↔ l.length ≠ ETH_RXBUFNB := by
  have full := holding.holds.back_iff
  rw [← holding.current, List.length_map, Int.natCast_inj] at full
  exact not_iff_not.mp (full.trans not_not.symm)

/-- The descriptor at `front` is that of the first frame. -/
theorem status_front (holding : Holding s front (x :: l)) :
    (s.eth.dmaRxDscrTab front).status = x.status :=
  congrArg StoredFrame.status holding.holds.item_front

/-- The bytes of the first frame, where it is whole. -/
theorem bytes_front (holding : Holding s front (x :: l)) (whole : WholeFrame x.status) :
    readAt s.eth.rxBuff (front.toNat * ETH_RX_BUF_SIZE) x.bytes.length = x.bytes := by
  obtain ⟨status, bytes⟩ := StoredFrame.visible_eq_iff.mp holding.holds.item_front
  have read := bytes (by rwa [status])
  have count : (ethGetDmaRxDescFrameLength (s.eth.dmaRxDscrTab front)).toNat =
      x.bytes.length := by
    rw [ethGetDmaRxDescFrameLength, holding.status_front]
    exact ((holding.fits x List.mem_cons_self).2.2 whole).1
  rw [(holding.chained front holding.holds.inside).1, count] at read
  exact read

/-- A frame is stored behind the others. -/
theorem store (holding : Holding s front l) (own : (s.eth.dmaRxDscrTab s.eth.current).Own)
    (fits : x.Fits) : Holding ⟨(s.eth.dma x).1, s.pc⟩ front (l ++ [x]) ∧
      (s.eth.dma x).2 = [.stored x] ∧ (s.eth.dma x).1.r = true := by
  have inside : InRing ETH_RXBUFNB s.eth.current := by
    rw [holding.current]
    exact holding.holds.inRing_back
  have buffer := (holding.chained s.eth.current inside).1
  have short : x.bytes.length ≤ ETH_RX_BUF_SIZE := fits.2.1
  have stores : s.eth.dma x = ({ s.eth with
      dmaRxDscrTab := Function.update s.eth.dmaRxDscrTab s.eth.current
        { s.eth.dmaRxDscrTab s.eth.current with status := x.status }
      rxBuff := writeAt s.eth.rxBuff (s.eth.dmaRxDscrTab s.eth.current).buffer1Addr x.bytes
      r := true
      current := (s.eth.dmaRxDscrTab s.eth.current).buffer2NextDescAddr }, [.stored x]) := by
    simp only [EthRx.dma, own, if_true]
  rw [stores]
  refine ⟨?_, rfl, rfl⟩
  rw [(holding.chained s.eth.current inside).2]
  generalize made : ({ s.eth.dmaRxDscrTab s.eth.current with status := x.status } :
    EthDmaDesc) = d
  have here : Function.update s.eth.dmaRxDscrTab s.eth.current d s.eth.current = d :=
    Function.update_self _ _ _
  have elsewhere {c : Int} (other : c ≠ s.eth.current) :
      Function.update s.eth.dmaRxDscrTab s.eth.current d c = s.eth.dmaRxDscrTab c :=
    Function.update_of_ne other _ _
  have filled : ¬ d.Own := by
    rw [not_own_iff, ← made]
    exact fits.not_own
  have unfilled {c : Int} (marked : s.eth.Filled c) : c ≠ s.eth.current := by
    rintro rfl
    exact marked own
  have marks (c : Int) : ¬ (Function.update s.eth.dmaRxDscrTab s.eth.current d c).Own ↔
      s.eth.Filled c ∨ c = s.eth.current := by
    by_cases same : c = s.eth.current
    · subst same
      rw [here]
      exact iff_of_true filled (Or.inr rfl)
    · rw [elsewhere same]
      exact ⟨Or.inl, fun either => either.resolve_right same⟩
  -- where the frame is whole, the length in its status is that of its bytes
  have count (whole : WholeFrame d.status) :
      (ethGetDmaRxDescFrameLength d).toNat = x.bytes.length := by
    subst made
    exact (fits.2.2 whole).1
  exact
    { chained := holding.chained.update (by rw [← made]) (by rw [← made])
      bounded := by
        intro c ring marked whole
        by_cases same : c = s.eth.current
        · subst same
          simp only [here] at whole ⊢
          exact (count whole).trans_le short
        · simp only [elsewhere same] at whole ⊢
          exact holding.bounded c ring (((marks c).mp marked).resolve_right same) whole
      holds := by
        rw [List.map_append, List.map_singleton]
        apply holding.holds.put
        · have room := mt Int.natCast_inj.mp (holding.own_current_iff.mp own)
          have le := holding.holds.fits
          rw [List.length_map] at le ⊢
          exact lt_of_le_of_ne le room
        · intro c _
          rw [← holding.current]
          exact marks c
        · intro c ring marked
          have other := unfilled marked
          simp only [EthRx.item, elsewhere other, StoredFrame.visible_eq_iff, true_and]
          intro whole
          have apart := buffers_apart ETH_RX_BUF_SIZE ring inside other
          have small := holding.bounded c ring marked whole
          rw [readAt_writeAt_of_apart]
          rw [buffer, (holding.chained c ring).1]
          omega
        · rw [← holding.current]
          simp only [EthRx.item, here, StoredFrame.visible_eq_iff]
          refine ⟨by rw [← made], fun whole => ?_⟩
          rw [count whole, ← made]
          exact readAt_writeAt_self _ _ _
      fits := by
        intro y mem
        rcases List.mem_append.mp mem with old | new
        · exact holding.fits y old
        · rw [List.mem_singleton.mp new]
          exact fits
      current := by
        rw [holding.current, List.map_append, List.map_singleton]
        exact advance_back holding.holds.positive x.visible
      inHand := holding.inHand.append rfl x }

/-- All descriptors are filled: the frame is missed. -/
theorem miss (holding : Holding s front l) (own : ¬ (s.eth.dmaRxDscrTab s.eth.current).Own) :
    Holding ⟨(s.eth.dma x).1, s.pc⟩ front l ∧ (s.eth.dma x).2 = [.missed] ∧
      (s.eth.dma x).1.r = s.eth.r := by
  have misses : s.eth.dma x = ({ s.eth with rbus := true }, [.missed]) := by
    simp only [EthRx.dma, own, if_false]
  rw [misses]
  refine ⟨?_, rfl, rfl⟩
  refine ⟨holding.chained, holding.bounded, holding.holds, holding.fits, holding.current, ?_⟩
  have inHand := holding.inHand
  cases at_pc : s.pc <;> rw [at_pc] at inHand <;> exact inHand

/-- A step of the handler that changes no descriptor. -/
theorem pass (holding : Holding s front l) {e : EthRx} {pc : IrqAt}
    (table : e.dmaRxDscrTab = s.eth.dmaRxDscrTab) (buff : e.rxBuff = s.eth.rxBuff)
    (dma : e.current = s.eth.current) (inHand : InHand e front l pc) : Holding ⟨e, pc⟩ front l := by
  obtain ⟨tab, rxBuff, toGet, rbus, r, current⟩ := e
  subst table buff dma
  exact ⟨holding.chained, holding.bounded, holding.holds, holding.fits, holding.current, inHand⟩

/-- The size test sees a frame exactly where the first one stored is to be seen. -/
theorem size_iff (holding : Holding s front l) (get : s.eth.dmaRxDescToGet = front) :
    ethGetRxPktSize s.eth.toGet ≠ 0 ↔ ∃ x rest, l = x :: rest ∧ x.Seen := by
  have first : s.eth.toGet = s.eth.dmaRxDscrTab front := by rw [EthRx.toGet, get]
  have filled := holding.holds.front_iff
  unfold EthRx.Filled at filled
  rw [not_own_iff, ne_eq, List.map_eq_nil_iff] at filled
  rw [first]
  unfold ethGetRxPktSize
  constructor
  · intro size
    split at size
    next tests =>
      obtain ⟨x, rest, rfl⟩ := List.exists_cons_of_ne_nil (filled.mp tests.1)
      refine ⟨x, rest, rfl, ?_⟩
      rw [ethGetDmaRxDescFrameLength, holding.status_front] at size
      rw [holding.status_front] at tests
      exact ⟨tests.2.1, tests.2.2, fun zero => size (BitVec.eq_of_toNat_eq zero)⟩
    next => exact absurd rfl size
  · rintro ⟨x, rest, rfl, clear, last, length⟩
    have status := holding.status_front
    have tests : (s.eth.dmaRxDscrTab front).status &&& ETH_DMARxDesc_ES = 0 ∧
        (s.eth.dmaRxDscrTab front).status &&& ETH_DMARxDesc_LS ≠ 0 := by
      rw [status]
      exact ⟨clear, last⟩
    rw [if_pos ⟨filled.mpr (List.cons_ne_nil x rest), tests⟩, ethGetDmaRxDescFrameLength, status]
    exact fun zero => length (congrArg BitVec.toNat zero)

/-- `ETH_Rx_Packet` at the first frame. -/
theorem rxPacket (holding : Holding s front l) (pc : s.pc = .rxPacket) :
    Holding ⟨s.eth.ethRxPacket.2, .pbufAlloc s.eth.ethRxPacket.1⟩ front l := by
  have inHand := holding.inHand
  rw [pc] at inHand
  obtain ⟨get, x, rest, rfl, seen⟩ := inHand
  have status : s.eth.toGet.status = x.status := by
    rw [EthRx.toGet, get]
    exact holding.status_front
  have fits := holding.fits x List.mem_cons_self
  have own : ¬ s.eth.toGet.Own := by
    rw [not_own_iff, status]
    exact fits.not_own
  have chain := holding.chained front holding.holds.inside
  have moves : s.eth.ethRxPacket.2 =
      { s.eth with dmaRxDescToGet := advance ETH_RXBUFNB front } := by
    rw [EthRx.ethRxPacket, if_neg own, EthRx.toGet, get, chain.2]
  have descriptor : s.eth.ethRxPacket.1.descriptor = some front := by
    rw [EthRx.ethRxPacket, if_neg own, get]
  have grabbed : Grabbed s.eth.ethRxPacket.1 front x := by
    refine ⟨descriptor, ?_, ?_⟩ <;> rw [EthRx.ethRxPacket, if_neg own, status]
    · by_cases fs : x.status &&& ETH_DMARxDesc_FS ≠ 0
      · have whole : WholeFrame x.status := ⟨seen.1, seen.2.1, fs⟩
        obtain ⟨count, long⟩ := fits.2.2 whole
        have short : x.bytes.length ≤ 1524 := fits.2.1
        have four : (4 : BitVec 32).toNat = 4 := rfl
        rw [StoredFrame.frameLength] at count
        rw [if_pos ⟨seen.1, seen.2.1, fs⟩]
        simp only [StoredFrame.frame, if_pos fs, List.length_take, BitVec.toNat_setWidth,
          BitVec.toNat_sub, count]
        omega
      · rw [if_neg fun all => fs all.2.2, StoredFrame.frame, if_neg fs]
        rfl
    · intro some
      have fs : x.status &&& ETH_DMARxDesc_FS ≠ 0 := fun part => some (if_neg (not_not.mpr part))
      rw [if_pos ⟨seen.1, seen.2.1, fs⟩]
      show s.eth.toGet.buffer1Addr = front.toNat * ETH_RX_BUF_SIZE
      rw [EthRx.toGet, get, chain.1]
  exact
    { chained := by rw [moves]; exact holding.chained
      bounded := by rw [moves]; exact holding.bounded
      holds := by rw [moves]; exact holding.holds
      fits := holding.fits
      current := by rw [moves]; exact holding.current
      inHand := by
        refine ⟨?_, x, rest, rfl, seen, grabbed⟩
        rw [moves] }

/-- The bytes of the first frame are those in the buffer of its descriptor. -/
theorem frame_eq (holding : Holding s front (x :: l)) (seen : x.Seen) {frame : FrameTypeDef}
    (grabbed : Grabbed frame front x) :
    x.frame = readAt s.eth.rxBuff frame.buffer x.frame.length := by
  by_cases empty : x.frame = []
  · rw [empty]
    rfl
  · have fs : x.status &&& ETH_DMARxDesc_FS ≠ 0 := fun part => empty (if_neg (not_not.mpr part))
    have same : x.frame = x.bytes.take (x.bytes.length - 4) := if_pos fs
    have whole : WholeFrame x.status := ⟨seen.1, seen.2.1, fs⟩
    obtain ⟨n, long⟩ : ∃ n, x.bytes.length = n + 4 := by
      have := ((holding.fits x List.mem_cons_self).2.2 whole).2
      exact ⟨x.bytes.length - 4, by omega⟩
    have bytes := holding.bytes_front whole
    rw [← grabbed.buffer empty, long, readAt_add] at bytes
    have taken : x.frame = readAt s.eth.rxBuff frame.buffer n := by
      rw [same, long, Nat.add_sub_cancel, ← bytes]
      exact List.take_left' (length_readAt _ _ _)
    rw [taken, length_readAt]

/-- One pbuf more holds its part of the frame. -/
theorem copied (holding : Holding s front l) {frame : FrameTypeDef} {len : Nat}
    {lens : List Nat} {p : List UInt8} (pc : s.pc = .copy frame (len :: lens) p) :
    Holding ⟨s.eth, .copy frame lens
      (p ++ readAt s.eth.rxBuff (frame.buffer + p.length) len)⟩ front l := by
  have inHand := holding.inHand
  rw [pc] at inHand
  obtain ⟨get, x, rest, rfl, seen, grabbed, done, left⟩ := inHand
  rw [List.sum_cons] at left
  have all := holding.frame_eq seen grabbed
  have parts : x.frame = readAt s.eth.rxBuff frame.buffer p.length ++
      (readAt s.eth.rxBuff (frame.buffer + p.length) len ++
        readAt s.eth.rxBuff (frame.buffer + p.length + len) lens.sum) := by
    rw [← readAt_add, ← readAt_add, left]
    exact all
  have before : p = readAt s.eth.rxBuff frame.buffer p.length := by
    obtain ⟨more, whole⟩ := done
    rw [← whole] at parts
    exact List.append_inj_left parts (length_readAt _ _ _).symm
  refine holding.pass rfl rfl rfl ⟨get, x, rest, rfl, seen, grabbed, ?_, ?_⟩
  · rw [parts, ← before, ← List.append_assoc]
    exact List.prefix_append _ _
  · rw [List.length_append, length_readAt]
    omega

/-- The descriptor goes back to the DMA. -/
theorem release (holding : Holding s front l) {descriptor : Option Int}
    {p : Option (List UInt8)} (pc : s.pc = .release descriptor p) :
    ∃ x rest, l = x :: rest ∧ x.Seen ∧ p = x.outcome p.isSome ∧ descriptor = some front ∧
      Holding ⟨s.eth.giveBack front, .resume p⟩ (advance ETH_RXBUFNB front) rest := by
  have inHand := holding.inHand
  rw [pc] at inHand
  obtain ⟨get, x, rest, rfl, seen, rfl, outcome⟩ := inHand
  refine ⟨x, rest, rfl, seen, outcome, rfl, ?_⟩
  generalize made : ({ s.eth.dmaRxDscrTab front with status := ETH_DMADesc_OWN } :
    EthDmaDesc) = d
  have gives : s.eth.giveBack front =
      { s.eth with dmaRxDscrTab := Function.update s.eth.dmaRxDscrTab front d } := by
    rw [← made]
    rfl
  have own : d.Own := by
    rw [← made]
    show ETH_DMADesc_OWN &&& ETH_DMADesc_OWN ≠ 0
    decide
  have marks (c : Int) : ¬ (Function.update s.eth.dmaRxDscrTab front d c).Own ↔
      s.eth.Filled c ∧ c ≠ front := by
    by_cases same : c = front
    · subst same
      rw [Function.update_self]
      exact iff_of_false (not_not.mpr own) fun both => both.2 rfl
    · rw [Function.update_of_ne same]
      exact ⟨fun filled => ⟨filled, same⟩, And.left⟩
  rw [gives]
  exact
    { chained := holding.chained.update (by rw [← made]) (by rw [← made])
      bounded := by
        intro c ring marked whole
        obtain ⟨filled, other⟩ := (marks c).mp marked
        simp only [Function.update_of_ne other] at whole ⊢
        exact holding.bounded c ring filled whole
      holds := by
        apply holding.holds.take
        · exact fun c _ => marks c
        · intro c _ marked
          have other := ((marks c).mp marked).2
          simp only [EthRx.item, Function.update_of_ne other]
      fits := fun y mem => holding.fits y (List.mem_cons_of_mem x mem)
      current := holding.current.trans (back_tail holding.holds.inside x.visible).symm
      inHand := get }

end Holding

/-! ## Runs -/

def RxEvent.stored? : RxEvent → Option StoredFrame
  | .stored x => some x
  | _ => none

def RxEvent.allocated? : RxEvent → Option Bool
  | .allocated given => some given
  | _ => none

def RxEvent.handled? : RxEvent → Option (Option (List UInt8))
  | .handled p => some p
  | _ => none

/-- What the DMA stored. -/
def storedItems (es : List RxEvent) : List StoredFrame := es.filterMap RxEvent.stored?

/-- Whether there were pbufs, call by call of `pbuf_alloc`. -/
def answers (es : List RxEvent) : List Bool := es.filterMap RxEvent.allocated?

/-- What became of the frames, one by one. -/
def outcomes (es : List RxEvent) : List (Option (List UInt8)) := es.filterMap RxEvent.handled?

@[simp] theorem storedItems_append (es es' : List RxEvent) :
    storedItems (es ++ es') = storedItems es ++ storedItems es' := List.filterMap_append

@[simp] theorem answers_append (es es' : List RxEvent) :
    answers (es ++ es') = answers es ++ answers es' := List.filterMap_append

@[simp] theorem outcomes_append (es es' : List RxEvent) :
    outcomes (es ++ es') = outcomes es ++ outcomes es' := List.filterMap_append

/-- The answer of `pbuf_alloc` for a frame that has not been given back. -/
def IrqAt.answer : IrqAt → List Bool
  | .copy _ _ _ => [true]
  | .release _ p => [p.isSome]
  | _ => []

/-- The frame that the handler has given back and not yet handed up. -/
def IrqAt.hand : IrqAt → List (Option (List UInt8))
  | .resume p => [p]
  | .input p => [p]
  | _ => []

/-- Between the last look at the descriptor and the clearing of the interrupt. -/
def RxEvent.look (looking : Bool) : RxEvent → Bool
  | .sawNone => true
  | .cleared => false
  | _ => looking

def looking (es : List RxEvent) : Bool := es.foldl RxEvent.look false

theorem looking_concat (es : List RxEvent) (e : RxEvent) :
    looking (es ++ [e]) = RxEvent.look (looking es) e := by
  simp [looking]

/-- No frame is stored between the last look and the clearing. -/
def Punctual (es : List RxEvent) : Prop :=
  Along (fun past e => e.stored?.isSome → looking past = false) [] es

def RxAction.Fits : RxAction → Prop
  | .dma x => x.Fits
  | _ => True

/-- What has been stored: what is done with, with the answer of `pbuf_alloc`, and what is still in
the descriptors. -/
structure Progress (s : EthInput) (es : List RxEvent) (front : Int)
    (done : List (Bool × StoredFrame)) (l : List StoredFrame) : Prop where
  holding : Holding s front l
  split : storedItems es = done.map Prod.snd ++ l
  answered : answers es = done.map Prod.fst ++ s.pc.answer
  outcome : outcomes es ++ s.pc.hand = done.map fun d => d.2.outcome d.1
  seen : ∀ d ∈ done, d.2.Seen
  looks : s.pc = .clearIt → looking es = true
  looked : Punctual es → s.pc = .clearIt ∨ s.pc = .outside ∧ s.eth.r = false →
    ∀ x ∈ l.head?, ¬ x.Seen

namespace Progress

variable {s s' : EthInput} {es es' : List RxEvent} {front : Int}
  {done : List (Bool × StoredFrame)} {l : List StoredFrame}

/-- A step that stores no frame and gives none back. -/
theorem unmoved (progress : Progress s es front done l) (holding : Holding s' front l)
    (stored : storedItems es' = []) (answered : s.pc.answer ++ answers es' = s'.pc.answer)
    (handled : outcomes es' ++ s'.pc.hand = s.pc.hand)
    (looks : s'.pc = .clearIt → looking (es ++ es') = true)
    (looked : Punctual (es ++ es') → s'.pc = .clearIt ∨ s'.pc = .outside ∧ s'.eth.r = false →
      ∀ x ∈ l.head?, ¬ x.Seen) :
    Progress s' (es ++ es') front done l where
  holding := holding
  split := by rw [storedItems_append, progress.split, stored, List.append_nil]
  answered := by rw [answers_append, progress.answered, List.append_assoc, answered]
  outcome := by rw [outcomes_append, List.append_assoc, handled, progress.outcome]
  seen := progress.seen
  looks := looks
  looked := looked

/-- After such a step the handler is at work. -/
theorem at_work (progress : Progress s es front done l) (holding : Holding s' front l)
    (stored : storedItems es' = []) (answered : s.pc.answer ++ answers es' = s'.pc.answer)
    (handled : outcomes es' ++ s'.pc.hand = s.pc.hand)
    (before : s'.pc ≠ .clearIt) (called : s'.pc ≠ .outside) :
    Progress s' (es ++ es') front done l := by
  apply progress.unmoved holding stored answered handled
  · intro clear
    exact absurd clear before
  · rintro - (clear | ⟨out, -⟩)
    · exact absurd clear before
    · exact absurd out called

theorem dma (progress : Progress s es front done l) {x : StoredFrame} (fits : x.Fits) :
    ∃ l', Progress ⟨(s.eth.dma x).1, s.pc⟩ (es ++ (s.eth.dma x).2) front done l' := by
  by_cases own : (s.eth.dmaRxDscrTab s.eth.current).Own
  · obtain ⟨holding, stored, raised⟩ := progress.holding.store own fits
    refine ⟨l ++ [x], ?_⟩
    rw [stored]
    exact
      { holding := holding
        split := by
          rw [storedItems_append, progress.split, List.append_assoc]
          rfl
        answered := by
          rw [answers_append, progress.answered]
          exact List.append_nil _
        outcome := by
          rw [outcomes_append, List.append_assoc]
          exact progress.outcome
        seen := progress.seen
        looks := by
          intro clear
          have looks := progress.looks clear
          simpa [looking_concat, RxEvent.look] using looks
        looked := by
          intro punctual either
          rcases either with clear | ⟨-, low⟩
          · have late := (along_append es _).mp punctual
            have now := late.2.1 rfl
            rw [List.nil_append, progress.looks clear] at now
            cases now
          · rw [raised] at low
            cases low }
  · obtain ⟨holding, missed, kept⟩ := progress.holding.miss (x := x) own
    refine ⟨l, ?_⟩
    rw [missed]
    apply progress.unmoved holding rfl (List.append_nil _) rfl
    · intro clear
      have looks := progress.looks clear
      simpa [looking_concat, RxEvent.look] using looks
    · intro punctual either
      rw [kept] at either
      exact progress.looked ((along_append es _).mp punctual).1 either

/-- The descriptor goes back to the DMA, and the frame is done with. -/
theorem release {e : EthRx} {descriptor : Option Int} {p : Option (List UInt8)}
    (progress : Progress ⟨e, .release descriptor p⟩ es front done l)
    (stepped : EthInput.cpu ⟨e, .release descriptor p⟩ = some (s', es')) :
    ∃ front' done' l', Progress s' (es ++ es') front' done' l' := by
  obtain ⟨x, rest, rfl, seen, comes, rfl, given⟩ := progress.holding.release rfl
  cases stepped
  refine ⟨advance ETH_RXBUFNB front, done ++ [(p.isSome, x)], rest, ?_⟩
  rw [List.append_nil]
  exact
    { holding := given
      split := by
        rw [progress.split]
        simp
      answered := by
        rw [progress.answered]
        simp [IrqAt.answer]
      outcome := by
        have outcome := progress.outcome
        simp only [IrqAt.hand, List.append_nil] at outcome
        rw [outcome, List.map_append, List.map_singleton, ← comes]
        rfl
      seen := by
        intro y mem
        rcases List.mem_append.mp mem with old | new
        · exact progress.seen y old
        · rw [List.mem_singleton.mp new]
          exact seen
      looks := fun clear => by cases clear
      looked := fun _ either => by
        rcases either with clear | ⟨out, -⟩
        · cases clear
        · cases out }

theorem cpu (progress : Progress s es front done l) (stepped : s.cpu = some (s', es')) :
    ∃ front' done' l', Progress s' (es ++ es') front' done' l' := by
  obtain ⟨e, pc⟩ := s
  have holding := progress.holding
  cases pc with
  | outside => cases stepped
  | sizeTest =>
      have sees := holding.size_iff holding.inHand
      simp only [EthInput.cpu] at stepped
      split at stepped
      next size =>
        cases stepped
        refine ⟨front, done, l, progress.at_work ?_ rfl rfl rfl nofun nofun⟩
        exact holding.pass rfl rfl rfl ⟨holding.inHand, sees.mp size⟩
      next size =>
        cases stepped
        refine ⟨front, done, l, progress.unmoved (holding.pass rfl rfl rfl holding.inHand)
          rfl rfl rfl (fun _ => by simp [looking_concat, RxEvent.look]) ?_⟩
        intro _ _ x first seen
        obtain ⟨rest, rfl⟩ := List.head?_eq_some_iff.mp first
        exact size (sees.mpr ⟨x, rest, rfl, seen⟩)
  | rxPacket =>
      cases stepped
      exact ⟨front, done, l, progress.at_work (holding.rxPacket rfl) rfl rfl rfl nofun nofun⟩
  | pbufAlloc frame => cases stepped
  | copy frame lens p =>
      cases lens with
      | nil =>
          cases stepped
          obtain ⟨get, x, rest, first, seen, grabbed, copied, left⟩ := holding.inHand
          have whole : p = x.frame := copied.eq_of_length (by simpa using left)
          refine ⟨front, done, l, progress.at_work ?_ rfl rfl rfl nofun nofun⟩
          exact holding.pass rfl rfl rfl
            ⟨get, x, rest, first, seen, grabbed.descriptor, congrArg some whole⟩
      | cons len lens =>
          cases stepped
          exact ⟨front, done, l, progress.at_work (holding.copied rfl) rfl rfl rfl nofun nofun⟩
  | release descriptor p => exact progress.release stepped
  | resume p =>
      cases stepped
      refine ⟨front, done, l, progress.at_work ?_ rfl rfl rfl nofun nofun⟩
      by_cases unavailable : e.rbus = true
      · simp only [unavailable, if_true]
        exact holding.pass rfl rfl rfl holding.inHand
      · simp only [unavailable]
        exact holding.pass rfl rfl rfl holding.inHand
  | input p =>
      cases stepped
      exact ⟨front, done, l, progress.at_work (holding.pass rfl rfl rfl holding.inHand)
        rfl rfl rfl nofun nofun⟩
  | clearIt =>
      cases stepped
      refine ⟨front, done, l, progress.unmoved (holding.pass rfl rfl rfl holding.inHand)
        rfl rfl rfl nofun ?_⟩
      intro punctual _
      exact progress.looked ((along_append es _).mp punctual).1 (Or.inl rfl)

/-- `pbuf_alloc` comes back. -/
theorem pbufAlloc {e : EthRx} {frame : FrameTypeDef} {lens : Option (List Nat)}
    (progress : Progress ⟨e, .pbufAlloc frame⟩ es front done l)
    (stepped : EthInput.step ⟨e, .pbufAlloc frame⟩ (.pbufAlloc lens) = some (s', es')) :
    Progress s' (es ++ es') front done l := by
  have holding := progress.holding
  obtain ⟨get, x, rest, first, seen, grabbed⟩ := holding.inHand
  cases lens with
  | none =>
      cases stepped
      refine progress.at_work ?_ rfl rfl rfl nofun nofun
      exact holding.pass rfl rfl rfl ⟨get, x, rest, first, seen, grabbed.descriptor, rfl⟩
  | some ns =>
      obtain ⟨sum, entered⟩ := Option.ite_none_right_eq_some.mp stepped
      cases entered
      refine progress.at_work ?_ rfl rfl rfl nofun nofun
      refine holding.pass rfl rfl rfl ⟨get, x, rest, first, seen, grabbed, List.nil_prefix, ?_⟩
      rw [List.length_nil, Nat.zero_add, sum, grabbed.length]

theorem step {a : RxAction} (progress : Progress s es front done l) (fits : a.Fits)
    (stepped : s.step a = some (s', es')) :
    ∃ front' done' l', Progress s' (es ++ es') front' done' l' := by
  cases a with
  | dma x =>
      cases stepped
      obtain ⟨l', after⟩ := progress.dma fits
      exact ⟨front, done, l', after⟩
  | irq =>
      obtain ⟨⟨out, -⟩, entered⟩ := Option.ite_none_right_eq_some.mp stepped
      cases entered
      have holding := progress.holding
      have inHand := holding.inHand
      rw [out] at inHand
      refine ⟨front, done, l, progress.at_work (holding.pass rfl rfl rfl inHand) rfl ?_ ?_
        nofun nofun⟩
      · rw [out]
        rfl
      · rw [out]
        rfl
  | cpu => exact progress.cpu stepped
  | pbufAlloc lens =>
      obtain ⟨e, pc⟩ := s
      cases pc with
      | pbufAlloc frame => exact ⟨front, done, l, progress.pbufAlloc stepped⟩
      | _ => cases stepped

end Progress

theorem progress_lowLevelInitRx (tab : DscrTab) (rxBuff : Nat → UInt8) :
    Progress (lowLevelInitRx tab rxBuff) [] 0 [] [] := by
  have first : InRing ETH_RXBUFNB 0 := ⟨le_refl 0, by decide⟩
  have none (c : Int) (inside : InRing ETH_RXBUFNB c) :
      ¬ (lowLevelInitRx tab rxBuff).eth.Filled c := by
    obtain ⟨i, within, rfl⟩ := exists_index inside
    simp only [lowLevelInitRx, EthRx.Filled, ethDmaRxDescChainInit, forEach_apply within, not_not]
    show ETH_DMADesc_OWN &&& ETH_DMADesc_OWN ≠ 0
    decide
  exact
    { holding :=
        { chained := chained_forEach tab fun _ _ => ⟨rfl, rfl⟩
          bounded := fun c inside filled => absurd filled (none c inside)
          holds := Holds.nil first none
          fits := by simp
          current := rfl
          inHand := rfl }
      split := rfl
      answered := rfl
      outcome := rfl
      seen := by simp
      looks := fun clear => by cases clear
      looked := by simp }

section Runs

variable {tab : DscrTab} {rxBuff : Nat → UInt8} {acts : List RxAction} {s : EthInput}
  {es : List RxEvent}

theorem progress_run (fits : ∀ a ∈ acts, a.Fits)
    (ran : runPartial (shown EthInput.step) (lowLevelInitRx tab rxBuff, []) acts = some (s, es)) :
    ∃ front done l, Progress s es front done l := by
  have kept (s : EthInput) (es : List RxEvent) (a : RxAction) (s' : EthInput) (es' : List RxEvent)
      (before : ∃ front done l, Progress s es front done l) (fit : a.Fits)
      (stepped : s.step a = some (s', es')) :
      ∃ front done l, Progress s' (es ++ es') front done l := by
    obtain ⟨front, done, l, progress⟩ := before
    exact progress.step fit stepped
  exact shown_invariant kept fits ⟨0, [], [], progress_lowLevelInitRx tab rxBuff⟩ ran

/-- At most one frame is in the hand of the handler. -/
theorem IrqAt.answer_hand_le (pc : IrqAt) : pc.answer.length + pc.hand.length ≤ 1 := by
  cases pc <;> simp [answer, hand]

/-- Frames of three bytes and of two, with their CRCs. -/
def threeBytes : StoredFrame := ⟨0x00070300, [1, 2, 3, 0xAA, 0xBB, 0xCC, 0xDD]⟩
def twoBytes : StoredFrame := ⟨0x00060300, [4, 5, 0xAA, 0xBB, 0xCC, 0xDD]⟩

/-- The receive side with nothing in its memory. -/
def quiet : EthInput := lowLevelInitRx (fun _ => ⟨0, 0, 0, 0⟩) (fun _ => 0)

/-- A frame is stored and handed up in two pbufs; another one, stored in the meantime, is dropped
for want of pbufs. -/
def storeAndServe : List RxAction :=
  [.dma threeBytes, .irq, .cpu, .cpu, .pbufAlloc (some [2, 1]), .cpu, .dma twoBytes] ++
    List.replicate 7 .cpu ++ [.pbufAlloc none] ++ List.replicate 5 .cpu

theorem storeAndServe_fits : ∀ a ∈ storeAndServe, a.Fits := by
  simp [storeAndServe, RxAction.Fits, StoredFrame.Fits, StoredFrame.frameLength, threeBytes,
    twoBytes, ETH_RX_BUF_SIZE, ETH_DMARxDesc_FL]

theorem storeAndServe_runs : ∃ s, runPartial (shown EthInput.step) (quiet, []) storeAndServe =
    some (s, [.stored threeBytes, .allocated true, .stored twoBytes, .handled (some [1, 2, 3]),
      .allocated false, .handled none, .sawNone, .cleared]) ∧
      s.pc = .outside ∧ s.eth.r = false := by
  have all : (runPartial (shown EthInput.step) (quiet, []) storeAndServe).map
        (fun t => (t.1.pc, t.1.eth.r, t.2)) =
      some (.outside, false, [.stored threeBytes, .allocated true, .stored twoBytes,
        .handled (some [1, 2, 3]), .allocated false, .handled none, .sawNone, .cleared]) := by
    decide +kernel
  obtain ⟨⟨s, es⟩, ran, same⟩ := Option.map_eq_some_iff.mp all
  obtain ⟨out, rest⟩ := Prod.mk.inj same
  obtain ⟨low, rfl⟩ := Prod.mk.inj rest
  exact ⟨s, ran, out, low⟩

/-- The frames that the DMA stores are taken up in the order in which they came, each at most once;
one is handed up with the bytes it came with where `pbuf_alloc` gives pbufs for it, and dropped
where it comes back with null.  At most five frames wait, and one is in the hand of the handler.  No frame is
taken up that has an error or does not end in its descriptor. -/
theorem receive_in_order (fits : ∀ a ∈ acts, a.Fits)
    (ran : runPartial (shown EthInput.step) (lowLevelInitRx tab rxBuff, []) acts = some (s, es)) :
    ∃ (done : List (Bool × StoredFrame)) (rest : List StoredFrame) (answer : List Bool)
      (hand : List (Option (List UInt8))),
      storedItems es = done.map Prod.snd ++ rest ∧ rest.length ≤ ETH_RXBUFNB ∧
        answers es = done.map Prod.fst ++ answer ∧
        (outcomes es ++ hand = done.map fun d => d.2.outcome d.1) ∧
        answer.length + hand.length ≤ 1 ∧ ∀ d ∈ done, d.2.Seen := by
  obtain ⟨front, done, l, progress⟩ := progress_run fits ran
  exact ⟨done, l, s.pc.answer, s.pc.hand, progress.split, progress.holding.length_le,
    progress.answered, progress.outcome, s.pc.answer_hand_le, progress.seen⟩

theorem receive_in_order_two : ∃ s es,
    runPartial (shown EthInput.step) (quiet, []) storeAndServe = some (s, es) ∧
    outcomes es = [some [1, 2, 3], none] ∧
    ∃ (done : List (Bool × StoredFrame)) (rest : List StoredFrame) (answer : List Bool)
      (hand : List (Option (List UInt8))),
      storedItems es = done.map Prod.snd ++ rest ∧ rest.length ≤ ETH_RXBUFNB ∧
        answers es = done.map Prod.fst ++ answer ∧
        (outcomes es ++ hand = done.map fun d => d.2.outcome d.1) ∧
        answer.length + hand.length ≤ 1 ∧ ∀ d ∈ done, d.2.Seen := by
  obtain ⟨s, ran, -⟩ := storeAndServe_runs
  exact ⟨s, _, ran, rfl, receive_in_order storeAndServe_fits ran⟩

/-- A frame with an error, or one that does not end in its descriptor, is the end of reception:
no later frame is ever handed up, and after four more the DMA has no descriptor left. -/
theorem receive_stuck (fits : ∀ a ∈ acts, a.Fits)
    (ran : runPartial (shown EthInput.step) (lowLevelInitRx tab rxBuff, []) acts = some (s, es))
    {before after : List StoredFrame} {x : StoredFrame} (unseen : ¬ x.Seen)
    (split : storedItems es = before ++ x :: after) :
    (outcomes es).length ≤ before.length ∧ after.length < ETH_RXBUFNB := by
  obtain ⟨front, done, l, progress⟩ := progress_run fits ran
  have same : done.map Prod.snd ++ l = before ++ x :: after := progress.split.symm.trans split
  have le : (done.map Prod.snd).length ≤ before.length := by
    by_contra longer
    rw [List.append_eq_append_iff] at same
    rcases same with ⟨more, rfl, -⟩ | ⟨more, taken, rest⟩
    · exact longer (by simp)
    · cases more with
      | nil => exact longer (by simp [taken])
      | cons y more =>
          obtain ⟨rfl, -⟩ := List.cons.inj rest
          obtain ⟨d, mem, rfl⟩ := List.mem_map.mp (taken ▸ by simp : x ∈ done.map Prod.snd)
          exact unseen (progress.seen d mem)
  have lengths := congrArg List.length same
  have handled := congrArg List.length progress.outcome
  have fits := progress.holding.length_le
  simp only [List.length_append, List.length_cons, List.length_map] at lengths handled le
  omega

/-- The first part of a frame that goes into two descriptors, and the last. -/
def firstPart : StoredFrame := ⟨0x00000200, List.replicate 1524 7⟩
def lastPart : StoredFrame := ⟨0x05F80100, [7, 7, 7, 7]⟩

/-- A frame is handed up, then one comes in two parts, and another one; the handler runs and finds
nothing. -/
def stuckRun : List RxAction :=
  [.dma threeBytes, .irq, .cpu, .cpu, .pbufAlloc (some [3])] ++ List.replicate 7 .cpu ++
    [.dma firstPart, .dma lastPart, .dma threeBytes, .irq, .cpu, .cpu]

theorem receive_stuck_two : ∃ s es, runPartial (shown EthInput.step) (quiet, []) stuckRun =
      some (s, es) ∧ s.pc = .outside ∧
    storedItems es = [threeBytes] ++ firstPart :: [lastPart, threeBytes] ∧
      (outcomes es).length ≤ [threeBytes].length ∧ [lastPart, threeBytes].length < ETH_RXBUFNB := by
  have all : (runPartial (shown EthInput.step) (quiet, []) stuckRun).map
      (fun t => (t.1.pc, storedItems t.2)) =
        some (.outside, [threeBytes] ++ firstPart :: [lastPart, threeBytes]) := by decide +kernel
  obtain ⟨⟨s, es⟩, ran, fields⟩ := Option.map_eq_some_iff.mp all
  obtain ⟨out, split⟩ := Prod.mk.inj fields
  have first : firstPart.Fits :=
    ⟨by decide, (List.length_replicate ..).le, fun whole => absurd whole (by decide)⟩
  have last : lastPart.Fits := ⟨by decide, by decide, fun whole => absurd whole (by decide)⟩
  have whole : threeBytes.Fits := storeAndServe_fits (.dma threeBytes) List.mem_cons_self
  have fits : ∀ a ∈ stuckRun, a.Fits := by
    simp [stuckRun, -List.reduceReplicate, RxAction.Fits, first, last, whole]
  exact ⟨s, es, ran, out, split, receive_stuck fits ran (by decide) split⟩

/-- With the interrupt not raised and not being served, every frame has been handed up or dropped,
by the answer of `pbuf_alloc`, if all were whole and without an error and none was stored between
the last look of a handler and its clearing of the interrupt. -/
theorem receive_interrupts (fits : ∀ a ∈ acts, a.Fits)
    (ran : runPartial (shown EthInput.step) (lowLevelInitRx tab rxBuff, []) acts = some (s, es))
    (out : s.pc = .outside) (low : s.eth.r = false)
    (whole : ∀ x ∈ storedItems es, WholeFrame x.status) (punctual : Punctual es) :
    ∃ done : List (Bool × StoredFrame), storedItems es = done.map Prod.snd ∧
      answers es = done.map Prod.fst ∧ outcomes es = done.map fun d => d.2.outcome d.1 := by
  obtain ⟨front, done, l, progress⟩ := progress_run fits ran
  have split := progress.split
  have none : l = [] := by
    cases l with
    | nil => rfl
    | cons x rest =>
        have unseen := progress.looked punctual (Or.inr ⟨out, low⟩) x rfl
        have last := whole x (by rw [split]; simp)
        exact absurd ((progress.holding.fits x List.mem_cons_self).seen last) unseen
  have answered := progress.answered
  have outcome := progress.outcome
  rw [out] at answered outcome
  rw [none] at split
  exact ⟨done, by simpa using split, by simpa [IrqAt.answer] using answered,
    by simpa [IrqAt.hand] using outcome⟩

theorem receive_interrupts_two : ∃ s es,
    runPartial (shown EthInput.step) (quiet, []) storeAndServe = some (s, es) ∧
    ∃ done : List (Bool × StoredFrame), storedItems es = done.map Prod.snd ∧
      answers es = done.map Prod.fst ∧ outcomes es = done.map fun d => d.2.outcome d.1 := by
  obtain ⟨s, ran, out, low⟩ := storeAndServe_runs
  refine ⟨s, _, ran, receive_interrupts storeAndServe_fits ran out low ?_ ?_⟩
  · decide
  · simp [Punctual, Along, RxEvent.stored?, looking, RxEvent.look]

end Runs

end Stm32Robot.Net
