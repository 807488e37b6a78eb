/-
# Net.EthernetOutbox -- the driver and the DMA carry out the outbox

`Carries s o` relates the descriptors to the frames that wait: those the DMA owns hold them, from
the one the DMA is at on, and a call has filled in so much of the next one.  Each statement of
the driver and each step of the DMA keeps it.

`transmit_refines` says that every run of the driver and the DMA is one of the outbox,
`transmit_in_order` that frames handed over while there is room leave whole and in order, and
`transmit_drains` that between two calls nothing is left that the DMA does not send.
-/
import Stm32Robot.Net.EthernetTransmit

namespace Stm32Robot.Net

open Stm32Robot.Theory.ByteStore
open Stm32Robot.Theory.RingAddress
open Stm32Robot.Theory.OwnedRing
open Stm32Robot.Theory.PartialRun
open Stm32Robot.Theory.EventRun

set_option autoImplicit false

/-! ## The relation -/

/-- A frame as the DMA is to send it. -/
def whole (frame : List UInt8) : Segment := ⟨true, true, frame⟩

namespace EthTx

/-- The descriptors of the DMA. -/
def Owned (e : EthTx) (c : Int) : Prop := (e.dmaTxDscrTab c).Own

/-- The first `l` bytes of the frame lie in the buffer of the next descriptor. -/
def Copied (e : EthTx) (frame : List UInt8) (l : Nat) : Prop :=
  frame.length ≤ ETH_TX_BUF_SIZE ∧ readAt e.txBuff e.toSet.buffer1Addr l = frame.take l

/-- What a call has done with the frame it was offered. -/
def Filling (e : EthTx) (offered : Option (List UInt8 × Nat)) : OutputAt → Prop
  | .idle | .resume | .moveOn => offered = none
  | .copy buffer l q =>
      buffer = e.toSet.buffer1Addr ∧ ∃ frame, offered = some (frame, l) ∧ e.Copied frame l ∧
        l ≤ frame.length ∧ frame.drop l = q.flatMap Pbuf.payload
  | .ownTest n | .setLength n =>
      ∃ frame, offered = some (frame, frame.length) ∧ e.Copied frame frame.length ∧
        n = BitVec.ofNat 16 frame.length
  | .setSegments =>
      ∃ frame, offered = some (frame, frame.length) ∧ e.Copied frame frame.length ∧
        e.toSet.count = frame.length
  | .setOwn =>
      ∃ frame, offered = some (frame, frame.length) ∧ e.Copied frame frame.length ∧
        e.toSet.count = frame.length ∧ e.toSet.Whole

end EthTx

/-- The call has seen that the descriptor is its own. -/
def OutputAt.Tested : OutputAt → Prop
  | .setLength _ | .setSegments | .setOwn => True
  | _ => False

/-- The descriptor of the next call. -/
def EthOutput.next (s : EthOutput) : Int :=
  match s.pc with
  | .resume | .moveOn => advance ETH_TXBUFNB s.eth.dmaTxDescToSet
  | _ => s.eth.dmaTxDescToSet

structure Carries (s : EthOutput) (o : Outbox) : Prop where
  chained : Chained ETH_TX_BUF_SIZE ETH_TXBUFNB s.eth.dmaTxDscrTab
  bounded : ∀ c, InRing ETH_TXBUFNB c → s.eth.Owned c →
    (s.eth.dmaTxDscrTab c).count ≤ ETH_TX_BUF_SIZE
  inside : InRing ETH_TXBUFNB s.eth.dmaTxDescToSet
  holds : Holds s.eth.Owned s.eth.segment ETH_TXBUFNB s.eth.current (o.waiting.map whole)
  next : s.next = back ETH_TXBUFNB s.eth.current (o.waiting.map whole)
  filling : s.eth.Filling o.offered s.pc
  room : s.pc.Tested → ¬ o.Full
  wakes : s.eth.suspended = true → s.eth.tbus = true ∧ (o.waiting = [] ∨ s.pc = .resume)

/-! ## Changes of one descriptor and of one buffer -/

namespace EthTx

variable {e : EthTx} {d : EthDmaDesc} {l : List Segment} {front : Int}

/-- A descriptor of the driver is changed and stays the driver's. -/
theorem holds_set (holds : Holds e.Owned e.segment ETH_TXBUFNB front l) (own : ¬ e.toSet.Own)
    (still : ¬ d.Own) : Holds (e.set d).Owned (e.set d).segment ETH_TXBUFNB front l := by
  have other {c : Int} (marked : e.Owned c) : c ≠ e.dmaTxDescToSet := by
    rintro rfl
    exact own marked
  apply holds.congr
  · intro c _
    by_cases same : c = e.dmaTxDescToSet
    · subst same
      simp only [Owned, set, Function.update_self]
      exact iff_of_false still own
    · simp only [Owned, set, Function.update_of_ne same]
  · intro c _ marked
    simp only [segment, set, Function.update_of_ne (other marked)]

/-- The bytes of a descriptor do not change where another buffer is written. -/
theorem segment_write (chained : Chained ETH_TX_BUF_SIZE ETH_TXBUFNB e.dmaTxDscrTab) {b c : Int}
    (b_inside : InRing ETH_TXBUFNB b) (c_inside : InRing ETH_TXBUFNB c) (other : c ≠ b)
    (bounded : (e.dmaTxDscrTab c).count ≤ ETH_TX_BUF_SIZE) {l : Nat} {bytes : List UInt8}
    (short : l + bytes.length ≤ ETH_TX_BUF_SIZE) :
    { e with txBuff := writeAt e.txBuff ((e.dmaTxDscrTab b).buffer1Addr + l) bytes }.segment c =
      e.segment c := by
  have apart := buffers_apart ETH_TX_BUF_SIZE c_inside b_inside other
  have kept : readAt (writeAt e.txBuff ((e.dmaTxDscrTab b).buffer1Addr + l) bytes)
      (e.dmaTxDscrTab c).buffer1Addr (e.dmaTxDscrTab c).count =
        readAt e.txBuff (e.dmaTxDscrTab c).buffer1Addr (e.dmaTxDscrTab c).count := by
    apply readAt_writeAt_of_apart
    rw [(chained b b_inside).1, (chained c c_inside).1]
    omega
  simp only [segment_eq, kept]

/-- The frame that waits at a descriptor is written over. -/
theorem segment_overlay {c : Int} {g : List UInt8} (waits : e.segment c = whole g) (l : Nat)
    (bytes : List UInt8) :
    { e with txBuff := writeAt e.txBuff ((e.dmaTxDscrTab c).buffer1Addr + l) bytes }.segment c =
      whole (overlay l bytes g) := by
  rw [segment_eq, whole, Segment.mk.injEq] at waits ⊢
  obtain ⟨first, last, read⟩ := waits
  refine ⟨first, last, ?_⟩
  rw [readAt_writeAt, read]

/-- More of a frame is copied. -/
theorem Copied.write {frame bytes rest : List UInt8} {l : Nat} (copied : e.Copied frame l)
    (left : frame.drop l = bytes ++ rest) :
    EthTx.Copied { e with txBuff := writeAt e.txBuff (e.toSet.buffer1Addr + l) bytes } frame
      (l + bytes.length) := by
  refine ⟨copied.1, ?_⟩
  have before : readAt (writeAt e.txBuff (e.toSet.buffer1Addr + l) bytes) e.toSet.buffer1Addr l =
      readAt e.txBuff e.toSet.buffer1Addr l := readAt_writeAt_of_apart (Or.inl (le_refl _))
  show readAt (writeAt e.txBuff (e.toSet.buffer1Addr + l) bytes) e.toSet.buffer1Addr
    (l + bytes.length) = _
  rw [readAt_add, before, copied.2, readAt_writeAt_self, List.take_add, left, List.take_left]

/-- One pbuf more of the frame that the call was offered. -/
theorem Filling.copy {offered : Option (List UInt8 × Nat)} {buffer l : Nat} {q : Pbuf}
    {qs : List Pbuf} (filling : e.Filling offered (.copy buffer l (q :: qs))) :
    buffer = e.toSet.buffer1Addr ∧ ∃ frame, offered = some (frame, l) ∧
      l + q.payload.length ≤ frame.length ∧ frame.length ≤ ETH_TX_BUF_SIZE ∧
      (frame.drop l).take q.payload.length = q.payload ∧
      EthTx.Filling { e with txBuff := writeAt e.txBuff (buffer + l) q.payload }
        (some (frame, l + q.payload.length)) (.copy buffer (l + q.payload.length) qs) := by
  obtain ⟨rfl, frame, rfl, copied, le, left⟩ := filling
  rw [List.flatMap_cons] at left
  have long : l + q.payload.length ≤ frame.length := by
    have lengths := congrArg List.length left
    rw [List.length_drop, List.length_append] at lengths
    omega
  refine ⟨rfl, frame, rfl, long, copied.1, by rw [left, List.take_left], ?_⟩
  refine ⟨rfl, frame, rfl, copied.write left, long, ?_⟩
  rw [← List.drop_drop, left, List.drop_left]

end EthTx

namespace Carries

variable {s s' : EthOutput} {o : Outbox} {es : List TxEvent}

theorem waiting_le (carries : Carries s o) : o.waiting.length ≤ ETH_TXBUFNB := by
  have fits := carries.holds.fits
  rw [List.length_map] at fits
  exact Int.ofNat_le.mp fits

/-- The driver sees the OWN bit exactly where the outbox is full. -/
theorem own_iff (carries : Carries s o) (here : s.next = s.eth.dmaTxDescToSet) :
    s.eth.toSet.Own ↔ o.Full := by
  have full := carries.holds.back_iff
  rw [← carries.next, here, List.length_map, Int.natCast_inj] at full
  exact full

/-- Where there is something to send, the DMA is at it. -/
theorem owned_iff (carries : Carries s o) : s.eth.Owned s.eth.current ↔ o.waiting ≠ [] := by
  rw [carries.holds.front_iff, ne_eq, List.map_eq_nil_iff]

/-- A call that is not between the OWN bit and the wake-up leaves no frame to a DMA that has
stopped. -/
theorem empty_of_suspended (carries : Carries s o) (awake : s.pc ≠ .resume)
    (stopped : s.eth.suspended = true) : o.waiting = [] :=
  (carries.wakes stopped).2.resolve_right awake

/-- So the DMA may go on sleeping whatever the call does next. -/
theorem asleep (carries : Carries s o) (awake : s.pc ≠ .resume) {P : Prop}
    (stopped : s.eth.suspended = true) : s.eth.tbus = true ∧ (o.waiting = [] ∨ P) :=
  ⟨(carries.wakes stopped).1, Or.inl (carries.empty_of_suspended awake stopped)⟩

/-! ## A call and its statements -/

/-- A call with a frame that fits a buffer. -/
theorem offer (carries : Carries s o) (idle : s.pc = .idle) {p : List Pbuf}
    (short : (p.flatMap Pbuf.payload).length ≤ ETH_TX_BUF_SIZE) :
    ∃ o', o.step (.offered (decide s.eth.toSet.Own) (p.flatMap Pbuf.payload)) = some o' ∧
      Carries ⟨s.eth, .copy s.eth.ethGetCurrentTxBuffer 0 p⟩ o' := by
  have here : s.next = s.eth.dmaTxDescToSet := by simp only [EthOutput.next, idle]
  have none : o.offered = none := by
    have filling := carries.filling
    rw [idle] at filling
    exact filling
  have full : decide s.eth.toSet.Own = decide o.Full := decide_eq_decide.mpr (carries.own_iff here)
  refine ⟨⟨o.waiting, some (p.flatMap Pbuf.payload, 0)⟩, if_pos ⟨full, none⟩, ?_⟩
  exact
    { chained := carries.chained
      bounded := carries.bounded
      inside := carries.inside
      holds := carries.holds
      next := here.symm.trans carries.next
      filling := ⟨rfl, _, rfl, ⟨short, rfl⟩, Nat.zero_le _, rfl⟩
      room := False.elim
      wakes := carries.asleep (by simp [idle]) }

/-- The descriptors of the DMA are as they were where the buffer of the next one is written, but for
that one itself. -/
theorem kept (carries : Carries s o) {l : Nat} {bytes : List UInt8}
    (short : l + bytes.length ≤ ETH_TX_BUF_SIZE) {c : Int} (inside : InRing ETH_TXBUFNB c)
    (owned : s.eth.Owned c) (other : c ≠ s.eth.dmaTxDescToSet) :
    EthTx.segment { s.eth with
      txBuff := writeAt s.eth.txBuff (s.eth.toSet.buffer1Addr + l) bytes } c = s.eth.segment c :=
  EthTx.segment_write carries.chained carries.inside inside other (carries.bounded c inside owned)
    short

/-- A pbuf is copied into the next buffer while there is room. -/
theorem copyOn (carries : Carries s o) {buffer l : Nat} {q : Pbuf} {qs : List Pbuf}
    (pc : s.pc = .copy buffer l (q :: qs)) (own : ¬ s.eth.toSet.Own) :
    ∃ o', o.step (.copied q.payload.length) = some o' ∧
      Carries ⟨{ s.eth with txBuff := writeAt s.eth.txBuff (buffer + l) q.payload },
        .copy buffer (l + q.payload.length) qs⟩ o' := by
  have here : s.next = s.eth.dmaTxDescToSet := by simp only [EthOutput.next, pc]
  have filling := carries.filling
  rw [pc] at filling
  obtain ⟨rfl, frame, offered, long, short, -, after⟩ := filling.copy
  have free := mt (carries.own_iff here).mpr own
  refine ⟨⟨o.waiting, some (frame, l + q.payload.length)⟩, ?_, ?_⟩
  · simp only [Outbox.step, offered, Option.bind_some]
    exact if_pos ⟨free, long⟩
  exact
    { chained := carries.chained
      bounded := carries.bounded
      inside := carries.inside
      holds := by
        apply carries.holds.congr (fun _ _ => Iff.rfl)
        intro c inside owned
        exact carries.kept (long.trans short) inside owned (by rintro rfl; exact own owned)
      next := here.symm.trans carries.next
      filling := after
      room := False.elim
      wakes := carries.asleep (by simp [pc]) }

/-- A pbuf is copied over the first frame that waits where there is none. -/
theorem copyOver (carries : Carries s o) {buffer l : Nat} {q : Pbuf} {qs : List Pbuf}
    (pc : s.pc = .copy buffer l (q :: qs)) (own : s.eth.toSet.Own) :
    ∃ o', o.step (.overwrote q.payload.length) = some o' ∧
      Carries ⟨{ s.eth with txBuff := writeAt s.eth.txBuff (buffer + l) q.payload },
        .copy buffer (l + q.payload.length) qs⟩ o' := by
  have here : s.next = s.eth.dmaTxDescToSet := by simp only [EthOutput.next, pc]
  have next := carries.next
  rw [here] at next
  have filling := carries.filling
  rw [pc] at filling
  obtain ⟨rfl, frame, offered, long, short, taken, after⟩ := filling.copy
  have full := (carries.own_iff here).mp own
  refine ⟨⟨Outbox.spoil l q.payload o.waiting, some (frame, l + q.payload.length)⟩, ?_, ?_⟩
  · simp only [Outbox.step, offered, Option.bind_some, taken]
    exact if_pos ⟨full, long⟩
  obtain ⟨g, gs, waiting⟩ : ∃ g gs, o.waiting = g :: gs :=
    List.exists_cons_of_length_pos (by rw [full]; decide)
  have holds := carries.holds
  rw [waiting, List.map_cons] at holds
  -- with all descriptors the DMA's, the next one is that of the first frame
  have at_front : s.eth.dmaTxDescToSet = s.eth.current := by
    rw [next]
    exact back_of_full carries.holds.inside (by rw [List.length_map, full])
  have spoiled : EthTx.segment { s.eth with
      txBuff := writeAt s.eth.txBuff (s.eth.toSet.buffer1Addr + l) q.payload } s.eth.current =
        whole (overlay l q.payload g) := by
    rw [EthTx.toSet, at_front]
    exact EthTx.segment_overlay holds.item_front l q.payload
  exact
    { chained := carries.chained
      bounded := carries.bounded
      inside := carries.inside
      holds := by
        simp only [waiting, Outbox.spoil, List.map_cons]
        apply holds.replace spoiled
        intro c inside owned other
        exact carries.kept (long.trans short) inside owned (by rwa [at_front])
      next := by
        simp only [EthOutput.next, waiting, Outbox.spoil, List.map_cons]
        rw [next, waiting]
        simp [back]
      filling := after
      room := False.elim
      wakes := fun suspended => by
        have none := carries.empty_of_suspended (by simp [pc]) suspended
        rw [waiting] at none
        cases none }

/-- A statement that fills in the descriptor of the driver. -/
theorem set (carries : Carries s o) (tested : s.pc.Tested) {d : EthDmaDesc} {pc : OutputAt}
    (own : ¬ d.Own) (buffer : d.buffer1Addr = s.eth.toSet.buffer1Addr)
    (chain : d.buffer2NextDescAddr = s.eth.toSet.buffer2NextDescAddr) (tested' : pc.Tested)
    (filling : (s.eth.set d).Filling o.offered pc) : Carries ⟨s.eth.set d, pc⟩ o := by
  have here {pc : OutputAt} (tested : pc.Tested) (e : EthTx) :
      EthOutput.next ⟨e, pc⟩ = e.dmaTxDescToSet := by
    cases pc <;> first | rfl | exact False.elim tested
  have free := mt (carries.own_iff (here tested s.eth)).mp (carries.room tested)
  exact
    { chained := carries.chained.update buffer chain
      bounded := by
        intro c inside owned
        by_cases same : c = s.eth.dmaTxDescToSet
        · subst same
          simp only [EthTx.Owned, EthTx.set, Function.update_self] at owned
          exact absurd owned own
        · simp only [EthTx.Owned, EthTx.set, Function.update_of_ne same] at owned ⊢
          exact carries.bounded c inside owned
      inside := carries.inside
      holds := EthTx.holds_set carries.holds free own
      next := (here tested' _).trans ((here tested s.eth).symm.trans carries.next)
      filling := filling
      room := fun _ => carries.room tested
      wakes := by
        apply carries.asleep
        intro resume
        rw [resume] at tested
        exact tested }

/-- The OWN bit is set: the frame waits. -/
theorem setOwn (carries : Carries s o) (pc : s.pc = .setOwn) :
    ∃ frame, o.offered = some (frame, frame.length) ∧ ¬ o.Full ∧
      Carries ⟨s.eth.set { s.eth.toSet with status := s.eth.toSet.status ||| ETH_DMADesc_OWN },
        .resume⟩ ⟨o.waiting ++ [frame], none⟩ := by
  have filling := carries.filling
  rw [pc] at filling
  obtain ⟨frame, offered, ⟨short, copied⟩, count, ⟨fs, ls⟩⟩ := filling
  have tested : s.pc.Tested := by rw [pc]; trivial
  have here : s.next = s.eth.dmaTxDescToSet := by simp only [EthOutput.next, pc]
  have free := carries.room tested
  have next := carries.next
  rw [here] at next
  refine ⟨frame, offered, free, ?_⟩
  generalize made : ({ s.eth.toSet with
    status := s.eth.toSet.status ||| ETH_DMADesc_OWN } : EthDmaDesc) = d
  have own : d.Own := by
    subst made
    simp [EthDmaDesc.own_iff, ETH_DMADesc_OWN]
  have at_slot : (s.eth.set d).dmaTxDscrTab s.eth.dmaTxDescToSet = d := Function.update_self _ _ _
  have elsewhere {c : Int} (other : c ≠ s.eth.dmaTxDescToSet) :
      (s.eth.set d).dmaTxDscrTab c = s.eth.dmaTxDscrTab c := Function.update_of_ne other _ _
  have unowned {c : Int} (owned : s.eth.Owned c) : c ≠ s.eth.dmaTxDescToSet := by
    rintro rfl
    exact free ((carries.own_iff here).mp owned)
  exact
    { chained := carries.chained.update (by rw [← made]; rfl) (by rw [← made]; rfl)
      bounded := by
        intro c inside owned
        by_cases same : c = s.eth.dmaTxDescToSet
        · subst same
          rw [at_slot, ← made]
          exact count.trans_le short
        · rw [EthTx.Owned, elsewhere same] at owned
          rw [elsewhere same]
          exact carries.bounded c inside owned
      inside := carries.inside
      holds := by
        rw [List.map_append, List.map_singleton]
        apply carries.holds.put
        · rw [List.length_map]
          have := carries.waiting_le
          exact Int.ofNat_lt.mpr (Nat.lt_of_le_of_ne this free)
        · intro c _
          rw [← next]
          by_cases same : c = s.eth.dmaTxDescToSet
          · subst same
            rw [EthTx.Owned, at_slot]
            exact iff_of_true own (Or.inr rfl)
          · rw [EthTx.Owned, elsewhere same]
            exact ⟨Or.inl, fun either => either.resolve_right same⟩
        · intro c _ owned
          rw [EthTx.segment_eq, EthTx.segment_eq, elsewhere (unowned owned)]
          rfl
        · rw [← next, EthTx.segment_eq, at_slot, ← made, whole, Segment.mk.injEq]
          refine ⟨?_, ?_, ?_⟩
          · simpa [ETH_DMADesc_OWN] using fs
          · simpa [ETH_DMADesc_OWN] using ls
          · show readAt s.eth.txBuff s.eth.toSet.buffer1Addr s.eth.toSet.count = frame
            rw [count, copied, List.take_length]
      next := by
        simp only [EthOutput.next, EthTx.set, List.map_append, List.map_singleton]
        rw [next]
        exact advance_back carries.holds.positive (whole frame)
      filling := rfl
      room := False.elim
      wakes := fun suspended => ⟨(carries.wakes suspended).1, Or.inr rfl⟩ }

/-- The length that the descriptor gets is the length of the frame. -/
theorem count_setLength {n : Nat} (short : n ≤ ETH_TX_BUF_SIZE) :
    ((BitVec.ofNat 16 n).setWidth 32 &&& ETH_DMATxDesc_TBS1 &&& ETH_DMATxDesc_TBS1).toNat = n := by
  have thirteen : ETH_DMATxDesc_TBS1.toNat = 2 ^ 13 - 1 := rfl
  have small : n < 2 ^ 13 := lt_of_le_of_lt short (by decide)
  simp only [BitVec.toNat_and, BitVec.toNat_setWidth, BitVec.toNat_ofNat, thirteen,
    Nat.and_two_pow_sub_one_eq_mod]
  omega

theorem cpu (carries : Carries s o) (stepped : s.cpu = some (s', es)) :
    ∃ o', runPartial Outbox.step o es = some o' ∧ Carries s' o' := by
  obtain ⟨e, pc⟩ := s
  have filling := carries.filling
  cases pc with
  | idle => cases stepped
  | copy buffer l q =>
      cases q with
      | nil =>
          cases stepped
          obtain ⟨-, frame, offered, copied, le, left⟩ := filling
          have all : l = frame.length := Nat.le_antisymm le (List.drop_eq_nil_iff.mp left)
          subst all
          refine ⟨o, rfl, ?_⟩
          exact { carries with
            next := carries.next
            filling := ⟨frame, offered, copied, rfl⟩
            room := False.elim
            wakes := carries.asleep (by simp) }
      | cons q qs =>
          cases stepped
          by_cases own : e.toSet.Own
          · rw [if_pos own]
            obtain ⟨o', taken, after⟩ := carries.copyOver rfl own
            exact ⟨o', by rw [runPartial, taken]; rfl, after⟩
          · rw [if_neg own]
            obtain ⟨o', taken, after⟩ := carries.copyOn rfl own
            exact ⟨o', by rw [runPartial, taken]; rfl, after⟩
  | ownTest n =>
      have here : EthOutput.next ⟨e, .ownTest n⟩ = e.dmaTxDescToSet := rfl
      simp only [EthOutput.cpu] at stepped
      split at stepped
      next own =>
        cases stepped
        have full := (carries.own_iff here).mp own
        obtain ⟨frame, offered, -⟩ := filling
        refine ⟨⟨o.waiting, none⟩, by simp [runPartial, Outbox.step, full, offered], ?_⟩
        exact { carries with
          next := carries.next
          filling := rfl
          room := False.elim
          wakes := carries.asleep (by simp) }
      next own =>
        cases stepped
        refine ⟨o, rfl, ?_⟩
        exact { carries with
          next := carries.next
          filling := filling
          room := fun _ => mt (carries.own_iff here).mpr own
          wakes := carries.asleep (by simp) }
  | setLength n =>
      cases stepped
      obtain ⟨frame, offered, copied, rfl⟩ := filling
      have own := mt (carries.own_iff rfl).mp (carries.room trivial)
      refine ⟨o, rfl, carries.set trivial own rfl rfl trivial ⟨frame, offered, ?_, ?_⟩⟩
      · simpa [EthTx.Copied, EthTx.toSet, EthTx.set] using copied
      · simp only [EthTx.toSet, EthTx.set, Function.update_self, EthDmaDesc.count]
        exact count_setLength copied.1
  | setSegments =>
      cases stepped
      obtain ⟨frame, offered, copied, count⟩ := filling
      have own := mt (carries.own_iff rfl).mp (carries.room trivial)
      refine ⟨o, rfl, carries.set trivial ?_ rfl rfl trivial ⟨frame, offered, ?_, ?_, ?_⟩⟩
      · rw [EthDmaDesc.own_iff] at own ⊢
        simpa [ETH_DMATxDesc_LS, ETH_DMATxDesc_FS] using own
      · simpa [EthTx.Copied, EthTx.toSet, EthTx.set] using copied
      · simpa [EthTx.toSet, EthTx.set, EthDmaDesc.count] using count
      · simp [EthTx.toSet, EthTx.set, EthDmaDesc.Whole, ETH_DMATxDesc_LS, ETH_DMATxDesc_FS]
  | setOwn =>
      cases stepped
      obtain ⟨frame, offered, free, after⟩ := carries.setOwn rfl
      exact ⟨_, by simp [runPartial, Outbox.step, free, offered], after⟩
  | resume =>
      cases stepped
      refine ⟨o, rfl, ?_⟩
      have next := carries.next
      have wakes := carries.wakes
      by_cases unavailable : e.tbus = true
      · simp only [unavailable, if_true]
        exact ⟨carries.chained, carries.bounded, carries.inside, carries.holds, next, filling,
          False.elim, fun suspended => by cases suspended⟩
      · simp only [unavailable]
        exact ⟨carries.chained, carries.bounded, carries.inside, carries.holds, next, filling,
          False.elim, fun suspended => absurd (wakes suspended).1 unavailable⟩
  | moveOn =>
      cases stepped
      refine ⟨o, rfl, ?_⟩
      have chain := (carries.chained e.dmaTxDescToSet carries.inside).2
      have next := carries.next
      exact
        { carries with
          inside := by
            simp only [EthTx.toSet]
            rw [chain]
            exact inRing_advance carries.inside
          next := by
            simp only [EthOutput.next, EthTx.toSet] at next ⊢
            rw [chain]
            exact next
          filling := filling
          room := False.elim
          wakes := carries.asleep (by simp) }

/-! ## The DMA -/

/-- The first frame that waits is sent. -/
theorem sent (carries : Carries s o) (awake : s.eth.suspended = false) {frame : List UInt8}
    {rest : List (List UInt8)} (waiting : o.waiting = frame :: rest) :
    ∃ e, s.eth.dma = some (e, [.sent (whole frame)]) ∧ Carries ⟨e, s.pc⟩ ⟨rest, o.offered⟩ := by
  have holds := carries.holds
  rw [waiting, List.map_cons] at holds
  have own := carries.owned_iff.mpr (by simp [waiting])
  have chain := (carries.chained s.eth.current holds.inside).2
  have pass : s.eth.dma = some ({ s.eth with
      dmaTxDscrTab := Function.update s.eth.dmaTxDscrTab s.eth.current
        { s.eth.dmaTxDscrTab s.eth.current with
          status := (s.eth.dmaTxDscrTab s.eth.current).status &&& ~~~ETH_DMADesc_OWN }
      current := (s.eth.dmaTxDscrTab s.eth.current).buffer2NextDescAddr },
      [.sent (whole frame)]) := by
    rw [← holds.item_front]
    simp only [EthTx.dma, awake, Bool.false_eq_true, if_false]
    exact if_pos own
  refine ⟨_, pass, ?_⟩
  rw [chain]
  generalize made : ({ s.eth.dmaTxDscrTab s.eth.current with
    status := (s.eth.dmaTxDscrTab s.eth.current).status &&& ~~~ETH_DMADesc_OWN } :
      EthDmaDesc) = d
  have free : ¬ d.Own := by
    subst made
    simp [EthDmaDesc.own_iff, ETH_DMADesc_OWN]
  have alike (c : Int) :
      (Function.update s.eth.dmaTxDscrTab s.eth.current d c).buffer1Addr =
          (s.eth.dmaTxDscrTab c).buffer1Addr ∧
        (Function.update s.eth.dmaTxDscrTab s.eth.current d c).count =
          (s.eth.dmaTxDscrTab c).count ∧
        ((s.eth.dmaTxDscrTab c).Whole →
          (Function.update s.eth.dmaTxDscrTab s.eth.current d c).Whole) := by
    by_cases same : c = s.eth.current
    · subst same
      rw [Function.update_self, ← made]
      refine ⟨rfl, rfl, ?_⟩
      rintro ⟨fs, ls⟩
      constructor
      · simpa [ETH_DMADesc_OWN] using fs
      · simpa [ETH_DMADesc_OWN] using ls
    · rw [Function.update_of_ne same]
      exact ⟨rfl, rfl, id⟩
  have marks (c : Int) : (Function.update s.eth.dmaTxDscrTab s.eth.current d c).Own ↔
      (s.eth.dmaTxDscrTab c).Own ∧ c ≠ s.eth.current := by
    by_cases same : c = s.eth.current
    · subst same
      rw [Function.update_self]
      exact iff_of_false free fun both => both.2 rfl
    · rw [Function.update_of_ne same]
      exact ⟨fun owned => ⟨owned, same⟩, And.left⟩
  obtain ⟨buffer, count, keeps⟩ := alike s.eth.dmaTxDescToSet
  exact
    { chained := carries.chained.update (by rw [← made]) (by rw [← made])
      bounded := fun c inside owned =>
        (alike c).2.1.trans_le (carries.bounded c inside ((marks c).mp owned).1)
      inside := carries.inside
      holds := by
        apply holds.take
        · exact fun c _ => marks c
        · intro c _ owned
          have other := ((marks c).mp owned).2
          simp only [EthTx.segment, Function.update_of_ne other]
      next := by
        have next := carries.next
        rw [waiting, List.map_cons] at next
        exact next.trans (back_tail holds.inside (whole frame)).symm
      filling := by
        have filling := carries.filling
        cases at_pc : s.pc <;> rw [at_pc] at filling <;>
          simp only [EthTx.Filling, EthTx.Copied, EthTx.toSet, buffer, count] at filling ⊢ <;>
          first
          | exact filling
          | exact filling.imp fun f h => ⟨h.1, h.2.1, h.2.2.1, keeps h.2.2.2⟩
      room := by
        intro _ full
        have le := carries.waiting_le
        rw [waiting, List.length_cons] at le
        have full : rest.length = ETH_TXBUFNB := full
        omega
      wakes := fun suspended => by
        simp only [awake] at suspended
        cases suspended }

/-- Nothing waits: the DMA stops. -/
theorem stop (carries : Carries s o) (none : o.waiting = []) :
    Carries ⟨{ s.eth with tbus := true, suspended := true }, s.pc⟩ o :=
  { carries with
    next := carries.next
    filling := carries.filling
    room := carries.room
    wakes := fun _ => ⟨rfl, Or.inl none⟩ }

theorem dma {e : EthTx} (carries : Carries s o) (stepped : s.eth.dma = some (e, es)) :
    ∃ o', runPartial Outbox.step o es = some o' ∧ Carries ⟨e, s.pc⟩ o' := by
  cases awake : s.eth.suspended with
  | true => simp [EthTx.dma, awake] at stepped
  | false =>
      cases waiting : o.waiting with
      | nil =>
          have own := mt carries.owned_iff.mp (not_not.mpr waiting)
          have stops : s.eth.dma = some ({ s.eth with tbus := true, suspended := true }, []) := by
            simp only [EthTx.dma, awake, Bool.false_eq_true, if_false]
            exact if_neg own
          rw [stops] at stepped
          cases stepped
          exact ⟨o, rfl, carries.stop waiting⟩
      | cons frame rest =>
          obtain ⟨e', sends, after⟩ := carries.sent awake waiting
          rw [sends] at stepped
          cases stepped
          exact ⟨_, by simp [runPartial, Outbox.step, waiting, whole], after⟩

end Carries

/-! ## Runs -/

/-- A frame that fits a buffer. -/
def TxAction.Fits : TxAction → Prop
  | .lowLevelOutput p => (p.flatMap Pbuf.payload).length ≤ ETH_TX_BUF_SIZE
  | _ => True

theorem Carries.step {s s' : EthOutput} {o : Outbox} {a : TxAction} {es : List TxEvent}
    (carries : Carries s o) (fits : a.Fits) (stepped : s.step a = some (s', es)) :
    ∃ o', runPartial Outbox.step o es = some o' ∧ Carries s' o' := by
  cases a with
  | lowLevelOutput p =>
      obtain ⟨idle, done⟩ := Option.ite_none_right_eq_some.mp stepped
      cases done
      obtain ⟨o', taken, after⟩ := carries.offer idle fits
      exact ⟨o', by rw [runPartial, taken]; rfl, after⟩
  | cpu => exact carries.cpu stepped
  | dma =>
      obtain ⟨⟨e, events⟩, moved, same⟩ := Option.map_eq_some_iff.mp stepped
      cases same
      exact carries.dma moved

theorem carries_lowLevelInitTx (tab : DscrTab) (txBuff : Nat → UInt8) :
    Carries (lowLevelInitTx tab txBuff) Outbox.empty := by
  have chained : Chained ETH_TX_BUF_SIZE ETH_TXBUFNB (lowLevelInitTx tab txBuff).eth.dmaTxDscrTab :=
    (chained_forEach tab fun _ _ => ⟨rfl, rfl⟩).forEach (le_refl _) fun _ _ => ⟨rfl, rfl⟩
  have none (c : Int) (inside : InRing ETH_TXBUFNB c) :
      ¬ (lowLevelInitTx tab txBuff).eth.Owned c := by
    obtain ⟨i, within, rfl⟩ := exists_index inside
    simp only [lowLevelInitTx, EthTx.Owned, ethDmaTxDescChainInit, forEach_apply within]
    show ¬ (ETH_DMATxDesc_TCH ||| ETH_DMATxDesc_ChecksumTCPUDPICMPFull) &&& ETH_DMADesc_OWN ≠ 0
    decide
  have first : InRing ETH_TXBUFNB 0 := ⟨le_refl 0, by decide⟩
  exact
    { chained := chained
      bounded := fun c inside owned => absurd owned (none c inside)
      inside := first
      holds := Holds.nil first none
      next := rfl
      filling := rfl
      room := False.elim
      wakes := fun suspended => by cases suspended }

section Runs

variable {tab : DscrTab} {txBuff : Nat → UInt8} {acts : List TxAction} {s : EthOutput}
  {es : List TxEvent}

theorem carries_run (fits : ∀ a ∈ acts, a.Fits)
    (ran : runPartial (shown EthOutput.step) (lowLevelInitTx tab txBuff, []) acts = some (s, es)) :
    ∃ o, runPartial Outbox.step Outbox.empty es = some o ∧ Carries s o :=
  shown_refines (fun _ _ _ _ _ carries fit stepped => carries.step fit stepped)
    (carries_lowLevelInitTx tab txBuff) fits ran

/-- The transmit side with nothing in its memory. -/
def blank : EthOutput := lowLevelInitTx (fun _ => ⟨0, 0, 0, 0⟩) (fun _ => 0)

/-- A call of `low_level_output` in which the DMA does nothing. -/
def call (p : List Pbuf) : List TxAction :=
  .lowLevelOutput p :: List.replicate (p.length + 7) .cpu

/-- The ring is filled; half of a sixth frame goes over the first one, which is sent, and the other
half into the buffer that this frees; a seventh is refused. -/
def fullRing : List TxAction :=
  call [⟨[1, 1], by decide⟩] ++ call [⟨[2], by decide⟩] ++ call [⟨[3], by decide⟩] ++
    call [⟨[4], by decide⟩] ++ call [⟨[5], by decide⟩] ++
    [.lowLevelOutput [⟨[6], by decide⟩, ⟨[7], by decide⟩], .cpu, .dma] ++
    List.replicate 8 .cpu ++ [.lowLevelOutput [⟨[8], by decide⟩], .cpu, .cpu, .cpu]

theorem fullRing_fits : ∀ a ∈ fullRing, a.Fits := by
  simp [fullRing, call, TxAction.Fits, ETH_TX_BUF_SIZE]

theorem fullRing_runs : ∃ s es, runPartial (shown EthOutput.step) (blank, []) fullRing =
    some (s, es) ∧ s.pc = .idle ∧ .overwrote 1 ∈ es ∧ .sent (whole [6, 1]) ∈ es ∧
      .refused ∈ es := by
  have all : (runPartial (shown EthOutput.step) (blank, []) fullRing).map (fun t =>
      (t.1.pc, decide (.overwrote 1 ∈ t.2), decide (.sent (whole [6, 1]) ∈ t.2),
        decide (.refused ∈ t.2))) = some (.idle, true, true, true) := by decide +kernel
  obtain ⟨⟨s, es⟩, ran, fields⟩ := Option.map_eq_some_iff.mp all
  simp only [Prod.mk.injEq, decide_eq_true_iff] at fields
  exact ⟨s, es, ran, fields⟩

/-- Every run of the driver and the DMA, whatever the order of their steps, is a run of the
outbox. -/
theorem transmit_refines (fits : ∀ a ∈ acts, a.Fits)
    (ran : runPartial (shown EthOutput.step) (lowLevelInitTx tab txBuff, []) acts = some (s, es)) :
    ∃ o, runPartial Outbox.step Outbox.empty es = some o ∧ o.waiting.length ≤ ETH_TXBUFNB := by
  obtain ⟨o, taken, carries⟩ := carries_run fits ran
  exact ⟨o, taken, carries.waiting_le⟩

theorem transmit_refines_full : ∃ s es,
    runPartial (shown EthOutput.step) (blank, []) fullRing = some (s, es) ∧
      .overwrote 1 ∈ es ∧ .sent (whole [6, 1]) ∈ es ∧ .refused ∈ es ∧
      ∃ o, runPartial Outbox.step Outbox.empty es = some o ∧ o.waiting.length ≤ ETH_TXBUFNB := by
  obtain ⟨s, es, ran, -, overwrote, spoiled, refused⟩ := fullRing_runs
  exact ⟨s, es, ran, overwrote, spoiled, refused, transmit_refines fullRing_fits ran⟩

/-! ## Order -/

def TxEvent.offered? : TxEvent → Option (List UInt8)
  | .offered _ frame => some frame
  | _ => none

def TxEvent.sent? : TxEvent → Option Segment
  | .sent segment => some segment
  | _ => none

/-- The frames of the calls. -/
def offeredFrames (es : List TxEvent) : List (List UInt8) := es.filterMap TxEvent.offered?

/-- What was sent. -/
def sentSegments (es : List TxEvent) : List Segment := es.filterMap TxEvent.sent?

@[simp] theorem offeredFrames_cons (e : TxEvent) (es : List TxEvent) :
    offeredFrames (e :: es) = e.offered?.toList ++ offeredFrames es := by
  cases e <;> simp [offeredFrames, TxEvent.offered?, List.filterMap_cons]

@[simp] theorem sentSegments_cons (e : TxEvent) (es : List TxEvent) :
    sentSegments (e :: es) = e.sent?.toList ++ sentSegments es := by
  cases e <;> simp [sentSegments, TxEvent.sent?, List.filterMap_cons]

/-- The frame of the call, until it is put in. -/
def Outbox.current (o : Outbox) : List (List UInt8) := (o.offered.map Prod.fst).toList

/-- While no call finds the ring full, the outbox is a queue, and refuses nothing. -/
theorem Outbox.keeps_order {o o' : Outbox} {es : List TxEvent}
    (taken : runPartial Outbox.step o es = some o')
    (room : ∀ frame, TxEvent.offered true frame ∉ es) (free : o.offered.isSome → ¬ o.Full)
    (le : o.waiting.length ≤ ETH_TXBUFNB) :
    TxEvent.refused ∉ es ∧ (o.waiting ++ o.current ++ offeredFrames es).map whole =
      sentSegments es ++ (o'.waiting ++ o'.current).map whole := by
  induction es generalizing o with
  | nil =>
      cases taken
      simp [offeredFrames, sentSegments]
  | cons e es ih =>
      obtain ⟨u, first, rest⟩ := Option.bind_eq_some_iff.mp taken
      have later (frame : List UInt8) : TxEvent.offered true frame ∉ es := fun mem =>
        room frame (List.mem_cons_of_mem e mem)
      cases e with
      | offered full frame =>
          obtain ⟨⟨is, none⟩, same⟩ := Option.ite_none_right_eq_some.mp first
          cases same
          have open_ : ¬ o.Full := by
            intro closed
            rw [decide_eq_true closed] at is
            exact room frame (is ▸ List.mem_cons_self)
          obtain ⟨kept, order⟩ := ih rest later (fun _ => open_) le
          refine ⟨by simp [kept], ?_⟩
          simpa [current, none, TxEvent.offered?, TxEvent.sent?] using order
      | copied n =>
          obtain ⟨⟨frame, l⟩, offered, step⟩ := Option.bind_eq_some_iff.mp first
          obtain ⟨⟨open_, -⟩, same⟩ := Option.ite_none_right_eq_some.mp step
          cases same
          obtain ⟨kept, order⟩ := ih rest later (fun _ => open_) le
          refine ⟨by simp [kept], ?_⟩
          simpa [current, offered, TxEvent.offered?, TxEvent.sent?] using order
      | overwrote n =>
          obtain ⟨⟨frame, l⟩, offered, step⟩ := Option.bind_eq_some_iff.mp first
          obtain ⟨⟨full, -⟩, -⟩ := Option.ite_none_right_eq_some.mp step
          exact absurd full (free (by rw [offered]; rfl))
      | queued =>
          obtain ⟨⟨frame, l⟩, offered, step⟩ := Option.bind_eq_some_iff.mp first
          obtain ⟨⟨open_, -⟩, same⟩ := Option.ite_none_right_eq_some.mp step
          cases same
          have fits : (o.waiting ++ [frame]).length ≤ ETH_TXBUFNB := by
            rw [List.length_append, List.length_singleton]
            exact Nat.lt_of_le_of_ne le open_
          obtain ⟨kept, order⟩ := ih rest later nofun fits
          refine ⟨by simp [kept], ?_⟩
          simpa [current, offered, TxEvent.offered?, TxEvent.sent?] using order
      | refused =>
          obtain ⟨⟨frame, l⟩, offered, step⟩ := Option.bind_eq_some_iff.mp first
          obtain ⟨⟨full, -⟩, -⟩ := Option.ite_none_right_eq_some.mp step
          exact absurd full (free (by rw [offered]; rfl))
      | sent segment =>
          cases waiting : o.waiting with
          | nil => simp [Outbox.step, waiting] at first
          | cons frame waiting' =>
              simp only [Outbox.step, waiting] at first
              obtain ⟨rfl, same⟩ := Option.ite_none_right_eq_some.mp first
              cases same
              rw [waiting, List.length_cons] at le
              have free' : waiting'.length ≠ ETH_TXBUFNB := by omega
              obtain ⟨kept, order⟩ := ih rest later (fun _ => free') (Nat.le_of_succ_le le)
              refine ⟨by simp [kept], ?_⟩
              simpa [current, whole, TxEvent.offered?, TxEvent.sent?] using order

/-- While every call finds room, none is refused and the frames leave whole and in the order of
the calls; no more than five are still to be sent, besides that of a call that has not put it in
yet. -/
theorem transmit_in_order (fits : ∀ a ∈ acts, a.Fits)
    (ran : runPartial (shown EthOutput.step) (lowLevelInitTx tab txBuff, []) acts = some (s, es))
    (room : ∀ frame, TxEvent.offered true frame ∉ es) :
    TxEvent.refused ∉ es ∧ ∃ waiting current : List (List UInt8),
      waiting.length ≤ ETH_TXBUFNB ∧ current.length ≤ 1 ∧ (s.pc = .idle → current = []) ∧
        (offeredFrames es).map whole = sentSegments es ++ (waiting ++ current).map whole := by
  obtain ⟨o, taken, carries⟩ := carries_run fits ran
  obtain ⟨none, order⟩ := Outbox.keeps_order taken room nofun (Nat.zero_le ETH_TXBUFNB)
  refine ⟨none, o.waiting, o.current, carries.waiting_le, ?_, ?_, order⟩
  · rw [Outbox.current]
    exact Option.length_toList_le
  · intro idle
    have filling := carries.filling
    rw [idle] at filling
    have nothing : o.offered = Option.none := filling
    rw [Outbox.current, nothing]
    rfl

/-- The DMA stops and is woken for a frame of two pbufs, which it sends; it stops again in the
middle of the next call, and sends that frame too; a third one still waits. -/
def inTurn : List TxAction :=
  [.dma] ++ call [⟨[1, 2], by decide⟩, ⟨[3], by decide⟩] ++
    [.dma, .lowLevelOutput [⟨[4], by decide⟩, ⟨[5, 6], by decide⟩], .cpu, .dma] ++
    List.replicate 8 .cpu ++ [.dma] ++ call [⟨[7], by decide⟩]

theorem transmit_in_order_three : ∃ s es,
    runPartial (shown EthOutput.step) (blank, []) inTurn = some (s, es) ∧
      sentSegments es = [whole [1, 2, 3], whole [4, 5, 6]] ∧
      TxEvent.refused ∉ es ∧ ∃ waiting current : List (List UInt8),
        waiting.length ≤ ETH_TXBUFNB ∧ current.length ≤ 1 ∧ (s.pc = .idle → current = []) ∧
          (offeredFrames es).map whole = sentSegments es ++ (waiting ++ current).map whole := by
  have all : (runPartial (shown EthOutput.step) (blank, []) inTurn).map (fun t =>
      (sentSegments t.2, t.2.filter fun e => e matches .offered true _)) =
        some ([whole [1, 2, 3], whole [4, 5, 6]], []) := by decide +kernel
  obtain ⟨⟨s, es⟩, ran, fields⟩ := Option.map_eq_some_iff.mp all
  obtain ⟨segments, none⟩ := Prod.mk.inj fields
  have fits : ∀ a ∈ inTurn, a.Fits := by simp [inTurn, call, TxAction.Fits, ETH_TX_BUF_SIZE]
  have room (frame : List UInt8) : TxEvent.offered true frame ∉ es := fun mem =>
    List.filter_eq_nil_iff.mp none _ mem rfl
  exact ⟨s, es, ran, segments, transmit_in_order fits ran room⟩

/-! ## Progress -/

/-- A DMA that is awake, or has nothing to do, sends all that waits by itself. -/
theorem Carries.drains {s : EthOutput} {o : Outbox} (carries : Carries s o)
    (awake : s.pc ≠ .resume) (es : List TxEvent) :
    ∃ s' es', runPartial (shown EthOutput.step) (s, es)
        (List.replicate o.waiting.length .dma) = some (s', es ++ es') ∧
      es' = o.waiting.map fun frame => .sent (whole frame) := by
  obtain ⟨waiting, offered⟩ := o
  induction waiting generalizing s es with
  | nil => exact ⟨s, [], by simp [runPartial], rfl⟩
  | cons frame rest ih =>
      have running : s.eth.suspended = false := by
        apply Bool.eq_false_of_not_eq_true
        intro stopped
        have none := carries.empty_of_suspended awake stopped
        cases none
      obtain ⟨e, sends, after⟩ := carries.sent running rfl
      have stepped : shown EthOutput.step (s, es) .dma =
          some (⟨e, s.pc⟩, es ++ [.sent (whole frame)]) := by
        simp [shown, EthOutput.step, sends]
      obtain ⟨s', es', ran, all⟩ :=
        ih (s := ⟨e, s.pc⟩) awake (es ++ [.sent (whole frame)]) after
      refine ⟨s', .sent (whole frame) :: es', ?_, by rw [all]; rfl⟩
      rw [List.length_cons, List.replicate_succ, runPartial, stepped, Option.bind_some]
      simpa using ran

/-- Between two calls no frame is left to a DMA that has stopped: with no further step of the
driver, the DMA sends every frame that was put into the ring. -/
theorem transmit_drains (fits : ∀ a ∈ acts, a.Fits)
    (ran : runPartial (shown EthOutput.step) (lowLevelInitTx tab txBuff, []) acts = some (s, es))
    (idle : s.pc = .idle) :
    ∃ n ≤ ETH_TXBUFNB, ∃ s' es' o, runPartial (shown EthOutput.step) (s, es)
        (List.replicate n .dma) = some (s', es') ∧
      runPartial Outbox.step Outbox.empty es' = some o ∧ o.waiting = [] := by
  obtain ⟨o, taken, carries⟩ := carries_run fits ran
  obtain ⟨s', es', ran', rfl⟩ := carries.drains (by simp [idle]) es
  refine ⟨o.waiting.length, carries.waiting_le, s', _, ⟨[], o.offered⟩, ran', ?_, rfl⟩
  rw [runPartial_append, taken, Option.bind_some]
  obtain ⟨waiting, offered⟩ := o
  clear carries ran' taken
  induction waiting with
  | nil => rfl
  | cons frame rest ih => simpa [runPartial, Outbox.step, whole] using ih

theorem transmit_drains_full : ∃ s es,
    runPartial (shown EthOutput.step) (blank, []) fullRing = some (s, es) ∧
      ∃ n ≤ ETH_TXBUFNB, ∃ s' es' o, runPartial (shown EthOutput.step) (s, es)
          (List.replicate n .dma) = some (s', es') ∧
        runPartial Outbox.step Outbox.empty es' = some o ∧ o.waiting = [] := by
  obtain ⟨s, es, ran, idle, -⟩ := fullRing_runs
  exact ⟨s, es, ran, transmit_drains fullRing_fits ran idle⟩

end Runs

end Stm32Robot.Net
