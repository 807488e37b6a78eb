/-
# Motor.QueueRefinement -- the ring queue is a bounded FIFO that empties itself when full

`InterQueue.WellFormed` is the representation invariant: the cursors lie in the ring, the
count lies between 0 and `MaxCount`, and `rear` is `QueueCount` places after `front`.
`contents` reads the live window, oldest node first; nothing is said of the other slots.

Each function of Queue.c keeps `WellFormed` and acts on `contents` as the list operation
of `Theory.BoundedFifo` does (`contents_enQueueinter`, `getAndDelQueueinter_of_cons`), so
every run of calls simulates the run on lists (`queueStep_simulates`).
-/
import Stm32Robot.Motor.Queue
import Stm32Robot.Theory.BoundedFifo

namespace Stm32Robot.Motor.Queue

open Stm32Robot.Theory.RingAddress
open Stm32Robot.Theory.Transducer
open Stm32Robot.Theory.BoundedFifo

set_option autoImplicit false

variable {M α : Type}

namespace InterQueue

/-- The representation invariant of the ring. -/
structure WellFormed (Q : InterQueue M) : Prop where
  front_nonneg : 0 ≤ Q.front
  front_lt : Q.front < Q.maxCount
  count_nonneg : 0 ≤ Q.queueCount
  count_le : Q.queueCount ≤ Q.maxCount
  rear_eq : Q.rear = slot Q.maxCount Q.front Q.queueCount

/-- The nodes of the live window, oldest first. -/
def contents [NodeMemory M α] (Q : InterQueue M) : List α :=
  (List.range Q.queueCount.toNat).map fun (i : Nat) => load Q.qNode (slot Q.maxCount Q.front i)

/-- The bound of the ring, as a list length. -/
def capacity (Q : InterQueue M) : Nat := Q.maxCount.toNat

namespace WellFormed

variable {Q : InterQueue M}

theorem positive (wf : Q.WellFormed) : 0 < Q.maxCount :=
  lt_of_le_of_lt wf.front_nonneg wf.front_lt

theorem rear_nonneg (wf : Q.WellFormed) : 0 ≤ Q.rear := by
  rw [wf.rear_eq]
  exact slot_nonneg wf.positive

theorem rear_lt (wf : Q.WellFormed) : Q.rear < Q.maxCount := by
  rw [wf.rear_eq]
  exact slot_lt wf.positive

end WellFormed

section Contents

variable [NodeMemory M α] {Q : InterQueue M}

@[simp] theorem length_contents : Q.contents.length = Q.queueCount.toNat := by
  simp [contents]

theorem contents_eq_nil_iff : Q.contents = [] ↔ Q.queueCount ≤ 0 := by
  rw [← List.length_eq_zero_iff, length_contents]
  omega

theorem WellFormed.length_contents_le (wf : Q.WellFormed) : Q.contents.length ≤ Q.capacity := by
  have := wf.count_le
  rw [length_contents, capacity]
  omega

/-! ## Each function on the contents -/

theorem wellFormed_initQueueinter (positive : 0 < Q.maxCount) :
    (initQueueinter Q).2.WellFormed where
  front_nonneg := le_refl _
  front_lt := positive
  count_nonneg := le_refl _
  count_le := positive.le
  rear_eq := (slot_zero (le_refl 0) positive).symm

@[simp] theorem contents_initQueueinter : (initQueueinter Q).2.contents = [] :=
  contents_eq_nil_iff.mpr (le_refl _)

theorem WellFormed.enQueueinter (wf : Q.WellFormed) (pe : α) :
    (enQueueinter pe Q).2.WellFormed := by
  rcases lt_or_ge Q.queueCount Q.maxCount with room | full
  · rw [enQueueinter_of_room _ room]
    exact {
      front_nonneg := wf.front_nonneg
      front_lt := wf.front_lt
      count_nonneg := by have := wf.count_nonneg; simp only; omega
      count_le := by simp only; omega
      rear_eq := by simp only; rw [wf.rear_eq, advance_slot wf.positive] }
  · rw [enQueueinter_of_full _ full]
    have first : slot Q.maxCount 0 0 = 0 := slot_zero (le_refl 0) wf.positive
    exact {
      front_nonneg := le_refl _
      front_lt := wf.positive
      count_nonneg := by simp
      count_le := wf.positive
      rear_eq := by
        have step : advance Q.maxCount (slot Q.maxCount 0 0) = slot Q.maxCount 0 (0 + 1) :=
          advance_slot wf.positive
        rw [first, zero_add] at step
        exact step }

/-- Enqueueing pushes: appended while there is room, alone after an overflow. -/
theorem contents_enQueueinter (wf : Q.WellFormed) (pe : α) :
    (Queue.enQueueinter pe Q).2.contents = push Q.capacity Q.contents pe := by
  rcases lt_or_ge Q.queueCount Q.maxCount with room | full
  · have fits : Q.contents.length < Q.capacity := by
      have := wf.count_nonneg
      rw [length_contents, capacity]
      omega
    have grown : (Q.queueCount + 1).toNat = Q.queueCount.toNat + 1 := by
      have := wf.count_nonneg
      omega
    have last : ((Q.queueCount.toNat : Nat) : Int) = Q.queueCount := by
      have := wf.count_nonneg
      omega
    rw [enQueueinter_of_room _ room, push_of_room fits]
    simp only [contents, grown, List.range_succ, List.map_append, List.map_cons, List.map_nil]
    congr 1
    · apply List.map_congr_left
      intro i hi
      rw [List.mem_range] at hi
      rw [load_store, if_neg]
      intro same
      rw [wf.rear_eq] at same
      have := slot_injective (by omega) (by omega) wf.count_nonneg room same
      omega
    · rw [load_store, last, wf.rear_eq, if_pos rfl]
  · have full' : Q.capacity ≤ Q.contents.length := by
      have := wf.count_le
      rw [length_contents, capacity]
      omega
    rw [enQueueinter_of_full _ full, push_of_full full']
    have one : List.range (1 : Int).toNat = [0] := by decide
    have first : slot Q.maxCount 0 ((0 : Nat) : Int) = 0 := slot_zero (le_refl 0) wf.positive
    simp only [contents, one, List.map_cons, List.map_nil, first, load_store, if_true]

/-- Dropping the oldest node, as both deleting readers do. -/
theorem WellFormed.drop (wf : Q.WellFormed) (some : 0 < Q.queueCount) :
    ({ Q with front := advance Q.maxCount Q.front, queueCount := Q.queueCount - 1 } :
      InterQueue M).WellFormed where
  front_nonneg := advance_nonneg wf.front_nonneg
  front_lt := advance_lt wf.positive
  count_nonneg := by simp only; omega
  count_le := by have := wf.count_le; simp only; omega
  rear_eq := by
    simp only
    rw [slot_advance wf.front_nonneg wf.front_lt, wf.rear_eq]
    congr 1
    omega

theorem contents_eq_cons (wf : Q.WellFormed) (some : 0 < Q.queueCount) :
    Q.contents = load Q.qNode Q.front ::
      ({ Q with front := advance Q.maxCount Q.front, queueCount := Q.queueCount - 1 } :
        InterQueue M).contents := by
  have count : Q.queueCount.toNat = (Q.queueCount - 1).toNat + 1 := by omega
  have first : slot Q.maxCount Q.front ((0 : Nat) : Int) = Q.front :=
    slot_zero wf.front_nonneg wf.front_lt
  unfold contents
  rw [count, List.range_succ_eq_map, List.map_cons, List.map_map, first]
  congr 1
  apply List.map_congr_left
  intro i _
  simp only [Function.comp, slot_advance wf.front_nonneg wf.front_lt]
  congr 2

theorem queueCount_pos_of_cons {x : α} {l : List α} (live : Q.contents = x :: l) :
    0 < Q.queueCount := by
  by_contra none
  rw [contents_eq_nil_iff.mpr (not_lt.mp none)] at live
  cases live

/-- On a non-empty queue the reader takes the head of the contents. -/
theorem getAndDelQueueinter_of_cons (wf : Q.WellFormed) (pe : α) {x : α} {l : List α}
    (live : Q.contents = x :: l) :
    (getAndDelQueueinter pe Q).1 = 0 ∧ (getAndDelQueueinter pe Q).2.1 = x ∧
      (getAndDelQueueinter pe Q).2.2.WellFormed ∧
      (getAndDelQueueinter pe Q).2.2.contents = l ∧
      (getAndDelQueueinter pe Q).2.2.maxCount = Q.maxCount := by
  have some := queueCount_pos_of_cons live
  rw [contents_eq_cons wf some, List.cons.injEq] at live
  rw [getAndDelQueueinter_of_pos _ some]
  exact ⟨rfl, live.1, wf.drop some, live.2, rfl⟩

theorem getAndDelQueueinter_of_nil (pe : α) (live : Q.contents = []) :
    getAndDelQueueinter pe Q = (-1, pe, Q) :=
  getAndDelQueueinter_of_empty _ (contents_eq_nil_iff.mp live)

theorem getQueueinter_of_cons (wf : Q.WellFormed) (pe : α) {x : α} {l : List α}
    (live : Q.contents = x :: l) : getQueueinter pe Q = (0, x, Q) := by
  have some := queueCount_pos_of_cons live
  rw [contents_eq_cons wf some, List.cons.injEq] at live
  rw [getQueueinter_of_pos _ some, live.1]

@[simp] theorem maxCount_enQueueinter (pe : α) :
    (Queue.enQueueinter pe Q).2.maxCount = Q.maxCount := by
  rcases lt_or_ge Q.queueCount Q.maxCount with room | full
  · rw [enQueueinter_of_room _ room]
  · rw [enQueueinter_of_full _ full]

/-! ## Blocks of nodes -/

@[simp] theorem maxCount_enAll (ms : List α) : (enAll Q ms).maxCount = Q.maxCount := by
  induction ms generalizing Q with
  | nil => rfl
  | cons pe ms ih => exact ih.trans (maxCount_enQueueinter pe)

theorem WellFormed.enAll (wf : Q.WellFormed) (ms : List α) : (Queue.enAll Q ms).WellFormed := by
  induction ms generalizing Q with
  | nil => exact wf
  | cons pe ms ih => exact ih (wf.enQueueinter pe)

theorem contents_enAll (wf : Q.WellFormed) (ms : List α) :
    (Queue.enAll Q ms).contents = pushAll Q.capacity Q.contents ms := by
  induction ms generalizing Q with
  | nil => rfl
  | cons pe ms ih =>
      have same : (Queue.enQueueinter pe Q).2.capacity = Q.capacity := by
        rw [capacity, maxCount_enQueueinter, capacity]
      rw [pushAll_cons, ← contents_enQueueinter wf pe, ← same]
      exact ih (wf.enQueueinter pe)

/-- What holds of the nodes waiting and of the block holds of the nodes waiting after it. -/
theorem forall_mem_enAll (wf : Q.WellFormed) {P : α → Prop} {ms : List α}
    (old : ∀ m ∈ Q.contents, P m) (new : ∀ m ∈ ms, P m) :
    ∀ m ∈ (Queue.enAll Q ms).contents, P m := by
  intro m mem
  rw [contents_enAll wf] at mem
  rcases mem_pushAll mem with waiting | pushed
  · exact old m waiting
  · exact new m pushed

/-- The last node of a block is waiting, whatever the queue held. -/
theorem mem_enAll_concat (wf : Q.WellFormed) (ms : List α) (m : α) :
    m ∈ (Queue.enAll Q (ms ++ [m])).contents := by
  rw [contents_enAll wf]
  exact mem_pushAll_concat _ _ _ _

end Contents

/-! ## Relabelled nodes -/

section Relabel

variable {β : Type}

theorem contents_map (f : α → β) (Q : InterQueue (Int → α)) :
    (Q.map f).contents = Q.contents.map f := by
  simp only [contents, map, List.map_map]
  rfl

theorem wellFormed_map {f : α → β} {Q : InterQueue (Int → α)} (wf : Q.WellFormed) :
    (Q.map f).WellFormed :=
  ⟨wf.front_nonneg, wf.front_lt, wf.count_nonneg, wf.count_le, wf.rear_eq⟩

end Relabel

end InterQueue

/-! ## The abstract queue and the simulation -/

/-- The five calls on a bounded list: `EnQueueinter` pushes, the deleting readers take
the head, and the three readers answer -1 on the empty list. -/
def fifoStep {cap : Nat} (positive : 0 < cap) (q : Bounded α cap) :
    QueueCall α → Bounded α cap × QueueReturn α
  | .init => (Bounded.empty, ⟨0, none⟩)
  | .en pe => (q.push positive pe, ⟨0, some pe⟩)
  | .getAndDel pe =>
      match q.items with
      | [] => (q, ⟨-1, some pe⟩)
      | x :: _ => (q.pop, ⟨0, some x⟩)
  | .get pe =>
      match q.items with
      | [] => (q, ⟨-1, some pe⟩)
      | x :: _ => (q, ⟨0, some x⟩)
  | .del =>
      match q.items with
      | [] => (q, ⟨-1, none⟩)
      | _ :: _ => (q.pop, ⟨0, none⟩)

/-- The ring `Q` stands for the bounded list `q`. -/
structure Represents [NodeMemory M α] {cap : Nat} (Q : InterQueue M) (q : Bounded α cap) :
    Prop where
  wellFormed : Q.WellFormed
  bound : Q.capacity = cap
  live : Q.contents = q.items

section Simulation

variable [NodeMemory M α] {cap : Nat} {Q : InterQueue M} {q : Bounded α cap}

theorem Represents.getAndDel (rep : Represents Q q) (pe : α) {x : α} {l : List α}
    (items : q.items = x :: l) :
    (getAndDelQueueinter pe Q).1 = 0 ∧ (getAndDelQueueinter pe Q).2.1 = x ∧
      Represents (getAndDelQueueinter pe Q).2.2 q.pop := by
  obtain ⟨ret, buffer, wf, rest, bound⟩ :=
    InterQueue.getAndDelQueueinter_of_cons rep.wellFormed pe (rep.live.trans items)
  refine ⟨ret, buffer, wf, ?_, ?_⟩
  · rw [InterQueue.capacity, bound]
    exact rep.bound
  · rw [rest]
    simp only [Bounded.pop, items, List.tail_cons]

/-- One call answers as the list does and keeps the representation. -/
theorem queueStep_simulates (positive : 0 < cap) (rep : Represents Q q) (call : QueueCall α) :
    Represents (queueStep Q call).1 (fifoStep positive q call).1 ∧
      (queueStep Q call).2 = (fifoStep positive q call).2 := by
  cases call with
  | init =>
      exact ⟨⟨InterQueue.wellFormed_initQueueinter rep.wellFormed.positive, rep.bound,
        InterQueue.contents_initQueueinter⟩, rfl⟩
  | en pe =>
      refine ⟨⟨rep.wellFormed.enQueueinter pe, ?_, ?_⟩, rfl⟩
      · rw [← rep.bound]
        simp only [queueStep, InterQueue.capacity, InterQueue.maxCount_enQueueinter]
      · simp only [queueStep, fifoStep, Bounded.push]
        rw [InterQueue.contents_enQueueinter rep.wellFormed, rep.live, rep.bound]
  | getAndDel pe =>
      cases items : q.items with
      | nil =>
          have same := InterQueue.getAndDelQueueinter_of_nil pe (rep.live.trans items)
          simp only [queueStep, fifoStep, items, same]
          exact ⟨rep, trivial⟩
      | cons x l =>
          obtain ⟨ret, buffer, next⟩ := rep.getAndDel pe items
          simp only [queueStep, fifoStep, items, ret, buffer]
          exact ⟨next, trivial⟩
  | get pe =>
      cases items : q.items with
      | nil =>
          have empty := InterQueue.contents_eq_nil_iff.mp (rep.live.trans items)
          simp only [queueStep, fifoStep, items, getQueueinter_of_empty pe empty]
          exact ⟨rep, trivial⟩
      | cons x l =>
          have head := InterQueue.getQueueinter_of_cons rep.wellFormed pe (rep.live.trans items)
          simp only [queueStep, fifoStep, items, head]
          exact ⟨rep, trivial⟩
  | del =>
      cases items : q.items with
      | nil =>
          have same : delQueueinter Q = (-1, Q) :=
            if_pos (InterQueue.contents_eq_nil_iff.mp (rep.live.trans items))
          simp only [queueStep, fifoStep, items, same]
          exact ⟨rep, trivial⟩
      | cons x l =>
          obtain ⟨ret, -, next⟩ := rep.getAndDel x items
          simp only [queueStep, fifoStep, items, delQueueinter_eq x Q, ret]
          exact ⟨next, trivial⟩

/-- In a represented state every slot handed to `memcpy` lies in the ring. -/
theorem memcpySlots_in_ring (rep : Represents Q q) (call : QueueCall α) {i : Int}
    (used : i ∈ memcpySlots Q call) : 0 ≤ i ∧ i < Q.maxCount := by
  have wf := rep.wellFormed
  have front : 0 ≤ Q.front ∧ Q.front < Q.maxCount := ⟨wf.front_nonneg, wf.front_lt⟩
  have reader (used : i ∈ if Q.queueCount ≤ 0 then [] else [Q.front]) :
      0 ≤ i ∧ i < Q.maxCount := by
    split at used
    · cases used
    · rw [List.mem_singleton] at used
      rwa [used]
  cases call with
  | init => cases used
  | del => cases used
  | getAndDel pe => exact reader used
  | get pe => exact reader used
  | en pe =>
      simp only [memcpySlots, List.mem_singleton] at used
      subst used
      rcases lt_or_ge Q.queueCount Q.maxCount with room | full
      · rw [enSlot_of_room room]
        exact ⟨wf.rear_nonneg, wf.rear_lt⟩
      · rw [enSlot_of_full full]
        exact ⟨le_refl _, wf.positive⟩

/-- A call that fails leaves the queue and the caller's buffer as they were. -/
theorem queueStep_unchanged_of_error (Q : InterQueue M) (call : QueueCall α)
    (error : (queueStep Q call).2.ret = -1) :
    (queueStep Q call).1 = Q ∧ (queueStep Q call).2.buffer = call.buffer := by
  rcases le_or_gt Q.queueCount 0 with empty | some
  · cases call with
    | init => cases error
    | en pe => cases error
    | getAndDel pe => simp [queueStep, getAndDelQueueinter_of_empty pe empty, QueueCall.buffer]
    | get pe => simp [queueStep, getQueueinter_of_empty pe empty, QueueCall.buffer]
    | del => simp [queueStep, delQueueinter, empty, QueueCall.buffer]
  · exfalso
    have live : ¬ Q.queueCount ≤ 0 := not_le.mpr some
    cases call with
    | init => cases error
    | en pe => cases error
    | getAndDel pe => simp [queueStep, getAndDelQueueinter_of_pos pe some] at error
    | get pe => simp [queueStep, getQueueinter_of_pos pe some] at error
    | del => simp [queueStep, delQueueinter, live] at error

/-- The readers fail on the empty list and nowhere else. -/
theorem queueStep_error_iff (rep : Represents Q q) (call : QueueCall α) :
    (queueStep Q call).2.ret = -1 ↔ call.reads ∧ q.items = [] := by
  rw [← rep.live, InterQueue.contents_eq_nil_iff]
  rcases le_or_gt Q.queueCount 0 with empty | some
  · cases call <;>
      simp [queueStep, QueueCall.reads, initQueueinter, enQueueinter, delQueueinter,
        getAndDelQueueinter, getQueueinter, empty]
  · have live : ¬ Q.queueCount ≤ 0 := not_le.mpr some
    cases call <;>
      simp [queueStep, QueueCall.reads, initQueueinter, enQueueinter, delQueueinter,
        getAndDelQueueinter, getQueueinter, live]

end Simulation

/-! ## Runs -/

theorem capacity_pos_of_maxCount {Q : InterQueue M} (positive : 1 ≤ Q.maxCount) :
    0 < Q.capacity := by
  unfold InterQueue.capacity
  omega

/-- Every run of calls on an initialised ring of `size`-byte nodes gives the return values
and buffers of the same run on the bounded list, and ends in a ring that stands for that
list: cursors and `memcpy` slots in range, a failing call without effect. -/
theorem queue_refines_boundedFifo (size : Nat) (Q₀ : InterQueue (NodeBytes size))
    (positive : 1 ≤ Q₀.maxCount) (calls : List (QueueCall (Vector UInt8 size))) :
    let cap := Q₀.capacity
    let fifo : Bounded (Vector UInt8 size) cap → QueueCall (Vector UInt8 size) → _ :=
      fifoStep (capacity_pos_of_maxCount positive)
    let Q := runState queueStep (initQueueinter Q₀).2 calls
    let q := runState fifo Bounded.empty calls
    runOutputs queueStep (initQueueinter Q₀).2 calls = runOutputs fifo Bounded.empty calls ∧
      Represents Q q ∧ Q.maxCount = Q₀.maxCount ∧
      (0 ≤ Q.front ∧ Q.front < Q.maxCount ∧ 0 ≤ Q.rear ∧ Q.rear < Q.maxCount ∧
        Q.rear = (Q.front + Q.queueCount) % Q.maxCount) ∧
      (∀ call, ((queueStep Q call).2.ret = -1 ↔ call.reads ∧ q.items = []) ∧
        ((queueStep Q call).2.ret = -1 →
          (queueStep Q call).1 = Q ∧ (queueStep Q call).2.buffer = call.buffer)) ∧
      ∀ call : QueueCall (Vector UInt8 size), ∀ i ∈ memcpySlots Q call,
        0 ≤ i ∧ i < Q.maxCount := by
  intro cap fifo Q q
  have start : Represents (initQueueinter Q₀).2 (Bounded.empty : Bounded _ cap) :=
    ⟨InterQueue.wellFormed_initQueueinter (by omega), rfl, InterQueue.contents_initQueueinter⟩
  have kept : ∀ (Q : InterQueue (NodeBytes size)) (q : Bounded _ cap) (call : QueueCall _),
      Represents Q q → Represents (queueStep Q call).1 (fifo q call).1 ∧
        (queueStep Q call).2 = (fifo q call).2 :=
    fun _ _ call related => queueStep_simulates _ related call
  obtain ⟨rep, outputs⟩ := runOutputs_simulation kept start calls
  have wf : Q.WellFormed := rep.wellFormed
  have bound : Q.maxCount = Q₀.maxCount := by
    have same : Q.maxCount.toNat = Q₀.maxCount.toNat := rep.bound
    have := wf.positive
    omega
  exact ⟨outputs, rep, bound,
    ⟨wf.front_nonneg, wf.front_lt, wf.rear_nonneg, wf.rear_lt, wf.rear_eq⟩,
    fun call => ⟨queueStep_error_iff rep call, queueStep_unchanged_of_error Q call⟩,
    fun call _ used => memcpySlots_in_ring rep call used⟩

/-- A ring of two one-byte nodes, filled past its bound: the third node is alone. -/
theorem queue_refines_boundedFifo_overflow :
    (runState queueStep (initQueueinter (⟨0, 0, 0, ⟨fun _ => 0⟩, 2⟩ : InterQueue (NodeBytes 1))).2
      [.en #v[1], .en #v[2], .en #v[3]]).contents = [#v[3]] :=
  (queue_refines_boundedFifo 1 ⟨0, 0, 0, ⟨fun _ => 0⟩, 2⟩ (by decide)
    [.en #v[1], .en #v[2], .en #v[3]]).2.1.live.trans (by rfl)

end Stm32Robot.Motor.Queue
