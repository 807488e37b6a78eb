/-
# Kernel.MessageQueue -- the ring of messages of a uC/OS-II queue

`os_q.c` keeps the messages of a queue in an array of pointers the caller of `OSQCreate` gives,
from `OSQStart` to `OSQEnd`, and writes at `OSQIn` and reads at `OSQOut`.  `OSQPostFront` writes
before `OSQOut`.  The pointers are offsets from `OSQStart` here, and a message is a pointer,
which may be null.

`OsQ.contents` is what waits, in the order in which it will be read; each function acts on it as
the list operation it stands for.
-/
import Mathlib.Tactic.Ring
import Stm32Robot.Theory.RingList

namespace Stm32Robot.Kernel

open Stm32Robot.Theory.RingAddress
open Stm32Robot.Theory.RingList

set_option autoImplicit false

/-- `OS_Q`, with the array from `OSQStart` on. -/
structure OsQ (Msg : Type) where
  osQStart : Int → Option Msg
  osQIn : Int
  osQOut : Int
  osQSize : Int
  osQEntries : Int

namespace OsQ

variable {Msg : Type}

/-- `if (pq->OSQIn == pq->OSQEnd) pq->OSQIn = pq->OSQStart;` after the pointer is moved on. -/
def wrap (q : OsQ Msg) (p : Int) : Int := if p = q.osQSize then 0 else p

/-- The fields as `OSQCreate` sets them; `start` is what the array held. -/
def create (start : Int → Option Msg) (size : Nat) : OsQ Msg where
  osQStart := start
  osQIn := 0
  osQOut := 0
  osQSize := size
  osQEntries := 0

/-- `OSQPost`, once nobody waits: the test for room and the insertion. -/
def postBack (q : OsQ Msg) (pmsg : Option Msg) : Option (OsQ Msg) :=
  if q.osQEntries ≥ q.osQSize then none
  else
    some { q with
      osQStart := Function.update q.osQStart q.osQIn pmsg
      osQIn := q.wrap (q.osQIn + 1)
      osQEntries := q.osQEntries + 1 }

/-- `OSQPostFront`, once nobody waits. -/
def postFront (q : OsQ Msg) (pmsg : Option Msg) : Option (OsQ Msg) :=
  if q.osQEntries ≥ q.osQSize then none
  else
    let out := (if q.osQOut = 0 then q.osQSize else q.osQOut) - 1
    some { q with
      osQStart := Function.update q.osQStart out pmsg
      osQOut := out
      osQEntries := q.osQEntries + 1 }

/-- What `OSQPend` and `OSQAccept` do where a message waits. -/
def take (q : OsQ Msg) : Option (Option Msg × OsQ Msg) :=
  if q.osQEntries > 0 then
    some (q.osQStart q.osQOut,
      { q with osQOut := q.wrap (q.osQOut + 1), osQEntries := q.osQEntries - 1 })
  else none

/-- `OSQFlush` -/
def flush (q : OsQ Msg) : OsQ Msg := { q with osQIn := 0, osQOut := 0, osQEntries := 0 }

/-! ## The ring and its contents -/

/-- The count is within the array and the two pointers stay that far apart. -/
structure WellFormed (q : OsQ Msg) : Prop where
  entries_nonneg : 0 ≤ q.osQEntries
  entries_le : q.osQEntries ≤ q.osQSize
  out_nonneg : 0 ≤ q.osQOut
  out_lt : 0 < q.osQSize → q.osQOut < q.osQSize
  in_eq : 0 < q.osQSize → q.osQIn = slot q.osQSize q.osQOut q.osQEntries

/-- What waits, the next message first. -/
def contents (q : OsQ Msg) : List (Option Msg) :=
  window q.osQStart q.osQSize q.osQOut q.osQEntries.toNat

variable {q r : OsQ Msg}

theorem wrap_eq_advance {p : Int} (lt : p < q.osQSize) :
    q.wrap (p + 1) = advance q.osQSize p := by
  unfold wrap advance
  split <;> split <;> omega

theorem contents_eq_nil_iff : q.contents = [] ↔ q.osQEntries ≤ 0 := by
  rw [contents, window_eq_nil_iff]
  omega

theorem WellFormed.length_contents (wf : q.WellFormed) :
    (q.contents.length : Int) = q.osQEntries := by
  have := wf.entries_nonneg
  rw [contents, length_window]
  omega

theorem WellFormed.length_le (wf : q.WellFormed) : (q.contents.length : Int) ≤ q.osQSize := by
  rw [wf.length_contents]
  exact wf.entries_le

theorem wellFormed_create (start : Int → Option Msg) (size : Nat) :
    (create start size).WellFormed where
  entries_nonneg := le_refl 0
  entries_le := Int.natCast_nonneg size
  out_nonneg := le_refl 0
  out_lt := id
  in_eq := fun positive => (slot_zero (le_refl 0) positive).symm

@[simp] theorem contents_create (start : Int → Option Msg) (size : Nat) :
    (create start size).contents = [] := rfl

theorem WellFormed.flush (wf : q.WellFormed) : q.flush.WellFormed where
  entries_nonneg := le_refl 0
  entries_le := wf.entries_nonneg.trans wf.entries_le
  out_nonneg := le_refl 0
  out_lt := id
  in_eq := fun positive => (slot_zero (le_refl 0) positive).symm

@[simp] theorem contents_flush (q : OsQ Msg) : q.flush.contents = [] := rfl

/-! ## Posting -/

/-- A message posted is the last one that waits. -/
theorem WellFormed.postBack (wf : q.WellFormed) {pmsg : Option Msg}
    (posted : q.postBack pmsg = some r) :
    r.WellFormed ∧ r.contents = q.contents ++ [pmsg] ∧ r.osQSize = q.osQSize := by
  have low := wf.entries_nonneg
  unfold OsQ.postBack at posted
  split at posted
  next => cases posted
  next room =>
    have positive : 0 < q.osQSize := by omega
    have grown : (q.osQEntries + 1).toNat = q.osQEntries.toNat + 1 := by omega
    have count : ((q.osQEntries.toNat : Nat) : Int) = q.osQEntries := by omega
    have place := wf.in_eq positive
    have inside : q.osQIn < q.osQSize := place ▸ slot_lt positive
    cases posted
    refine ⟨⟨?_, ?_, wf.out_nonneg, wf.out_lt, fun _ => ?_⟩, ?_, rfl⟩
    · show 0 ≤ q.osQEntries + 1
      omega
    · show q.osQEntries + 1 ≤ q.osQSize
      omega
    · show q.wrap (q.osQIn + 1) = slot q.osQSize q.osQOut (q.osQEntries + 1)
      rw [wrap_eq_advance inside, place, advance_slot positive]
    · show window (Function.update q.osQStart q.osQIn pmsg) q.osQSize q.osQOut
        (q.osQEntries + 1).toNat = q.contents ++ [pmsg]
      have back : window (Function.update q.osQStart (slot q.osQSize q.osQOut
          (q.osQEntries.toNat : Nat)) pmsg) q.osQSize q.osQOut (q.osQEntries.toNat + 1) =
          q.contents ++ [pmsg] := window_update_back (by omega) pmsg
      rw [count] at back
      rw [grown, place]
      exact back

/-- A message posted to the front is the next one. -/
theorem WellFormed.postFront (wf : q.WellFormed) {pmsg : Option Msg}
    (posted : q.postFront pmsg = some r) :
    r.WellFormed ∧ r.contents = pmsg :: q.contents ∧ r.osQSize = q.osQSize := by
  have low := wf.entries_nonneg
  have start := wf.out_nonneg
  unfold OsQ.postFront at posted
  split at posted
  next => cases posted
  next room =>
    have positive : 0 < q.osQSize := by omega
    have inside := wf.out_lt positive
    have grown : (q.osQEntries + 1).toNat = q.osQEntries.toNat + 1 := by omega
    have low' := retreat_nonneg positive start
    have high' : retreat q.osQSize q.osQOut < q.osQSize := retreat_lt inside
    cases posted
    refine ⟨⟨?_, ?_, low', fun _ => high', fun _ => ?_⟩, ?_, rfl⟩
    · show 0 ≤ q.osQEntries + 1
      omega
    · show q.osQEntries + 1 ≤ q.osQSize
      omega
    · show q.osQIn = slot q.osQSize (retreat q.osQSize q.osQOut) (q.osQEntries + 1)
      rw [← slot_advance low' high', advance_retreat inside]
      exact wf.in_eq positive
    · show window (Function.update q.osQStart (retreat q.osQSize q.osQOut) pmsg) q.osQSize
        (retreat q.osQSize q.osQOut) (q.osQEntries + 1).toNat = pmsg :: q.contents
      rw [grown, window_update_front start inside (by omega)]
      rfl

/-! ## Reading -/

theorem take_eq_none_iff : q.take = none ↔ q.contents = [] := by
  rw [contents_eq_nil_iff]
  unfold take
  split
  next some => exact iff_of_false (Option.some_ne_none _) (by omega)
  next none => exact iff_of_true rfl (by omega)

/-- The first message that waits is taken. -/
theorem WellFormed.take (wf : q.WellFormed) {m : Option Msg} (taken : q.take = some (m, r)) :
    r.WellFormed ∧ q.contents = m :: r.contents ∧ r.osQSize = q.osQSize := by
  have high := wf.entries_le
  unfold OsQ.take at taken
  split at taken
  next waits =>
    have positive : 0 < q.osQSize := by omega
    have inside := wf.out_lt positive
    have shrunk : q.osQEntries.toNat = (q.osQEntries - 1).toNat + 1 := by omega
    have moved : q.wrap (q.osQOut + 1) = advance q.osQSize q.osQOut := wrap_eq_advance inside
    cases taken
    refine ⟨⟨?_, ?_, ?_, fun _ => ?_, fun _ => ?_⟩, ?_, rfl⟩
    · show 0 ≤ q.osQEntries - 1
      omega
    · show q.osQEntries - 1 ≤ q.osQSize
      omega
    · show 0 ≤ q.wrap (q.osQOut + 1)
      rw [moved]
      exact advance_nonneg wf.out_nonneg
    · show q.wrap (q.osQOut + 1) < q.osQSize
      rw [moved]
      exact advance_lt positive
    · show q.osQIn = slot q.osQSize (q.wrap (q.osQOut + 1)) (q.osQEntries - 1)
      rw [moved, slot_advance wf.out_nonneg inside, sub_add_cancel]
      exact wf.in_eq positive
    · show window q.osQStart q.osQSize q.osQOut q.osQEntries.toNat = _ ::
        window q.osQStart q.osQSize (q.wrap (q.osQOut + 1)) (q.osQEntries - 1).toNat
      rw [shrunk, window_succ wf.out_nonneg inside, moved]
  next => cases taken

end OsQ

end Stm32Robot.Kernel
