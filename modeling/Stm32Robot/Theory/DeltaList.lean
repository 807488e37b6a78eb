/-
# Theory.DeltaList -- deadlines kept as differences

A delta list keeps with each entry how much later it is due than the entry before it.  `due c l`
are the deadlines of a delta list whose first difference counts from `c`.
Each operation on the differences is the plain one on the deadlines: inserting behind all that
is due no later (`due_insertDelta`), removing (`due_eraseDelta`), and the passing of time up to the
first deadline (`due_pass`), which no entry but the first one notices.
-/
import Mathlib.Data.List.Sort

namespace Stm32Robot.Theory.DeltaList

set_option autoImplicit false

variable {α : Type*} {c d m t : Nat} {x y : α} {l : List (Nat × α)} {p : α → Bool}

/-- The deadlines. -/
def due (c : Nat) : List (Nat × α) → List (Nat × α)
  | [] => []
  | (d, x) :: l => (c + d, x) :: due (c + d) l

/-- The differences with one more entry, due `m` after the start. -/
def insertDelta (m : Nat) (x : α) : List (Nat × α) → List (Nat × α)
  | [] => [(m, x)]
  | (d, y) :: l => if m < d then (m, x) :: (d - m, y) :: l else (d, y) :: insertDelta (m - d) x l

/-- The first difference made longer. -/
def delay (d : Nat) : List (Nat × α) → List (Nat × α)
  | [] => []
  | (e, x) :: l => (e + d, x) :: l

/-- The differences without the first entry of a kind. -/
def eraseDelta (p : α → Bool) : List (Nat × α) → List (Nat × α)
  | [] => []
  | (d, y) :: l => if p y then delay d l else (d, y) :: eraseDelta p l

/-- From the start to the last deadline. -/
def span : List (Nat × α) → Nat
  | [] => 0
  | (d, _) :: l => d + span l

/-- Due before. -/
def Before (a b : Nat × α) : Prop := a.1 < b.1

instance : DecidableRel (Before (α := α)) := fun a b => inferInstanceAs (Decidable (a.1 < b.1))

@[simp] theorem due_nil (c : Nat) : due c ([] : List (Nat × α)) = [] := rfl

@[simp] theorem due_cons (c d : Nat) (x : α) (l : List (Nat × α)) :
    due c ((d, x) :: l) = (c + d, x) :: due (c + d) l := rfl

@[simp] theorem length_due (c : Nat) (l : List (Nat × α)) : (due c l).length = l.length := by
  induction l generalizing c with
  | nil => rfl
  | cons e l ih => simp [due, ih]

theorem map_snd_due (c : Nat) (l : List (Nat × α)) : (due c l).map Prod.snd = l.map Prod.snd := by
  induction l generalizing c with
  | nil => rfl
  | cons e l ih => simp [due, ih]

/-- Every deadline is between the start and the end. -/
theorem mem_due {e : Nat × α} (mem : e ∈ due c l) : c ≤ e.1 ∧ e.1 ≤ c + span l := by
  induction l generalizing c with
  | nil => cases mem
  | cons f l ih =>
      obtain ⟨d, y⟩ := f
      rcases List.mem_cons.mp mem with rfl | later
      · exact ⟨Nat.le_add_right c d, by simp only [span]; omega⟩
      · have := ih later
        simp only [span]
        omega

theorem due_insertDelta (c m : Nat) (x : α) (l : List (Nat × α)) :
    due c (insertDelta m x l) = (due c l).orderedInsert Before (c + m, x) := by
  induction l generalizing c m with
  | nil => rfl
  | cons f l ih =>
      obtain ⟨d, y⟩ := f
      rw [due_cons, List.orderedInsert, insertDelta]
      by_cases early : m < d
      · have before : Before (c + m, x) (c + d, y) := Nat.add_lt_add_left early c
        have later : c + m + (d - m) = c + d := by omega
        rw [if_pos early, if_pos before, due_cons, due_cons, later]
      · have after : ¬ Before (c + m, x) (c + d, y) := fun before =>
          early (Nat.lt_of_add_lt_add_left before)
        have same : c + d + (m - d) = c + m := by omega
        rw [if_neg early, if_neg after, due_cons, ih, same]

theorem due_delay (c d : Nat) (l : List (Nat × α)) : due c (delay d l) = due (c + d) l := by
  cases l with
  | nil => rfl
  | cons f l =>
      obtain ⟨e, x⟩ := f
      have same : c + (e + d) = c + d + e := by omega
      rw [delay, due_cons, due_cons, same]

theorem due_eraseDelta (c : Nat) (p : α → Bool) (l : List (Nat × α)) :
    due c (eraseDelta p l) = (due c l).eraseP fun e => p e.2 := by
  induction l generalizing c with
  | nil => rfl
  | cons f l ih =>
      obtain ⟨d, y⟩ := f
      rw [due_cons, List.eraseP_cons, eraseDelta]
      by_cases found : p y = true
      · rw [if_pos found, cond_eq_ite, if_pos found, due_delay]
      · rw [if_neg found, cond_eq_ite, if_neg found, due_cons, ih]

/-- Time passes, up to the first deadline. -/
theorem due_pass (le : t ≤ d) : due (c + t) ((d - t, x) :: l) = due c ((d, x) :: l) := by
  have same : c + t + (d - t) = c + d := by omega
  rw [due_cons, due_cons, same]

theorem span_insertDelta (m : Nat) (x : α) (l : List (Nat × α)) :
    span (insertDelta m x l) = max m (span l) := by
  induction l generalizing m with
  | nil => simp [insertDelta, span]
  | cons f l ih =>
      obtain ⟨d, y⟩ := f
      rw [insertDelta]
      split
      · simp only [span]
        omega
      · simp only [span, ih]
        omega

theorem span_delay_le (d : Nat) (l : List (Nat × α)) : span (delay d l) ≤ d + span l := by
  cases l with
  | nil => exact Nat.zero_le _
  | cons f l =>
      simp only [delay, span]
      omega

theorem span_eraseDelta_le (p : α → Bool) (l : List (Nat × α)) :
    span (eraseDelta p l) ≤ span l := by
  induction l with
  | nil => exact le_refl _
  | cons f l ih =>
      obtain ⟨d, y⟩ := f
      rw [eraseDelta]
      split
      · exact span_delay_le d l
      · simp only [span]
        omega

end Stm32Robot.Theory.DeltaList
