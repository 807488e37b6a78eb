/-
# Theory.RingList -- the list a ring of cells holds

`window cells cap front n` reads the `n` cells from `front` on, round a ring of `cap`.  Writing
behind the window makes it longer at its end, writing before it longer at its head, and moving
`front` one cell on drops the head.
-/
import Mathlib.Logic.Function.Basic
import Stm32Robot.Theory.RingAddress

namespace Stm32Robot.Theory.RingList

open Stm32Robot.Theory.RingAddress

set_option autoImplicit false

variable {α : Type*} {cells : Int → α} {cap front : Int} {n : Nat}

/-- The `n` cells from `front` on. -/
def window (cells : Int → α) (cap front : Int) (n : Nat) : List α :=
  (List.range n).map fun (i : Nat) => cells (slot cap front i)

@[simp] theorem window_zero (cells : Int → α) (cap front : Int) : window cells cap front 0 = [] :=
  rfl

@[simp] theorem length_window (cells : Int → α) (cap front : Int) (n : Nat) :
    (window cells cap front n).length = n := by
  simp [window]

theorem window_eq_nil_iff : window cells cap front n = [] ↔ n = 0 := by
  rw [← List.length_eq_zero_iff, length_window]

/-- One cell backwards, with a wrap test. -/
def retreat (cap p : Int) : Int := (if p = 0 then cap else p) - 1

theorem retreat_nonneg (positive : 0 < cap) (nonneg : 0 ≤ front) : 0 ≤ retreat cap front := by
  unfold retreat
  split <;> omega

theorem retreat_lt (lt : front < cap) : retreat cap front < cap := by
  unfold retreat
  split <;> omega

theorem advance_retreat (lt : front < cap) :
    advance cap (retreat cap front) = front := by
  unfold advance retreat
  split <;> split <;> omega

/-- The head of a window, and the window one cell on. -/
theorem window_succ (nonneg : 0 ≤ front) (lt : front < cap) :
    window cells cap front (n + 1) = cells front :: window cells cap (advance cap front) n := by
  have first : slot cap front ((0 : Nat) : Int) = front := slot_zero nonneg lt
  unfold window
  rw [List.range_succ_eq_map, List.map_cons, List.map_map, first]
  congr 1
  apply List.map_congr_left
  intro i _
  rw [slot_advance nonneg lt, Function.comp_apply, Nat.cast_succ]

/-- A cell written outside of the window is not seen in it. -/
theorem window_update_of_outside {c : Int} (x : α)
    (outside : ∀ i : Nat, i < n → slot cap front i ≠ c) :
    window (Function.update cells c x) cap front n = window cells cap front n := by
  apply List.map_congr_left
  intro i inside
  exact Function.update_of_ne (outside i (List.mem_range.mp inside)) _ _

/-- Written behind the window. -/
theorem window_update_back (room : (n : Int) < cap) (x : α) :
    window (Function.update cells (slot cap front n) x) cap front (n + 1) =
      window cells cap front n ++ [x] := by
  have kept : window (Function.update cells (slot cap front n) x) cap front n =
      window cells cap front n := by
    apply window_update_of_outside
    intro i inside same
    have := slot_injective (by omega) (by omega) (by omega) room same
    omega
  rw [← kept]
  simp [window, List.range_succ]

/-- Written before the window. -/
theorem window_update_front (nonneg : 0 ≤ front) (lt : front < cap) (room : (n : Int) < cap)
    (x : α) :
    window (Function.update cells (retreat cap front) x) cap (retreat cap front) (n + 1) =
      x :: window cells cap front n := by
  have positive : 0 < cap := by omega
  have low := retreat_nonneg positive nonneg
  have high : retreat cap front < cap := retreat_lt lt
  rw [window_succ low high, Function.update_self, advance_retreat lt]
  congr 1
  apply window_update_of_outside
  intro i inside same
  have start : slot cap (retreat cap front) ((i : Int) + 1) = slot cap front i := by
    rw [← slot_advance low high, advance_retreat lt]
  have itself : slot cap (retreat cap front) 0 = retreat cap front := slot_zero low high
  rw [← start, ← itself] at same
  rw [itself] at same
  have := slot_injective (by omega) (by omega) (le_refl 0) positive (same.trans itself.symm)
  omega

end Stm32Robot.Theory.RingList
