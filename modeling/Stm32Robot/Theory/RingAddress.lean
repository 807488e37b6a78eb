/-
# Theory.RingAddress -- slot addresses of a ring of `cap` cells

`slot cap front i` is the cell `i` places after `front`, counted round the ring, and
`advance cap p` is the cursor step a program takes: add one, and start again at zero
on reaching `cap`.  The lemmas say that the first `cap` offsets address distinct cells
inside the ring and that moving `front` by one step shifts every offset by one.
-/
import Mathlib.Data.Int.ModEq

namespace Stm32Robot.Theory.RingAddress

set_option autoImplicit false

/-- The cell `i` places after `front`. -/
def slot (cap front i : Int) : Int := (front + i) % cap

/-- One cursor step with a wrap test. -/
def advance (cap p : Int) : Int := if p + 1 ≥ cap then 0 else p + 1

variable {cap front i j : Int}

theorem slot_nonneg (positive : 0 < cap) : 0 ≤ slot cap front i :=
  Int.emod_nonneg _ positive.ne'

theorem slot_lt (positive : 0 < cap) : slot cap front i < cap :=
  Int.emod_lt_of_pos _ positive

theorem slot_zero (nonneg : 0 ≤ front) (lt : front < cap) : slot cap front 0 = front := by
  unfold slot
  rw [add_zero]
  exact Int.emod_eq_of_lt nonneg lt

theorem advance_nonneg (nonneg : 0 ≤ front) : 0 ≤ advance cap front := by
  unfold advance
  split <;> omega

theorem advance_lt (positive : 0 < cap) : advance cap front < cap := by
  unfold advance
  split <;> omega

/-- The wrap test computes the remainder. -/
theorem advance_eq_emod (nonneg : 0 ≤ front) (lt : front < cap) :
    advance cap front = (front + 1) % cap := by
  unfold advance
  split
  · have last : front + 1 = cap := by omega
    rw [last, Int.emod_self]
  · exact (Int.emod_eq_of_lt (by omega) (by omega)).symm

theorem slot_advance (nonneg : 0 ≤ front) (lt : front < cap) :
    slot cap (advance cap front) i = slot cap front (i + 1) := by
  unfold slot
  rw [advance_eq_emod nonneg lt, Int.emod_add_emod]
  congr 1
  omega

/-- Stepping the cell at offset `i` gives the cell at offset `i + 1`. -/
theorem advance_slot (positive : 0 < cap) :
    advance cap (slot cap front i) = slot cap front (i + 1) := by
  rw [advance_eq_emod (slot_nonneg positive) (slot_lt positive)]
  unfold slot
  rw [Int.emod_add_emod]
  congr 1
  omega

/-- Offsets within one turn address distinct cells. -/
theorem slot_injective (hi : 0 ≤ i) (hic : i < cap) (hj : 0 ≤ j) (hjc : j < cap)
    (same : slot cap front i = slot cap front j) : i = j := by
  have divides : cap ∣ (front + j) - (front + i) := (Int.ModEq.dvd same)
  have close : cap ∣ j - i := by
    have shift : (front + j) - (front + i) = j - i := by omega
    rwa [shift] at divides
  have zero : j - i = 0 := Int.eq_zero_of_abs_lt_dvd close (by rw [abs_lt]; omega)
  omega

end Stm32Robot.Theory.RingAddress
