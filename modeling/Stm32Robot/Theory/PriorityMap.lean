/-
# Theory.PriorityMap -- a set of priorities as a two-level bitmap

`w * w` priorities are kept as `w` rows of `w` bits, and one more row, `grp`, has a bit for
each row that is not empty.  `first` finds the lowest bit of a row; applied to `grp`, and to the
row it names, it finds the lowest priority of the set without looking at the others.

The group row and the rows agree in every value of the type: `set` and `clear` are the only ways
to change one.
-/
import Mathlib.Data.BitVec
import Mathlib.Logic.Function.Basic

namespace Stm32Robot.Theory

set_option autoImplicit false

variable {w : Nat}

/-! ## Bits of a row -/

/-- Bit `x` of a row is set. -/
def Has (v : BitVec w) (x : Fin w) : Prop := v.getLsbD x = true

instance (v : BitVec w) (x : Fin w) : Decidable (Has v x) := inferInstanceAs (Decidable (_ = true))

@[simp] theorem not_has_zero (x : Fin w) : ¬ Has 0#w x := by
  unfold Has
  rw [BitVec.getLsbD_zero]
  exact Bool.false_ne_true

theorem ne_zero_iff {v : BitVec w} : v ≠ 0#w ↔ ∃ x, Has v x := by
  constructor
  · intro nonzero
    by_contra none
    apply nonzero
    apply BitVec.eq_of_getLsbD_eq
    intro i inside
    rw [BitVec.getLsbD_zero, ← Bool.not_eq_true]
    exact fun bit => none ⟨⟨i, inside⟩, bit⟩
  · rintro ⟨x, bit⟩ rfl
    exact not_has_zero x bit

/-- `v |= 1 << x` -/
@[simp] theorem has_or_twoPow (v : BitVec w) (x i : Fin w) :
    Has (v ||| BitVec.twoPow w x) i ↔ i = x ∨ Has v i := by
  unfold Has
  rw [BitVec.getLsbD_or, BitVec.getLsbD_twoPow, Bool.or_eq_true, Bool.and_eq_true,
    decide_eq_true_iff, decide_eq_true_iff, Fin.ext_iff]
  constructor
  · rintro (old | ⟨-, same⟩)
    · exact Or.inr old
    · exact Or.inl same.symm
  · rintro (same | old)
    · exact Or.inr ⟨x.isLt, same.symm⟩
    · exact Or.inl old

/-- `v &= ~(1 << x)` -/
@[simp] theorem has_and_not_twoPow (v : BitVec w) (x i : Fin w) :
    Has (v &&& ~~~(BitVec.twoPow w x)) i ↔ i ≠ x ∧ Has v i := by
  unfold Has
  rw [BitVec.getLsbD_and, BitVec.getLsbD_not, BitVec.getLsbD_twoPow, Bool.and_eq_true,
    decide_eq_true i.isLt, decide_eq_true x.isLt, Bool.true_and, Bool.true_and,
    Bool.not_eq_true', decide_eq_false_iff_not, and_comm]
  exact and_congr_left fun _ => ⟨fun ne same => ne (congrArg Fin.val same.symm),
    fun ne same => ne (Fin.ext same.symm)⟩

/-! ## The map -/

/-- A two-level bitmap, and that a bit of the group row stands for a row that is not empty. -/
@[ext] structure PriorityMap (w : Nat) where
  grp : BitVec w
  tbl : Fin w → BitVec w
  coherent : ∀ y, Has grp y ↔ tbl y ≠ 0#w

namespace PriorityMap

/-- The bit at `x` of row `y`. -/
def Mem (m : PriorityMap w) (y x : Fin w) : Prop := Has (m.tbl y) x

instance (m : PriorityMap w) (y x : Fin w) : Decidable (m.Mem y x) :=
  inferInstanceAs (Decidable (Has _ _))

/-! ## Operations -/

/-- No priority. -/
def empty (w : Nat) : PriorityMap w where
  grp := 0#w
  tbl := fun _ => 0#w
  coherent := by simp

/-- `grp |= bity; tbl[y] |= bitx;` -/
def set (m : PriorityMap w) (y x : Fin w) : PriorityMap w where
  grp := m.grp ||| BitVec.twoPow w y
  tbl := Function.update m.tbl y (m.tbl y ||| BitVec.twoPow w x)
  coherent := by
    intro i
    by_cases same : i = y
    · subst same
      rw [Function.update_self]
      exact iff_of_true (by simp) (ne_zero_iff.mpr ⟨x, by simp⟩)
    · rw [Function.update_of_ne same, ← m.coherent i]
      simp [same]

/-- `tbl[y] &= ~bitx; if (tbl[y] == 0) grp &= ~bity;` -/
def clear (m : PriorityMap w) (y x : Fin w) : PriorityMap w where
  grp :=
    if m.tbl y &&& ~~~(BitVec.twoPow w x) = 0#w then m.grp &&& ~~~(BitVec.twoPow w y) else m.grp
  tbl := Function.update m.tbl y (m.tbl y &&& ~~~(BitVec.twoPow w x))
  coherent := by
    intro i
    by_cases same : i = y
    · subst same
      rw [Function.update_self]
      split
      next gone => simp [gone]
      next left =>
        obtain ⟨j, bit⟩ := ne_zero_iff.mp left
        have before : m.tbl i ≠ 0#w := ne_zero_iff.mpr ⟨j, ((has_and_not_twoPow _ _ _).mp bit).2⟩
        exact iff_of_true ((m.coherent i).mpr before) left
    · rw [Function.update_of_ne same, ← m.coherent i]
      split
      · simp [same]
      · exact Iff.rfl

@[simp] theorem not_mem_empty (y x : Fin w) : ¬ (empty w).Mem y x := by
  simp [Mem, empty]

@[simp] theorem mem_set (m : PriorityMap w) (y x j i : Fin w) :
    (m.set y x).Mem j i ↔ (j = y ∧ i = x) ∨ m.Mem j i := by
  unfold Mem set
  by_cases same : j = y
  · subst same
    simp
  · simp [same]

@[simp] theorem mem_clear (m : PriorityMap w) (y x j i : Fin w) :
    (m.clear y x).Mem j i ↔ ¬ (j = y ∧ i = x) ∧ m.Mem j i := by
  unfold Mem clear
  by_cases same : j = y
  · subst same
    simp
  · simp [same]

/-! ## Empty and lowest -/

theorem grp_ne_zero_iff (m : PriorityMap w) : m.grp ≠ 0#w ↔ ∃ y x, m.Mem y x := by
  rw [ne_zero_iff]
  exact exists_congr fun y => (m.coherent y).trans ne_zero_iff

/-- `first` is the lowest bit of every row that has one. -/
structure LeastBit (first : BitVec w → Fin w) : Prop where
  bit : ∀ v : BitVec w, v ≠ 0#w → Has v (first v)
  least : ∀ (v : BitVec w) (i : Fin w), Has v i → first v ≤ i

section Lowest

variable {first : BitVec w → Fin w}

/-- The row of the lowest priority. -/
def row (first : BitVec w → Fin w) (m : PriorityMap w) : Fin w := first m.grp

/-- Its place in the row. -/
def column (first : BitVec w → Fin w) (m : PriorityMap w) : Fin w := first (m.tbl (m.row first))

theorem mem_lowest (finds : LeastBit first) {m : PriorityMap w} (some : m.grp ≠ 0#w) :
    m.Mem (m.row first) (m.column first) :=
  finds.bit _ ((m.coherent _).mp (finds.bit _ some))

theorem row_le (finds : LeastBit first) {m : PriorityMap w} {y x : Fin w} (mem : m.Mem y x) :
    m.row first ≤ y :=
  finds.least _ _ ((m.coherent y).mpr (ne_zero_iff.mpr ⟨x, mem⟩))

theorem column_le (finds : LeastBit first) {m : PriorityMap w} {x : Fin w}
    (mem : m.Mem (m.row first) x) : m.column first ≤ x :=
  finds.least _ _ mem

end Lowest

end PriorityMap

end Stm32Robot.Theory
