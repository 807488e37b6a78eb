/-
# Theory.OwnedRing -- a ring of cells that two parties pass to and fro by a mark

Two parties share a ring of `cap` cells.  One fills the cells in turn and marks each when it
is filled; the other empties the marked cells in turn and takes each mark away.  Neither keeps
a count: each looks at the mark of the cell it has come to.

`Holds mark item cap front l` says that the marked cells are those from `front` on, one for
each item of `l`, and hold these items.  The mark of the cell at `front` then says whether `l`
is empty and the mark of the cell behind the last item whether the ring is full, and filling
and emptying are `l ++ [x]` and the tail.
-/
import Stm32Robot.Theory.RingList

namespace Stm32Robot.Theory.OwnedRing

open Stm32Robot.Theory.RingAddress
open Stm32Robot.Theory.RingList

set_option autoImplicit false

variable {α : Type*} {mark mark' : Int → Prop} {item item' : Int → α} {cap front : Int}
  {l : List α} {x : α} {c : Int}

/-- A cell of the ring. -/
def InRing (cap c : Int) : Prop := 0 ≤ c ∧ c < cap

theorem inRing_slot (positive : 0 < cap) (i : Int) : InRing cap (slot cap front i) :=
  ⟨slot_nonneg positive, slot_lt positive⟩

theorem inRing_advance (inside : InRing cap c) : InRing cap (advance cap c) :=
  ⟨advance_nonneg inside.1, advance_lt (lt_of_le_of_lt inside.1 inside.2)⟩

/-- The marked cells hold the items, in order from `front` on. -/
structure Holds (mark : Int → Prop) (item : Int → α) (cap front : Int) (l : List α) : Prop where
  inside : InRing cap front
  fits : (l.length : Int) ≤ cap
  marked : ∀ c, InRing cap c → (mark c ↔ ∃ i : Nat, i < l.length ∧ slot cap front i = c)
  items : window item cap front l.length = l

/-- Where the next item goes. -/
def back (cap front : Int) (l : List α) : Int := slot cap front l.length

namespace Holds

theorem positive (holds : Holds mark item cap front l) : 0 < cap :=
  lt_of_le_of_lt holds.inside.1 holds.inside.2

theorem front_iff (holds : Holds mark item cap front l) : mark front ↔ l ≠ [] := by
  rw [holds.marked front holds.inside, ← List.length_pos_iff]
  constructor
  · rintro ⟨i, within, -⟩
    omega
  · intro some
    exact ⟨0, some, slot_zero holds.inside.1 holds.inside.2⟩

theorem inRing_back (holds : Holds mark item cap front l) : InRing cap (back cap front l) :=
  inRing_slot holds.positive _

theorem back_iff (holds : Holds mark item cap front l) :
    mark (back cap front l) ↔ (l.length : Int) = cap := by
  rw [holds.marked _ holds.inRing_back]
  have fits := holds.fits
  constructor
  · rintro ⟨i, within, same⟩
    by_contra room
    have := slot_injective (by omega) (by omega) (by omega) (by omega) same
    omega
  · intro full
    refine ⟨0, by have := holds.positive; omega, ?_⟩
    unfold back slot
    simp [full]

theorem item_front (holds : Holds mark item cap front (x :: l)) : item front = x := by
  have items := holds.items
  rw [List.length_cons, window_succ holds.inside.1 holds.inside.2] at items
  exact (List.cons.inj items).1

/-- Only what the marked cells hold counts. -/
theorem congr (holds : Holds mark item cap front l)
    (marks : ∀ c, InRing cap c → (mark' c ↔ mark c))
    (same : ∀ c, InRing cap c → mark c → item' c = item c) :
    Holds mark' item' cap front l where
  inside := holds.inside
  fits := holds.fits
  marked := fun c inside => (marks c inside).trans (holds.marked c inside)
  items := by
    have cells : window item' cap front l.length = window item cap front l.length := by
      apply List.map_congr_left
      intro i within
      have ring : InRing cap (slot cap front i) := inRing_slot holds.positive i
      have marked := (holds.marked _ ring).mpr ⟨i, List.mem_range.mp within, rfl⟩
      exact same _ ring marked
    rw [cells, holds.items]

/-- The cell behind the last one is filled and marked. -/
theorem put (holds : Holds mark item cap front l) (room : (l.length : Int) < cap)
    (marks : ∀ c, InRing cap c → (mark' c ↔ mark c ∨ c = back cap front l))
    (same : ∀ c, InRing cap c → mark c → item' c = item c)
    (filled : item' (back cap front l) = x) :
    Holds mark' item' cap front (l ++ [x]) where
  inside := holds.inside
  fits := by
    rw [List.length_append, List.length_singleton]
    omega
  marked := by
    intro c ring
    rw [marks c ring, holds.marked c ring, List.length_append, List.length_singleton]
    constructor
    · rintro (⟨i, within, at_c⟩ | rfl)
      · exact ⟨i, by omega, at_c⟩
      · exact ⟨l.length, by omega, rfl⟩
    · rintro ⟨i, within, rfl⟩
      by_cases last : i = l.length
      · exact Or.inr (by rw [last, back])
      · exact Or.inl ⟨i, by omega, rfl⟩
  items := by
    have kept : window item' cap front l.length = l :=
      (holds.congr (fun _ _ => Iff.rfl) same).items
    have last : window item' cap front (l.length + 1) =
        window item' cap front l.length ++ [item' (back cap front l)] := by
      simp [window, List.range_succ, back]
    rw [List.length_append, List.length_singleton, last, kept, filled]

/-- The first marked cell loses its mark. -/
theorem take (holds : Holds mark item cap front (x :: l))
    (marks : ∀ c, InRing cap c → (mark' c ↔ mark c ∧ c ≠ front))
    (same : ∀ c, InRing cap c → mark' c → item' c = item c) :
    Holds mark' item' cap (advance cap front) l := by
  have fits := holds.fits
  rw [List.length_cons] at fits
  have low := holds.inside.1
  have high := holds.inside.2
  have shift (i : Nat) :
      slot cap (advance cap front) i = slot cap front ((i + 1 : Nat) : Int) := by
    rw [slot_advance low high, Nat.cast_succ]
  have marked (c : Int) (ring : InRing cap c) :
      mark' c ↔ ∃ i : Nat, i < l.length ∧ slot cap (advance cap front) i = c := by
    rw [marks c ring, holds.marked c ring]
    constructor
    · rintro ⟨⟨i, within, rfl⟩, other⟩
      cases i with
      | zero => exact absurd (slot_zero low high) other
      | succ i => exact ⟨i, Nat.lt_of_succ_lt_succ within, shift i⟩
    · rintro ⟨i, within, rfl⟩
      refine ⟨⟨i + 1, by rw [List.length_cons]; omega, (shift i).symm⟩, ?_⟩
      rw [shift]
      intro first
      have := slot_injective (by omega) (by omega) (le_refl 0) (by omega)
        (first.trans (slot_zero low high).symm)
      omega
  refine ⟨inRing_advance holds.inside, by omega, marked, ?_⟩
  have items := holds.items
  rw [List.length_cons, window_succ low high] at items
  rw [← (List.cons.inj items).2]
  have count : (window item cap (advance cap front) l.length).length = l.length := by simp
  rw [count]
  apply List.map_congr_left
  intro i within
  have ring : InRing cap (slot cap (advance cap front) i) := inRing_slot holds.positive i
  exact same _ ring ((marked _ ring).mpr ⟨i, List.mem_range.mp within, rfl⟩)

/-- What the first marked cell holds is changed where it lies. -/
theorem replace (holds : Holds mark item cap front (x :: l)) {y : α} (changed : item' front = y)
    (same : ∀ c, InRing cap c → mark c → c ≠ front → item' c = item c) :
    Holds mark item' cap front (y :: l) where
  inside := holds.inside
  fits := holds.fits
  marked := holds.marked
  items := by
    have low := holds.inside.1
    have high := holds.inside.2
    have rest : Holds (fun c => mark c ∧ c ≠ front) item' cap (advance cap front) l :=
      holds.take (fun _ _ => Iff.rfl) fun c ring marked => same c ring marked.1 marked.2
    rw [List.length_cons, window_succ low high, changed, rest.items]

/-- Nothing is marked yet. -/
theorem nil (inside : InRing cap front) (none : ∀ c, InRing cap c → ¬ mark c) :
    Holds mark item cap front [] where
  inside := inside
  fits := by
    have low := inside.1
    have high := inside.2
    simp only [List.length_nil, Nat.cast_zero]
    omega
  marked := fun c ring => iff_of_false (none c ring) (by simp)
  items := rfl

end Holds

/-- Behind the items once one more is in. -/
theorem advance_back (positive : 0 < cap) (x : α) :
    advance cap (back cap front l) = back cap front (l ++ [x]) := by
  rw [back, advance_slot positive, back, List.length_append, List.length_singleton, Nat.cast_succ]

/-- Behind the items once the first is out: where it was. -/
theorem back_tail (inside : InRing cap front) (x : α) :
    back cap (advance cap front) l = back cap front (x :: l) := by
  rw [back, slot_advance inside.1 inside.2, back, List.length_cons, Nat.cast_succ]

/-- The ring is full where the cell to fill is the one to empty. -/
theorem back_of_full (inside : InRing cap front) (full : (l.length : Int) = cap) :
    back cap front l = front := by
  rw [back, full, slot, Int.add_emod_right]
  exact Int.emod_eq_of_lt inside.1 inside.2

end Stm32Robot.Theory.OwnedRing
