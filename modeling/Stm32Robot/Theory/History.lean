/-
# Theory.History -- properties of an item given the items before it

`Along P past l` asks `P past x` of the first item `x` of `l`, `P (past ++ [x]) y` of the
second, and so on: `past` grows by every item that is passed.  A property of this kind goes
over to every prefix and is checked block by block (`along_append`); `along_iff` is the
reading without recursion.

`along_congr` compares two such properties along a run: they agree if they agree at each item
under an invariant of the past that the second of them keeps.  `along_iff_throughout` is for a
property of each item that says whether an invariant outlives it.
-/
import Mathlib.Data.List.Basic
import Mathlib.Data.List.Induction
import Mathlib.Data.List.Infix

namespace Stm32Robot.Theory.History

set_option autoImplicit false

variable {α β : Type*}

/-- Each item of the list satisfies `P` together with the items before it. -/
def Along (P : List α → α → Prop) (past : List α) : List α → Prop
  | [] => True
  | x :: xs => P past x ∧ Along P (past ++ [x]) xs

instance decidableAlong {P : List α → α → Prop} [∀ past x, Decidable (P past x)] :
    ∀ past l, Decidable (Along P past l)
  | _, [] => inferInstanceAs (Decidable True)
  | past, x :: xs => @instDecidableAnd _ _ _ (decidableAlong (past ++ [x]) xs)

section Blocks

variable {P Q : List α → α → Prop} {past : List α}

@[simp] theorem along_nil : Along P past [] := trivial

theorem along_append (xs ys : List α) :
    Along P past (xs ++ ys) ↔ Along P past xs ∧ Along P (past ++ xs) ys := by
  induction xs generalizing past with
  | nil => simp
  | cons x xs ih =>
      simp only [List.cons_append, Along]
      rw [ih, List.append_assoc, List.singleton_append, and_assoc]

/-- Items that satisfy `P` whatever came before. -/
theorem along_of_forall {xs : List α} (each : ∀ past, ∀ x ∈ xs, P past x) : Along P past xs := by
  induction xs generalizing past with
  | nil => trivial
  | cons x xs ih =>
      exact ⟨each past x List.mem_cons_self,
        ih fun past y mem => each past y (List.mem_cons_of_mem x mem)⟩

theorem along_iff (l : List α) :
    Along P past l ↔ ∀ before x after, l = before ++ x :: after → P (past ++ before) x := by
  induction l generalizing past with
  | nil => simp
  | cons y l ih =>
      constructor
      · rintro ⟨first, rest⟩ before x after split
        cases before with
        | nil =>
            obtain ⟨rfl, -⟩ := List.cons.inj split
            rwa [List.append_nil]
        | cons z before =>
            obtain ⟨rfl, tail⟩ := List.cons.inj split
            have later := ih.mp rest before x after tail
            rwa [List.append_assoc, List.singleton_append] at later
      · intro each
        refine ⟨?_, ih.mpr ?_⟩
        · have first := each [] y l rfl
          rwa [List.append_nil] at first
        · intro before x after split
          have later := each (y :: before) x after (by rw [split]; rfl)
          rwa [List.append_assoc, List.singleton_append]

/-- Two properties agree along a list if they agree at each item under an invariant of the
past that the second keeps. -/
theorem along_congr {I : List α → Prop} (agree : ∀ past x, I past → (P past x ↔ Q past x))
    (kept : ∀ past x, I past → Q past x → I (past ++ [x])) (start : I past) (l : List α) :
    Along P past l ↔ Along Q past l := by
  induction l generalizing past with
  | nil => exact Iff.rfl
  | cons x l ih =>
      rw [Along, Along, agree past x start]
      constructor
      · rintro ⟨here, rest⟩
        exact ⟨here, (ih (kept past x start here)).mp rest⟩
      · rintro ⟨here, rest⟩
        exact ⟨here, (ih (kept past x start here)).mpr rest⟩

/-- A property along a list that says whether an invariant outlives an item holds exactly when
the invariant holds throughout. -/
theorem along_iff_throughout {I : List α → Prop} (start : I [])
    (outlives : ∀ past x, I past → (P past x ↔ I (past ++ [x]))) (l : List α) :
    Along P [] l ↔ ∀ past, past <+: l → I past := by
  induction l using List.reverseRecOn with
  | nil =>
      refine ⟨fun _ past inside => ?_, fun _ => trivial⟩
      rwa [List.prefix_nil.mp inside]
  | append_singleton l x ih =>
      rw [along_append, ih, List.nil_append]
      constructor
      · rintro ⟨before, here, -⟩ past inside
        rcases List.prefix_concat_iff.mp inside with rfl | earlier
        · exact (outlives l x (before l (List.prefix_refl l))).mp here
        · exact before past earlier
      · intro throughout
        have before (past : List α) (earlier : past <+: l) : I past :=
          throughout past (earlier.trans (List.prefix_append l [x]))
        refine ⟨before, ?_, trivial⟩
        exact (outlives l x (before l (List.prefix_refl l))).mpr
          (throughout _ (List.prefix_refl _))

end Blocks

end Stm32Robot.Theory.History
