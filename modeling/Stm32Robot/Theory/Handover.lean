/-
# Theory.Handover -- items in line, and items handed over

At a `Counter` items wait in line, and each reader may have been handed one that it has not yet
collected.  An item that comes is put to the back or to the front of the line or, where there is
no line, into the hand of a reader; a reader takes the first of the line, or collects what is in
its hand.

`Step.conserved` says that nothing is lost and nothing leaves twice.  `Step.inOrder` is for one
reader and a line that grows at the back: items leave in the order in which they came.
-/
import Mathlib.Algebra.BigOperators.Group.Finset.Basic
import Mathlib.Algebra.Order.BigOperators.Group.Finset
import Mathlib.Data.Fintype.BigOperators
import Mathlib.Tactic.Abel

namespace Stm32Robot.Theory.Handover

set_option autoImplicit false

variable {ι α : Type*}

structure Counter (ι α : Type*) where
  line : List α
  hand : ι → Option α

/-- What may happen; `take` is by a reader, or by somebody else. -/
inductive Move (ι α : Type*) where
  | rest
  | back (x : α)
  | front (x : α)
  | hand (i : ι) (x : α)
  | take (who : Option ι) (x : α)
  | collect (i : ι) (x : α)

namespace Move

def came : Move ι α → List α
  | back x => [x]
  | front x => [x]
  | hand _ x => [x]
  | _ => []

def left : Move ι α → List α
  | take _ x => [x]
  | collect _ x => [x]
  | _ => []

/-- Items come to the back, and go to the reader `i`. -/
def Only (i : ι) : Move ι α → Prop
  | front _ => False
  | hand j _ => j = i
  | take who _ => who = some i
  | _ => True

end Move

variable [DecidableEq ι]

def Step (c : Counter ι α) : Move ι α → Counter ι α → Prop
  | .rest, c' => c' = c
  | .back x, c' => c' = { c with line := c.line ++ [x] }
  | .front x, c' => c' = { c with line := x :: c.line }
  | .hand i x, c' =>
      c.line = [] ∧ c.hand i = none ∧ c' = { c with hand := Function.update c.hand i (some x) }
  | .take who x, c' =>
      (∀ i, who = some i → c.hand i = none) ∧ c.line = x :: c'.line ∧ c'.hand = c.hand
  | .collect i x, c' =>
      c.hand i = some x ∧ c' = { c with hand := Function.update c.hand i none }

/-! ## Nothing is lost -/

/-- What is in the hands of the readers. -/
def held [Fintype ι] (hand : ι → Option α) : Multiset α := ∑ i, ((hand i).toList : Multiset α)

/-- All there is, in line or in hand. -/
def Counter.goods [Fintype ι] (c : Counter ι α) : Multiset α := (c.line : Multiset α) + held c.hand

theorem held_update [Fintype ι] (hand : ι → Option α) (i : ι) (o : Option α) :
    held (Function.update hand i o) + ((hand i).toList : Multiset α) =
      held hand + (o.toList : Multiset α) := by
  unfold held
  have rest : ∑ j ∈ Finset.univ.erase i,
      (((Function.update hand i o) j).toList : Multiset α) =
        ∑ j ∈ Finset.univ.erase i, ((hand j).toList : Multiset α) :=
    Finset.sum_congr rfl fun j mem => by
      rw [Function.update_of_ne (Finset.ne_of_mem_erase mem)]
  rw [← Finset.add_sum_erase _ _ (Finset.mem_univ i),
    ← Finset.add_sum_erase _ _ (Finset.mem_univ i), Function.update_self, rest]
  abel

theorem Step.conserved [Fintype ι] {c c' : Counter ι α} {m : Move ι α} (step : Step c m c') :
    (m.came : Multiset α) + c.goods = (m.left : Multiset α) + c'.goods := by
  cases m with
  | rest =>
      obtain rfl : c' = c := step
      rfl
  | back x =>
      obtain rfl : c' = _ := step
      show (([x] : List α) : Multiset α) + ((c.line : Multiset α) + held c.hand) =
        0 + (((c.line ++ [x] : List α) : Multiset α) + held c.hand)
      rw [← Multiset.coe_add]
      abel
  | front x =>
      obtain rfl : c' = _ := step
      show (([x] : List α) : Multiset α) + ((c.line : Multiset α) + held c.hand) =
        0 + ((([x] ++ c.line : List α) : Multiset α) + held c.hand)
      rw [← Multiset.coe_add]
      abel
  | hand i x =>
      obtain ⟨-, free, rfl⟩ := step
      have more := held_update c.hand i (some x)
      rw [free] at more
      show (([x] : List α) : Multiset α) + ((c.line : Multiset α) + held c.hand) =
        0 + ((c.line : Multiset α) + held (Function.update c.hand i (some x)))
      have more' : held (Function.update c.hand i (some x)) =
          held c.hand + (([x] : List α) : Multiset α) := by simpa using more
      rw [more']
      abel
  | take who x =>
      obtain ⟨-, line, hand⟩ := step
      show (0 : Multiset α) + ((c.line : Multiset α) + held c.hand) =
        (([x] : List α) : Multiset α) + ((c'.line : Multiset α) + held c'.hand)
      have first : (c.line : Multiset α) =
          (([x] : List α) : Multiset α) + (c'.line : Multiset α) := by
        rw [line, Multiset.coe_add]
        rfl
      rw [first, hand]
      abel
  | collect i x =>
      obtain ⟨inHand, rfl⟩ := step
      have less := held_update c.hand i none
      rw [inHand] at less
      show (0 : Multiset α) + ((c.line : Multiset α) + held c.hand) =
        (([x] : List α) : Multiset α) +
          ((c.line : Multiset α) + held (Function.update c.hand i none))
      have less' : held c.hand =
          held (Function.update c.hand i none) + (([x] : List α) : Multiset α) := by
        simpa using less.symm
      rw [less']
      abel

omit [DecidableEq ι] in
theorem Counter.goods_of_free [Fintype ι] {c : Counter ι α} (free : ∀ i, c.hand i = none) :
    c.goods = (c.line : Multiset α) := by
  unfold Counter.goods held
  simp [free]

/-- The balance of a run and that of one more step. -/
theorem balance_add {came came' left left' before goods goods' : Multiset α}
    (run : came + before = left + goods) (step : came' + goods = left' + goods') :
    came + came' + before = left + left' + goods' := by
  rw [add_right_comm, run, add_assoc, add_comm goods came', step, add_assoc]

/-! ## Order -/

/-- What came is what has left, what the reader `i` has in its hand and what waits in line, in
this order, and no other reader has anything. -/
structure InOrder (i : ι) (c : Counter ι α) (came left : List α) : Prop where
  others : ∀ j, j ≠ i → c.hand j = none
  order : came = left ++ (c.hand i).toList ++ c.line

theorem Step.inOrder {i : ι} {c c' : Counter ι α} {m : Move ι α} {came left : List α}
    (ordered : InOrder i c came left) (only : m.Only i) (step : Step c m c') :
    InOrder i c' (came ++ m.came) (left ++ m.left) := by
  obtain ⟨others, order⟩ := ordered
  cases m with
  | rest =>
      obtain rfl : c' = c := step
      exact ⟨others, by simpa [Move.came, Move.left] using order⟩
  | back x =>
      obtain rfl : c' = _ := step
      exact ⟨others, by simp [Move.came, Move.left, order]⟩
  | front x => exact only.elim
  | hand j x =>
      obtain rfl : j = i := only
      obtain ⟨empty, free, rfl⟩ := step
      refine ⟨fun j' ne => ?_, ?_⟩
      · exact (Function.update_of_ne ne _ _).trans (others j' ne)
      · simp [Move.came, Move.left, order, free, empty]
  | take who x =>
      obtain rfl : who = some i := only
      obtain ⟨free, line, hand⟩ := step
      refine ⟨fun j ne => hand ▸ others j ne, ?_⟩
      have free' := free i rfl
      simp [Move.came, Move.left, order, hand, free', line]
  | collect j x =>
      obtain ⟨inHand, rfl⟩ := step
      have same : j = i := by
        by_contra ne
        rw [others j ne] at inHand
        cases inHand
      subst same
      refine ⟨fun j' ne => ?_, ?_⟩
      · exact (Function.update_of_ne ne _ _).trans (others j' ne)
      · simp [Move.came, Move.left, order, inHand]

/-! ## Accounts -/

section Accounts

variable {β : Type*} {owner : β → Option ι} {f came left : β → List α} {log : List β}

/-- How many items the entries of a log have (`f`) that belong to `i`. -/
def countOf (owner : β → Option ι) (f : β → List α) (log : List β) (i : ι) : Nat :=
  ((log.filter fun x => owner x = some i).flatMap f).length

theorem countOf_cons (x : β) (i : ι) :
    countOf owner f (x :: log) i =
      (if owner x = some i then (f x).length else 0) + countOf owner f log i := by
  unfold countOf
  by_cases own : owner x = some i <;> simp [own]

/-- Where every item belongs to somebody the accounts add up. -/
theorem sum_countOf [Fintype ι] (owned : ∀ x ∈ log, f x ≠ [] → (owner x).isSome) :
    ∑ i, countOf owner f log i = (log.flatMap f).length := by
  induction log with
  | nil => simp [countOf]
  | cons x log ih =>
      have rest := ih fun y mem => owned y (List.mem_cons_of_mem x mem)
      have first : ∑ i, (if owner x = some i then (f x).length else 0) = (f x).length := by
        cases own : owner x with
        | none =>
            have idle : f x = [] := by
              by_contra some
              have := owned x List.mem_cons_self some
              rw [own] at this
              cases this
            simp [idle]
        | some p => simp
      simp only [countOf_cons, Finset.sum_add_distrib]
      rw [first, rest, List.flatMap_cons, List.length_append]

/-- Where no more than `n` items are out, and nobody has given back more than he took, at most
`n` have one. -/
theorem holders_le [Fintype ι] {n : Nat}
    (out : (log.flatMap left).length ≤ (log.flatMap came).length + n)
    (ownCame : ∀ x ∈ log, came x ≠ [] → (owner x).isSome)
    (ownLeft : ∀ x ∈ log, left x ≠ [] → (owner x).isSome)
    (fair : ∀ i, countOf owner came log i ≤ countOf owner left log i) :
    (Finset.univ.filter fun i => countOf owner came log i < countOf owner left log i).card ≤ n := by
  have held : ∑ i, (countOf owner left log i - countOf owner came log i) +
      ∑ i, countOf owner came log i = ∑ i, countOf owner left log i := by
    rw [← Finset.sum_add_distrib]
    exact Finset.sum_congr rfl fun i _ => Nat.sub_add_cancel (fair i)
  rw [sum_countOf ownCame, sum_countOf ownLeft] at held
  calc (Finset.univ.filter fun i => countOf owner came log i < countOf owner left log i).card
      = ∑ i, if countOf owner came log i < countOf owner left log i then 1 else 0 :=
        Finset.card_filter _ _
    _ ≤ ∑ i, (countOf owner left log i - countOf owner came log i) :=
        Finset.sum_le_sum fun i _ => by split <;> omega
    _ ≤ n := by omega

end Accounts

end Stm32Robot.Theory.Handover
