/-
# Theory.BubbleSort -- bubble sort of a stretch of memory

Memory is a function of the index, and the elements are compared by a `key` in a linear order.
A pass compares and exchanges neighbours from index 0 on; pass `j` of the sort stops `j` short
of the end.

An exchange is a permutation of the indices, so the sort keeps the content of the stretch
(`content_bubbleSort`) and everything behind it.  A pass carries a greatest element to its end
(`le_pass`), so after `j` passes the last `j` elements are in place (`Settled`), and after all of
them the stretch is in order (`bubbleSort_sorted`).  Only one list of keys is in order and has
the same elements (`map_bubbleSort`).

`bubbleSortArray` is the sort of an array, with no result for an index outside of it.  Over the
whole length of the array it always has one (`bubbleSortArray_simulates`).
-/
import Mathlib.Algebra.BigOperators.Group.Finset.Basic
import Mathlib.Algebra.Order.Group.Multiset
import Mathlib.Data.List.Sort
import Stm32Robot.Theory.PartialRun

namespace Stm32Robot.Theory.BubbleSort

open Function
open Stm32Robot.Theory.PartialRun

set_option autoImplicit false

variable {α β : Type*} [LinearOrder β] (key : α → β)

/-- Exchange two neighbours that are in the wrong order. -/
def compareSwap (a : Nat → α) (i : Nat) : Nat → α :=
  if key (a i) > key (a (i + 1)) then update (update a i (a (i + 1))) (i + 1) (a i) else a

/-- Compare and exchange at the indices below `m`, in order. -/
def pass (a : Nat → α) (m : Nat) : Nat → α := (List.range m).foldl (compareSwap key) a

/-- The passes 0 to `p - 1` over the first `n` elements. -/
def passes (a : Nat → α) (n p : Nat) : Nat → α :=
  (List.range p).foldl (fun a j => pass key a (n - j - 1)) a

def bubbleSort (a : Nat → α) (n : Nat) : Nat → α := passes key a n (n - 1)

theorem pass_succ (a : Nat → α) (m : Nat) :
    pass key a (m + 1) = compareSwap key (pass key a m) m := by
  rw [pass, List.range_succ, List.foldl_concat]
  rfl

theorem passes_succ (a : Nat → α) (n p : Nat) :
    passes key a n (p + 1) = pass key (passes key a n p) (n - p - 1) := by
  rw [passes, List.range_succ, List.foldl_concat]
  rfl

/-! ## One exchange -/

section Exchange

variable (a : Nat → α) (i : Nat)

/-- An exchange is a permutation of the two indices. -/
theorem compareSwap_perm :
    ∃ σ : Equiv.Perm Nat, compareSwap key a i = a ∘ σ ∧ ∀ k, σ k ≠ k → k = i ∨ k = i + 1 := by
  unfold compareSwap
  split_ifs
  · refine ⟨Equiv.swap (i + 1) i, (Equiv.comp_swap_eq_update (i + 1) i a).symm, ?_⟩
    intro k moved
    by_contra other
    rw [not_or] at other
    exact moved (Equiv.swap_apply_of_ne_of_ne other.2 other.1)
  · exact ⟨Equiv.refl Nat, rfl, fun k moved => absurd rfl moved⟩

theorem compareSwap_of_ne {k : Nat} (first : k ≠ i) (second : k ≠ i + 1) :
    compareSwap key a i k = a k := by
  unfold compareSwap
  split_ifs
  · rw [update_of_ne second, update_of_ne first]
  · rfl

/-- The larger of the two is behind the other one afterwards. -/
theorem compareSwap_cases :
    (compareSwap key a i i = a i ∧ compareSwap key a i (i + 1) = a (i + 1) ∧
        key (a i) ≤ key (a (i + 1))) ∨
      (compareSwap key a i i = a (i + 1) ∧ compareSwap key a i (i + 1) = a i ∧
        key (a (i + 1)) ≤ key (a i)) := by
  unfold compareSwap
  split_ifs with wrong
  · refine .inr ⟨?_, update_self .., wrong.le⟩
    rw [update_of_ne (by omega), update_self]
  · exact .inl ⟨rfl, rfl, not_lt.mp wrong⟩

end Exchange

/-! ## One pass -/

section Pass

variable (a : Nat → α) (m : Nat)

theorem pass_of_lt {k : Nat} (behind : m < k) : pass key a m k = a k := by
  induction m with
  | zero => rfl
  | succ m ih =>
      rw [pass_succ, compareSwap_of_ne key _ _ (by omega) (by omega)]
      exact ih (by omega)

/-- What a pass puts at an index was somewhere in its reach. -/
theorem exists_pass_eq {k : Nat} (inside : k ≤ m) : ∃ l, l ≤ m ∧ pass key a m k = a l := by
  induction m generalizing k with
  | zero => exact ⟨k, inside, rfl⟩
  | succ m ih =>
      have last : pass key a m (m + 1) = a (m + 1) := pass_of_lt key a m (by omega)
      obtain ⟨l, reach, before⟩ := ih (le_refl m)
      rw [pass_succ]
      rcases lt_trichotomy k m with early | rfl | late
      · obtain ⟨l, reach, same⟩ := ih early.le
        rw [compareSwap_of_ne key _ _ (by omega) (by omega)]
        exact ⟨l, by omega, same⟩
      · rcases compareSwap_cases key (pass key a k) k with ⟨here, -, -⟩ | ⟨here, -, -⟩
        · exact ⟨l, by omega, here.trans before⟩
        · exact ⟨k + 1, le_refl _, here.trans last⟩
      · obtain rfl : k = m + 1 := by omega
        rcases compareSwap_cases key (pass key a m) m with ⟨-, there, -⟩ | ⟨-, there, -⟩
        · exact ⟨m + 1, le_refl _, there.trans last⟩
        · exact ⟨l, by omega, there.trans before⟩

/-- A pass carries a greatest element to its end. -/
theorem le_pass {k : Nat} (inside : k ≤ m) : key (pass key a m k) ≤ key (pass key a m m) := by
  induction m generalizing k with
  | zero => rw [Nat.le_zero.mp inside]
  | succ m ih =>
      rw [pass_succ]
      rcases compareSwap_cases key (pass key a m) m with ⟨here, there, order⟩ | ⟨here, there, order⟩
      · rcases lt_trichotomy k m with early | rfl | late
        · rw [compareSwap_of_ne key _ _ (by omega) (by omega), there]
          exact (ih early.le).trans order
        · rw [here, there]
          exact order
        · rw [show k = m + 1 by omega]
      · rcases lt_trichotomy k m with early | rfl | late
        · rw [compareSwap_of_ne key _ _ (by omega) (by omega), there]
          exact ih early.le
        · rw [here, there]
          exact order
        · rw [show k = m + 1 by omega]

end Pass

/-! ## The content of a stretch -/

/-- The elements of the first `n` indices. -/
def content (a : Nat → α) (n : Nat) : Multiset α := ∑ i ∈ Finset.range n, {a i}

/-- The elements of the first `n` indices but the one at `c`. -/
def contentBut (a : Nat → α) (n c : Nat) : Multiset α := ∑ i ∈ (Finset.range n).erase c, {a i}

section Content

variable (a : Nat → α) {n : Nat}

theorem content_eq_map (n : Nat) : content a n = ((List.range n).map a : Multiset α) := by
  induction n with
  | zero => rfl
  | succ n ih =>
      rw [content, Finset.sum_range_succ, ← content, ih, List.range_succ, List.map_append]
      rfl

theorem content_congr {b : Nat → α} (same : ∀ i, i < n → a i = b i) :
    content a n = content b n :=
  Finset.sum_congr rfl fun i inside => by rw [same i (Finset.mem_range.mp inside)]

/-- A store replaces one element of the content. -/
theorem content_update {c : Nat} (inside : c < n) (x : α) :
    content (update a c x) n = {x} + contentBut a n c := by
  have others : ∑ i ∈ (Finset.range n).erase c, ({update a c x i} : Multiset α) =
      contentBut a n c := by
    refine Finset.sum_congr rfl fun i other => ?_
    rw [update_of_ne (Finset.ne_of_mem_erase other)]
  rw [content, ← Finset.add_sum_erase _ _ (Finset.mem_range.mpr inside), others, update_self]

end Content

/-! ## The sort -/

/-- The last `p` of the first `n` elements are in their places. -/
def Settled (a : Nat → α) (n p : Nat) : Prop :=
  ∀ i k, i < k → n - p ≤ k → k < n → key (a i) ≤ key (a k)

section Sorted

variable (a : Nat → α) {n : Nat}

theorem content_compareSwap {i : Nat} (inside : i + 1 < n) :
    content (compareSwap key a i) n = content a n := by
  obtain ⟨σ, same, moved⟩ := compareSwap_perm key a i
  rw [content, same]
  refine Equiv.Perm.sum_comp σ (Finset.range n) (fun k => ({a k} : Multiset α)) ?_
  intro k change
  have := moved k change
  simp
  omega

theorem content_pass {m : Nat} (inside : m < n) : content (pass key a m) n = content a n := by
  induction m with
  | zero => rfl
  | succ m ih => rw [pass_succ, content_compareSwap key _ inside, ih (by omega)]

theorem content_passes (p : Nat) (positive : 0 < n) :
    content (passes key a n p) n = content a n := by
  induction p with
  | zero => rfl
  | succ p ih => rw [passes_succ, content_pass key _ (by omega), ih]

/-- The sort rearranges the first `n` elements. -/
theorem content_bubbleSort (n : Nat) : content (bubbleSort key a n) n = content a n := by
  rcases Nat.eq_zero_or_pos n with rfl | positive
  · rfl
  · exact content_passes key a (n - 1) positive

/-- Behind them it changes nothing. -/
theorem bubbleSort_of_le {k : Nat} (behind : n ≤ k) (positive : 0 < n) :
    bubbleSort key a n k = a k := by
  have every (p : Nat) : passes key a n p k = a k := by
    induction p with
    | zero => rfl
    | succ p ih => rw [passes_succ, pass_of_lt key _ _ (by omega), ih]
  exact every (n - 1)

/-- A pass puts one more element in its place. -/
theorem Settled.pass {p : Nat} (settled : Settled key a n p) (more : p < n) :
    Settled key (pass key a (n - p - 1)) n (p + 1) := by
  intro i k before place inside
  rcases lt_or_ge (n - p - 1) k with later | here
  · rw [pass_of_lt key a _ later]
    rcases lt_or_ge (n - p - 1) i with behind | reached
    · rw [pass_of_lt key a _ behind]
      exact settled i k before (by omega) inside
    · obtain ⟨l, reach, same⟩ := exists_pass_eq key a (n - p - 1) reached
      rw [same]
      exact settled l k (by omega) (by omega) inside
  · obtain rfl : k = n - p - 1 := by omega
    exact le_pass key a _ before.le

theorem settled_passes {p : Nat} (few : p ≤ n) : Settled key (passes key a n p) n p := by
  induction p with
  | zero =>
      intro i k _ place inside
      omega
  | succ p ih =>
      rw [passes_succ]
      exact (ih (by omega)).pass key _ (by omega)

/-- After the sort the first `n` elements are in order. -/
theorem bubbleSort_sorted {i k : Nat} (order : i ≤ k) (inside : k < n) :
    key (bubbleSort key a n i) ≤ key (bubbleSort key a n k) := by
  rcases order.eq_or_lt with rfl | before
  · exact le_refl _
  · exact settled_passes key a (Nat.sub_le n 1) i k before (by omega) inside

/-- The keys after the sort are those before, in order. -/
theorem map_bubbleSort {ws : List α} (same : content a n = ws) :
    (List.range n).map (fun i => key (bubbleSort key a n i)) =
      (ws.map key).insertionSort (· ≤ ·) := by
  refine List.Perm.eq_of_pairwise' (r := (· ≤ ·)) ?_ (List.pairwise_insertionSort _ _) ?_
  · rw [List.pairwise_map]
    refine List.pairwise_lt_range.imp_of_mem ?_
    intro i k _ inside before
    exact bubbleSort_sorted key a before.le (List.mem_range.mp inside)
  · have elements : ((List.range n).map (bubbleSort key a n)).Perm ws := by
      rw [← Multiset.coe_eq_coe, ← content_eq_map, content_bubbleSort, same]
    have keys := elements.map key
    rw [List.map_map] at keys
    exact keys.trans (List.perm_insertionSort _ _).symm

end Sorted

/-! ## The sort of an array -/

/-- `compareSwap` with every access checked. -/
def compareSwapArray (a : Array α) (i : Nat) : Option (Array α) := do
  let x ← a[i]?
  let y ← a[i + 1]?
  if key x > key y then some ((a.setIfInBounds i y).setIfInBounds (i + 1) x) else some a

def passArray (a : Array α) (m : Nat) : Option (Array α) :=
  runPartial (compareSwapArray key) a (List.range m)

def bubbleSortArray (a : Array α) (n : Nat) : Option (Array α) :=
  runPartial (fun a j => passArray key a (n - j - 1)) a (List.range (n - 1))

/-- The array is the first `n` elements of the memory. -/
structure Holds (n : Nat) (mem : Nat → α) (a : Array α) : Prop where
  size : a.size = n
  element : ∀ i, i < n → a[i]? = some (mem i)

section Arrays

variable {n : Nat} {mem : Nat → α} {a : Array α}

/-- Every array is a stretch of some memory. -/
theorem exists_holds (positive : 0 < a.size) : ∃ mem, Holds a.size mem a := by
  refine ⟨fun i => a.getD i a[0], rfl, ?_⟩
  intro i inside
  simp [inside]

theorem Holds.toList_eq (holds : Holds n mem a) : a.toList = (List.range n).map mem := by
  refine List.ext_getElem? fun i => ?_
  rw [Array.getElem?_toList]
  rcases lt_or_ge i n with inside | outside
  · simp [holds.element i inside, inside]
  · simp [holds.size, outside]

/-- A store. -/
theorem Holds.update (holds : Holds n mem a) {i : Nat} (inside : i < n) (x : α) :
    Holds n (Function.update mem i x) (a.setIfInBounds i x) := by
  refine ⟨by rw [Array.size_setIfInBounds, holds.size], ?_⟩
  intro k within
  rcases eq_or_ne k i with rfl | other
  · simp [holds.size, inside]
  · rw [Array.getElem?_setIfInBounds_ne other.symm, update_of_ne other]
    exact holds.element k within

theorem Holds.compareSwap (holds : Holds n mem a) {i : Nat} (inside : i + 1 < n) :
    ∃ a', compareSwapArray key a i = some a' ∧ Holds n (compareSwap key mem i) a' := by
  have first := holds.element i (by omega)
  have second := holds.element (i + 1) inside
  simp only [compareSwapArray, first, second, Option.bind_eq_bind, Option.bind_some,
    BubbleSort.compareSwap]
  split_ifs
  · exact ⟨_, rfl, (holds.update (by omega) _).update inside _⟩
  · exact ⟨a, rfl, holds⟩

theorem Holds.pass (holds : Holds n mem a) {m : Nat} (inside : m < n) :
    ∃ a', passArray key a m = some a' ∧ Holds n (pass key mem m) a' := by
  refine runPartial_simulates ?_ holds
  intro i reached mem a holds
  have before := List.mem_range.mp reached
  exact holds.compareSwap key (by omega)

/-- The sort over a whole array stays inside of it, and does what the sort of a stretch of
memory does. -/
theorem bubbleSortArray_simulates (holds : Holds n mem a) :
    ∃ a', bubbleSortArray key a n = some a' ∧ Holds n (bubbleSort key mem n) a' := by
  refine runPartial_simulates ?_ holds
  intro j reached mem a holds
  have early := List.mem_range.mp reached
  exact holds.pass key (by omega)

end Arrays

end Stm32Robot.Theory.BubbleSort
