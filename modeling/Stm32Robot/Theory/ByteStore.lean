/-
# Theory.ByteStore -- reading and writing blocks of a flat memory

A memory is a function from addresses to cells.  `readAt mem a n` are the `n` cells from `a` on
and `writeAt mem a l` is the memory with `l` in the cells from `a` on.  `overlay k l old` is
what a block `old` becomes where `l` is written over it, from its cell `k` on.
-/
import Mathlib.Data.List.Basic

namespace Stm32Robot.Theory.ByteStore

set_option autoImplicit false

variable {α : Type*} {mem : Nat → α} {a b n m : Nat} {l : List α}

def readAt (mem : Nat → α) (a n : Nat) : List α := (List.range n).map fun i => mem (a + i)

def writeAt (mem : Nat → α) (a : Nat) (l : List α) : Nat → α :=
  fun b => if a ≤ b then l[b - a]?.getD (mem b) else mem b

/-- The cells of `l` that fall into the block, between those of `old` before and behind them. -/
def overlay (k : Nat) (l old : List α) : List α :=
  old.take k ++ (l.take (old.length - k) ++ old.drop (k + l.length))

@[simp] theorem length_readAt (mem : Nat → α) (a n : Nat) : (readAt mem a n).length = n := by
  simp [readAt]

@[simp] theorem readAt_zero (mem : Nat → α) (a : Nat) : readAt mem a 0 = [] := rfl

@[simp] theorem getElem_readAt {i : Nat} (within : i < (readAt mem a n).length) :
    (readAt mem a n)[i] = mem (a + i) := by
  simp [readAt]

theorem readAt_add (mem : Nat → α) (a n m : Nat) :
    readAt mem a (n + m) = readAt mem a n ++ readAt mem (a + n) m := by
  simp [readAt, List.range_add, Nat.add_assoc, Function.comp_def]

theorem readAt_congr {mem' : Nat → α} (same : ∀ b, a ≤ b → b < a + n → mem' b = mem b) :
    readAt mem' a n = readAt mem a n := by
  apply List.map_congr_left
  intro i within
  have := List.mem_range.mp within
  exact same _ (by omega) (by omega)

theorem readAt_eq_iff : readAt mem a l.length = l ↔ ∀ i (h : i < l.length), mem (a + i) = l[i] := by
  constructor
  · intro same i h
    have inside : i < (readAt mem a l.length).length := by simpa using h
    have cell : (readAt mem a l.length)[i] = l[i] := by simp only [same]
    rw [← cell, getElem_readAt]
  · intro same
    apply List.ext_getElem (by simp)
    intro i _ h
    rw [getElem_readAt, same i h]

@[simp] theorem writeAt_nil (mem : Nat → α) (a : Nat) : writeAt mem a [] = mem := by
  funext b
  simp [writeAt]

theorem writeAt_of_lt {i : Nat} (within : i < l.length) : writeAt mem a l (a + i) = l[i] := by
  simp [writeAt, within]

theorem writeAt_of_outside (outside : b < a ∨ a + l.length ≤ b) : writeAt mem a l b = mem b := by
  unfold writeAt
  split
  · rw [List.getElem?_eq_none (by omega), Option.getD_none]
  · rfl

/-- A block that lies apart from what is written. -/
theorem readAt_writeAt_of_apart (apart : b + n ≤ a ∨ a + l.length ≤ b) :
    readAt (writeAt mem a l) b n = readAt mem b n := by
  apply readAt_congr
  intro c low high
  exact writeAt_of_outside (by omega)

@[simp] theorem length_overlay (k : Nat) (l old : List α) :
    (overlay k l old).length = old.length := by
  simp only [overlay, List.length_append, List.length_take, List.length_drop]
  omega

theorem getElem?_overlay {old : List α} {k i : Nat} (within : i < old.length) :
    (overlay k l old)[i]? = if k ≤ i ∧ i < k + l.length then l[i - k]? else old[i]? := by
  unfold overlay
  rw [List.getElem?_append, List.length_take]
  by_cases before : i < k
  · rw [if_pos (by omega), if_neg (by omega), List.getElem?_take_of_lt before]
  · rw [if_neg (by omega), List.getElem?_append, List.length_take]
    have place : i - min k old.length = i - k := by omega
    rw [place]
    by_cases inside : i < k + l.length
    · rw [if_pos (by omega), if_pos (by omega), List.getElem?_take_of_lt (by omega)]
    · rw [if_neg (by omega), if_neg (by omega), List.getElem?_drop]
      congr 1
      omega

/-- A block that is written over from one of its cells on. -/
theorem readAt_writeAt (mem : Nat → α) (a k n : Nat) (l : List α) :
    readAt (writeAt mem (a + k) l) a n = overlay k l (readAt mem a n) := by
  apply List.ext_getElem?
  intro i
  by_cases within : i < n
  · have inside (mem : Nat → α) : (readAt mem a n)[i]? = some (mem (a + i)) := by
      simp [readAt, within]
    rw [getElem?_overlay (by simpa using within), inside, inside]
    by_cases written : k ≤ i ∧ i < k + l.length
    · obtain ⟨j, rfl⟩ : ∃ j, i = k + j := ⟨i - k, by omega⟩
      have first : j < l.length := by omega
      rw [if_pos written, ← Nat.add_assoc, writeAt_of_lt first, Nat.add_sub_cancel_left,
        List.getElem?_eq_getElem first]
    · rw [if_neg written, writeAt_of_outside (by omega)]
  · rw [List.getElem?_eq_none (by simp; omega), List.getElem?_eq_none (by simp; omega)]

/-- What has just been written. -/
theorem readAt_writeAt_self (mem : Nat → α) (a : Nat) (l : List α) :
    readAt (writeAt mem a l) a l.length = l :=
  readAt_eq_iff.mpr fun _ within => writeAt_of_lt within

end Stm32Robot.Theory.ByteStore
