/-
# Theory.BoundedFifo -- a bounded first-in first-out list that empties itself when full

The contents are a list of at most `cap` items, oldest first.  `push` appends while
there is room; pushed onto a full list, the new item replaces everything that was
waiting.  `pop` takes the oldest item.  `pushAll` pushes a block, and the lemmas on it
say what is left of a block that fits and of one that does not.
-/
import Mathlib.Data.List.Basic

namespace Stm32Robot.Theory.BoundedFifo

set_option autoImplicit false

variable {α : Type*}

/-- Append to a list with room; replace a full one. -/
def push (cap : Nat) (l : List α) (x : α) : List α :=
  if l.length < cap then l ++ [x] else [x]

/-- Push a block of items, one after the other. -/
def pushAll (cap : Nat) (l : List α) (xs : List α) : List α :=
  xs.foldl (push cap) l

/-- A list within the bound: the values the abstract queue can take. -/
structure Bounded (α : Type*) (cap : Nat) where
  items : List α
  fits : items.length ≤ cap

@[simp] theorem pushAll_nil (cap : Nat) (l : List α) : pushAll cap l [] = l := rfl

@[simp] theorem pushAll_cons (cap : Nat) (l : List α) (x : α) (xs : List α) :
    pushAll cap l (x :: xs) = pushAll cap (push cap l x) xs := rfl

theorem push_of_room {cap : Nat} {l : List α} (room : l.length < cap) (x : α) :
    push cap l x = l ++ [x] := if_pos room

theorem push_of_full {cap : Nat} {l : List α} (full : cap ≤ l.length) (x : α) :
    push cap l x = [x] := if_neg (Nat.not_lt.mpr full)

theorem push_length_le {cap : Nat} (positive : 0 < cap) (l : List α) (x : α) :
    (push cap l x).length ≤ cap := by
  by_cases room : l.length < cap
  · rw [push_of_room room, List.length_append]
    exact room
  · rw [push_of_full (Nat.not_lt.mp room)]
    exact positive

/-- Pushing a block that fits appends it. -/
theorem pushAll_of_room {cap : Nat} (l xs : List α) (room : l.length + xs.length ≤ cap) :
    pushAll cap l xs = l ++ xs := by
  induction xs generalizing l with
  | nil => simp
  | cons x xs ih =>
      have hx : l.length < cap := by simp only [List.length_cons] at room; omega
      rw [pushAll_cons, push_of_room hx, ih]
      · simp
      · simp only [List.length_append, List.length_cons, List.length_nil] at room ⊢
        omega

theorem pushAll_append (cap : Nat) (l xs ys : List α) :
    pushAll cap l (xs ++ ys) = pushAll cap (pushAll cap l xs) ys := List.foldl_append

/-- A block whose first part fills the list: the rest replaces all that was waiting. -/
theorem pushAll_of_overflow {cap : Nat} {l xs : List α} (full : l.length + xs.length = cap) (y : α)
    (ys : List α) : pushAll cap l (xs ++ y :: ys) = pushAll cap [y] ys := by
  have filled : pushAll cap l xs = l ++ xs := pushAll_of_room l xs (by omega)
  rw [pushAll_append, filled, pushAll_cons, push_of_full]
  rw [List.length_append]
  omega

/-- A block that overflows: what does not fit behind the waiting items replaces them. -/
theorem pushAll_of_no_room {cap : Nat} {l xs : List α} (bounded : l.length ≤ cap)
    (short : xs.length ≤ cap) (exceeds : cap < l.length + xs.length) :
    pushAll cap l xs = xs.drop (cap - l.length) := by
  have inside : cap - l.length < xs.length := by omega
  have split : xs.drop (cap - l.length) =
      xs[cap - l.length] :: xs.drop (cap - l.length + 1) := List.drop_eq_getElem_cons inside
  have taken : l.length + (xs.take (cap - l.length)).length = cap := by
    rw [List.length_take]
    omega
  have rest : [xs[cap - l.length]].length + (xs.drop (cap - l.length + 1)).length ≤ cap := by
    rw [List.length_drop, List.length_singleton]
    omega
  calc pushAll cap l xs
      = pushAll cap l (xs.take (cap - l.length) ++ xs.drop (cap - l.length)) := by
        rw [List.take_append_drop]
    _ = pushAll cap [xs[cap - l.length]] (xs.drop (cap - l.length + 1)) := by
        rw [split, pushAll_of_overflow taken]
    _ = xs.drop (cap - l.length) := by
        rw [pushAll_of_room _ _ rest, split, List.singleton_append]

theorem mem_pushAll {cap : Nat} {l xs : List α} {z : α} (mem : z ∈ pushAll cap l xs) :
    z ∈ l ∨ z ∈ xs := by
  induction xs generalizing l with
  | nil => exact Or.inl mem
  | cons x xs ih =>
      rcases ih mem with waiting | later
      · by_cases room : l.length < cap
        · rw [push_of_room room, List.mem_append, List.mem_singleton] at waiting
          rcases waiting with old | rfl
          · exact Or.inl old
          · exact Or.inr List.mem_cons_self
        · rw [push_of_full (Nat.not_lt.mp room), List.mem_singleton] at waiting
          subst waiting
          exact Or.inr List.mem_cons_self
      · exact Or.inr (List.mem_cons_of_mem x later)

/-- The item pushed last is always there. -/
theorem mem_pushAll_concat (cap : Nat) (l xs : List α) (x : α) : x ∈ pushAll cap l (xs ++ [x]) := by
  rw [pushAll_append, pushAll_cons, pushAll_nil]
  by_cases room : (pushAll cap l xs).length < cap
  · rw [push_of_room room]
    exact List.mem_append_right _ List.mem_cons_self
  · rw [push_of_full (Nat.not_lt.mp room)]
    exact List.mem_cons_self

namespace Bounded

variable {cap : Nat}

/-- The empty queue. -/
def empty : Bounded α cap := ⟨[], Nat.zero_le _⟩

/-- `push`, on the bounded lists of a positive bound. -/
def push (positive : 0 < cap) (q : Bounded α cap) (x : α) : Bounded α cap :=
  ⟨BoundedFifo.push cap q.items x, push_length_le positive _ _⟩

/-- Drop the oldest item. -/
def pop (q : Bounded α cap) : Bounded α cap :=
  ⟨q.items.tail, by have := q.fits; rw [List.length_tail]; omega⟩

end Bounded

end Stm32Robot.Theory.BoundedFifo
