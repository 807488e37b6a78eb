/-
# Theory.Bytes -- byte memory seen from an address, fixed-size records, and parity bytes

A pointer is the memory it points at: `Nat → UInt8`, the bytes from that address on.
`taken p n` is the first `n` of them as a list and `ofList` the memory that starts with a
list.  A fixed-size record is a `Vector UInt8 N`; `view` points at it and `memcpy` copies
bytes into it.  `xorOf p n` is the parity byte of the first `n` bytes; two memories that
differ in exactly one of them have different parity (`xorOf_ne_of_differ`).
-/
import Mathlib.Data.List.Basic
import Mathlib.Data.Vector.Basic

namespace Stm32Robot.Theory.Bytes

set_option autoImplicit false

/-! ## Memory from an address on -/

/-- The first `n` bytes. -/
def taken (p : Nat → UInt8) (n : Nat) : List UInt8 := (List.range n).map p

/-- Memory that starts with a list, zero after it. -/
def ofList (l : List UInt8) : Nat → UInt8 := fun i => l.getD i 0

@[simp] theorem length_taken (p : Nat → UInt8) (n : Nat) : (taken p n).length = n := by
  simp [taken]

theorem getElem_taken (p : Nat → UInt8) (n i : Nat) (h : i < (taken p n).length) :
    (taken p n)[i] = p i := by
  simp [taken]

@[simp] theorem taken_zero (p : Nat → UInt8) : taken p 0 = [] := rfl

theorem taken_succ (p : Nat → UInt8) (n : Nat) : taken p (n + 1) = taken p n ++ [p n] := by
  simp [taken, List.range_succ]

theorem taken_add (p : Nat → UInt8) (n m : Nat) :
    taken p (n + m) = taken p n ++ taken (fun i => p (n + i)) m := by
  simp [taken, List.range_add]

theorem taken_congr {p q : Nat → UInt8} {n : Nat} (same : ∀ i, i < n → p i = q i) :
    taken p n = taken q n := by
  apply List.map_congr_left
  intro i hi
  exact same i (List.mem_range.mp hi)

theorem ofList_of_lt {l : List UInt8} {i : Nat} (h : i < l.length) : ofList l i = l[i] := by
  simp [ofList, h]

/-- Memory whose first bytes are `l`. -/
theorem taken_eq_iff {p : Nat → UInt8} {l : List UInt8} :
    taken p l.length = l ↔ ∀ i (h : i < l.length), p i = l[i] := by
  constructor
  · intro same i h
    have hi : i < (taken p l.length).length := by simpa using h
    rw [← getElem_taken p l.length i hi]
    simp only [same]
  · intro same
    apply List.ext_getElem (by simp)
    intro i hi hl
    rw [getElem_taken, same i hl]

/-! ## Fixed-size records -/

variable {N : Nat}

/-- The bytes of a record, from its first. -/
def view (v : Vector UInt8 N) : Nat → UInt8 := fun i => if h : i < N then v[i] else 0

/-- Copy `n` bytes from `src` to the record's bytes from `off` on. -/
def memcpy (dst : Vector UInt8 N) (off : Nat) (src : Nat → UInt8) (n : Nat) : Vector UInt8 N :=
  Vector.ofFn fun i => if off ≤ i.val ∧ i.val < off + n then src (i.val - off) else dst[i]

theorem view_of_lt (v : Vector UInt8 N) {i : Nat} (h : i < N) : view v i = v[i] := dif_pos h

theorem view_set (v : Vector UInt8 N) {j : Nat} (h : j < N) (b : UInt8) (i : Nat) :
    view (v.set j b) i = if i = j then b else view v i := by
  by_cases hi : i < N
  · simp only [view_of_lt _ hi, Vector.getElem_set]
    split <;> split <;> first | rfl | omega
  · have ne : i ≠ j := by omega
    simp only [view, hi, dif_neg, not_false_iff, if_neg ne]

theorem view_setIfInBounds (v : Vector UInt8 N) (j : Nat) (b : UInt8) (i : Nat) :
    view (v.setIfInBounds j b) i = if i = j ∧ j < N then b else view v i := by
  by_cases hi : i < N
  · rw [view_of_lt _ hi, view_of_lt _ hi, Vector.getElem_setIfInBounds]
    split <;> split <;> first | rfl | omega
  · have outside : ¬ (i = j ∧ j < N) := by omega
    rw [if_neg outside, view, view, dif_neg hi, dif_neg hi]

theorem view_memcpy (dst : Vector UInt8 N) (off : Nat) (src : Nat → UInt8) (n : Nat) {i : Nat}
    (h : i < N) :
    view (memcpy dst off src n) i =
      if off ≤ i ∧ i < off + n then src (i - off) else view dst i := by
  simp only [view_of_lt _ h, memcpy, Vector.getElem_ofFn]
  rfl

/-- Copying a list behind the first `n` bytes. -/
theorem taken_memcpy (dst : Vector UInt8 N) {n : Nat} {l : List UInt8} (fits : n + l.length ≤ N) :
    taken (view (memcpy dst n (ofList l) l.length)) (n + l.length) = taken (view dst) n ++ l := by
  have before : taken (view (memcpy dst n (ofList l) l.length)) n = taken (view dst) n := by
    apply taken_congr
    intro i hi
    rw [view_memcpy _ _ _ _ (by omega), if_neg (by omega)]
  have behind : taken (fun i => view (memcpy dst n (ofList l) l.length) (n + i)) l.length = l := by
    rw [taken_eq_iff]
    intro i hi
    rw [view_memcpy _ _ _ _ (by omega), if_pos (by omega), Nat.add_sub_cancel_left, ofList_of_lt hi]
  rw [taken_add, before, behind]

/-! ## Parity -/

/-- The exclusive or of the first `n` bytes. -/
def xorOf (p : Nat → UInt8) : Nat → UInt8
  | 0 => 0
  | n + 1 => xorOf p n ^^^ p n

theorem xorOf_congr {p q : Nat → UInt8} {n : Nat} (same : ∀ i, i < n → p i = q i) :
    xorOf p n = xorOf q n := by
  induction n with
  | zero => rfl
  | succ n ih =>
      rw [xorOf, xorOf, ih fun i hi => same i (by omega), same n (by omega)]

/-- Changing one byte changes the parity by the difference of the byte. -/
theorem xorOf_of_differ {p q : Nat → UInt8} {n i : Nat} (hi : i < n)
    (same : ∀ j, j < n → j ≠ i → p j = q j) : xorOf p n = xorOf q n ^^^ (p i ^^^ q i) := by
  induction n with
  | zero => omega
  | succ n ih =>
      rw [xorOf, xorOf]
      by_cases last : i = n
      · subst last
        have before : xorOf p i = xorOf q i :=
          xorOf_congr fun j hj => same j (by omega) (by omega)
        rw [before, UInt8.xor_assoc, UInt8.xor_comm (p i), ← UInt8.xor_assoc (q i),
          UInt8.xor_self, UInt8.zero_xor]
      · rw [ih (by omega) fun j hj ne => same j (by omega) ne, same n (by omega) (by omega),
          UInt8.xor_assoc, UInt8.xor_comm (p i ^^^ q i), ← UInt8.xor_assoc]

theorem xorOf_ne_of_differ {p q : Nat → UInt8} {n i : Nat} (hi : i < n)
    (same : ∀ j, j < n → j ≠ i → p j = q j) (ne : p i ≠ q i) : xorOf p n ≠ xorOf q n := by
  rw [xorOf_of_differ hi same]
  intro equal
  apply ne
  have cancelled : p i ^^^ q i = 0 := by
    have := congrArg (xorOf q n ^^^ ·) equal
    simpa [← UInt8.xor_assoc] using this
  exact UInt8.xor_eq_zero_iff.mp cancelled

end Stm32Robot.Theory.Bytes
