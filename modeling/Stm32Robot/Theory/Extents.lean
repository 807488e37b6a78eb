/-
# Theory.Extents -- runs of cells in a table

An `Extent` is a run of cells.  Items that each take an extent are laid out in a table of `T`
cells when none sticks out and no two share a cell (`Layout`); a table records them when every
cell holds the length of the extent it is in, and zero where it is in none (`cellOf`).  Adding
an item on free cells and taking one away keep a layout, and change what it records on the
cells of the item only.

`searchDown` looks for a run of `n` free cells from the end of the table down, counting the
free cells on its way.  It finds the highest one (`searchDown_eq_some_iff`), and one whenever
there is one.
-/
import Mathlib.Algebra.Ring.Nat
import Mathlib.Data.List.Basic
import Mathlib.Data.Nat.Basic
import Mathlib.Tactic.SplitIfs

namespace Stm32Robot.Theory.Extents

set_option autoImplicit false

structure Extent where
  start : Nat
  len : Nat
deriving DecidableEq

namespace Extent

def Covers (e : Extent) (j : Nat) : Prop := e.start ≤ j ∧ j < e.start + e.len

instance (e : Extent) (j : Nat) : Decidable (e.Covers j) := inferInstanceAs (Decidable (_ ∧ _))

/-- No cell in common. -/
def Apart (e f : Extent) : Prop := ∀ j, e.Covers j → ¬ f.Covers j

theorem Apart.symm {e f : Extent} (apart : e.Apart f) : f.Apart e :=
  fun j covers other => apart j other covers

theorem covers_start {e : Extent} (some : 0 < e.len) : e.Covers e.start :=
  ⟨le_refl _, Nat.lt_add_of_pos_right some⟩

end Extent

/-! ## Layouts -/

section Layout

variable {α : Type*} (extent : α → Extent) {T : Nat}

structure Layout (T : Nat) (items : List α) : Prop where
  some : ∀ a ∈ items, 0 < (extent a).len
  inside : ∀ a ∈ items, (extent a).start + (extent a).len ≤ T
  apart : items.Pairwise fun a b => (extent a).Apart (extent b)

/-- What a table that records the items has in a cell. -/
def cellOf : List α → Nat → Nat
  | [], _ => 0
  | a :: items, j => if (extent a).Covers j then (extent a).len else cellOf items j

variable {extent} {items : List α} {a : α} {j : Nat}

theorem layout_nil : Layout extent T ([] : List α) := ⟨nofun, nofun, .nil⟩

theorem cellOf_of_not_covers (outside : ∀ a ∈ items, ¬ (extent a).Covers j) :
    cellOf extent items j = 0 := by
  induction items with
  | nil => rfl
  | cons b items ih =>
      rw [cellOf, if_neg (outside b List.mem_cons_self)]
      exact ih fun a mem => outside a (List.mem_cons_of_mem b mem)

theorem Layout.tail {b : α} (layout : Layout extent T (b :: items)) : Layout extent T items where
  some a mem := layout.some a (List.mem_cons_of_mem b mem)
  inside a mem := layout.inside a (List.mem_cons_of_mem b mem)
  apart := layout.apart.tail

/-- The cells of an item hold its length. -/
theorem Layout.cellOf_of_mem (layout : Layout extent T items) (mem : a ∈ items)
    (covers : (extent a).Covers j) : cellOf extent items j = (extent a).len := by
  induction items with
  | nil => cases mem
  | cons b items ih =>
      rw [cellOf]
      rcases List.mem_cons.mp mem with rfl | later
      · rw [if_pos covers]
      · have apart := List.rel_of_pairwise_cons layout.apart later
        rw [if_neg fun first => apart j first covers]
        exact ih layout.tail later

/-- A cell is zero exactly where no item is. -/
theorem Layout.cellOf_eq_zero_iff (layout : Layout extent T items) :
    cellOf extent items j = 0 ↔ ∀ a ∈ items, ¬ (extent a).Covers j := by
  constructor
  · intro zero a mem covers
    have some := layout.some a mem
    rw [layout.cellOf_of_mem mem covers] at zero
    omega
  · exact cellOf_of_not_covers

/-- An item on free cells. -/
theorem Layout.cons (layout : Layout extent T items) (some : 0 < (extent a).len)
    (inside : (extent a).start + (extent a).len ≤ T)
    (free : ∀ j, (extent a).Covers j → cellOf extent items j = 0) :
    Layout extent T (a :: items) where
  some b mem := by
    rcases List.mem_cons.mp mem with rfl | old
    · exact some
    · exact layout.some b old
  inside b mem := by
    rcases List.mem_cons.mp mem with rfl | old
    · exact inside
    · exact layout.inside b old
  apart := by
    refine List.pairwise_cons.mpr ⟨fun b mem j covers => ?_, layout.apart⟩
    exact layout.cellOf_eq_zero_iff.mp (free j covers) b mem

theorem Layout.perm {items' : List α} (perm : items.Perm items')
    (layout : Layout extent T items) : Layout extent T items' where
  some b mem := layout.some b (perm.mem_iff.mpr mem)
  inside b mem := layout.inside b (perm.mem_iff.mpr mem)
  apart := (perm.pairwise_iff Extent.Apart.symm).mp layout.apart

theorem Layout.cellOf_perm {items' : List α} (perm : items.Perm items')
    (layout : Layout extent T items) : cellOf extent items j = cellOf extent items' j := by
  by_cases used : ∃ a ∈ items, (extent a).Covers j
  · obtain ⟨a, mem, covers⟩ := used
    rw [layout.cellOf_of_mem mem covers]
    exact ((layout.perm perm).cellOf_of_mem (perm.mem_iff.mp mem) covers).symm
  · have outside (a : α) (mem : a ∈ items) : ¬ (extent a).Covers j :=
      fun covers => used ⟨a, mem, covers⟩
    rw [cellOf_of_not_covers outside]
    exact (cellOf_of_not_covers fun a mem => outside a (perm.mem_iff.mpr mem)).symm

variable [DecidableEq α]

theorem Layout.erase (layout : Layout extent T items) (a : α) :
    Layout extent T (items.erase a) where
  some b mem := layout.some b (List.mem_of_mem_erase mem)
  inside b mem := layout.inside b (List.mem_of_mem_erase mem)
  apart := layout.apart.sublist List.erase_sublist

/-- No other item is on the cells of an item. -/
theorem Layout.apart_of_mem_erase (layout : Layout extent T items) (mem : a ∈ items) {b : α}
    (other : b ∈ items.erase a) : (extent a).Apart (extent b) := by
  induction items with
  | nil => cases mem
  | cons c items ih =>
      have front := fun {d : α} (later : d ∈ items) => List.rel_of_pairwise_cons layout.apart later
      by_cases first : c = a
      · subst first
        rw [List.erase_cons_head] at other
        exact front other
      · have later : a ∈ items := (List.mem_cons.mp mem).resolve_left fun same => first same.symm
        rw [List.erase_cons_tail (by simpa using first)] at other
        rcases List.mem_cons.mp other with rfl | rest
        · exact (front later).symm
        · exact ih layout.tail later rest

/-- Taking an item away clears its cells and no others. -/
theorem Layout.cellOf_erase (layout : Layout extent T items) (mem : a ∈ items) :
    cellOf extent (items.erase a) j =
      if (extent a).Covers j then 0 else cellOf extent items j := by
  split_ifs with covers
  · exact cellOf_of_not_covers fun b other => layout.apart_of_mem_erase mem other j covers
  · induction items with
    | nil => cases mem
    | cons c items ih =>
        by_cases first : c = a
        · subst first
          rw [List.erase_cons_head, cellOf, if_neg covers]
        · have later : a ∈ items := (List.mem_cons.mp mem).resolve_left fun same => first same.symm
          rw [List.erase_cons_tail (by simpa using first), cellOf, cellOf, ih layout.tail later]

end Layout

/-! ## Free runs -/

section Search

variable (T : Nat) (free : Nat → Prop)

/-- A run of free cells in the table. -/
def Fits (e : Extent) : Prop := e.start + e.len ≤ T ∧ ∀ j, e.Covers j → free j

/-- The highest of its length. -/
def Highest (e : Extent) : Prop := Fits T free e ∧ ∀ o, Fits T free ⟨o, e.len⟩ → o ≤ e.start

variable {T free}

theorem Highest.unique {o o' n : Nat} (high : Highest T free ⟨o, n⟩)
    (high' : Highest T free ⟨o', n⟩) : o = o' :=
  Nat.le_antisymm (high'.2 o high.1) (high.2 o' high'.1)

variable (free) (n : Nat)

/-- The count is the length of the free run that begins at `k`, shorter than `n`, and no run of
`n` begins there or behind. -/
structure Counted (T c k : Nat) : Prop where
  counted : ∀ j, k ≤ j → j < k + c → free j
  inside : k + c ≤ T
  ends : k + c = T ∨ ¬ free (k + c)
  short : c < n
  none : ∀ o, k ≤ o → ¬ Fits T free ⟨o, n⟩

variable {free n} {c k : Nat}

theorem counted_start (some : 0 < n) : Counted free n T 0 T where
  counted j from' below := by omega
  inside := le_refl T
  ends := .inl rfl
  short := some
  none o from' fits := by
    have inside : o + n ≤ T := fits.1
    omega

/-- A used cell, which starts the count again. -/
theorem Counted.used (counted : Counted free n T c (k + 1)) (here : ¬ free k) :
    Counted free n T 0 k where
  counted j from' below := by omega
  inside := by
    have inside := counted.inside
    omega
  ends := .inr here
  short := Nat.zero_lt_of_lt counted.short
  none o from' fits := by
    have short := counted.short
    rcases Nat.eq_or_lt_of_le from' with same | above
    · refine here (fits.2 k ⟨?_, ?_⟩)
      · exact Nat.le_of_eq same.symm
      · show k < o + n
        omega
    · exact counted.none o above fits

/-- A free cell makes the run that begins above it one longer. -/
theorem Counted.run (counted : Counted free n T c (k + 1)) (here : free k) (j : Nat)
    (from' : k ≤ j) (below : j < k + (c + 1)) : free j := by
  rcases Nat.eq_or_lt_of_le from' with rfl | above
  · exact here
  · exact counted.counted j above (by omega)

theorem Counted.le_of_fits (counted : Counted free n T c (k + 1)) {o : Nat}
    (fits : Fits T free ⟨o, n⟩) : o ≤ k :=
  not_lt.mp fun above => counted.none o above fits

theorem Counted.full (counted : Counted free n T c (k + 1)) (here : free k) (full : c + 1 = n) :
    Highest T free ⟨k, n⟩ := by
  refine ⟨⟨?_, ?_⟩, fun o fits => counted.le_of_fits fits⟩
  · have inside := counted.inside
    show k + n ≤ T
    omega
  · rintro j ⟨from', below⟩
    have below : j < k + n := below
    exact counted.run here j from' (by omega)

theorem Counted.more (counted : Counted free n T c (k + 1)) (here : free k) (more : c + 1 ≠ n) :
    Counted free n T (c + 1) k where
  counted := counted.run here
  inside := by
    have inside := counted.inside
    omega
  ends := by
    have same : k + (c + 1) = k + 1 + c := by omega
    rw [same]
    exact counted.ends
  short := by
    have short := counted.short
    omega
  none o from' fits := by
    have same : k = o := Nat.le_antisymm from' (counted.le_of_fits fits)
    subst same
    have short := counted.short
    have inside : k + n ≤ T := fits.1
    have ended : free (k + 1 + c) := fits.2 _ ⟨by show k ≤ _; omega, by show _ < k + n; omega⟩
    rcases counted.ends with last | used
    · omega
    · exact used ended

variable (free n) [DecidablePred free]

/-- Cells `k - 1` down to 0, with `c` free ones counted so far. -/
def searchDown : Nat → Nat → Option Nat
  | _, 0 => none
  | c, k + 1 =>
      let c := if free k then c + 1 else 0
      if c = n then some k else searchDown c k

variable {free n}

/-- The search from a count finds the highest run of all, or there is none. -/
theorem Counted.searchDown (counted : Counted free n T c k) :
    (∃ o, searchDown free n c k = some o ∧ Highest T free ⟨o, n⟩) ∨
      searchDown free n c k = .none ∧ ∀ o, ¬ Fits T free ⟨o, n⟩ := by
  induction k generalizing c with
  | zero => exact .inr ⟨rfl, fun o => counted.none o (Nat.zero_le o)⟩
  | succ k ih =>
      have some := Nat.zero_lt_of_lt counted.short
      rw [Extents.searchDown]
      by_cases here : free k
      · rw [if_pos here]
        by_cases full : c + 1 = n
        · rw [if_pos full]
          exact .inl ⟨k, rfl, counted.full here full⟩
        · rw [if_neg full]
          exact ih (counted.more here full)
      · rw [if_neg here, if_neg (Nat.ne_of_lt some)]
        exact ih (counted.used here)

theorem searchDown_eq_some_iff (some : 0 < n) {o : Nat} :
    searchDown free n 0 T = .some o ↔ Highest T free ⟨o, n⟩ := by
  rcases (counted_start some : Counted free n T 0 T).searchDown with
    ⟨o', found, high⟩ | ⟨found, none⟩
  · rw [found]
    constructor
    · rintro ⟨⟩
      exact high
    · intro high'
      exact congrArg Option.some (high.unique high')
  · rw [found]
    constructor
    · nofun
    · intro high
      exact absurd high.1 (none o)

theorem searchDown_eq_none_iff (some : 0 < n) :
    searchDown free n 0 T = none ↔ ∀ o, ¬ Fits T free ⟨o, n⟩ := by
  rcases (counted_start some : Counted free n T 0 T).searchDown with
    ⟨o', found, high⟩ | ⟨found, none⟩
  · rw [found]
    constructor
    · nofun
    · intro none
      exact absurd high.1 (none o')
  · exact ⟨fun _ => none, fun _ => found⟩

theorem searchDown_lt {o : Nat} (found : searchDown free n c k = .some o) : o < k := by
  induction k generalizing c with
  | zero => cases found
  | succ k ih =>
      rw [searchDown] at found
      split_ifs at found with here full full
      · cases found
        exact Nat.lt_succ_self _
      · exact Nat.lt_succ_of_lt (ih found)
      · cases found
        exact Nat.lt_succ_self _
      · exact Nat.lt_succ_of_lt (ih found)

/-- A search for no cells stops at a used one. -/
theorem searchDown_zero : (searchDown free 0 c k).isSome ↔ ∃ j < k, ¬ free j := by
  induction k generalizing c with
  | zero => simp [searchDown]
  | succ k ih =>
      rw [searchDown]
      by_cases here : free k
      · rw [if_pos here, if_neg c.succ_ne_zero, ih]
        constructor
        · rintro ⟨j, below, used⟩
          exact ⟨j, Nat.lt_succ_of_lt below, used⟩
        · rintro ⟨j, below, used⟩
          refine ⟨j, Nat.lt_of_le_of_ne (Nat.le_of_lt_succ below) ?_, used⟩
          rintro rfl
          exact used here
      · rw [if_neg here, if_pos rfl]
        exact iff_of_true rfl ⟨k, Nat.lt_succ_self k, here⟩

variable (T free n)

/-- The search has a result. -/
def Finds : Prop := if n = 0 then ∃ j < T, ¬ free j else ∃ o, Fits T free ⟨o, n⟩

variable {T free n}

theorem searchDown_isSome_iff : (searchDown free n 0 T).isSome ↔ Finds T free n := by
  unfold Finds
  split_ifs with none
  · rw [none]
    exact searchDown_zero
  · rw [Option.isSome_iff_ne_none, Ne, searchDown_eq_none_iff (Nat.pos_of_ne_zero none)]
    exact not_forall_not

instance : Decidable (Finds T free n) := decidable_of_iff _ searchDown_isSome_iff

end Search

/-! ## One run after another -/

/-- Runs of these lengths, one after another and each the highest there is, fit in what is
left free. -/
def FitsAll (T : Nat) : (Nat → Prop) → List Nat → Prop
  | _, [] => True
  | free, n :: ns =>
      ∃ o, Highest T free ⟨o, n⟩ ∧ FitsAll T (fun j => free j ∧ ¬ (⟨o, n⟩ : Extent).Covers j) ns

theorem fitsAll_cons {T : Nat} {free : Nat → Prop} {o n : Nat} (high : Highest T free ⟨o, n⟩)
    (ns : List Nat) : FitsAll T free (n :: ns) ↔
      FitsAll T (fun j => free j ∧ ¬ (⟨o, n⟩ : Extent).Covers j) ns := by
  constructor
  · rintro ⟨o', high', rest⟩
    exact high.unique high' ▸ rest
  · exact fun rest => ⟨o, high, rest⟩

/-- They fit where the free cells are those below `m`, and enough. -/
theorem fitsAll_of_below {T : Nat} {free : Nat → Prop} {m : Nat} (inside : m ≤ T)
    (below : ∀ j < T, free j ↔ j < m) {ns : List Nat} (some : ∀ n ∈ ns, 0 < n)
    (enough : ns.sum ≤ m) : FitsAll T free ns := by
  induction ns generalizing free m with
  | nil => trivial
  | cons n ns ih =>
      have positive := some n List.mem_cons_self
      rw [List.sum_cons] at enough
      have high : Highest T free ⟨m - n, n⟩ := by
        refine ⟨⟨by show m - n + n ≤ T; omega, ?_⟩, fun o fits => ?_⟩
        · rintro j ⟨-, last⟩
          have last : j < m - n + n := last
          exact (below j (by omega)).mpr (by omega)
        · have last : o + n ≤ T := fits.1
          have free : free (o + n - 1) :=
            fits.2 _ ⟨by show o ≤ _; omega, by show _ < o + n; omega⟩
          have less := (below _ (by omega)).mp free
          show o ≤ m - n
          omega
      refine ⟨m - n, high, ih (m := m - n) (by omega) (fun j last => ?_) ?_ (by omega)⟩
      · rw [below j last]
        show j < m ∧ ¬ (m - n ≤ j ∧ j < m - n + n) ↔ j < m - n
        omega
      · exact fun k mem => some k (List.mem_cons_of_mem n mem)

end Stm32Robot.Theory.Extents
