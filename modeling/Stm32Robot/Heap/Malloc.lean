/-
# Heap.Malloc -- the memory pools

`malloc.c` hands out blocks of a pool in cells of 32 bytes.  A table with one counter per cell
says which are taken: all cells of a block hold the number of its cells, and `mymem_free` reads
it at the offset it is given.  `mymem_malloc` searches the table from its end down.

`mymemMalloc_cases` says what a request does to a pool, `granted_iff` when it is granted, and
`mymemFree_eq` what is given back.
-/
import Mathlib.Logic.Function.Basic
import Stm32Robot.Theory.Extents

namespace Stm32Robot.Heap

open Stm32Robot.Theory.Extents

set_option autoImplicit false

/-! ## malloc.c -/

inductive SramBank where
  | sramin
  | sramex
  | sramccm
deriving DecidableEq

def memsize : SramBank → Nat
  | .sramin => 100 * 1024
  | .sramex => 200 * 1024
  | .sramccm => 60 * 1024

def memblksize (_ : SramBank) : BitVec 32 := 32

def memtblsize (memx : SramBank) : Nat := memsize memx / (memblksize memx).toNat

/-- What `mallco_dev` has for one bank.  The counters from `memtblsize` on are what lies behind
the table. -/
@[ext] structure Pool where
  memmap : Nat → BitVec 16
  memrdy : Bool

/-- `for(i=0;i<n;i++)memmap[offset+i]=value;` -/
def fill (memmap : Nat → BitVec 16) (offset : Nat) (value : BitVec 16) : Nat → Nat → BitVec 16
  | 0 => memmap
  | n + 1 => Function.update (fill memmap offset value n) (offset + n) value

/-- The bytes of the pool, which it clears as well, are not modelled. -/
def mymemInit (memx : SramBank) (d : Pool) : Pool where
  memmap := fill d.memmap 0 0 (memtblsize memx)
  memrdy := true

/-- Where the loop over `offset` stops. -/
def searchMap (memmap : Nat → BitVec 16) (nmemb : BitVec 16) : BitVec 16 → Nat → Option Nat
  | _, 0 => none
  | cmemb, offset + 1 =>
      let cmemb := if memmap offset = 0 then cmemb + 1 else 0
      if cmemb = nmemb then some offset else searchMap memmap nmemb cmemb offset

/-- `nmemb` is a `u16`. -/
def nmembOf (memx : SramBank) (size : BitVec 32) : BitVec 16 :=
  let nmemb := (size / memblksize memx).setWidth 16
  if size % memblksize memx ≠ 0 then nmemb + 1 else nmemb

def mymemMalloc (memx : SramBank) (size : BitVec 32) (d : Pool) : BitVec 32 × Pool :=
  let d := if d.memrdy then d else mymemInit memx d
  if size = 0 then (0xffffffff, d)
  else
    let nmemb := nmembOf memx size
    match searchMap d.memmap nmemb 0 (memtblsize memx) with
    | some offset =>
        (BitVec.ofNat 32 offset * memblksize memx,
          { d with memmap := fill d.memmap offset nmemb nmemb.toNat })
    | none => (0xffffffff, d)

def mymemFree (memx : SramBank) (offset : BitVec 32) (d : Pool) : UInt8 × Pool :=
  if d.memrdy then
    if offset.toNat < memsize memx then
      let index := (offset / memblksize memx).toNat
      let nmemb := (d.memmap index).toNat
      (0, { d with memmap := fill d.memmap index 0 nmemb })
    else (2, d)
  else (1, mymemInit memx d)

/-! ## The loops -/

theorem fill_apply (memmap : Nat → BitVec 16) (offset : Nat) (value : BitVec 16) (n j : Nat) :
    fill memmap offset value n j =
      if (⟨offset, n⟩ : Extent).Covers j then value else memmap j := by
  induction n with
  | zero => exact (if_neg fun covers => absurd covers.2 (Nat.not_lt.mpr covers.1)).symm
  | succ n ih =>
      rw [fill, Function.update_apply, ih]
      by_cases last : j = offset + n
      · rw [if_pos last, if_pos ⟨by show offset ≤ j; omega, by show j < offset + (n + 1); omega⟩]
      · rw [if_neg last]
        refine if_congr (and_congr_right fun _ => ?_) rfl rfl
        show j < offset + n ↔ j < offset + (n + 1)
        omega

theorem mymemInit_apply (memx : SramBank) (d : Pool) {j : Nat} (inside : j < memtblsize memx) :
    (mymemInit memx d).memmap j = 0 := by
  show fill d.memmap 0 0 (memtblsize memx) j = 0
  rw [fill_apply]
  exact if_pos ⟨Nat.zero_le j, by show j < 0 + memtblsize memx; omega⟩

theorem memtblsize_eq (memx : SramBank) : memsize memx = 32 * memtblsize memx := by
  cases memx <;> rfl

theorem memtblsize_le (memx : SramBank) : memtblsize memx ≤ 6400 := by
  cases memx <;> decide

/-- The cells not in use. -/
def Pool.Free (d : Pool) (j : Nat) : Prop := d.memmap j = 0

instance (d : Pool) : DecidablePred d.Free := fun j => inferInstanceAs (Decidable (d.memmap j = 0))

/-- The count does not wrap, as the table has less than 65536 cells. -/
theorem searchMap_eq (d : Pool) (nmemb cmemb : BitVec 16) {offset : Nat}
    (small : cmemb.toNat + offset < 65536) :
    searchMap d.memmap nmemb cmemb offset =
      searchDown d.Free nmemb.toNat cmemb.toNat offset := by
  induction offset generalizing cmemb with
  | zero => rfl
  | succ offset ih =>
      have same (c : BitVec 16) : c = nmemb ↔ c.toNat = nmemb.toNat := BitVec.toNat_inj.symm
      have next : (cmemb + 1).toNat = cmemb.toNat + 1 := by
        rw [BitVec.toNat_add]
        exact Nat.mod_eq_of_lt (by show cmemb.toNat + 1 < 65536; omega)
      rw [searchMap, searchDown]
      by_cases free : d.memmap offset = 0
      · rw [if_pos free, if_pos (show d.Free offset from free), ih (cmemb + 1) (by omega), next]
        exact if_congr ((same _).trans (by rw [next])) rfl rfl
      · rw [if_neg free, if_neg (show ¬ d.Free offset from free), ih 0 (by simp; omega)]
        exact if_congr (same 0) rfl rfl

/-! ## Sizes and cells -/

/-- The cells a block of so many bytes takes. -/
def blocks (size : BitVec 32) : Nat := (size.toNat + 31) / 32

/-- The offset of a cell. -/
def offsetOf (o : Nat) : BitVec 32 := BitVec.ofNat 32 (32 * o)

theorem nmembOf_toNat (memx : SramBank) (size : BitVec 32) :
    (nmembOf memx size).toNat = blocks size % 65536 := by
  have quotient : (size / memblksize memx).toNat = size.toNat / 32 := BitVec.toNat_udiv
  have remainder : size % memblksize memx ≠ 0 ↔ size.toNat % 32 ≠ 0 := by
    rw [Ne, ← BitVec.toNat_inj]
    exact Iff.rfl
  have whole : ((size / memblksize memx).setWidth 16).toNat = size.toNat / 32 % 65536 := by
    rw [BitVec.toNat_setWidth, quotient]
  unfold nmembOf blocks
  by_cases part : size % memblksize memx ≠ 0
  · rw [if_pos part, BitVec.toNat_add, whole]
    have some := remainder.mp part
    show (size.toNat / 32 % 65536 + 1) % 65536 = (size.toNat + 31) / 32 % 65536
    omega
  · rw [if_neg part, whole]
    have none : size.toNat % 32 = 0 := not_not.mp (mt remainder.mpr part)
    omega

theorem blocks_pos {size : BitVec 32} (some : size ≠ 0) : 0 < blocks size := by
  have positive : size.toNat ≠ 0 := fun zero => some (BitVec.eq_of_toNat_eq zero)
  unfold blocks
  omega

/-- `mymemInit` where it is needed. -/
def Pool.readied (memx : SramBank) (d : Pool) : Pool := if d.memrdy then d else mymemInit memx d

theorem memrdy_readied (memx : SramBank) (d : Pool) : (d.readied memx).memrdy = true := by
  unfold Pool.readied
  split_ifs with ready
  · exact ready
  · rfl

theorem mymemMalloc_readied (memx : SramBank) (size : BitVec 32) (d : Pool) :
    mymemMalloc memx size (d.readied memx) = mymemMalloc memx size d := by
  have again : (if (d.readied memx).memrdy then d.readied memx else mymemInit memx (d.readied memx))
      = d.readied memx := if_pos (memrdy_readied memx d)
  rw [mymemMalloc, again]
  rfl

/-- Where the table is still zero, it does not change. -/
theorem readied_memmap {memx : SramBank} {d : Pool}
    (boot : d.memrdy = false → ∀ j < memtblsize memx, d.memmap j = 0) :
    (d.readied memx).memmap = d.memmap := by
  unfold Pool.readied
  split_ifs with ready
  · rfl
  · funext j
    refine (fill_apply ..).trans (ite_eq_right_iff.mpr fun covers => ?_)
    have below : j < 0 + memtblsize memx := covers.2
    exact (boot (Bool.eq_false_iff.mpr ready) j (by omega)).symm

/-- The call as a search over the cells that are free. -/
theorem mymemMalloc_eq (memx : SramBank) {size : BitVec 32} (some : size ≠ 0) (d : Pool) :
    mymemMalloc memx size d =
      match searchDown (d.readied memx).Free (blocks size % 65536) 0 (memtblsize memx) with
      | .some o =>
          (offsetOf o, { d.readied memx with
            memmap := fill (d.readied memx).memmap o (nmembOf memx size)
              (blocks size % 65536) })
      | none => (0xffffffff, d.readied memx) := by
  have search := searchMap_eq (d.readied memx) (nmembOf memx size) 0
    (show 0 + memtblsize memx < 65536 by have := memtblsize_le memx; omega)
  have times (o : Nat) : BitVec.ofNat 32 o * memblksize memx = offsetOf o := by
    rw [offsetOf, Nat.mul_comm]
    exact (BitVec.ofNat_mul ..).symm
  show (if size = 0 then _ else _) = _
  rw [if_neg some, ← nmembOf_toNat memx]
  show (match searchMap (d.readied memx).memmap (nmembOf memx size) 0 (memtblsize memx) with
    | .some o => (BitVec.ofNat 32 o * memblksize memx, _)
    | none => (0xffffffff, d.readied memx)) = _
  rw [search]
  simp only [times]
  rfl

/-! ## Requests and returns -/

namespace Pool

/-- The cells of a block hold their number. -/
def mark (d : Pool) (e : Extent) : Pool :=
  { d with memmap := fill d.memmap e.start (BitVec.ofNat 16 e.len) e.len }

def clear (d : Pool) (e : Extent) : Pool := { d with memmap := fill d.memmap e.start 0 e.len }

variable (d : Pool) (e : Extent) (j : Nat)

theorem memmap_mark :
    (d.mark e).memmap j = if e.Covers j then BitVec.ofNat 16 e.len else d.memmap j :=
  fill_apply ..

theorem memmap_clear : (d.clear e).memmap j = if e.Covers j then 0 else d.memmap j :=
  fill_apply ..

variable {d e}

theorem clear_mark (free : ∀ j, e.Covers j → d.Free j) : (d.mark e).clear e = d := by
  ext1
  · funext j
    rw [memmap_clear, memmap_mark]
    split_ifs with covers
    · exact (free j covers).symm
    · rfl
  · rfl

/-- What is left free. -/
theorem free_mark (some : 0 < e.len) (small : e.len < 65536) {j : Nat} :
    (d.mark e).Free j ↔ d.Free j ∧ ¬ e.Covers j := by
  have marked : BitVec.ofNat 16 e.len ≠ 0 := by
    intro zero
    have value := congrArg BitVec.toNat zero
    rw [BitVec.toNat_ofNat, Nat.mod_eq_of_lt small] at value
    exact absurd value (Nat.ne_of_gt some)
  rw [Free, memmap_mark]
  by_cases covers : e.Covers j
  · rw [if_pos covers]
    exact iff_of_false marked fun free => free.2 covers
  · rw [if_neg covers]
    exact (and_iff_left covers).symm

end Pool

section Ready

variable {memx : SramBank} {d : Pool} {size : BitVec 32} {o : Nat}

theorem offsetOf_toNat (inside : o ≤ memtblsize memx) : (offsetOf o).toNat = 32 * o := by
  have small := memtblsize_le memx
  rw [offsetOf, BitVec.toNat_ofNat]
  exact Nat.mod_eq_of_lt (by omega)

theorem offsetOf_ne (inside : o ≤ memtblsize memx) : offsetOf o ≠ 0xffffffff := by
  intro same
  have value := congrArg BitVec.toNat same
  rw [offsetOf_toNat inside] at value
  have small := memtblsize_le memx
  have most : (0xffffffff : BitVec 32).toNat = 4294967295 := rfl
  omega

theorem blocks_lt_iff : blocks size < 65536 ↔ size.toNat ≤ 65535 * 32 := by
  unfold blocks
  omega

variable (ready : d.memrdy = true)
include ready

theorem mymemMalloc_zero : mymemMalloc memx 0 d = (0xffffffff, d) := by
  simp [mymemMalloc, ready]

variable (memx) in
/-- The call is the search for the truncated number of cells. -/
theorem mymemMalloc_search (some : size ≠ 0) :
    (∃ o, o < memtblsize memx ∧
        searchDown d.Free (blocks size % 65536) 0 (memtblsize memx) = .some o ∧
        mymemMalloc memx size d = (offsetOf o,
          { d with memmap := fill d.memmap o (nmembOf memx size) (blocks size % 65536) })) ∨
      searchDown d.Free (blocks size % 65536) 0 (memtblsize memx) = none ∧
        mymemMalloc memx size d = (0xffffffff, d) := by
  have call := mymemMalloc_eq memx some d
  rw [show d.readied memx = d from if_pos ready] at call
  cases found : searchDown d.Free (blocks size % 65536) 0 (memtblsize memx) with
  | some o =>
      rw [found] at call
      exact .inl ⟨o, searchDown_lt found, rfl, call⟩
  | none =>
      rw [found] at call
      exact .inr ⟨rfl, call⟩

variable (memx) in
/-- A request that is not larger than 65535 cells. -/
theorem mymemMalloc_cases (some : size ≠ 0) (small : blocks size < 65536) :
    (∃ o, Highest (memtblsize memx) d.Free ⟨o, blocks size⟩ ∧
        mymemMalloc memx size d = (offsetOf o, d.mark ⟨o, blocks size⟩)) ∨
      (∀ o, ¬ Fits (memtblsize memx) d.Free ⟨o, blocks size⟩) ∧
        mymemMalloc memx size d = (0xffffffff, d) := by
  have whole : blocks size % 65536 = blocks size := Nat.mod_eq_of_lt small
  have marks : nmembOf memx size = BitVec.ofNat 16 (blocks size) := by
    rw [← whole, ← nmembOf_toNat memx, BitVec.ofNat_toNat, BitVec.setWidth_eq]
  have call := mymemMalloc_search memx ready some
  rw [whole, marks] at call
  rcases call with ⟨o, -, found, granted⟩ | ⟨found, failed⟩
  · exact .inl ⟨o, (searchDown_eq_some_iff (blocks_pos some)).mp found, granted⟩
  · exact .inr ⟨(searchDown_eq_none_iff (blocks_pos some)).mp found, failed⟩

/-- Any request is granted where the search for its truncated number of cells ends. -/
theorem granted_iff : (mymemMalloc memx size d).1 ≠ 0xffffffff ↔
    size ≠ 0 ∧ Finds (memtblsize memx) d.Free (blocks size % 65536) := by
  by_cases some : size = 0
  · rw [some, mymemMalloc_zero ready]
    simp
  rw [← searchDown_isSome_iff]
  rcases mymemMalloc_search memx ready some with
    ⟨o, inside, found, granted⟩ | ⟨found, failed⟩
  · rw [granted, found]
    exact iff_of_true (offsetOf_ne (Nat.le_of_lt inside)) ⟨some, rfl⟩
  · rw [failed, found]
    simp

/-- A request that is not granted changes nothing. -/
theorem mymemMalloc_of_failed (failed : (mymemMalloc memx size d).1 = 0xffffffff) :
    mymemMalloc memx size d = (0xffffffff, d) := by
  by_cases some : size = 0
  · rw [some]
    exact mymemMalloc_zero ready
  rcases mymemMalloc_search memx ready some with ⟨o, inside, -, granted⟩ | ⟨-, none⟩
  · rw [granted] at failed
    exact absurd failed (offsetOf_ne (Nat.le_of_lt inside))
  · exact none

theorem mymemFree_eq (inside : o < memtblsize memx) :
    mymemFree memx (offsetOf o) d = (0, d.clear ⟨o, (d.memmap o).toNat⟩) := by
  have value := offsetOf_toNat (Nat.le_of_lt inside)
  have below : (offsetOf o).toNat < memsize memx := by
    rw [value, memtblsize_eq]
    omega
  have index : (offsetOf o / memblksize memx).toNat = o := by
    rw [BitVec.toNat_udiv, value]
    exact Nat.mul_div_cancel_left o (by decide)
  rw [mymemFree, if_pos ready, if_pos below]
  simp only [index]
  rfl

/-- Returning the cells of a request just granted. -/
theorem mymemFree_mark {e : Extent} (some : 0 < e.len) (small : e.len < 65536)
    (fits : Fits (memtblsize memx) d.Free e) :
    mymemFree memx (offsetOf e.start) (d.mark e) = (0, d) := by
  have inside := fits.1
  have marked : ((d.mark e).memmap e.start).toNat = e.len := by
    rw [Pool.memmap_mark, if_pos (Extent.covers_start some)]
    exact (BitVec.toNat_ofNat ..).trans (Nat.mod_eq_of_lt small)
  have free := mymemFree_eq (d := d.mark e) ready (show e.start < memtblsize memx by omega)
  rw [free, marked, Pool.clear_mark fits.2]

end Ready

end Stm32Robot.Heap
