/-
# Heap.Blocks -- the blocks in use and the table

An `Arena` is a pool with the blocks it has handed out and not been given back.  The table
`Tracks` them when every cell of a block holds the number of its cells and every other cell
what it held at the beginning; then the blocks lie apart.  Requests and returns keep that up to
65535 cells, where `nmemb` ends (`Tracks.malloc`, `Tracks.free`).  A larger request that is
granted spoils it for good (`tracks_iff`).
-/
import Stm32Robot.Heap.Malloc
import Stm32Robot.Theory.PartialRun

namespace Stm32Robot.Heap

open Stm32Robot.Theory.Extents
open Stm32Robot.Theory.PartialRun

set_option autoImplicit false

/-! ## Histories -/

structure Block where
  offset : BitVec 32
  size : BitVec 32
deriving DecidableEq

/-- The cells of a block. -/
def Block.extent (b : Block) : Extent := ⟨b.offset.toNat / 32, blocks b.size⟩

structure Arena where
  pool : Pool
  live : List Block

namespace Arena

variable (memx : SramBank)

def malloc (size : BitVec 32) (h : Arena) : Arena :=
  let (offset, d) := mymemMalloc memx size h.pool
  ⟨d, if offset = 0xffffffff then h.live else ⟨offset, size⟩ :: h.live⟩

def free (b : Block) (h : Arena) : Arena :=
  ⟨(mymemFree memx b.offset h.pool).2, h.live.erase b⟩

/-- After `mymem_init`, whatever the table held before. -/
def start (d : Pool) : Arena := ⟨mymemInit memx d, []⟩

end Arena

inductive ArenaCall where
  | malloc (size : BitVec 32)
  | free (b : Block)

/-- Only blocks in use are given back. -/
def arenaStep (memx : SramBank) (h : Arena) : ArenaCall → Option Arena
  | .malloc size => some (h.malloc memx size)
  | .free b => if b ∈ h.live then some (h.free memx b) else none

theorem arenaStep_free_iff {memx : SramBank} {h h' : Arena} {b : Block} :
    arenaStep memx h (.free b) = some h' ↔ b ∈ h.live ∧ h.free memx b = h' :=
  Option.ite_none_right_eq_some.trans (and_congr_right fun _ => Option.some_inj)

/-! ## What the table holds -/

/-- The table records the blocks in use over `base`, what it held before them. -/
structure Tracks (memx : SramBank) (base : Nat → BitVec 16) (h : Arena) : Prop where
  ready : h.pool.memrdy = true
  layout : Layout Block.extent (memtblsize memx) h.live
  aligned : ∀ b ∈ h.live, b.offset = offsetOf b.extent.start
  above : ∀ b ∈ h.live, ∀ j, b.extent.Covers j → base j = 0
  cells : ∀ j, (h.pool.memmap j).toNat = cellOf Block.extent h.live j + (base j).toNat

section Steps

variable {memx : SramBank} {base : Nat → BitVec 16} {h : Arena} {b : Block} {size : BitVec 32}

theorem tracks_nil {d : Pool} (ready : d.memrdy = true) : Tracks memx d.memmap ⟨d, []⟩ where
  ready := ready
  layout := layout_nil
  aligned := nofun
  above := nofun
  cells _ := (Nat.zero_add _).symm

theorem tracks_start (d : Pool) : Tracks memx (mymemInit memx d).memmap (.start memx d) :=
  tracks_nil rfl

theorem extent_offsetOf {o : Nat} (inside : o ≤ memtblsize memx) :
    Block.extent ⟨offsetOf o, size⟩ = ⟨o, blocks size⟩ := by
  rw [Block.extent, offsetOf_toNat inside, Nat.mul_div_cancel_left o (by decide)]

theorem Tracks.free_iff (tracks : Tracks memx base h) (j : Nat) :
    h.pool.Free j ↔ cellOf Block.extent h.live j = 0 ∧ base j = 0 := by
  have cell := tracks.cells j
  have zero (v : BitVec 16) : v = 0 ↔ v.toNat = 0 := BitVec.toNat_inj.symm
  rw [Pool.Free, zero, zero, cell]
  exact Nat.add_eq_zero_iff

/-- From `mymem_init` on, a cell of the table is free exactly when no block in use is on it. -/
theorem Tracks.free_iff_of_start {d : Pool} (tracks : Tracks memx (mymemInit memx d).memmap h)
    {j : Nat} (inside : j < memtblsize memx) :
    h.pool.Free j ↔ ∀ b ∈ h.live, ¬ b.extent.Covers j := by
  rw [tracks.free_iff, tracks.layout.cellOf_eq_zero_iff]
  exact and_iff_left (mymemInit_apply memx d inside)

theorem Tracks.len_le (tracks : Tracks memx base h) (mem : b ∈ h.live) :
    b.extent.start < memtblsize memx ∧ b.extent.len ≤ memtblsize memx := by
  have some := tracks.layout.some b mem
  have inside := tracks.layout.inside b mem
  omega

/-- The counter at the offset of a block. -/
theorem Tracks.head (tracks : Tracks memx base h) (mem : b ∈ h.live) {j : Nat}
    (covers : b.extent.Covers j) : (h.pool.memmap j).toNat = b.extent.len := by
  rw [tracks.cells, tracks.layout.cellOf_of_mem mem covers, tracks.above b mem j covers]
  rfl

/-- Giving back a block clears its cells. -/
theorem Tracks.free_eq (tracks : Tracks memx base h) (mem : b ∈ h.live) :
    mymemFree memx b.offset h.pool = (0, h.pool.clear b.extent) := by
  have first := Extent.covers_start (tracks.layout.some b mem)
  rw [tracks.aligned b mem, mymemFree_eq tracks.ready (tracks.len_le mem).1,
    tracks.head mem first]

theorem Tracks.free (tracks : Tracks memx base h) (mem : b ∈ h.live) :
    Tracks memx base (h.free memx b) := by
  have pool : (h.free memx b).pool = h.pool.clear b.extent := by
    rw [Arena.free, tracks.free_eq mem]
  refine ⟨?_, tracks.layout.erase b, fun c mem => ?_, fun c mem => ?_, fun j => ?_⟩
  · rw [pool]
    exact tracks.ready
  · exact tracks.aligned c (List.mem_of_mem_erase mem)
  · exact tracks.above c (List.mem_of_mem_erase mem)
  · show _ = cellOf Block.extent (h.live.erase b) j + _
    rw [pool, Pool.memmap_clear, tracks.layout.cellOf_erase mem]
    split_ifs with covers
    · simp [tracks.above b mem j covers]
    · exact tracks.cells j

theorem Tracks.perm {d : Pool} {live live' : List Block} (perm : live.Perm live')
    (tracks : Tracks memx base ⟨d, live⟩) : Tracks memx base ⟨d, live'⟩ where
  ready := tracks.ready
  layout := tracks.layout.perm perm
  aligned b mem := tracks.aligned b (perm.mem_iff.mpr mem)
  above b mem := tracks.above b (perm.mem_iff.mpr mem)
  cells j := (tracks.cells j).trans (by rw [tracks.layout.cellOf_perm perm])

/-- With no block in use the table holds what it did; one that is left shows in it. -/
theorem Tracks.memmap_eq_iff (tracks : Tracks memx base h) :
    h.pool.memmap = base ↔ h.live = [] := by
  constructor
  · intro same
    refine List.eq_nil_iff_forall_not_mem.mpr fun b mem => ?_
    have some := tracks.layout.some b mem
    have first := Extent.covers_start some
    have cell := tracks.head mem first
    rw [same, tracks.above b mem _ first] at cell
    exact absurd cell (Nat.ne_of_lt some)
  · intro none
    funext j
    have cell := tracks.cells j
    rw [none] at cell
    exact BitVec.eq_of_toNat_eq (cell.trans (Nat.zero_add _))

theorem malloc_of_failed
    (failed : mymemMalloc memx size h.pool = (0xffffffff, h.pool)) : h.malloc memx size = h := by
  rw [Arena.malloc, failed]
  rfl

theorem malloc_of_granted {o : Nat} (inside : o ≤ memtblsize memx) {d : Pool}
    (granted : mymemMalloc memx size h.pool = (offsetOf o, d)) :
    h.malloc memx size = ⟨d, ⟨offsetOf o, size⟩ :: h.live⟩ := by
  rw [Arena.malloc, granted]
  exact congrArg (Arena.mk d) (if_neg (offsetOf_ne inside))

theorem Tracks.mark (tracks : Tracks memx base h) (some : size ≠ 0) {o : Nat}
    (fits : Fits (memtblsize memx) h.pool.Free ⟨o, blocks size⟩) :
    Tracks memx base ⟨h.pool.mark ⟨o, blocks size⟩, ⟨offsetOf o, size⟩ :: h.live⟩ := by
  have inside : o + blocks size ≤ memtblsize memx := fits.1
  have extent : Block.extent ⟨offsetOf o, size⟩ = ⟨o, blocks size⟩ :=
    extent_offsetOf (show o ≤ memtblsize memx by omega)
  have free (j : Nat) (covers : (⟨o, blocks size⟩ : Extent).Covers j) :=
    (tracks.free_iff j).mp (fits.2 j covers)
  refine ⟨tracks.ready, ?_, fun c mem => ?_, fun c mem j covers => ?_, fun j => ?_⟩
  · refine tracks.layout.cons ?_ ?_ ?_ <;> rw [extent]
    · exact blocks_pos some
    · exact inside
    · exact fun j covers => (free j covers).1
  · rcases List.mem_cons.mp mem with rfl | old
    · rw [extent]
    · exact tracks.aligned c old
  · rcases List.mem_cons.mp mem with rfl | old
    · rw [extent] at covers
      exact (free j covers).2
    · exact tracks.above c old j covers
  · show _ = cellOf Block.extent (_ :: h.live) j + _
    rw [Pool.memmap_mark, cellOf, extent]
    split_ifs with covers
    · have small := memtblsize_le memx
      show (BitVec.ofNat 16 (blocks size)).toNat = blocks size + _
      rw [(free j covers).2, BitVec.toNat_ofNat, Nat.mod_eq_of_lt (by omega)]
      rfl
    · exact tracks.cells j

theorem Tracks.malloc (tracks : Tracks memx base h) (small : size.toNat ≤ 65535 * 32) :
    Tracks memx base (h.malloc memx size) := by
  by_cases some : size = 0
  · rw [malloc_of_failed (some ▸ mymemMalloc_zero tracks.ready)]
    exact tracks
  rcases mymemMalloc_cases memx tracks.ready some (blocks_lt_iff.mpr small) with
    ⟨o, high, granted⟩ | ⟨-, failed⟩
  · have inside : o + blocks size ≤ memtblsize memx := high.1.1
    rw [malloc_of_granted (by omega) granted]
    exact tracks.mark some high.1
  · rw [malloc_of_failed failed]
    exact tracks

end Steps

/-! ## Requests that are too large -/

/-- A request for more cells than `nmemb` can count, where the search for the rest of the
division ends. -/
def Misfit (memx : SramBank) (h : Arena) (size : BitVec 32) : Prop :=
  65535 * 32 < size.toNat ∧ Finds (memtblsize memx) h.pool.Free (blocks size % 65536)

section Misfits

variable {memx : SramBank} {base : Nat → BitVec 16} {h h' : Arena} {size : BitVec 32}

theorem memrdy_mymemMalloc {d : Pool} (ready : d.memrdy = true) :
    (mymemMalloc memx size d).2.memrdy = true := by
  unfold mymemMalloc
  rw [if_pos ready]
  split_ifs
  · exact ready
  · dsimp only
    split <;> exact ready

theorem memrdy_mymemFree {d : Pool} (ready : d.memrdy = true) {offset : BitVec 32} :
    (mymemFree memx offset d).2.memrdy = true := by
  unfold mymemFree
  rw [if_pos ready]
  split_ifs <;> exact ready

theorem memrdy_arenaStep {c : ArenaCall} (ready : h.pool.memrdy = true)
    (ran : arenaStep memx h c = some h') : h'.pool.memrdy = true := by
  cases c with
  | malloc size =>
      cases ran
      exact memrdy_mymemMalloc ready
  | free b =>
      obtain ⟨-, rfl⟩ := arenaStep_free_iff.mp ran
      exact memrdy_mymemFree ready

theorem memrdy_run {d : Pool} {calls : List ArenaCall}
    (ran : runPartial (arenaStep memx) (Arena.start memx d) calls = some h) :
    h.pool.memrdy = true :=
  runPartial_invariant (P := fun h => h.pool.memrdy = true) (fun _ _ _ => memrdy_arenaStep) rfl ran

theorem Misfit.large (misfit : Misfit memx h size) : 65536 ≤ blocks size := by
  refine Nat.le_of_not_lt fun less => ?_
  have few := blocks_lt_iff.mp less
  have many := misfit.1
  omega

/-- It is granted, and the block is larger than the pool. -/
theorem Misfit.granted (ready : h.pool.memrdy = true) (misfit : Misfit memx h size) :
    (mymemMalloc memx size h.pool).1 ≠ 0xffffffff := by
  refine (granted_iff ready).mpr ⟨?_, misfit.2⟩
  rintro rfl
  exact absurd misfit.1 (by decide)

theorem malloc_live (granted : (mymemMalloc memx size h.pool).1 ≠ 0xffffffff) :
    (h.malloc memx size).live = ⟨(mymemMalloc memx size h.pool).1, size⟩ :: h.live :=
  if_neg granted

theorem Misfit.not_tracks (ready : h.pool.memrdy = true) (misfit : Misfit memx h size) :
    ¬ Tracks memx base (h.malloc memx size) := by
  intro tracks
  have mem : ⟨(mymemMalloc memx size h.pool).1, size⟩ ∈ (h.malloc memx size).live := by
    rw [malloc_live (misfit.granted ready)]
    exact List.mem_cons_self
  have len : blocks size ≤ memtblsize memx := (tracks.len_le mem).2
  have small := memtblsize_le memx
  have large := misfit.large
  omega

theorem Tracks.malloc_of_not_misfit (tracks : Tracks memx base h)
    (fitting : ¬ Misfit memx h size) : Tracks memx base (h.malloc memx size) := by
  by_cases small : size.toNat ≤ 65535 * 32
  · exact tracks.malloc small
  have failed : ¬ (mymemMalloc memx size h.pool).1 ≠ 0xffffffff := fun granted =>
    fitting ⟨Nat.lt_of_not_le small, ((granted_iff tracks.ready).mp granted).2⟩
  rw [malloc_of_failed (mymemMalloc_of_failed tracks.ready (not_not.mp failed))]
  exact tracks

end Misfits

/-- The table tracks the blocks in every state of a run exactly when the run has no misfit. -/
theorem tracks_iff (memx : SramBank) (d : Pool) (calls : List ArenaCall) :
    (∀ before h, before <+: calls →
        runPartial (arenaStep memx) (Arena.start memx d) before = some h →
        Tracks memx (mymemInit memx d).memmap h) ↔
      ∀ before size h, before ++ [.malloc size] <+: calls →
        runPartial (arenaStep memx) (Arena.start memx d) before = some h →
        ¬ Misfit memx h size := by
  have always (h : Arena) (c : ArenaCall) (h' : Arena) (ready : h.pool.memrdy = true)
      (ran : arenaStep memx h c = some h') : h'.pool.memrdy = true := memrdy_arenaStep ready ran
  have kept (h : Arena) (c : ArenaCall) (h' : Arena) (_ : h.pool.memrdy = true)
      (tracks : Tracks memx (mymemInit memx d).memmap h)
      (fitting : ¬ ∃ size, c = .malloc size ∧ Misfit memx h size)
      (ran : arenaStep memx h c = some h') : Tracks memx (mymemInit memx d).memmap h' := by
    cases c with
    | malloc size =>
        cases ran
        exact tracks.malloc_of_not_misfit fun misfit => fitting ⟨size, rfl, misfit⟩
    | free b =>
        obtain ⟨mem, rfl⟩ := arenaStep_free_iff.mp ran
        exact tracks.free mem
  have broken (h : Arena) (c : ArenaCall) (h' : Arena) (ready : h.pool.memrdy = true)
      (misfits : ∃ size, c = .malloc size ∧ Misfit memx h size)
      (ran : arenaStep memx h c = some h') : ¬ Tracks memx (mymemInit memx d).memmap h' := by
    obtain ⟨size, rfl, misfit⟩ := misfits
    cases ran
    exact misfit.not_tracks ready
  rw [throughout_iff_step always kept broken rfl (tracks_start d)]
  constructor
  · intro spared before size h inside ran misfit
    exact spared before (.malloc size) h _ inside ran rfl ⟨size, rfl, misfit⟩
  · rintro spared before _ h _ inside ran - ⟨size, rfl, misfit⟩
    exact spared before size h inside ran misfit

end Stm32Robot.Heap
