/-
# Heap.ExactFree -- the search is complete and a return undoes a request

Whatever the table holds, a request of no more than the pool is granted the highest run of free
cells that is long enough, fails where there is none, and is undone by returning what it got.
Where the table tracks the blocks in use, they can be returned in any order: each time the cells
of the block are cleared and no others, and none of them is another block's.

`exact_iff` says in which runs all that holds in every state: again those where no request that
is too large is granted.
-/
import Stm32Robot.Heap.Blocks

namespace Stm32Robot.Heap

open Stm32Robot.Theory.Extents
open Stm32Robot.Theory.PartialRun

set_option autoImplicit false

/-- The request takes the highest run of free cells, or there is none and it changes nothing;
returning what it got restores the table. -/
structure AllocatesExactly (memx : SramBank) (d : Pool) (size : BitVec 32) : Prop where
  fails : (mymemMalloc memx size d).1 = 0xffffffff ↔
    ∀ o, ¬ Fits (memtblsize memx) d.Free ⟨o, blocks size⟩
  unchanged : (mymemMalloc memx size d).1 = 0xffffffff →
    (mymemMalloc memx size d).2.memmap = d.memmap
  marks : (mymemMalloc memx size d).1 ≠ 0xffffffff →
    ∃ o, Highest (memtblsize memx) d.Free ⟨o, blocks size⟩ ∧
      (mymemMalloc memx size d).1.toNat = 32 * o ∧
        ∀ j, ((⟨o, blocks size⟩ : Extent).Covers j →
            ((mymemMalloc memx size d).2.memmap j).toNat = blocks size) ∧
          (¬ (⟨o, blocks size⟩ : Extent).Covers j →
            (mymemMalloc memx size d).2.memmap j = d.memmap j)
  restored : (mymemMalloc memx size d).1 ≠ 0xffffffff →
    (mymemFree memx (mymemMalloc memx size d).1 (mymemMalloc memx size d).2).2.memmap = d.memmap

/-- Returning the block clears its cells, all of them in use and none of them another's. -/
structure FreesExactly (memx : SramBank) (h : Arena) (b : Block) : Prop where
  clears : ∀ j, (h.free memx b).pool.memmap j =
    if b.extent.Covers j then 0 else h.pool.memmap j
  used : ∀ j, b.extent.Covers j → ¬ h.pool.Free j
  others : ∀ c ∈ h.live.erase b, b.extent.Apart c.extent

/-- For every size up to that of the pool, and for every block, after any others have been
returned in any order. -/
structure Exact (memx : SramBank) (h : Arena) : Prop where
  allocates : ∀ size, size ≠ 0 → size.toNat ≤ memsize memx → AllocatesExactly memx h.pool size
  frees : ∀ (returned : List Block) (h' : Arena),
    runPartial (arenaStep memx) h (returned.map .free) = some h' →
      ∀ b ∈ h'.live, FreesExactly memx h' b

section Exactly

variable {memx : SramBank} {base : Nat → BitVec 16} {d : Pool} {h h' : Arena} {b : Block}
  {size : BitVec 32}

theorem allocatesExactly (ready : d.memrdy = true) (some : size ≠ 0)
    (small : size.toNat ≤ memsize memx) : AllocatesExactly memx d size := by
  have table := memtblsize_le memx
  have few : blocks size < 65536 := by
    rw [memtblsize_eq] at small
    exact blocks_lt_iff.mpr (by omega)
  rcases mymemMalloc_cases memx ready some few with ⟨o, high, granted⟩ | ⟨none, failed⟩
  · have inside : o + blocks size ≤ memtblsize memx := high.1.1
    have positive := blocks_pos some
    have below : o < memtblsize memx := by omega
    have value := offsetOf_toNat (Nat.le_of_lt below)
    have result : (mymemMalloc memx size d).1 ≠ 0xffffffff := by
      rw [granted]
      exact offsetOf_ne (Nat.le_of_lt below)
    refine ⟨iff_of_false result fun none => none o high.1, fun failed => absurd failed result,
      fun _ => ⟨o, high, ?_, fun j => ⟨fun covers => ?_, fun outside => ?_⟩⟩, fun _ => ?_⟩
    · rw [granted]
      exact value
    · rw [granted, Pool.memmap_mark, if_pos covers]
      exact (BitVec.toNat_ofNat ..).trans (Nat.mod_eq_of_lt few)
    · rw [granted, Pool.memmap_mark, if_neg outside]
    · have free := mymemFree_mark ready positive few high.1
      rw [granted, free]
  · have result : (mymemMalloc memx size d).1 = 0xffffffff := by rw [failed]
    exact ⟨iff_of_true result none, fun _ => by rw [failed], fun other => absurd result other,
      fun other => absurd result other⟩

theorem Tracks.freesExactly (tracks : Tracks memx base h) (mem : b ∈ h.live) :
    FreesExactly memx h b where
  clears j := by
    rw [Arena.free, tracks.free_eq mem]
    exact Pool.memmap_clear ..
  used j covers free := by
    have cell := tracks.head mem covers
    have some := tracks.layout.some b mem
    rw [show h.pool.memmap j = 0 from free] at cell
    exact absurd cell.symm (Nat.ne_of_gt some)
  others c other := tracks.layout.apart_of_mem_erase mem other

theorem Tracks.returned (tracks : Tracks memx base h) {returned : List Block}
    (ran : runPartial (arenaStep memx) h (returned.map .free) = some h') :
    Tracks memx base h' := by
  induction returned generalizing h with
  | nil => exact Option.some.inj ran ▸ tracks
  | cons b returned ih =>
      obtain ⟨next, first, rest⟩ := Option.bind_eq_some_iff.mp ran
      obtain ⟨mem, rfl⟩ := arenaStep_free_iff.mp first
      exact ih (tracks.free mem) rest

theorem Tracks.exact (tracks : Tracks memx base h) : Exact memx h where
  allocates _ some small := allocatesExactly tracks.ready some small
  frees _ _ ran _ mem := (tracks.returned ran).freesExactly mem

/-- No counter reaches further than 65535 cells. -/
theorem memmap_mymemFree_of_far (ready : d.memrdy = true) {offset : BitVec 32} {j : Nat}
    (far : offset.toNat / 32 + 65535 ≤ j) :
    (mymemFree memx offset d).2.memmap j = d.memmap j := by
  unfold mymemFree
  rw [if_pos ready]
  split_ifs
  · refine (fill_apply ..).trans (if_neg fun covers => ?_)
    have index : (offset / memblksize memx).toNat = offset.toNat / 32 := BitVec.toNat_udiv
    have count := (d.memmap (offset / memblksize memx).toNat).isLt
    obtain ⟨-, below⟩ := covers
    have below : j < (offset / memblksize memx).toNat +
        (d.memmap (offset / memblksize memx).toNat).toNat := below
    omega
  · rfl

/-- A block that is too large is not cleared to its end. -/
theorem not_freesExactly_of_large (ready : h.pool.memrdy = true)
    (large : 65536 ≤ b.extent.len) : ¬ FreesExactly memx h b := by
  intro frees
  have covers : b.extent.Covers (b.extent.start + 65535) :=
    ⟨Nat.le_add_right _ _, Nat.add_lt_add_left large _⟩
  have cleared := frees.clears (b.extent.start + 65535)
  rw [if_pos covers] at cleared
  have kept : (h.free memx b).pool.memmap (b.extent.start + 65535) =
      h.pool.memmap (b.extent.start + 65535) := memmap_mymemFree_of_far ready (Nat.le_refl _)
  exact frees.used _ covers (kept.symm.trans cleared)

theorem Misfit.not_exact (ready : h.pool.memrdy = true) (misfit : Misfit memx h size) :
    ¬ Exact memx (h.malloc memx size) := by
  intro exact
  have live := malloc_live (misfit.granted ready)
  have frees := exact.frees [] _ rfl _ (live ▸ List.mem_cons_self)
  refine absurd frees (not_freesExactly_of_large (memrdy_mymemMalloc ready) ?_)
  exact misfit.large

end Exactly

/-- In every run from `mymem_init`, the search is complete and every return exact in all states
exactly when no request is a misfit. -/
theorem exact_iff (memx : SramBank) (d : Pool) (calls : List ArenaCall) :
    (∀ before h, before <+: calls →
        runPartial (arenaStep memx) (Arena.start memx d) before = some h → Exact memx h) ↔
      ∀ before size h, before ++ [.malloc size] <+: calls →
        runPartial (arenaStep memx) (Arena.start memx d) before = some h →
        ¬ Misfit memx h size := by
  constructor
  · intro exact before size h inside ran misfit
    have after : runPartial (arenaStep memx) (Arena.start memx d) (before ++ [.malloc size]) =
        some (h.malloc memx size) := runPartial_concat_iff.mpr ⟨h, ran, rfl⟩
    exact misfit.not_exact (memrdy_run ran) (exact _ _ inside after)
  · intro fitting before h inside ran
    exact ((tracks_iff memx d calls).mpr fitting before h inside ran).exact

/-- In particular where every size can be counted, as every size up to that of a pool can. -/
theorem exact_of_small {memx : SramBank} {d : Pool} {calls : List ArenaCall} {h : Arena}
    (small : ∀ size, .malloc size ∈ calls → size.toNat ≤ 65535 * 32)
    (ran : runPartial (arenaStep memx) (Arena.start memx d) calls = some h) : Exact memx h := by
  refine ((tracks_iff memx d calls).mpr ?_ calls h (List.prefix_refl calls) ran).exact
  intro before size h inside _ misfit
  have last : .malloc size ∈ before ++ [.malloc size] :=
    List.mem_append_right before List.mem_cons_self
  have mem := inside.subset last
  exact absurd misfit.1 (Nat.not_lt.mpr (small size mem))

/-- A block of 2 MiB got the cell of a block of 32 bytes, and was returned.  Then a block of 64
bytes has that cell as well, and returning it clears it. -/
theorem returned_twoMebibytes :
    ∃ h, runPartial (arenaStep .sramin) (Arena.start .sramin ⟨fun _ => 0, false⟩)
        [.malloc 32, .malloc 0x200000, .free ⟨102368, 0x200000⟩, .malloc 64] = some h ∧
      h.live = [⟨102336, 64⟩, ⟨102368, 32⟩] ∧ ¬ FreesExactly .sramin h ⟨102336, 64⟩ ∧
        ¬ Exact .sramin h := by
  have ran : (runPartial (arenaStep .sramin) (Arena.start .sramin ⟨fun _ => 0, false⟩)
      [.malloc 32, .malloc 0x200000, .free ⟨102368, 0x200000⟩, .malloc 64]).map (·.live) =
        some [⟨102336, 64⟩, ⟨102368, 32⟩] := by
    decide +kernel
  obtain ⟨h, ran, live⟩ := Option.map_eq_some_iff.mp ran
  have both : ¬ FreesExactly .sramin h ⟨102336, 64⟩ := by
    intro frees
    have other : (⟨102368, 32⟩ : Block) ∈ h.live.erase ⟨102336, 64⟩ := by
      rw [live]
      decide
    exact frees.others _ other 3199 (by decide) (by decide)
  refine ⟨h, ran, live, both, fun exact => both ?_⟩
  exact exact.frees [] h rfl _ (live ▸ List.mem_cons_self)

end Stm32Robot.Heap
