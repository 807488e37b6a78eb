/-
# Heap.LiveBlocks -- blocks in use lie apart

Where the table tracks the blocks, what `mymem_malloc` hands out lies in the pool and off every
block in use.  The number of cells is a `u16`.  A request for more than 65535 of them is cut
down to the rest of the division by 65536, and granted where so many cells are free; where the
rest is zero it is given the first used cell the search meets.

`live_apart_iff` says that this is the only way: all blocks lie in the pool and apart exactly
in the runs where no such request is granted.
-/
import Mathlib.Order.Interval.Set.Basic
import Stm32Robot.Heap.Blocks

namespace Stm32Robot.Heap

open Stm32Robot.Theory.Extents
open Stm32Robot.Theory.PartialRun

set_option autoImplicit false

/-- The offsets of the bytes of a block. -/
def bytesAt (offset size : BitVec 32) : Set Nat :=
  Set.Ico offset.toNat (offset.toNat + size.toNat)

/-- What a request is granted ends in the pool and shares no byte with a block in use. -/
def GrantsApart (memx : SramBank) (h : Arena) (size : BitVec 32) : Prop :=
  let offset := (mymemMalloc memx size h.pool).1
  offset ≠ 0xffffffff →
    offset.toNat + size.toNat ≤ memsize memx ∧
      ∀ b ∈ h.live, ∀ x ∈ bytesAt offset size, x ∉ bytesAt b.offset b.size

section Apart

variable {memx : SramBank} {base : Nat → BitVec 16} {h : Arena} {size : BitVec 32}

theorem covers_of_mem_bytesAt {b : Block} (inside : b.extent.start ≤ memtblsize memx)
    (aligned : b.offset = offsetOf b.extent.start) {x : Nat}
    (mem : x ∈ bytesAt b.offset b.size) : b.extent.Covers (x / 32) := by
  have start : b.offset.toNat = 32 * b.extent.start := by
    rw [aligned, offsetOf_toNat inside]
  have len : b.extent.len = (b.size.toNat + 31) / 32 := rfl
  obtain ⟨from', below⟩ := mem
  constructor <;> omega

theorem not_mem_bytesAt_of_apart {b c : Block} (inside : b.extent.start ≤ memtblsize memx)
    (aligned : b.offset = offsetOf b.extent.start) (inside' : c.extent.start ≤ memtblsize memx)
    (aligned' : c.offset = offsetOf c.extent.start) (apart : b.extent.Apart c.extent) :
    ∀ x ∈ bytesAt b.offset b.size, x ∉ bytesAt c.offset c.size := fun _ mem mem' =>
  apart _ (covers_of_mem_bytesAt inside aligned mem) (covers_of_mem_bytesAt inside' aligned' mem')

/-- A state that tracks its blocks after a request has granted one apart from the others. -/
theorem grantsApart_of_tracks (tracks : Tracks memx base (h.malloc memx size)) :
    GrantsApart memx h size := by
  obtain ⟨offset, result⟩ : ∃ offset, (mymemMalloc memx size h.pool).1 = offset := ⟨_, rfl⟩
  simp only [GrantsApart, result]
  intro granted
  have live : (h.malloc memx size).live = ⟨offset, size⟩ :: h.live := by
    rw [malloc_live (result.trans_ne granted), result]
  have first : ⟨offset, size⟩ ∈ (h.malloc memx size).live := live ▸ List.mem_cons_self
  have later {b : Block} (mem : b ∈ h.live) : b ∈ (h.malloc memx size).live :=
    live ▸ List.mem_cons_of_mem _ mem
  have start {b : Block} (mem : b ∈ (h.malloc memx size).live) :=
    Nat.le_of_lt (tracks.len_le mem).1
  constructor
  · have inside := tracks.layout.inside _ first
    have aligned : offset.toNat = 32 * (offset.toNat / 32) :=
      (congrArg BitVec.toNat (tracks.aligned _ first)).trans (offsetOf_toNat (start first))
    have cells : offset.toNat / 32 + (size.toNat + 31) / 32 ≤ memtblsize memx := inside
    rw [memtblsize_eq]
    omega
  · intro b mem
    have pairs := tracks.layout.apart
    rw [live] at pairs
    exact not_mem_bytesAt_of_apart (start first) (tracks.aligned _ first) (start (later mem))
      (tracks.aligned b (later mem)) (List.rel_of_pairwise_cons pairs mem)

theorem Misfit.not_grantsApart (ready : h.pool.memrdy = true) (misfit : Misfit memx h size) :
    ¬ GrantsApart memx h size := by
  intro apart
  have inside := (apart (misfit.granted ready)).1
  have large := misfit.1
  have small := memtblsize_le memx
  rw [memtblsize_eq] at inside
  omega

end Apart

/-- In every run from `mymem_init`, every block that is handed out ends in the pool and lies
apart from those in use exactly when no request is a misfit. -/
theorem live_apart_iff (memx : SramBank) (d : Pool) (calls : List ArenaCall) :
    (∀ before size h, before ++ [.malloc size] <+: calls →
        runPartial (arenaStep memx) (Arena.start memx d) before = some h →
        GrantsApart memx h size) ↔
      ∀ before size h, before ++ [.malloc size] <+: calls →
        runPartial (arenaStep memx) (Arena.start memx d) before = some h →
        ¬ Misfit memx h size := by
  constructor
  · intro apart before size h inside ran misfit
    exact misfit.not_grantsApart (memrdy_run ran) (apart before size h inside ran)
  · intro fitting before size h inside ran
    have after : runPartial (arenaStep memx) (Arena.start memx d) (before ++ [.malloc size]) =
        some (h.malloc memx size) := runPartial_concat_iff.mpr ⟨h, ran, rfl⟩
    exact grantsApart_of_tracks ((tracks_iff memx d calls).mpr fitting _ _ inside after)

/-- With the last cell of the pool in use, a request for 2 MiB is granted that cell. -/
theorem twoMebibytes_share_a_cell :
    let start := Arena.start .sramin ⟨fun _ => 0, false⟩
    let h := start.malloc .sramin 32
    runPartial (arenaStep .sramin) start [.malloc 32] = some h ∧ h.live = [⟨102368, 32⟩] ∧
      (mymemMalloc .sramin 0x200000 h.pool).1 = 102368 ∧ ¬ GrantsApart .sramin h 0x200000 := by
  have granted : (mymemMalloc .sramin 0x200000
      ((Arena.start .sramin ⟨fun _ => 0, false⟩).malloc .sramin 32).pool).1 = 102368 := by
    decide +kernel
  refine ⟨rfl, by decide +kernel, granted, fun apart => ?_⟩
  have inside := (apart (granted.trans_ne (by decide))).1
  rw [granted] at inside
  exact absurd inside (by decide)

end Stm32Robot.Heap
