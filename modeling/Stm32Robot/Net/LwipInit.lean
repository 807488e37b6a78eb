/-
# Net.LwipInit -- what a failed initialisation leaves allocated

`lwip_comm_init` takes eight blocks from SRAMIN, four in `ETH_Mem_Malloc` and four in
`lwip_comm_mem_malloc`.  Each of the two returns its own four when one of them is missing.
After that nobody returns anything: the first four are lost when the second are not granted,
and all eight when `LAN8720_Init` or `netif_add` fails.

`memMalloc_cases` says what a group of requests does, over any table.  `restored_iff` says when
a failure leaves the table as it was.
-/
import Mathlib.Data.List.Perm.Basic
import Stm32Robot.Heap.Blocks

namespace Stm32Robot.Net

open Stm32Robot.Heap
open Stm32Robot.Theory.Extents

set_option autoImplicit false

/-! ## The source -/

/-- The address of a pool in memory. -/
structure Membase (memx : SramBank) where
  addr : BitVec 32
  nonnull : addr ≠ 0
  room : addr.toNat + memsize memx ≤ 4294967296

/-- A pool, and the pointers handed out and given back so far. -/
structure Memory where
  pool : Pool
  obtained : List (BitVec 32)
  freed : List (BitVec 32)

section Source

variable {memx : SramBank} (membase : Membase memx)

def mymalloc (size : BitVec 32) (s : Memory) : BitVec 32 × Memory :=
  let (offset, d) := mymemMalloc memx size s.pool
  if offset = 0xffffffff then (0, { s with pool := d })
  else (membase.addr + offset,
    { s with pool := d, obtained := s.obtained ++ [membase.addr + offset] })

def myfree (s : Memory) (ptr : BitVec 32) : Memory :=
  if ptr = 0 then s
  else { s with
    pool := (mymemFree memx (ptr - membase.addr) s.pool).2
    freed := s.freed ++ [ptr] }

/-- One request after another, whether they are granted or not. -/
def mallocAll : List (BitVec 32) → Memory → List (BitVec 32) × Memory
  | [], s => ([], s)
  | size :: sizes, s =>
      let (ptr, s) := mymalloc membase size s
      let (ptrs, s) := mallocAll sizes s
      (ptr :: ptrs, s)

/-- `ETH_Mem_Free` and `lwip_comm_mem_free`, on the pointers of the group. -/
def memFree (ptrs : List (BitVec 32)) (s : Memory) : Memory := ptrs.foldl (myfree membase) s

def memMalloc (sizes : List (BitVec 32)) (s : Memory) : UInt8 × Memory :=
  let (ptrs, s) := mallocAll membase sizes s
  if 0 ∈ ptrs then (1, memFree membase ptrs s) else (0, s)

/-- `ETH_RXBUFNB` and `ETH_TXBUFNB` are 5, and a descriptor has eight words. -/
def ethSizes : List (BitVec 32) := [5 * 32, 5 * 32, 1524 * 5, 1524 * 5]

def LWIP_MEM_ALIGN_SIZE (size : BitVec 32) : BitVec 32 := (size + 4 - 1) &&& ~~~(4 - 1)

/-- `mempsize` is `memp_get_memorysize()`, the sum of the sizes of lwIP's own pools. -/
def lwipSizes (mempsize : BitVec 32) : List (BitVec 32) :=
  [mempsize, LWIP_MEM_ALIGN_SIZE 16000 + 2 * LWIP_MEM_ALIGN_SIZE (4 * 3) + 4, 1000 * 4, 128 * 4]

def ethMemMalloc (s : Memory) : UInt8 × Memory := memMalloc membase ethSizes s

def lwipCommMemMalloc (mempsize : BitVec 32) (s : Memory) : UInt8 × Memory :=
  memMalloc membase (lwipSizes mempsize) s

/-- `lan8720Init` and `netifAdd` are what the two functions return.  Neither they nor
`tcpip_init` use the pool. -/
def lwipCommInit (mempsize : BitVec 32) (lan8720Init : UInt8) (netifAdd : BitVec 32)
    (s : Memory) : UInt8 × Memory :=
  let (failed, s) := ethMemMalloc membase s
  if failed ≠ 0 then (1, s)
  else
    let (failed, s) := lwipCommMemMalloc membase mempsize s
    if failed ≠ 0 then (1, s)
    else if lan8720Init ≠ 0 then (2, s)
    else if netifAdd = 0 then (3, s)
    else (0, s)

end Source

/-! ## Groups of requests -/

section Groups

variable {memx : SramBank} {membase : Membase memx} {base : Nat → BitVec 16} {s : Memory}
  {live : List Block} {size : BitVec 32} {sizes : List (BitVec 32)}

def addrOf (membase : Membase memx) (b : Block) : BitVec 32 := membase.addr + b.offset

/-- A size that is not zero and does not overflow `nmemb`. -/
def Countable (size : BitVec 32) : Prop := size ≠ 0 ∧ size.toNat ≤ 65535 * 32

theorem addrOf_ne {d : Pool} (tracks : Tracks memx base ⟨d, live⟩) {b : Block} (mem : b ∈ live) :
    addrOf membase b ≠ 0 := by
  have below := (tracks.len_le mem).1
  have offset : b.offset.toNat = 32 * b.extent.start := by
    rw [tracks.aligned b mem, offsetOf_toNat (Nat.le_of_lt below)]
  have room := membase.room
  rw [memtblsize_eq] at room
  have nonnull : membase.addr.toNat ≠ 0 := fun zero =>
    membase.nonnull (BitVec.eq_of_toNat_eq zero)
  intro null
  have sum := congrArg BitVec.toNat null
  rw [addrOf, BitVec.toNat_add, Nat.mod_eq_of_lt (by omega)] at sum
  have zero : (0 : BitVec 32).toNat = 0 := rfl
  omega

/-- One request. -/
theorem mymalloc_cases (membase : Membase memx) (countable : Countable size)
    (tracks : Tracks memx base ⟨s.pool, live⟩) :
    (∃ o, Highest (memtblsize memx) s.pool.Free ⟨o, blocks size⟩ ∧
        mymalloc membase size s = (addrOf membase ⟨offsetOf o, size⟩,
          { s with
            pool := s.pool.mark ⟨o, blocks size⟩
            obtained := s.obtained ++ [addrOf membase ⟨offsetOf o, size⟩] }) ∧
        Tracks memx base ⟨s.pool.mark ⟨o, blocks size⟩, ⟨offsetOf o, size⟩ :: live⟩) ∨
      (∀ o, ¬ Fits (memtblsize memx) s.pool.Free ⟨o, blocks size⟩) ∧
        mymalloc membase size s = (0, s) := by
  have small := blocks_lt_iff.mpr countable.2
  rcases mymemMalloc_cases memx tracks.ready countable.1 small with
    ⟨o, high, granted⟩ | ⟨none, failed⟩
  · have inside : o + blocks size ≤ memtblsize memx := high.1.1
    have ne : offsetOf o ≠ 0xffffffff := offsetOf_ne (show o ≤ memtblsize memx by omega)
    refine .inl ⟨o, high, ?_, tracks.mark countable.1 high.1⟩
    rw [mymalloc, granted]
    exact if_neg ne
  · refine .inr ⟨none, ?_⟩
    rw [mymalloc, failed]
    rfl

/-- The blocks `bs` have been handed out, which are the pointers that are not null. -/
structure Obtains (membase : Membase memx) (base : Nat → BitVec 16) (live : List Block)
    (s : Memory) (result : List (BitVec 32) × Memory) (bs : List Block) : Prop where
  tracks : Tracks memx base ⟨result.2.pool, bs ++ live⟩
  pointers : result.1.filter (· ≠ 0) = bs.map (addrOf membase)
  obtained : result.2.obtained = s.obtained ++ bs.map (addrOf membase)
  freed : result.2.freed = s.freed

theorem Obtains.cons {o : Nat} {rest : List (BitVec 32) × Memory} {bs : List Block}
    (obtains : Obtains membase base (⟨offsetOf o, size⟩ :: live)
      { s with
        pool := s.pool.mark ⟨o, blocks size⟩
        obtained := s.obtained ++ [addrOf membase ⟨offsetOf o, size⟩] } rest bs)
    (ne : addrOf membase ⟨offsetOf o, size⟩ ≠ 0) :
    Obtains membase base live s (addrOf membase ⟨offsetOf o, size⟩ :: rest.1, rest.2)
      (⟨offsetOf o, size⟩ :: bs) where
  tracks := obtains.tracks.perm List.perm_middle
  pointers := (List.filter_cons_of_pos (by simpa using ne)).trans (congrArg _ obtains.pointers)
  obtained := obtains.obtained.trans (List.append_assoc ..)
  freed := obtains.freed

theorem Obtains.cons_null {rest : List (BitVec 32) × Memory} {bs : List Block}
    (obtains : Obtains membase base live s rest bs) :
    Obtains membase base live s (0 :: rest.1, rest.2) bs where
  tracks := obtains.tracks
  pointers := (List.filter_cons_of_neg (by simp)).trans obtains.pointers
  obtained := obtains.obtained
  freed := obtains.freed

theorem length_mallocAll (membase : Membase memx) (sizes : List (BitVec 32)) (s : Memory) :
    (mallocAll membase sizes s).1.length = sizes.length := by
  induction sizes generalizing s with
  | nil => rfl
  | cons size sizes ih => exact congrArg (· + 1) (ih _)

/-- The requests of a group are all granted exactly when their cells fit one after another. -/
theorem mallocAll_obtains (membase : Membase memx)
    (countable : ∀ size ∈ sizes, Countable size)
    (tracks : Tracks memx base ⟨s.pool, live⟩) :
    ∃ bs, Obtains membase base live s (mallocAll membase sizes s) bs ∧
      ∀ ns, FitsAll (memtblsize memx) s.pool.Free (sizes.map blocks ++ ns) ↔
        0 ∉ (mallocAll membase sizes s).1 ∧
          FitsAll (memtblsize memx) (mallocAll membase sizes s).2.pool.Free ns := by
  induction sizes generalizing s live with
  | nil => exact ⟨[], ⟨tracks, rfl, (List.append_nil _).symm, rfl⟩, fun ns => by simp [mallocAll]⟩
  | cons size sizes ih =>
      have rest := fun size mem => countable size (List.mem_cons_of_mem _ mem)
      have one := countable size List.mem_cons_self
      rcases mymalloc_cases membase one tracks with ⟨o, high, granted, marked⟩ | ⟨none, failed⟩
      · obtain ⟨bs, obtains, fits⟩ := ih (s := { s with
            pool := s.pool.mark ⟨o, blocks size⟩
            obtained := s.obtained ++ [addrOf membase ⟨offsetOf o, size⟩] }) rest marked
        have ne : addrOf membase ⟨offsetOf o, size⟩ ≠ 0 := addrOf_ne marked List.mem_cons_self
        rw [mallocAll, granted]
        refine ⟨_, obtains.cons ne, fun ns => ?_⟩
        have few : blocks size < 65536 := blocks_lt_iff.mpr one.2
        have left : (fun j => s.pool.Free j ∧ ¬ (⟨o, blocks size⟩ : Extent).Covers j) =
            (s.pool.mark ⟨o, blocks size⟩).Free :=
          funext fun j => propext (Pool.free_mark (blocks_pos one.1) few).symm
        rw [List.map_cons, List.cons_append, fitsAll_cons high, left, fits ns, List.mem_cons,
          or_iff_right ne.symm]
      · obtain ⟨bs, obtains, -⟩ := ih rest tracks
        rw [mallocAll, failed]
        refine ⟨bs, obtains.cons_null, fun ns => ?_⟩
        refine iff_of_false ?_ fun both => both.1 List.mem_cons_self
        rintro ⟨o, high, -⟩
        exact none o high.1

/-- Returning the pointers of a group returns its blocks. -/
theorem memFree_returns {bs : List Block} {ptrs : List (BitVec 32)}
    (tracks : Tracks memx base ⟨s.pool, bs ++ live⟩)
    (pointers : ptrs.filter (· ≠ 0) = bs.map (addrOf membase)) :
    Tracks memx base ⟨(memFree membase ptrs s).pool, live⟩ ∧
      (memFree membase ptrs s).obtained = s.obtained ∧
        (memFree membase ptrs s).freed = s.freed ++ bs.map (addrOf membase) := by
  induction ptrs generalizing s bs with
  | nil =>
      obtain rfl : bs = [] := List.map_eq_nil_iff.mp pointers.symm
      exact ⟨tracks, rfl, (List.append_nil _).symm⟩
  | cons ptr ptrs ih =>
      rw [memFree, List.foldl_cons]
      by_cases null : ptr = 0
      · rw [List.filter_cons_of_neg (by simpa using null)] at pointers
        rw [myfree, if_pos null]
        exact ih tracks pointers
      · rw [List.filter_cons_of_pos (by simpa using null)] at pointers
        obtain ⟨b, bs, rfl, rfl, others⟩ := List.map_eq_cons_iff.mp pointers.symm
        have mem : b ∈ b :: bs ++ live := List.mem_cons_self
        have offset : addrOf membase b - membase.addr = b.offset := by
          rw [addrOf, BitVec.add_comm, BitVec.add_sub_cancel]
        have freed : Tracks memx base ⟨(mymemFree memx b.offset s.pool).2, bs ++ live⟩ := by
          have erased := tracks.free mem
          rw [Arena.free, List.cons_append, List.erase_cons_head] at erased
          exact erased
        rw [myfree, if_neg null, offset]
        obtain ⟨after, obtained, given⟩ := ih (s := { s with
          pool := (mymemFree memx b.offset s.pool).2
          freed := s.freed ++ [addrOf membase b] }) freed others.symm
        refine ⟨after, obtained, given.trans ?_⟩
        rw [List.append_assoc, List.map_cons]
        rfl

/-- A group is granted whole, or what it got is returned. -/
theorem memMalloc_cases (membase : Membase memx) (some : sizes ≠ [])
    (countable : ∀ size ∈ sizes, Countable size)
    (tracks : Tracks memx base ⟨s.pool, live⟩) :
    (∃ s' bs, memMalloc membase sizes s = (0, s') ∧ bs ≠ [] ∧
        Tracks memx base ⟨s'.pool, bs ++ live⟩ ∧
        ∀ ns, FitsAll (memtblsize memx) s.pool.Free (sizes.map blocks ++ ns) ↔
          FitsAll (memtblsize memx) s'.pool.Free ns) ∨
      ∃ s', ∃ bs : List Block, memMalloc membase sizes s = (1, s') ∧
        Tracks memx base ⟨s'.pool, live⟩ ∧
        s'.obtained = s.obtained ++ bs.map (addrOf membase) ∧
        s'.freed = s.freed ++ bs.map (addrOf membase) ∧
        ∀ ns, ¬ FitsAll (memtblsize memx) s.pool.Free (sizes.map blocks ++ ns) := by
  obtain ⟨bs, obtains, fits⟩ := mallocAll_obtains membase countable tracks
  by_cases missing : 0 ∈ (mallocAll membase sizes s).1
  · obtain ⟨after, obtained, freed⟩ := memFree_returns obtains.tracks obtains.pointers
    have total := obtained.trans obtains.obtained
    refine .inr ⟨_, bs, if_pos missing, after, total, ?_, fun ns all => ?_⟩
    · exact freed.trans (congrArg (· ++ _) obtains.freed)
    · exact ((fits ns).mp all).1 missing
  · refine .inl ⟨_, bs, if_neg missing, ?_, obtains.tracks, fun ns => ?_⟩
    · rintro rfl
      have all : (mallocAll membase sizes s).1.filter (· ≠ 0) = (mallocAll membase sizes s).1 :=
        List.filter_eq_self.mpr fun ptr mem => decide_eq_true fun null => missing (null ▸ mem)
      have none : (mallocAll membase sizes s).1 = [] := all.symm.trans obtains.pointers
      have length := length_mallocAll membase sizes s
      rw [none] at length
      exact some (List.length_eq_zero_iff.mp length.symm)
    · exact (fits ns).trans (and_iff_right missing)

end Groups

/-! ## The initialisation -/

/-- What is left of the pool where the result is an error: the table as it was, every block
that was obtained returned once and nothing else. -/
def Restored (d : Pool) (result : UInt8 × Memory) : Prop :=
  result.1 ≠ 0 →
    result.2.pool.memmap = d.memmap ∧ result.2.freed.Perm result.2.obtained

section Initialisation

variable {membase : Membase .sramin} {d : Pool} {mempsize : BitVec 32}

theorem countable_ethSizes : ∀ size ∈ ethSizes, Countable size := by
  simp [ethSizes, Countable]

theorem countable_lwipSizes (countable : Countable mempsize) :
    ∀ size ∈ lwipSizes mempsize, Countable size := by
  have others : ∀ size ∈ (lwipSizes mempsize).tail, Countable size := by
    simp [lwipSizes, LWIP_MEM_ALIGN_SIZE, Countable]
  exact List.forall_mem_cons.mpr ⟨countable, others⟩

section Branches

variable {s t u : Memory} {lan8720Init : UInt8} {netifAdd : BitVec 32}

theorem lwipCommInit_of_eth_failed (eth : ethMemMalloc membase s = (1, t)) :
    lwipCommInit membase mempsize lan8720Init netifAdd s = (1, t) := by
  simp [lwipCommInit, eth]

theorem lwipCommInit_of_lwip_failed (eth : ethMemMalloc membase s = (0, t))
    (lwip : lwipCommMemMalloc membase mempsize t = (1, u)) :
    lwipCommInit membase mempsize lan8720Init netifAdd s = (1, u) := by
  simp [lwipCommInit, eth, lwip]

theorem lwipCommInit_of_granted (eth : ethMemMalloc membase s = (0, t))
    (lwip : lwipCommMemMalloc membase mempsize t = (0, u)) :
    lwipCommInit membase mempsize lan8720Init netifAdd s =
      if lan8720Init ≠ 0 then (2, u) else if netifAdd = 0 then (3, u) else (0, u) := by
  simp [lwipCommInit, eth, lwip]

end Branches

theorem not_restored_of_live {code : UInt8} (error : code ≠ 0) {s : Memory} {live : List Block}
    (tracks : Tracks .sramin d.memmap ⟨s.pool, live⟩) (left : live ≠ []) :
    ¬ Restored d (code, s) :=
  fun restored => left (tracks.memmap_eq_iff.mp (restored error).1)

/-- The cells of all eight blocks fit. -/
def FitsEight (mempsize : BitVec 32) (d : Pool) : Prop :=
  FitsAll (memtblsize .sramin) d.Free ((ethSizes ++ lwipSizes mempsize).map blocks)

/-- The cells of the first four. -/
def FitsEth (d : Pool) : Prop := FitsAll (memtblsize .sramin) d.Free (ethSizes.map blocks)

/-- With all eight blocks handed out, every error loses them. -/
theorem restored_of_granted {four eight : Prop} (fits : four) (fits' : eight) {s : Memory}
    {live : List Block} (tracks : Tracks .sramin d.memmap ⟨s.pool, live⟩) (left : live ≠ [])
    {lan8720Init : UInt8} {netifAdd : BitVec 32} :
    Restored d (if lan8720Init ≠ 0 then (2, s) else if netifAdd = 0 then (3, s) else (0, s)) ↔
      ¬ (four ∧ ¬ (eight ∧ lan8720Init = 0 ∧ netifAdd ≠ 0)) := by
  split_ifs with lan netif
  · exact iff_of_false (not_restored_of_live (by decide) tracks left) fun all =>
      all ⟨fits, fun done => lan done.2.1⟩
  · exact iff_of_false (not_restored_of_live (by decide) tracks left) fun all =>
      all ⟨fits, fun done => done.2.2 netif⟩
  · exact iff_of_true (fun error => absurd rfl error) fun all =>
      all.2 ⟨fits', not_not.mp lan, netif⟩

theorem restored_iff_of_ready (membase : Membase .sramin) (countable : Countable mempsize)
    (ready : d.memrdy = true) (lan8720Init : UInt8) (netifAdd : BitVec 32) :
    Restored d (lwipCommInit membase mempsize lan8720Init netifAdd ⟨d, [], []⟩) ↔
      ¬ (FitsEth d ∧ ¬ (FitsEight mempsize d ∧ lan8720Init = 0 ∧ netifAdd ≠ 0)) := by
  have tracks : Tracks .sramin d.memmap ⟨d, []⟩ := tracks_nil ready
  have first : ethSizes ≠ [] := List.cons_ne_nil _ _
  have second : lwipSizes mempsize ≠ [] := List.cons_ne_nil _ _
  have whole (ns : List Nat) := List.append_nil ns
  rw [FitsEth, FitsEight, List.map_append]
  rcases memMalloc_cases membase (s := ⟨d, [], []⟩) first countable_ethSizes tracks with
    ⟨s, bs, eth, some, held, fits⟩ | ⟨s, bs, eth, after, obtained, freed, none⟩
  · have four := (fits []).mpr trivial
    rw [whole] at four
    rcases memMalloc_cases membase second (countable_lwipSizes countable) held with
      ⟨t, cs, lwip, some', held', fits'⟩ | ⟨t, cs, lwip, after, -, -, none⟩
    · have eight := (fits' []).mpr trivial
      rw [whole, ← fits] at eight
      rw [lwipCommInit_of_granted eth lwip]
      exact restored_of_granted four eight held' (List.append_ne_nil_of_left_ne_nil some' _)
    · have missing := none []
      rw [whole, ← fits] at missing
      rw [lwipCommInit_of_lwip_failed eth lwip]
      refine iff_of_false (not_restored_of_live (by decide) after ?_) (not_not.mpr ?_)
      · exact List.append_ne_nil_of_left_ne_nil some _
      · exact ⟨four, fun all => missing all.1⟩
  · have missing := none []
    rw [whole] at missing
    rw [lwipCommInit_of_eth_failed eth]
    refine iff_of_true (fun _ => ⟨after.memmap_eq_iff.mpr rfl, ?_⟩) fun all => missing all.1
    rw [freed, obtained]

/-- The first request makes a pool ready that is not. -/
theorem lwipCommInit_readied (lan8720Init : UInt8) (netifAdd : BitVec 32) :
    lwipCommInit membase mempsize lan8720Init netifAdd ⟨d, [], []⟩ =
      lwipCommInit membase mempsize lan8720Init netifAdd ⟨d.readied .sramin, [], []⟩ := by
  have first : mallocAll membase ethSizes ⟨d, [], []⟩ =
      mallocAll membase ethSizes ⟨d.readied .sramin, [], []⟩ := by
    rw [ethSizes, mallocAll, mallocAll, mymalloc, mymalloc, ← mymemMalloc_readied]
  rw [lwipCommInit, lwipCommInit, ethMemMalloc, ethMemMalloc, memMalloc, memMalloc, first]

/-- In a pool that is ready or still zero, a failure restores the table exactly unless the
cells of the first four blocks fit and the initialisation fails after them. -/
theorem restored_iff (membase : Membase .sramin) (countable : Countable mempsize)
    (boot : d.memrdy = false → ∀ j < memtblsize .sramin, d.memmap j = 0)
    (lan8720Init : UInt8) (netifAdd : BitVec 32) :
    Restored d (lwipCommInit membase mempsize lan8720Init netifAdd ⟨d, [], []⟩) ↔
      ¬ (FitsEth d ∧ ¬ (FitsEight mempsize d ∧ lan8720Init = 0 ∧ netifAdd ≠ 0)) := by
  have same : (d.readied .sramin).memmap = d.memmap := readied_memmap boot
  have all : (d.readied .sramin).Free = d.Free := by
    unfold Pool.Free
    rw [same]
  have ready := restored_iff_of_ready membase countable
    (memrdy_readied .sramin d) lan8720Init netifAdd
  rw [Restored, FitsEth, FitsEight, same, all] at ready
  rw [lwipCommInit_readied]
  exact ready

end Initialisation

/-- An address for `mem1base`. -/
def mem1base : Membase .sramin := ⟨0x20000000, by decide, by decide⟩

/-- A pool with ten free cells. -/
def tenCells : Pool := ⟨fun j => if j < 10 then 0 else 1, true⟩

/-- The two tables of descriptors are handed out there, the buffers are not, and the two are
returned. -/
theorem restored_iff_ten :
    (lwipCommInit mem1base 16000 0 0 ⟨tenCells, [], []⟩).1 = 1 ∧
      (lwipCommInit mem1base 16000 0 0 ⟨tenCells, [], []⟩).2.obtained =
        [0x200000A0, 0x20000000] ∧
      Countable 16000 ∧
      Restored tenCells (lwipCommInit mem1base 16000 0 0 ⟨tenCells, [], []⟩) := by
  have countable : Countable 16000 := by simp [Countable]
  have ready : tenCells.memrdy ≠ false := nofun
  refine ⟨by decide +kernel, by decide +kernel, countable,
    (restored_iff mem1base countable (absurd · ready) 0 0).mpr ?_⟩
  -- the first buffer has 239 cells
  rintro ⟨⟨_, _, _, _, o, high, _⟩, -⟩
  have last : (⟨o, blocks (1524 * 5)⟩ : Extent).Covers (o + 238) :=
    ⟨by show o ≤ o + 238; omega, by show o + 238 < o + 239; omega⟩
  obtain ⟨⟨free, -⟩, -⟩ := high.1.2 (o + 238) last
  have below : o + 238 < 10 := by
    by_contra beyond
    have cell : (if o + 238 < 10 then 0 else 1 : BitVec 16) = 0 := free
    rw [if_neg beyond] at cell
    exact absurd cell (by decide)
  omega

/-- In an empty pool all blocks are handed out, and lost when `LAN8720_Init` fails. -/
theorem lan8720_failure_leaks :
    ¬ Restored ⟨fun _ => 0, true⟩
      (lwipCommInit mem1base 16000 1 0x20000100 ⟨⟨fun _ => 0, true⟩, [], []⟩) := by
  have countable : Countable 16000 := by simp [Countable]
  rw [restored_iff_of_ready mem1base countable rfl]
  refine not_not.mpr ⟨?_, fun all => absurd all.2.1 (by decide)⟩
  exact fitsAll_of_below (le_refl _) (fun j below => iff_of_true rfl below) (by decide) (by decide)

end Stm32Robot.Net
