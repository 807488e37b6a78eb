/-
# Net.EthernetDescriptors -- the DMA descriptors of the Ethernet driver

The driver and the DMA of the Ethernet controller pass frames through two tables of
descriptors.  The OWN bit of a descriptor says whose it is, and `Buffer2NextDescAddr` leads to
the next one and from the last to the first.  A descriptor is its index here, and a buffer
its offset in `Tx_Buff` or `Rx_Buff`.
-/
import Mathlib.Tactic.Ring
import Stm32Robot.Theory.ByteStore
import Stm32Robot.Theory.OwnedRing

namespace Stm32Robot.Net

open Stm32Robot.Theory.RingAddress
open Stm32Robot.Theory.OwnedRing

set_option autoImplicit false

/-- stm32f4x7_eth.h. -/
def ETH_RXBUFNB : Nat := 5
def ETH_TXBUFNB : Nat := 5
def ETH_RX_BUF_SIZE : Nat := 1524
def ETH_TX_BUF_SIZE : Nat := 1524
def ETH_DMADesc_OWN : BitVec 32 := 0x80000000
def ETH_DMATxDesc_LS : BitVec 32 := 0x20000000
def ETH_DMATxDesc_FS : BitVec 32 := 0x10000000
def ETH_DMATxDesc_TCH : BitVec 32 := 0x00100000
def ETH_DMATxDesc_TBS1 : BitVec 32 := 0x00001FFF
def ETH_DMATxDesc_ChecksumTCPUDPICMPFull : BitVec 32 := 0x00C00000
def ETH_DMARxDesc_FL : BitVec 32 := 0x3FFF0000
def ETH_DMARxDesc_ES : BitVec 32 := 0x00008000
def ETH_DMARxDesc_FS : BitVec 32 := 0x00000200
def ETH_DMARxDesc_LS : BitVec 32 := 0x00000100
def ETH_DMARxDesc_RCH : BitVec 32 := 0x00004000

/-- `ETH_DMADESCTypeDef` -/
structure EthDmaDesc where
  status : BitVec 32
  controlBufferSize : BitVec 32
  buffer1Addr : Nat
  buffer2NextDescAddr : Int

abbrev DscrTab := Int → EthDmaDesc

/-- The DMA owns the descriptor. -/
def EthDmaDesc.Own (d : EthDmaDesc) : Prop := d.status &&& ETH_DMADesc_OWN ≠ 0

instance (d : EthDmaDesc) : Decidable d.Own := inferInstanceAs (Decidable (_ ≠ _))

/-- A loop over the descriptors of a table. -/
def forEach (count : Nat) (f : Nat → EthDmaDesc → EthDmaDesc) (tab : DscrTab) : DscrTab :=
  (List.range count).foldl (fun tab (i : Nat) => Function.update tab i (f i (tab i))) tab

/-- The address of the next descriptor, of the first one for the last. -/
def nextDesc (count i : Nat) : Int := if i < count - 1 then i + 1 else 0

/-- The table part of `ETH_DMATxDescChainInit`. -/
def ethDmaTxDescChainInit (tab : DscrTab) (txBuffCount : Nat) : DscrTab :=
  forEach txBuffCount (fun i d =>
    { d with
      status := ETH_DMATxDesc_TCH
      buffer1Addr := i * ETH_TX_BUF_SIZE
      buffer2NextDescAddr := nextDesc txBuffCount i }) tab

/-- The table part of `ETH_DMARxDescChainInit`. -/
def ethDmaRxDescChainInit (tab : DscrTab) (rxBuffCount : Nat) : DscrTab :=
  forEach rxBuffCount (fun i _ =>
    { status := ETH_DMADesc_OWN
      controlBufferSize := ETH_DMARxDesc_RCH ||| BitVec.ofNat 32 ETH_RX_BUF_SIZE
      buffer1Addr := i * ETH_RX_BUF_SIZE
      buffer2NextDescAddr := nextDesc rxBuffCount i }) tab

def ethDmaTxDescChecksumInsertionConfig (d : EthDmaDesc) (checksum : BitVec 32) : EthDmaDesc :=
  { d with status := d.status ||| checksum }

/-! ## The ring -/

/-- The descriptors form a ring and each has a buffer of its own, of `size` bytes. -/
def Chained (size count : Nat) (tab : DscrTab) : Prop :=
  ∀ c : Int, InRing count c →
    (tab c).buffer1Addr = c.toNat * size ∧ (tab c).buffer2NextDescAddr = advance count c

theorem forEach_apply {count : Nat} {f : Nat → EthDmaDesc → EthDmaDesc} {tab : DscrTab} {i : Nat}
    (within : i < count) : forEach count f tab i = f i (tab i) := by
  have kept {tab : DscrTab} {n : Nat} (later : n ≤ i) : forEach n f tab i = tab i := by
    induction n with
    | zero => rfl
    | succ n ih =>
        unfold forEach at ih ⊢
        rw [List.range_succ, List.foldl_append, List.foldl_cons, List.foldl_nil,
          Function.update_of_ne (by omega), ih (by omega)]
  induction count with
  | zero => omega
  | succ n ih =>
      have last : forEach (n + 1) f tab =
          Function.update (forEach n f tab) n (f n (forEach n f tab n)) := by
        simp [forEach, List.range_succ]
      rw [last]
      by_cases same : i = n
      · subst same
        rw [Function.update_self, kept (le_refl i)]
      · rw [Function.update_of_ne (by omega), ih (by omega)]

theorem nextDesc_eq {count i : Nat} (within : i < count) : nextDesc count i = advance count i := by
  unfold nextDesc advance
  split <;> split <;> omega

/-- A cell of the ring is the index of a descriptor. -/
theorem exists_index {count : Nat} {c : Int} (inside : InRing count c) :
    ∃ i : Nat, i < count ∧ c = i := by
  obtain ⟨low, high⟩ := inside
  exact ⟨c.toNat, by omega, by omega⟩

/-- A loop that gives each descriptor its buffer and its successor. -/
theorem chained_forEach {size count : Nat} {f : Nat → EthDmaDesc → EthDmaDesc} (tab : DscrTab)
    (sets : ∀ i d, (f i d).buffer1Addr = i * size ∧
      (f i d).buffer2NextDescAddr = nextDesc count i) :
    Chained size count (forEach count f tab) := by
  intro c inside
  obtain ⟨i, within, rfl⟩ := exists_index inside
  rw [forEach_apply within, ← nextDesc_eq within]
  exact sets i (tab i)

theorem Chained.forEach {size count n : Nat} {f : Nat → EthDmaDesc → EthDmaDesc} {tab : DscrTab}
    (chained : Chained size n tab) (le : n ≤ count)
    (keeps : ∀ i d, (f i d).buffer1Addr = d.buffer1Addr ∧
      (f i d).buffer2NextDescAddr = d.buffer2NextDescAddr) :
    Chained size n (Net.forEach count f tab) := by
  intro c inside
  obtain ⟨i, within, rfl⟩ := exists_index inside
  rw [forEach_apply (by omega), (keeps i _).1, (keeps i _).2]
  exact chained i inside

/-- One descriptor changes, and keeps its buffer and its successor. -/
theorem Chained.update {size count : Nat} {tab : DscrTab} (chained : Chained size count tab)
    {c : Int} {d : EthDmaDesc} (buffer : d.buffer1Addr = (tab c).buffer1Addr)
    (next : d.buffer2NextDescAddr = (tab c).buffer2NextDescAddr) :
    Chained size count (Function.update tab c d) := by
  intro b inside
  by_cases same : b = c
  · subst same
    rw [Function.update_self, buffer, next]
    exact chained b inside
  · rw [Function.update_of_ne same]
    exact chained b inside

/-- The buffers of two descriptors lie apart. -/
theorem buffers_apart {count : Nat} (size : Nat) {b c : Int} (b_inside : InRing count b)
    (c_inside : InRing count c) (other : b ≠ c) :
    b.toNat * size + size ≤ c.toNat * size ∨
      c.toNat * size + size ≤ b.toNat * size := by
  obtain ⟨i, -, rfl⟩ := exists_index b_inside
  obtain ⟨j, -, rfl⟩ := exists_index c_inside
  rcases lt_trichotomy i j with below | rfl | above
  · left
    calc i * size + size = (i + 1) * size := by ring
      _ ≤ j * size := Nat.mul_le_mul_right _ below
  · exact absurd rfl other
  · right
    calc j * size + size = (j + 1) * size := by ring
      _ ≤ i * size := Nat.mul_le_mul_right _ above

end Stm32Robot.Net
