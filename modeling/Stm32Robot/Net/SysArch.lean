/-
# Net.SysArch -- the time a wait has taken

`sys_arch_mbox_fetch` and `sys_arch_sem_wait` tell lwIP how long they have waited, from the
tick counter before and after.  The counter wraps, and both functions take the difference by
hand: they subtract from `0xffffffff`, which is one tick short, where the counter has wrapped.
The first one takes that branch also where the counter has not moved.

`elapsed_iff` says when each of them is right.
-/
import Mathlib.Data.Nat.Basic

namespace Stm32Robot.Net

set_option autoImplicit false

/-! ## The two functions -/

/-- os_cfg.h, ucos_ii.h and lwip_sys.h. -/
def OS_TICKS_PER_SEC : BitVec 32 := 200
def OS_ERR_TIMEOUT : UInt8 := 10
def SYS_ARCH_TIMEOUT : BitVec 32 := 0xffffffff

/-- What a pend of the kernel comes back with, and `OSTimeGet` after it. -/
structure Pended where
  ucErr : UInt8
  msg : BitVec 32
  osTime : BitVec 32

/-- A timeout in milliseconds as ticks, at least one; 0 is to wait for ever. -/
def ucosTimeout (timeout : BitVec 32) : BitVec 32 :=
  if timeout ≠ 0 then
    let ucos_timeout := timeout * OS_TICKS_PER_SEC / 1000
    if ucos_timeout < 1 then 1 else ucos_timeout
  else 0

/-- `osTime` is `OSTimeGet` before the pend and `pvNullPointer` the address that stands for a
null message.  The second result is what is stored at `msg`, unless that is null. -/
def sysArchMboxFetch (pvNullPointer osTime : BitVec 32) (osQPend : BitVec 16 → Pended)
    (msg timeout : BitVec 32) : BitVec 32 × Option (BitVec 32) :=
  let ucos_timeout := ucosTimeout timeout
  let timeout := osTime
  let pended := osQPend (ucos_timeout.setWidth 16)
  let msg :=
    if msg ≠ 0 then some (if pended.msg = pvNullPointer then 0 else pended.msg) else none
  if pended.ucErr = OS_ERR_TIMEOUT then (SYS_ARCH_TIMEOUT, msg)
  else
    let timeout_new := pended.osTime
    let timeout_new :=
      if timeout_new > timeout then timeout_new - timeout
      else 0xffffffff - timeout + timeout_new
    (timeout_new * 1000 / OS_TICKS_PER_SEC + 1, msg)

def sysArchSemWait (osTime : BitVec 32) (osSemPend : BitVec 16 → Pended) (timeout : BitVec 32) :
    BitVec 32 :=
  let ucos_timeout := ucosTimeout timeout
  let timeout := osTime
  let pended := osSemPend (ucos_timeout.setWidth 16)
  if pended.ucErr = OS_ERR_TIMEOUT then SYS_ARCH_TIMEOUT
  else
    let timeout_new := pended.osTime
    let timeout_new :=
      if timeout_new ≥ timeout then timeout_new - timeout
      else 0xffffffff - timeout + timeout_new
    timeout_new * 1000 / OS_TICKS_PER_SEC + 1

/-! ## Ticks and milliseconds -/

/-- The ticks from `s` to `f`, the counter wrapping. -/
def ticks (s f : BitVec 32) : Nat := (f - s).toNat

/-- The milliseconds to report for so many ticks. -/
def milliseconds (e : Nat) : Nat := e * 1000 / OS_TICKS_PER_SEC.toNat + 1

/-- The pend ends without a timeout, when the counter is at `f`. -/
def Arrives (pend : BitVec 16 → Pended) (timeout f : BitVec 32) : Prop :=
  (pend ((ucosTimeout timeout).setWidth 16)).ucErr ≠ OS_ERR_TIMEOUT ∧
    (pend ((ucosTimeout timeout).setWidth 16)).osTime = f

section Elapsed

variable {s f : BitVec 32}

/-- As long as the product does not wrap. -/
theorem toNat_milliseconds {x : BitVec 32} (small : x.toNat < 4294967) :
    (x * 1000 / OS_TICKS_PER_SEC + 1).toNat = milliseconds x.toNat := by
  have product : (x * 1000).toNat = x.toNat * 1000 := by
    rw [BitVec.toNat_mul]
    exact Nat.mod_eq_of_lt (by show x.toNat * 1000 < 2 ^ 32; omega)
  have quotient : (x * 1000 / OS_TICKS_PER_SEC).toNat = x.toNat * 1000 / 200 := by
    rw [BitVec.toNat_udiv, product]
    rfl
  rw [BitVec.toNat_add, quotient]
  exact Nat.mod_eq_of_lt (by show x.toNat * 1000 / 200 + 1 < 2 ^ 32; omega)

theorem milliseconds_inj {d e : Nat} : milliseconds d = milliseconds e ↔ d = e := by
  have five (n : Nat) : milliseconds n = n * 5 + 1 := by
    show n * 1000 / 200 + 1 = n * 5 + 1
    omega
  rw [five, five]
  omega

/-- Taken from `0xffffffff` the difference is a tick short. -/
theorem toNat_short (wrapped : f < s) : (0xffffffff - s + f).toNat + 1 = ticks s f := by
  unfold ticks
  bv_omega

/-- Where the counter has not moved either. -/
theorem unmoved_ne : (0xffffffff - s + s) * 1000 / OS_TICKS_PER_SEC + 1 ≠ 1 := by
  rw [BitVec.sub_add_cancel]
  decide

variable {timeout : BitVec 32}

/-- What the semaphore reports. -/
theorem sysArchSemWait_eq {osSemPend : BitVec 16 → Pended} (waited : Arrives osSemPend timeout f) :
    sysArchSemWait s osSemPend timeout =
      (if s ≤ f then f - s else 0xffffffff - s + f) * 1000 / OS_TICKS_PER_SEC + 1 := by
  obtain ⟨arrived, stop⟩ := waited
  simp only [sysArchSemWait, if_neg arrived, stop]

/-- What the mailbox reports. -/
theorem sysArchMboxFetch_eq {pvNullPointer msg : BitVec 32} {osQPend : BitVec 16 → Pended}
    (fetched : Arrives osQPend timeout f) :
    (sysArchMboxFetch pvNullPointer s osQPend msg timeout).1 =
      (if s < f then f - s else 0xffffffff - s + f) * 1000 / OS_TICKS_PER_SEC + 1 := by
  obtain ⟨arrived, stop⟩ := fetched
  simp only [sysArchMboxFetch, if_neg arrived, stop]

/-- The semaphore is right unless the counter has wrapped. -/
theorem semWait_iff {osSemPend : BitVec 16 → Pended} (waited : Arrives osSemPend timeout f)
    (small : ticks s f < 4294967) :
    (sysArchSemWait s osSemPend timeout).toNat = milliseconds (ticks s f) ↔ s ≤ f := by
  rw [sysArchSemWait_eq waited]
  by_cases later : s ≤ f
  · rw [if_pos later, toNat_milliseconds small]
    exact iff_of_true rfl later
  · have short := toNat_short (BitVec.not_le.mp later)
    rw [if_neg later, toNat_milliseconds (by omega), milliseconds_inj]
    exact iff_of_false (by omega) later

/-- The mailbox is the semaphore unless the counter has not moved. -/
theorem mboxFetch_eq_semWait_iff {pvNullPointer msg : BitVec 32}
    {osQPend osSemPend : BitVec 16 → Pended} (fetched : Arrives osQPend timeout f)
    (waited : Arrives osSemPend timeout f) :
    (sysArchMboxFetch pvNullPointer s osQPend msg timeout).1 =
      sysArchSemWait s osSemPend timeout ↔ s ≠ f := by
  rw [sysArchMboxFetch_eq fetched, sysArchSemWait_eq waited]
  by_cases same : s = f
  · subst same
    rw [if_neg (BitVec.lt_irrefl s), if_pos (BitVec.le_refl s), BitVec.sub_self]
    exact iff_of_false unmoved_ne (not_not.mpr rfl)
  · have both : s < f ↔ s ≤ f := by bv_omega
    simp only [both]
    exact iff_of_true trivial same

/-- For every pair of tick values less than 4294967 ticks apart, both functions are right
exactly when the counter has moved and not wrapped; the semaphore also when it has not moved;
and they agree exactly when it has moved. -/
theorem elapsed_iff {pvNullPointer msg : BitVec 32} {osQPend osSemPend : BitVec 16 → Pended}
    (fetched : Arrives osQPend timeout f) (waited : Arrives osSemPend timeout f)
    (small : ticks s f < 4294967) :
    ((sysArchMboxFetch pvNullPointer s osQPend msg timeout).1.toNat = milliseconds (ticks s f) ∧
        (sysArchSemWait s osSemPend timeout).toNat = milliseconds (ticks s f) ↔ s < f) ∧
      ((sysArchSemWait s osSemPend timeout).toNat = milliseconds (ticks s f) ↔ s ≤ f) ∧
        ((sysArchMboxFetch pvNullPointer s osQPend msg timeout).1 =
          sysArchSemWait s osSemPend timeout ↔ s ≠ f) := by
  have sem := semWait_iff waited small
  have agree : (sysArchMboxFetch pvNullPointer s osQPend msg timeout).1 =
      sysArchSemWait s osSemPend timeout ↔ s ≠ f := mboxFetch_eq_semWait_iff fetched waited
  refine ⟨?_, sem, agree⟩
  constructor
  · rintro ⟨mbox, right⟩
    have moved : s ≠ f := agree.mp (BitVec.eq_of_toNat_eq (mbox.trans right.symm))
    have later := sem.mp right
    bv_omega
  · intro later
    have right := sem.mpr (by bv_omega)
    have same := agree.mpr (by bv_omega)
    exact ⟨by rw [same, right], right⟩

end Elapsed

/-- A pend that comes back with a message or a count, the counter at `osTime`. -/
def posted (osTime : BitVec 32) : BitVec 16 → Pended := fun _ => ⟨0, 0x20000000, osTime⟩

/-- Four ticks. -/
theorem elapsed_iff_four :
    Arrives (posted 7) 0 7 ∧ ticks 3 7 < 4294967 ∧
      ((sysArchMboxFetch 0x08001000 3 (posted 7) 0x20000100 0).1.toNat =
          milliseconds (ticks 3 7) ∧
        (sysArchSemWait 3 (posted 7) 0).toNat = milliseconds (ticks 3 7)) := by
  have arrives : Arrives (posted 7) 0 7 := ⟨by decide, rfl⟩
  have small : ticks 3 7 < 4294967 := by decide
  exact ⟨arrives, small, (elapsed_iff arrives arrives small).1.mpr (by decide)⟩

/-- A message that is already waiting is reported to have taken nearly six hours. -/
theorem waiting_message :
    ¬ ∀ (pvNullPointer msg timeout s f : BitVec 32) (osQPend osSemPend : BitVec 16 → Pended),
      Arrives osQPend timeout f → Arrives osSemPend timeout f → ticks s f < 4294967 →
        (sysArchMboxFetch pvNullPointer s osQPend msg timeout).1.toNat =
            milliseconds (ticks s f) ∧
          (sysArchSemWait s osSemPend timeout).toNat = milliseconds (ticks s f) := by
  intro stated
  have arrives : Arrives (posted 7) 0 7 := ⟨by decide, rfl⟩
  have right := (stated 0x08001000 0x20000100 0 7 7 _ _ arrives arrives (by decide)).1
  exact absurd right (by decide)

end Stm32Robot.Net
