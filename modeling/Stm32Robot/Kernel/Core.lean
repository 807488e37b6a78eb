/-
# Kernel.Core -- the ready list, the wait lists and the scheduler of uC/OS-II

The kernel has one task for each priority, from 0 to 63, and the idle task has the last one.  A
task is ready where its bit is set in `OSRdyTbl`, and waits for an event where its bit is set in
the table of that event; both are a `PriorityMap`.  The highest priority of one is read off with
two look-ups in `OSUnMapTbl`.

A `Ucos` has besides the variables of the kernel, for each task, where its code stands
(`Context`): `OS_Sched` is called after the critical section that made it necessary, and a pend
goes on after it.
-/
import Stm32Robot.Kernel.MessageQueue
import Stm32Robot.Theory.PriorityMap

namespace Stm32Robot.Kernel

open Stm32Robot.Theory

set_option autoImplicit false

/-! ## Priorities -/

abbrev Prio := Fin 64

def OS_TASK_IDLE_PRIO : Prio := 63
def OS_TASK_STAT_PRIO : Prio := 62
def OS_TASK_TMR_PRIO : Prio := 3

/-- `OSTCBY` -/
def osTCBY (prio : Prio) : Fin 8 := ⟨prio.val / 8, by omega⟩

/-- `OSTCBX` -/
def osTCBX (prio : Prio) : Fin 8 := ⟨prio.val % 8, by omega⟩

/-- `(INT8U)((y << 3u) + x)` -/
def prioAt (y x : Fin 8) : Prio := ⟨y.val * 8 + x.val, by omega⟩

set_option maxRecDepth 2000 in
def osUnMapTbl : Vector (Fin 8) 256 := #v[
  0, 0, 1, 0, 2, 0, 1, 0, 3, 0, 1, 0, 2, 0, 1, 0,
  4, 0, 1, 0, 2, 0, 1, 0, 3, 0, 1, 0, 2, 0, 1, 0,
  5, 0, 1, 0, 2, 0, 1, 0, 3, 0, 1, 0, 2, 0, 1, 0,
  4, 0, 1, 0, 2, 0, 1, 0, 3, 0, 1, 0, 2, 0, 1, 0,
  6, 0, 1, 0, 2, 0, 1, 0, 3, 0, 1, 0, 2, 0, 1, 0,
  4, 0, 1, 0, 2, 0, 1, 0, 3, 0, 1, 0, 2, 0, 1, 0,
  5, 0, 1, 0, 2, 0, 1, 0, 3, 0, 1, 0, 2, 0, 1, 0,
  4, 0, 1, 0, 2, 0, 1, 0, 3, 0, 1, 0, 2, 0, 1, 0,
  7, 0, 1, 0, 2, 0, 1, 0, 3, 0, 1, 0, 2, 0, 1, 0,
  4, 0, 1, 0, 2, 0, 1, 0, 3, 0, 1, 0, 2, 0, 1, 0,
  5, 0, 1, 0, 2, 0, 1, 0, 3, 0, 1, 0, 2, 0, 1, 0,
  4, 0, 1, 0, 2, 0, 1, 0, 3, 0, 1, 0, 2, 0, 1, 0,
  6, 0, 1, 0, 2, 0, 1, 0, 3, 0, 1, 0, 2, 0, 1, 0,
  4, 0, 1, 0, 2, 0, 1, 0, 3, 0, 1, 0, 2, 0, 1, 0,
  5, 0, 1, 0, 2, 0, 1, 0, 3, 0, 1, 0, 2, 0, 1, 0,
  4, 0, 1, 0, 2, 0, 1, 0, 3, 0, 1, 0, 2, 0, 1, 0]

def unMap (v : BitVec 8) : Fin 8 := osUnMapTbl.get v.toFin

theorem leastBit_unMap : PriorityMap.LeastBit unMap where
  bit := by decide +kernel
  least := by decide +kernel

/-- A set of priorities, as the kernel keeps it. -/
abbrev PrioSet := PriorityMap 8

namespace PrioSet

/-- The bit of a priority is set. -/
def Has (m : PrioSet) (p : Prio) : Prop := m.Mem (osTCBY p) (osTCBX p)

instance (m : PrioSet) : DecidablePred m.Has := fun p =>
  inferInstanceAs (Decidable (m.Mem (osTCBY p) (osTCBX p)))

def insert (m : PrioSet) (p : Prio) : PrioSet := m.set (osTCBY p) (osTCBX p)

def remove (m : PrioSet) (p : Prio) : PrioSet := m.clear (osTCBY p) (osTCBX p)

/-- `y = OSUnMapTbl[grp]; x = OSUnMapTbl[tbl[y]]; prio = (y << 3) + x` -/
def highest (m : PrioSet) : Prio := prioAt (m.row unMap) (m.column unMap)

end PrioSet

theorem prioAt_osTCB (p : Prio) : prioAt (osTCBY p) (osTCBX p) = p := by
  apply Fin.ext
  show p.val / 8 * 8 + p.val % 8 = p.val
  omega

theorem osTCBY_prioAt (y x : Fin 8) : osTCBY (prioAt y x) = y := by
  apply Fin.ext
  show (y.val * 8 + x.val) / 8 = y.val
  omega

theorem osTCBX_prioAt (y x : Fin 8) : osTCBX (prioAt y x) = x := by
  apply Fin.ext
  show (y.val * 8 + x.val) % 8 = x.val
  omega

theorem osTCB_eq_iff {p q : Prio} : osTCBY p = osTCBY q ∧ osTCBX p = osTCBX q ↔ p = q := by
  constructor
  · rintro ⟨row, column⟩
    rw [← prioAt_osTCB p, row, column, prioAt_osTCB]
  · rintro rfl
    exact ⟨rfl, rfl⟩

namespace PrioSet

variable {m : PrioSet} {p q : Prio}

@[simp] theorem not_has_empty (p : Prio) : ¬ Has (PriorityMap.empty 8) p :=
  PriorityMap.not_mem_empty _ _

@[simp] theorem has_insert : (insert m p).Has q ↔ q = p ∨ m.Has q := by
  unfold Has insert
  rw [PriorityMap.mem_set, osTCB_eq_iff]

@[simp] theorem has_remove : (remove m p).Has q ↔ q ≠ p ∧ m.Has q := by
  unfold Has remove
  rw [PriorityMap.mem_clear, osTCB_eq_iff]

theorem grp_ne_zero_iff : m.grp ≠ 0 ↔ ∃ p, m.Has p := by
  constructor
  · intro some
    obtain ⟨y, x, mem⟩ := (PriorityMap.grp_ne_zero_iff m).mp some
    refine ⟨prioAt y x, ?_⟩
    unfold Has
    rw [osTCBY_prioAt, osTCBX_prioAt]
    exact mem
  · rintro ⟨p, has⟩
    exact (PriorityMap.grp_ne_zero_iff m).mpr ⟨_, _, has⟩

theorem grp_eq_zero_iff : m.grp = 0 ↔ ∀ p, ¬ m.Has p := by
  rw [← not_iff_not, ← ne_eq, grp_ne_zero_iff, not_forall_not]

theorem has_highest (some : m.grp ≠ 0) : m.Has m.highest := by
  unfold Has highest
  rw [osTCBY_prioAt, osTCBX_prioAt]
  exact PriorityMap.mem_lowest leastBit_unMap some

/-- The two look-ups find the highest priority of all. -/
theorem highest_le (has : m.Has p) : m.highest ≤ p := by
  have row : m.row unMap ≤ osTCBY p := PriorityMap.row_le leastBit_unMap has
  rw [← prioAt_osTCB p]
  show (m.row unMap).val * 8 + (m.column unMap).val ≤ (osTCBY p).val * 8 + (osTCBX p).val
  rcases lt_or_eq_of_le row with before | same
  · have : (m.row unMap).val < (osTCBY p).val := before
    omega
  · have mem : m.Mem (m.row unMap) (osTCBX p) := same ▸ has
    have column : m.column unMap ≤ osTCBX p := PriorityMap.column_le leastBit_unMap mem
    have : (m.column unMap).val ≤ (osTCBX p).val := column
    rw [same]
    omega

theorem highest_eq_of_least (has : m.Has p) (least : ∀ q, m.Has q → p ≤ q) : m.highest = p :=
  le_antisymm (highest_le has) (least _ (has_highest (grp_ne_zero_iff.mpr ⟨p, has⟩)))

end PrioSet

/-! ## Data -/

/-- Event control blocks: `OS_MAX_EVENTS` of them. -/
abbrev EventId := Fin 10

/-- The types of event modelled: `OS_EVENT_TYPE_SEM` and `OS_EVENT_TYPE_Q`. -/
inductive Service where
  | sem
  | q
deriving DecidableEq

def OS_STAT_RDY : BitVec 8 := 0x00
def OS_STAT_SEM : BitVec 8 := 0x01
def OS_STAT_MBOX : BitVec 8 := 0x02
def OS_STAT_Q : BitVec 8 := 0x04
def OS_STAT_SUSPEND : BitVec 8 := 0x08
def OS_STAT_MUTEX : BitVec 8 := 0x10
def OS_STAT_FLAG : BitVec 8 := 0x20
def OS_STAT_PEND_ANY : BitVec 8 :=
  OS_STAT_SEM ||| OS_STAT_MBOX ||| OS_STAT_Q ||| OS_STAT_MUTEX ||| OS_STAT_FLAG

/-- The bit of `OSTCBStat` of a task that waits for an event of this type. -/
def Service.stat : Service → BitVec 8
  | .sem => OS_STAT_SEM
  | .q => OS_STAT_Q

/-- `OS_STAT_PEND_OK`, `OS_STAT_PEND_TO` and `OS_STAT_PEND_ABORT`. -/
inductive StatPend where
  | ok
  | timeout
  | abort
deriving DecidableEq

/-- The codes `OS_ERR_...` of the services modelled. -/
inductive OsErr where
  | none
  | eventType
  | pendIsr
  | invalidOpt
  | timeout
  | pendLocked
  | pendAbort
  | delIsr
  | qFull
  | qEmpty
  | prioExist
  | prioInvalid
  | semOvf
  | taskCreateIsr
  | taskDelIdle
  | taskDelIsr
  | taskNoMoreTcb
  | taskNotExist
  | taskNotSuspended
  | taskResumePrio
  | taskSuspendPrio
  | taskWaiting
  | timeNotDly
deriving DecidableEq

/-- `OS_TCB`, as far as the services modelled use it. -/
structure OsTcb (Msg : Type) where
  osTCBStat : BitVec 8
  osTCBStatPend : StatPend
  osTCBDly : Nat
  osTCBMsg : Option Msg
  osTCBEventPtr : Option EventId

/-- `OS_EVENT`: `waiting` is `OSEventGrp` and `OSEventTbl`, and `osEventPtr` the queue of an event
of that type. -/
structure OsEvent (Msg : Type) where
  osEventType : Option Service
  osEventCnt : Nat
  osEventPtr : OsQ Msg
  waiting : PrioSet

/-- Where the code of a task stands: outside of the kernel, before an `OS_Sched`, before the one
of a pend, or behind it. -/
inductive Context where
  | run
  | sched
  | pendSched (e : EventId) (s : Service)
  | pendTail (e : EventId) (s : Service)
deriving DecidableEq

/-- The variables of the kernel.  The list of free queues is the number of them, as is that of
free task control blocks. -/
structure Ucos (Msg : Type) where
  rdy : PrioSet
  osTCBPrioTbl : Prio → Option (OsTcb Msg)
  osTCBList : List Prio
  osTCBFreeList : Nat
  event : EventId → OsEvent Msg
  osEventFreeList : List EventId
  osQFreeList : Nat
  osPrioCur : Prio
  osIntNesting : Nat
  osLockNesting : Nat
  osTime : BitVec 32
  osRunning : Bool
  context : Prio → Context

namespace Ucos

variable {Msg : Type}

/-! ## Changes to one variable -/

/-- `OSRdyGrp |= bity; OSRdyTbl[y] |= bitx;` -/
def makeReady (p : Prio) (k : Ucos Msg) : Ucos Msg := { k with rdy := PrioSet.insert k.rdy p }

/-- `OSRdyTbl[y] &= ~bitx; if (OSRdyTbl[y] == 0) OSRdyGrp &= ~bity;` -/
def makeUnready (p : Prio) (k : Ucos Msg) : Ucos Msg := { k with rdy := PrioSet.remove k.rdy p }

def setTcb (p : Prio) (t : Option (OsTcb Msg)) (k : Ucos Msg) : Ucos Msg :=
  { k with osTCBPrioTbl := Function.update k.osTCBPrioTbl p t }

def setEvent (e : EventId) (x : OsEvent Msg) (k : Ucos Msg) : Ucos Msg :=
  { k with event := Function.update k.event e x }

def setContext (p : Prio) (c : Context) (k : Ucos Msg) : Ucos Msg :=
  { k with context := Function.update k.context p c }

/-! ## os_core.c -/

/-- `OS_EventTaskRemove` -/
def osEventTaskRemove (p : Prio) (e : EventId) (k : Ucos Msg) : Ucos Msg :=
  k.setEvent e { k.event e with waiting := PrioSet.remove (k.event e).waiting p }

/-- `OS_EventTaskRdy`.  Where nothing waits it would follow a null pointer; it is not called
there. -/
def osEventTaskRdy (e : EventId) (pmsg : Option Msg) (msk : BitVec 8) (pendStat : StatPend)
    (k : Ucos Msg) : Ucos Msg :=
  let prio := PrioSet.highest (k.event e).waiting
  match k.osTCBPrioTbl prio with
  | none => k
  | some t =>
      let t := { t with
        osTCBDly := 0
        osTCBMsg := pmsg
        osTCBStat := t.osTCBStat &&& ~~~msk
        osTCBStatPend := pendStat }
      let k := k.setTcb prio (some t)
      let k := if t.osTCBStat &&& OS_STAT_SUSPEND = OS_STAT_RDY then k.makeReady prio else k
      k.osEventTaskRemove prio e

/-- `while (pevent->OSEventGrp != 0u) OS_EventTaskRdy(...);`, at most so often, and how often. -/
def osEventAllRdy (e : EventId) (pmsg : Option Msg) (msk : BitVec 8) (pendStat : StatPend) :
    Nat → Ucos Msg → Nat × Ucos Msg
  | 0, k => (0, k)
  | n + 1, k =>
      if (k.event e).waiting.grp ≠ 0 then
        let (nbr, k) := osEventAllRdy e pmsg msk pendStat n (k.osEventTaskRdy e pmsg msk pendStat)
        (nbr + 1, k)
      else (0, k)

/-- `OS_EventTaskWait`, for the current task. -/
def osEventTaskWait (e : EventId) (k : Ucos Msg) : Ucos Msg :=
  let k := k.setTcb k.osPrioCur
    ((k.osTCBPrioTbl k.osPrioCur).map fun t => { t with osTCBEventPtr := some e })
  let k := k.setEvent e { k.event e with waiting := PrioSet.insert (k.event e).waiting k.osPrioCur }
  k.makeUnready k.osPrioCur

/-- `OS_SchedNew` -/
def osSchedNew (k : Ucos Msg) : Prio := PrioSet.highest k.rdy

/-- A call of `OS_Sched` stands next in the code of the current task.  From an interrupt it
returns at once. -/
def callOsSched (k : Ucos Msg) : Ucos Msg :=
  if k.osIntNesting = 0 then k.setContext k.osPrioCur .sched else k

/-- Where the code goes on behind its `OS_Sched`. -/
def Context.afterSched : Context → Context
  | .pendSched e s => .pendTail e s
  | _ => .run

/-- `OS_Sched`, and what the current task will do when it runs again. -/
def osSched (k : Ucos Msg) : Ucos Msg :=
  let cur := k.osPrioCur
  let k := k.setContext cur (Context.afterSched (k.context cur))
  if k.osIntNesting = 0 then
    if k.osLockNesting = 0 then { k with osPrioCur := k.osSchedNew } else k
  else k

def osIntEnter (k : Ucos Msg) : Ucos Msg :=
  if k.osRunning then
    if k.osIntNesting < 255 then { k with osIntNesting := k.osIntNesting + 1 } else k
  else k

def osIntExit (k : Ucos Msg) : Ucos Msg :=
  if k.osRunning then
    let k := if k.osIntNesting > 0 then { k with osIntNesting := k.osIntNesting - 1 } else k
    if k.osIntNesting = 0 then
      if k.osLockNesting = 0 then { k with osPrioCur := k.osSchedNew } else k
    else k
  else k

def osSchedLock (k : Ucos Msg) : Ucos Msg :=
  if k.osRunning then
    if k.osIntNesting = 0 then
      if k.osLockNesting < 255 then { k with osLockNesting := k.osLockNesting + 1 } else k
    else k
  else k

def osSchedUnlock (k : Ucos Msg) : Ucos Msg :=
  if k.osRunning then
    if k.osLockNesting > 0 then
      let k := { k with osLockNesting := k.osLockNesting - 1 }
      if k.osLockNesting = 0 then k.callOsSched else k
    else k
  else k

/-- What `OSTimeTick` does to one task control block. -/
def tickTask (p : Prio) (k : Ucos Msg) : Ucos Msg :=
  match k.osTCBPrioTbl p with
  | none => k
  | some t =>
      if t.osTCBDly ≠ 0 then
        let t := { t with osTCBDly := t.osTCBDly - 1 }
        if t.osTCBDly = 0 then
          let t :=
            if t.osTCBStat &&& OS_STAT_PEND_ANY ≠ OS_STAT_RDY then
              { t with
                osTCBStat := t.osTCBStat &&& ~~~OS_STAT_PEND_ANY
                osTCBStatPend := .timeout }
            else { t with osTCBStatPend := .ok }
          let k := k.setTcb p (some t)
          if t.osTCBStat &&& OS_STAT_SUSPEND = OS_STAT_RDY then k.makeReady p else k
        else k.setTcb p (some t)
      else k

/-- `while (ptcb->OSTCBPrio != OS_TASK_IDLE_PRIO)`, from `OSTCBList` on. -/
def tickLoop : List Prio → Ucos Msg → Ucos Msg
  | [], k => k
  | p :: ps, k => if p = OS_TASK_IDLE_PRIO then k else tickLoop ps (k.tickTask p)

def osTimeTick (k : Ucos Msg) : Ucos Msg :=
  let k := { k with osTime := k.osTime + 1 }
  if k.osRunning then tickLoop k.osTCBList k else k

end Ucos

end Stm32Robot.Kernel
