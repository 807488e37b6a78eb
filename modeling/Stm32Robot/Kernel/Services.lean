/-
# Kernel.Services -- queues, semaphores, delays and tasks of uC/OS-II

The functions of `os_q.c`, `os_sem.c`, `os_time.c` and `os_task.c` up to their `OS_Sched`, which
`callOsSched` leaves for a step of its own, and the part of a pend behind it (`osPendTail`).
`OS_ARG_CHK_EN` is 0, so nothing is checked of the pointers and priorities of the arguments.
-/
import Stm32Robot.Kernel.Core

namespace Stm32Robot.Kernel

open Stm32Robot.Theory

set_option autoImplicit false

/-- What a service comes back with; a pend that has to wait does not, yet. -/
inductive Reply (Msg : Type) where
  | nothing
  | err (code : OsErr)
  | pended (e : EventId) (s : Service) (pmsg : Option Msg) (code : OsErr)
  | accepted (e : EventId) (pmsg : Option Msg) (code : OsErr)
  | cnt (e : EventId) (n : Nat)
  | aborted (nbrTasks : Nat) (code : OsErr)
  | created (pevent : Option EventId)
  deriving DecidableEq

/-- `OS_DEL_NO_PEND`, `OS_DEL_ALWAYS` and any other value. -/
inductive DelOpt where
  | noPend
  | always
  | other
deriving DecidableEq

/-- `OS_PEND_OPT_NONE` (and any other value) and `OS_PEND_OPT_BROADCAST`. -/
inductive PendOpt where
  | none
  | broadcast
deriving DecidableEq

namespace Ucos

variable {Msg : Type}

/-! ## os_q.c -/

def osQAccept (e : EventId) (k : Ucos Msg) : Ucos Msg × Reply Msg :=
  if (k.event e).osEventType ≠ some .q then (k, .accepted e none .eventType)
  else
    match (k.event e).osEventPtr.take with
    | some (pmsg, pq) =>
        (k.setEvent e { k.event e with osEventPtr := pq }, .accepted e pmsg .none)
    | none => (k, .accepted e none .qEmpty)

def osQFlush (e : EventId) (k : Ucos Msg) : Ucos Msg × Reply Msg :=
  (k.setEvent e { k.event e with osEventPtr := (k.event e).osEventPtr.flush }, .err .none)

/-- The first part of a pend that has to wait. -/
def pendWait (e : EventId) (s : Service) (timeout : Nat) (k : Ucos Msg) : Ucos Msg :=
  let k := k.setTcb k.osPrioCur ((k.osTCBPrioTbl k.osPrioCur).map fun t =>
    { t with
      osTCBStat := t.osTCBStat ||| s.stat
      osTCBStatPend := .ok
      osTCBDly := timeout })
  let k := k.osEventTaskWait e
  k.setContext k.osPrioCur (.pendSched e s)

def osQPend (e : EventId) (timeout : Nat) (k : Ucos Msg) : Ucos Msg × Reply Msg :=
  if (k.event e).osEventType ≠ some .q then (k, .pended e .q none .eventType)
  else if k.osIntNesting > 0 then (k, .pended e .q none .pendIsr)
  else if k.osLockNesting > 0 then (k, .pended e .q none .pendLocked)
  else
    match (k.event e).osEventPtr.take with
    | some (pmsg, pq) =>
        (k.setEvent e { k.event e with osEventPtr := pq }, .pended e .q pmsg .none)
    | none => (k.pendWait e .q timeout, .nothing)

/-- The part of `OSQPend` and `OSSemPend` behind `OS_Sched`; the second has no message. -/
def osPendTail (e : EventId) (s : Service) (k : Ucos Msg) : Ucos Msg × Reply Msg :=
  match k.osTCBPrioTbl k.osPrioCur with
  | none => (k, .nothing)
  | some t =>
      let (k, pmsg, perr) :=
        match t.osTCBStatPend with
        | .ok => (k, if s = Service.q then t.osTCBMsg else none, OsErr.none)
        | .abort => (k, none, OsErr.pendAbort)
        | .timeout => (k.osEventTaskRemove k.osPrioCur e, none, OsErr.timeout)
      let k := k.setTcb k.osPrioCur (some
        { t with
          osTCBStat := OS_STAT_RDY
          osTCBStatPend := .ok
          osTCBEventPtr := none
          osTCBMsg := if s = Service.q then none else t.osTCBMsg })
      (k.setContext k.osPrioCur .run, .pended e s pmsg perr)

/-- Readying what waits for an event, the highest priority or all. -/
def pendAbort (e : EventId) (s : Service) (opt : PendOpt) (k : Ucos Msg) :
    Ucos Msg × Reply Msg :=
  if (k.event e).osEventType ≠ some s then (k, .aborted 0 .eventType)
  else if (k.event e).waiting.grp ≠ 0 then
    let (nbrTasks, k) :=
      match opt with
      | .broadcast => k.osEventAllRdy e none s.stat .abort 64
      | .none => (1, k.osEventTaskRdy e none s.stat .abort)
    (k.callOsSched, .aborted nbrTasks .pendAbort)
  else (k, .aborted 0 .none)

def osQPendAbort (e : EventId) (opt : PendOpt) (k : Ucos Msg) : Ucos Msg × Reply Msg :=
  k.pendAbort e .q opt

/-- `OSQPost` and `OSQPostFront`, which differ in where they put the message. -/
def qPost (insert : OsQ Msg → Option (OsQ Msg)) (e : EventId) (pmsg : Option Msg)
    (k : Ucos Msg) : Ucos Msg × Reply Msg :=
  if (k.event e).osEventType ≠ some .q then (k, .err .eventType)
  else if (k.event e).waiting.grp ≠ 0 then
    ((k.osEventTaskRdy e pmsg OS_STAT_Q .ok).callOsSched, .err .none)
  else
    match insert (k.event e).osEventPtr with
    | some pq => (k.setEvent e { k.event e with osEventPtr := pq }, .err .none)
    | none => (k, .err .qFull)

def osQPost (e : EventId) (pmsg : Option Msg) (k : Ucos Msg) : Ucos Msg × Reply Msg :=
  k.qPost (fun pq => pq.postBack pmsg) e pmsg

def osQPostFront (e : EventId) (pmsg : Option Msg) (k : Ucos Msg) : Ucos Msg × Reply Msg :=
  k.qPost (fun pq => pq.postFront pmsg) e pmsg

/-- `start` is what the array of the caller holds. -/
def osQCreate (start : Int → Option Msg) (size : Nat) (k : Ucos Msg) : Ucos Msg × Reply Msg :=
  if k.osIntNesting > 0 then (k, .created none)
  else
    match k.osEventFreeList with
    | [] => (k, .created none)
    | e :: free =>
        if k.osQFreeList > 0 then
          let k := { k with osEventFreeList := free, osQFreeList := k.osQFreeList - 1 }
          (k.setEvent e
            { osEventType := some .q
              osEventCnt := 0
              osEventPtr := OsQ.create start size
              waiting := PriorityMap.empty 8 }, .created (some e))
        else (k, .created none)

/-- An event control block goes back to the free list. -/
def freeEvent (e : EventId) (k : Ucos Msg) : Ucos Msg :=
  let k := k.setEvent e { k.event e with osEventType := none, osEventCnt := 0 }
  { k with osEventFreeList := e :: k.osEventFreeList }

/-- `OSQDel` and `OSSemDel`; `release` is what else of a queue is given back. -/
def eventDel (s : Service) (release : Ucos Msg → Ucos Msg) (e : EventId) (opt : DelOpt)
    (k : Ucos Msg) : Ucos Msg × Reply Msg :=
  if (k.event e).osEventType ≠ some s then (k, .err .eventType)
  else if k.osIntNesting > 0 then (k, .err .delIsr)
  else
    match opt with
    | .noPend =>
        if (k.event e).waiting.grp ≠ 0 then (k, .err .taskWaiting)
        else ((release k).freeEvent e, .err .none)
    | .always =>
        let tasksWaiting : Bool := (k.event e).waiting.grp ≠ 0
        let k := (release (k.osEventAllRdy e none s.stat .ok 64).2).freeEvent e
        (if tasksWaiting then k.callOsSched else k, .err .none)
    | .other => (k, .err .invalidOpt)

def osQDel (e : EventId) (opt : DelOpt) (k : Ucos Msg) : Ucos Msg × Reply Msg :=
  k.eventDel .q (fun k => { k with osQFreeList := k.osQFreeList + 1 }) e opt

/-! ## os_sem.c -/

def osSemAccept (e : EventId) (k : Ucos Msg) : Ucos Msg × Reply Msg :=
  if (k.event e).osEventType ≠ some .sem then (k, .cnt e 0)
  else
    let cnt := (k.event e).osEventCnt
    if cnt > 0 then (k.setEvent e { k.event e with osEventCnt := cnt - 1 }, .cnt e cnt)
    else (k, .cnt e cnt)

def osSemCreate (cnt : BitVec 16) (k : Ucos Msg) : Ucos Msg × Reply Msg :=
  if k.osIntNesting > 0 then (k, .created none)
  else
    match k.osEventFreeList with
    | [] => (k, .created none)
    | e :: free =>
        let k := { k with osEventFreeList := free }
        (k.setEvent e { k.event e with
            osEventType := some .sem
            osEventCnt := cnt.toNat
            waiting := PriorityMap.empty 8 }, .created (some e))

def osSemDel (e : EventId) (opt : DelOpt) (k : Ucos Msg) : Ucos Msg × Reply Msg :=
  k.eventDel .sem id e opt

def osSemPend (e : EventId) (timeout : Nat) (k : Ucos Msg) : Ucos Msg × Reply Msg :=
  if (k.event e).osEventType ≠ some .sem then (k, .pended e .sem none .eventType)
  else if k.osIntNesting > 0 then (k, .pended e .sem none .pendIsr)
  else if k.osLockNesting > 0 then (k, .pended e .sem none .pendLocked)
  else if (k.event e).osEventCnt > 0 then
    (k.setEvent e { k.event e with osEventCnt := (k.event e).osEventCnt - 1 },
      .pended e .sem none .none)
  else (k.pendWait e .sem timeout, .nothing)

def osSemPendAbort (e : EventId) (opt : PendOpt) (k : Ucos Msg) : Ucos Msg × Reply Msg :=
  k.pendAbort e .sem opt

def osSemPost (e : EventId) (k : Ucos Msg) : Ucos Msg × Reply Msg :=
  if (k.event e).osEventType ≠ some .sem then (k, .err .eventType)
  else if (k.event e).waiting.grp ≠ 0 then
    ((k.osEventTaskRdy e none OS_STAT_SEM .ok).callOsSched, .err .none)
  else if (k.event e).osEventCnt < 65535 then
    (k.setEvent e { k.event e with osEventCnt := (k.event e).osEventCnt + 1 }, .err .none)
  else (k, .err .semOvf)

def osSemSet (e : EventId) (cnt : BitVec 16) (k : Ucos Msg) : Ucos Msg × Reply Msg :=
  if (k.event e).osEventType ≠ some .sem then (k, .err .eventType)
  else if (k.event e).osEventCnt > 0 then
    (k.setEvent e { k.event e with osEventCnt := cnt.toNat }, .err .none)
  else if (k.event e).waiting.grp = 0 then
    (k.setEvent e { k.event e with osEventCnt := cnt.toNat }, .err .none)
  else (k, .err .taskWaiting)

/-! ## os_time.c -/

def osTimeDly (ticks : Nat) (k : Ucos Msg) : Ucos Msg :=
  if k.osIntNesting > 0 then k
  else if k.osLockNesting > 0 then k
  else if ticks > 0 then
    let k := k.makeUnready k.osPrioCur
    let k := k.setTcb k.osPrioCur ((k.osTCBPrioTbl k.osPrioCur).map fun t =>
      { t with osTCBDly := ticks })
    k.callOsSched
  else k

def osTimeDlyResume (p : Prio) (k : Ucos Msg) : Ucos Msg × Reply Msg :=
  if p ≥ OS_TASK_IDLE_PRIO then (k, .err .prioInvalid)
  else
    match k.osTCBPrioTbl p with
    | none => (k, .err .taskNotExist)
    | some t =>
        if t.osTCBDly = 0 then (k, .err .timeNotDly)
        else
          let t := { t with osTCBDly := 0 }
          let t :=
            if t.osTCBStat &&& OS_STAT_PEND_ANY ≠ OS_STAT_RDY then
              { t with
                osTCBStat := t.osTCBStat &&& ~~~OS_STAT_PEND_ANY
                osTCBStatPend := .timeout }
            else { t with osTCBStatPend := .ok }
          let k := k.setTcb p (some t)
          (if t.osTCBStat &&& OS_STAT_SUSPEND = OS_STAT_RDY then (k.makeReady p).callOsSched
            else k, .err .none)

/-! ## os_task.c -/

def osTaskCreate (p : Prio) (k : Ucos Msg) : Ucos Msg × Reply Msg :=
  if k.osIntNesting > 0 then (k, .err .taskCreateIsr)
  else
    match k.osTCBPrioTbl p with
    | some _ => (k, .err .prioExist)
    | none =>
        if k.osTCBFreeList > 0 then
          let k := k.setTcb p (some
            { osTCBStat := OS_STAT_RDY
              osTCBStatPend := .ok
              osTCBDly := 0
              osTCBMsg := none
              osTCBEventPtr := none })
          let k := { k with
            osTCBFreeList := k.osTCBFreeList - 1
            osTCBList := p :: k.osTCBList }
          let k := (k.makeReady p).setContext p .run
          (if k.osRunning then k.callOsSched else k, .err .none)
        else (k, .err .taskNoMoreTcb)

def osTaskDel (p : Prio) (k : Ucos Msg) : Ucos Msg × Reply Msg :=
  if k.osIntNesting > 0 then (k, .err .taskDelIsr)
  else if p = OS_TASK_IDLE_PRIO then (k, .err .taskDelIdle)
  else
    match k.osTCBPrioTbl p with
    | none => (k, .err .taskNotExist)
    | some t =>
        let k := k.makeUnready p
        let k := match t.osTCBEventPtr with
          | some e => k.osEventTaskRemove p e
          | none => k
        let k := k.setTcb p none
        let k := { k with
          osTCBFreeList := k.osTCBFreeList + 1
          osTCBList := k.osTCBList.erase p }
        (if k.osRunning then k.callOsSched else k, .err .none)

def osTaskResume (p : Prio) (k : Ucos Msg) : Ucos Msg × Reply Msg :=
  match k.osTCBPrioTbl p with
  | none => (k, .err .taskResumePrio)
  | some t =>
      if t.osTCBStat &&& OS_STAT_SUSPEND ≠ OS_STAT_RDY then
        let t := { t with osTCBStat := t.osTCBStat &&& ~~~OS_STAT_SUSPEND }
        let k := k.setTcb p (some t)
        if t.osTCBStat = OS_STAT_RDY then
          if t.osTCBDly = 0 then
            let k := k.makeReady p
            (if k.osRunning then k.callOsSched else k, .err .none)
          else (k, .err .none)
        else (k, .err .none)
      else (k, .err .taskNotSuspended)

def osTaskSuspend (p : Prio) (k : Ucos Msg) : Ucos Msg × Reply Msg :=
  match k.osTCBPrioTbl p with
  | none => (k, .err .taskSuspendPrio)
  | some t =>
      let k := k.makeUnready p
      let k := k.setTcb p (some { t with osTCBStat := t.osTCBStat ||| OS_STAT_SUSPEND })
      (if p = k.osPrioCur then k.callOsSched else k, .err .none)

/-! ## Start -/

/-- `OSInit`, up to the idle and the statistics task. -/
def osInit : Ucos Msg where
  rdy := PriorityMap.empty 8
  osTCBPrioTbl := fun _ => none
  osTCBList := []
  osTCBFreeList := 12
  event := fun _ =>
    { osEventType := none
      osEventCnt := 0
      osEventPtr := OsQ.create (fun _ => none) 0
      waiting := PriorityMap.empty 8 }
  osEventFreeList := List.finRange 10
  osQFreeList := 5
  osPrioCur := ⟨0, by decide⟩
  osIntNesting := 0
  osLockNesting := 0
  osTime := 0#32
  osRunning := false
  context := fun _ => .run

/-- What is created before `OSStart`. -/
inductive Setup (Msg : Type) where
  | osTaskCreate (p : Prio)
  | osQCreate (start : Int → Option Msg) (size : Nat)
  | osSemCreate (cnt : BitVec 16)

def setUp (k : Ucos Msg) : Setup Msg → Ucos Msg
  | .osTaskCreate p => (k.osTaskCreate p).1
  | .osQCreate start size => (k.osQCreate start size).1
  | .osSemCreate cnt => (k.osSemCreate cnt).1

/-- What `OSTmr_Init` creates. -/
def osTmrInit : List (Setup Msg) :=
  [.osSemCreate 1#16, .osSemCreate 0#16, .osTaskCreate OS_TASK_TMR_PRIO]

/-- `OSStart` -/
def osStart (k : Ucos Msg) : Ucos Msg :=
  if k.osRunning then k else { k with osPrioCur := k.osSchedNew, osRunning := true }

/-- The kernel with the idle task. -/
def withIdle : Ucos Msg := (osInit.osTaskCreate OS_TASK_IDLE_PRIO).1

/-- The kernel when the first task starts: `OSInit` has created its own tasks and semaphores, and
`main` what `setup` says. -/
def boot (setup : List (Setup Msg)) : Ucos Msg :=
  let all := Setup.osTaskCreate OS_TASK_STAT_PRIO :: osTmrInit ++ setup
  osStart (all.foldl setUp withIdle)

end Ucos

end Stm32Robot.Kernel
