/-
# Kernel.System -- the kernel, its tasks and its interrupts

One `Action` is one step: the current task or an interrupt calls a service, the current task goes
through the `OS_Sched` it stands before or ends its pend behind it, or an interrupt starts, ticks
or ends.  They come in any order; between a service and its `OS_Sched` there may be an interrupt.
A step is one critical section, but for `OSTaskCreate`, `OSTaskDel`, `OSQCreate`, `OSSemCreate`
and `OSTimeTick`, which open the interrupts in between: their critical sections are taken together.

`Inv` is what every reachable state keeps to: `Sound` of `Kernel.Invariant`, and `Scheduled`.
-/
import Stm32Robot.Kernel.Objects
import Stm32Robot.Theory.PartialRun

namespace Stm32Robot.Kernel

open Stm32Robot.Theory
open Stm32Robot.Theory.PartialRun

set_option autoImplicit false

variable {Msg : Type}

/-- The services, with their arguments. -/
inductive Call (Msg : Type) where
  | osQAccept (e : EventId)
  | osQCreate (start : Int → Option Msg) (size : Nat)
  | osQDel (e : EventId) (opt : DelOpt)
  | osQFlush (e : EventId)
  | osQPend (e : EventId) (timeout : Nat)
  | osQPendAbort (e : EventId) (opt : PendOpt)
  | osQPost (e : EventId) (pmsg : Option Msg)
  | osQPostFront (e : EventId) (pmsg : Option Msg)
  | osSemAccept (e : EventId)
  | osSemCreate (cnt : BitVec 16)
  | osSemDel (e : EventId) (opt : DelOpt)
  | osSemPend (e : EventId) (timeout : Nat)
  | osSemPendAbort (e : EventId) (opt : PendOpt)
  | osSemPost (e : EventId)
  | osSemSet (e : EventId) (cnt : BitVec 16)
  | osTimeDly (ticks : Nat)
  | osTimeDlyResume (p : Prio)
  | osTaskCreate (p : Prio)
  | osTaskDel (p : Prio)
  | osTaskResume (p : Prio)
  | osTaskSuspend (p : Prio)
  | osSchedLock
  | osSchedUnlock

inductive Action (Msg : Type) where
  | call (c : Call Msg)
  | osSched
  | pendTail
  | osIntEnter
  | osTimeTick
  | osIntExit

namespace Ucos

def perform (k : Ucos Msg) : Call Msg → Ucos Msg × Reply Msg
  | .osQAccept e => k.osQAccept e
  | .osQCreate start size => k.osQCreate start size
  | .osQDel e opt => k.osQDel e opt
  | .osQFlush e => k.osQFlush e
  | .osQPend e timeout => k.osQPend e timeout
  | .osQPendAbort e opt => k.osQPendAbort e opt
  | .osQPost e pmsg => k.osQPost e pmsg
  | .osQPostFront e pmsg => k.osQPostFront e pmsg
  | .osSemAccept e => k.osSemAccept e
  | .osSemCreate cnt => k.osSemCreate cnt
  | .osSemDel e opt => k.osSemDel e opt
  | .osSemPend e timeout => k.osSemPend e timeout
  | .osSemPendAbort e opt => k.osSemPendAbort e opt
  | .osSemPost e => k.osSemPost e
  | .osSemSet e cnt => k.osSemSet e cnt
  | .osTimeDly ticks => (k.osTimeDly ticks, .nothing)
  | .osTimeDlyResume p => k.osTimeDlyResume p
  | .osTaskCreate p => k.osTaskCreate p
  | .osTaskDel p => k.osTaskDel p
  | .osTaskResume p => k.osTaskResume p
  | .osTaskSuspend p => k.osTaskSuspend p
  | .osSchedLock => (k.osSchedLock, .nothing)
  | .osSchedUnlock => (k.osSchedUnlock, .nothing)

/-- What the kernel does not check: the idle task is not suspended, and only a queue is
flushed. -/
def Admits (k : Ucos Msg) : Call Msg → Prop
  | .osTaskSuspend p => p ≠ OS_TASK_IDLE_PRIO
  | .osQFlush e => (k.event e).osEventType = some .q
  | _ => True

instance (k : Ucos Msg) : DecidablePred k.Admits := fun c => by
  cases c <;> unfold Admits <;> infer_instance

/-- Some code may call a service: that of an interrupt, or that of the current task where it is
outside of the kernel.  The idle task calls none, and neither does a task that has deleted
itself. -/
def MayCall (k : Ucos Msg) : Prop :=
  k.osIntNesting = 0 → k.osPrioCur ≠ OS_TASK_IDLE_PRIO ∧ k.context k.osPrioCur = .run ∧
    (k.osTCBPrioTbl k.osPrioCur).isSome

instance (k : Ucos Msg) : Decidable k.MayCall := inferInstanceAs (Decidable (_ → _))

/-- The code of the current task stands before an `OS_Sched`. -/
def AtSched : Context → Prop
  | .sched => True
  | .pendSched _ _ => True
  | _ => False

instance : DecidablePred AtSched := fun c => by
  cases c <;> unfold AtSched <;> infer_instance

def step (k : Ucos Msg) : Action Msg → Option (Ucos Msg × Reply Msg)
  | .call c => if k.MayCall ∧ k.Admits c then some (k.perform c) else none
  | .osSched =>
      if k.osIntNesting = 0 ∧ AtSched (k.context k.osPrioCur) then some (k.osSched, .nothing)
      else none
  | .pendTail =>
      if k.osIntNesting = 0 then
        match k.context k.osPrioCur with
        | .pendTail e s => some (k.osPendTail e s)
        | _ => none
      else none
  | .osIntEnter => some (k.osIntEnter, .nothing)
  | .osTimeTick => if 0 < k.osIntNesting then some (k.osTimeTick, .nothing) else none
  | .osIntExit => if 0 < k.osIntNesting then some (k.osIntExit, .nothing) else none

theorem step_call {k : Ucos Msg} {c : Call Msg} (may : k.MayCall) (admits : k.Admits c) :
    k.step (.call c) = some (k.perform c) := if_pos ⟨may, admits⟩

/-- The step, whatever it comes back with. -/
def next (k : Ucos Msg) (act : Action Msg) : Option (Ucos Msg) := (k.step act).map Prod.fst

/-- Some run leads there from the start of the first task. -/
def Reachable (k : Ucos Msg) : Prop := ∃ setup acts, runPartial next (boot setup) acts = some k

/-- Whose code runs: that of a task, or of an interrupt. -/
def who (k : Ucos Msg) : Option Prio := if k.osIntNesting = 0 then some k.osPrioCur else none

end Ucos

/-- One step of a run: who took it, and what it came back with. -/
structure Entry (Msg : Type) where
  who : Option Prio
  act : Action Msg
  reply : Reply Msg

def Action.isTick : Action Msg → Bool
  | .osTimeTick => true
  | _ => false

/-- How often `OSTimeTick` was called. -/
def ticks (log : List (Entry Msg)) : Nat := log.countP fun x => x.act.isTick

namespace Ucos

/-- The step, written down. -/
def logged (s : Ucos Msg × List (Entry Msg)) (act : Action Msg) :
    Option (Ucos Msg × List (Entry Msg)) :=
  (s.1.step act).map fun (k, r) => (k, s.2 ++ [⟨s.1.who, act, r⟩])

/-! ## Scheduling -/

/-- Where nothing forbids it the highest priority runs: outside of interrupts, with the
scheduler not locked, and unless an `OS_Sched` is still to come. -/
structure Scheduled (k : Ucos Msg) : Prop where
  highest : k.osIntNesting = 0 → k.osLockNesting = 0 → ¬ AtSched (k.context k.osPrioCur) →
    k.osPrioCur = k.osSchedNew
  unlocked : ∀ e s, (k.context k.osPrioCur = .pendSched e s ∨
    k.context k.osPrioCur = .pendTail e s) → k.osLockNesting = 0

/-- The invariant of the running kernel. -/
structure Inv (k : Ucos Msg) : Prop where
  sound : k.Sound
  scheduled : k.Scheduled
  running : k.osRunning = true

variable {k k' : Ucos Msg} {p : Prio} {e : EventId} {s : Service} {a : Task Msg} {t : OsTcb Msg}

/-- The scheduler's own variables, the current task's place included. -/
structure SameCurrent (k k' : Ucos Msg) : Prop where
  prioCur : k'.osPrioCur = k.osPrioCur
  intNesting : k'.osIntNesting = k.osIntNesting
  lockNesting : k'.osLockNesting = k.osLockNesting
  running : k'.osRunning = k.osRunning
  context : k'.context k.osPrioCur = k.context k.osPrioCur

theorem SameCurrent.of_touches (touches : Touches p k k') (context : k'.context = k.context) :
    SameCurrent k k' :=
  ⟨touches.prioCur, touches.intNesting, touches.lockNesting, touches.running,
    congrFun context _⟩

theorem Scheduled.keep (scheduled : k.Scheduled) (same : SameCurrent k k')
    (highest : k.osPrioCur = k.osSchedNew → k.osPrioCur = k'.osSchedNew) : k'.Scheduled where
  highest level unlocked rests := by
    rw [same.prioCur, same.context] at rests
    rw [same.prioCur]
    exact highest (scheduled.highest (same.intNesting ▸ level) (same.lockNesting ▸ unlocked) rests)
  unlocked e s pends := by
    rw [same.prioCur, same.context] at pends
    rw [same.lockNesting]
    exact scheduled.unlocked e s pends

/-- Before an `OS_Sched` nothing is asked of the ready list. -/
theorem scheduled_setSched (k : Ucos Msg) : (k.setContext k.osPrioCur .sched).Scheduled := by
  have at_sched : (k.setContext k.osPrioCur .sched).context
      (k.setContext k.osPrioCur .sched).osPrioCur = .sched := Function.update_self _ _ _
  constructor
  · intro _ _ rests
    rw [at_sched] at rests
    exact (rests trivial).elim
  · intro e s pends
    rw [at_sched] at pends
    rcases pends with h | h <;> cases h

/-- Behind a change of the ready list the scheduler is called, or an interrupt is on. -/
theorem Scheduled.callOsSched (scheduled : k.Scheduled) (same : SameCurrent k k') :
    k'.callOsSched.Scheduled := by
  unfold Ucos.callOsSched
  split
  next => exact scheduled_setSched k'
  next nested =>
    refine ⟨fun level => absurd level nested, fun e s pends => ?_⟩
    rw [same.prioCur, same.context] at pends
    rw [same.lockNesting]
    exact scheduled.unlocked e s pends

/-- The current task outside of interrupts, where the scheduler is not locked, is ready. -/
theorem Inv.current (inv : k.Inv) (level : k.osIntNesting = 0) (unlocked : k.osLockNesting = 0)
    (rests : ¬ AtSched (k.context k.osPrioCur)) : (k.view k.osPrioCur).ready := by
  have cur := inv.scheduled.highest level unlocked rests
  show k.rdy.Has k.osPrioCur
  rw [cur]
  exact PrioSet.has_highest inv.sound.rdy_grp_ne_zero

/-- A task that calls a service may be put to wait. -/
theorem Inv.caller (inv : k.Inv) (level : k.osIntNesting = 0) (unlocked : k.osLockNesting = 0)
    (runs : k.context k.osPrioCur = .run) :
    ∃ t, (k.view k.osPrioCur).Shows ⟨false, .active 0⟩ t := by
  have ready := inv.current level unlocked (by rw [runs]; exact id)
  obtain ⟨⟨b, phase⟩, t, shows⟩ := (inv.sound.tasks k.osPrioCur).of_ready ready
  obtain ⟨rfl, runnable⟩ : b = false ∧ phase.Runnable := shows.ready.mp ready
  have stands := shows.stands
  have runs' : (k.view k.osPrioCur).context = .run := runs
  rw [runs'] at stands
  cases phase with
  | active d =>
      obtain rfl : d = 0 := runnable
      exact ⟨t, shows⟩
  | pending | due | served | aborted => rcases stands with h | h <;> cases h

end Ucos

end Stm32Robot.Kernel
