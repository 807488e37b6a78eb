/-
# Kernel.TaskState -- what the variables of the kernel say of one task

A task is spread over `OSTCBPrioTbl`, the ready list and the wait lists of the events.  `View`
gathers what is there for one priority, and `Task` is what it means: whether the task is
suspended, and its `Phase`.  `View.Shows` ties the two together; in a phase the bits of the
lists, the flags of `OSTCBStat` and the delay are all determined.

`Touches p` is a change of the kernel that no other task than the one at `p` can see.
-/
import Stm32Robot.Kernel.Services

namespace Stm32Robot.Kernel

open Stm32Robot.Theory

set_option autoImplicit false

variable {Msg : Type}

/-! ## Phases -/

/-- What a task is doing, suspended or not: it runs or sleeps for so many ticks; it waits for an
event, for so many ticks or (with 0) for ever; its time is up; it has been given what it waited
for, or its wait was aborted.  From the last three the rest of the pend is still to come. -/
inductive Phase (Msg : Type) where
  | active (dly : Nat)
  | pending (e : EventId) (s : Service) (dly : Nat)
  | due (e : EventId) (s : Service)
  | served (e : EventId) (s : Service) (pmsg : Option Msg)
  | aborted (e : EventId) (s : Service)

/-- A task, and whether it is suspended. -/
structure Task (Msg : Type) where
  suspended : Bool
  phase : Phase Msg

namespace Phase

/-- What it has a flag for in `OSTCBStat`. -/
def flag : Phase Msg → Option Service
  | pending _ s _ => some s
  | _ => none

def dly : Phase Msg → Nat
  | active d => d
  | pending _ _ d => d
  | _ => 0

/-- The pend it is in. -/
def pend : Phase Msg → Option (EventId × Service)
  | active _ => none
  | pending e s _ => some (e, s)
  | due e s => some (e, s)
  | served e s _ => some (e, s)
  | aborted e s => some (e, s)

/-- The event whose wait list it is in.  A task whose time is up leaves it by itself. -/
def waitsFor : Phase Msg → Option EventId
  | pending e _ _ => some e
  | due e _ => some e
  | _ => none

/-- It could run. -/
def Runnable : Phase Msg → Prop
  | active d => d = 0
  | pending _ _ _ => False
  | _ => True

/-- What `OSTCBStatPend` and `OSTCBMsg` say. -/
def Result (t : OsTcb Msg) : Phase Msg → Prop
  | active _ => True
  | pending _ _ _ => t.osTCBStatPend = .ok
  | due _ _ => t.osTCBStatPend = .timeout
  | served _ _ pmsg => t.osTCBStatPend = .ok ∧ t.osTCBMsg = pmsg
  | aborted _ _ => t.osTCBStatPend = .abort

/-- Where the code stands. -/
def Stands (c : Context) (x : Phase Msg) : Prop :=
  match x.pend with
  | none => c = .run ∨ c = .sched
  | some (e, s) => c = .pendSched e s ∨ c = .pendTail e s

end Phase

/-! ## Flags -/

/-- `OSTCBStat` of a task that is suspended or not and waits for something or not. -/
def flags (suspended : Bool) (waits : Option Service) : BitVec 8 :=
  (if suspended then OS_STAT_SUSPEND else OS_STAT_RDY) ||| waits.elim OS_STAT_RDY Service.stat

section Flags

variable (b : Bool) (o : Option Service) (s : Service)

@[simp] theorem flags_and_suspend : flags b o &&& OS_STAT_SUSPEND = OS_STAT_RDY ↔ b = false := by
  rcases o with _ | _ | _ <;> cases b <;> decide

@[simp] theorem flags_or_suspend : flags b o ||| OS_STAT_SUSPEND = flags true o := by
  rcases o with _ | _ | _ <;> cases b <;> decide

@[simp] theorem flags_and_not_suspend : flags b o &&& ~~~OS_STAT_SUSPEND = flags false o := by
  rcases o with _ | _ | _ <;> cases b <;> decide

@[simp] theorem flags_and_pendAny : flags b o &&& OS_STAT_PEND_ANY = OS_STAT_RDY ↔ o = none := by
  rcases o with _ | _ | _ <;> cases b <;> decide

@[simp] theorem flags_and_not_pendAny : flags b o &&& ~~~OS_STAT_PEND_ANY = flags b none := by
  rcases o with _ | _ | _ <;> cases b <;> decide

@[simp] theorem flags_eq_rdy : flags b o = OS_STAT_RDY ↔ b = false ∧ o = none := by
  rcases o with _ | _ | _ <;> cases b <;> decide

theorem flags_or_stat : flags b none ||| s.stat = flags b (some s) := by
  cases s <;> cases b <;> decide

@[simp] theorem flags_and_not_stat : flags b (some s) &&& ~~~s.stat = flags b none := by
  cases s <;> cases b <;> decide

@[simp] theorem flags_none_and_not_stat : flags b none &&& ~~~s.stat = flags b none := by
  cases s <;> cases b <;> decide

end Flags

/-! ## Views -/

/-- What the kernel has of one task. -/
structure View (Msg : Type) where
  tcb : Option (OsTcb Msg)
  ready : Prop
  waits : EventId → Prop
  context : Context

namespace View

/-- The view of the task `a`. -/
structure Shows (v : View Msg) (a : Task Msg) (t : OsTcb Msg) : Prop where
  tcb : v.tcb = some t
  stat : t.osTCBStat = flags a.suspended a.phase.flag
  dly : t.osTCBDly = a.phase.dly
  eventPtr : t.osTCBEventPtr = a.phase.pend.map Prod.fst
  result : a.phase.Result t
  ready : v.ready ↔ a.suspended = false ∧ a.phase.Runnable
  waits : ∀ e, v.waits e ↔ a.phase.waitsFor = some e
  stands : a.phase.Stands v.context

/-- No task. -/
structure Absent (v : View Msg) : Prop where
  tcb : v.tcb = none
  ready : ¬ v.ready
  waits : ∀ e, ¬ v.waits e

/-- The variables agree with each other on the task. -/
def Ok (v : View Msg) : Prop := v.Absent ∨ ∃ a t, v.Shows a t

end View

namespace Ucos

def view (k : Ucos Msg) (p : Prio) : View Msg where
  tcb := k.osTCBPrioTbl p
  ready := PrioSet.Has k.rdy p
  waits := fun e => PrioSet.Has (k.event e).waiting p
  context := k.context p

@[simp] theorem event_setEvent_self (k : Ucos Msg) (e : EventId) (x : OsEvent Msg) :
    (k.setEvent e x).event e = x := Function.update_self _ _ _

theorem event_setEvent_of_ne (k : Ucos Msg) {e j : EventId} (x : OsEvent Msg) (ne : j ≠ e) :
    (k.setEvent e x).event j = k.event j := Function.update_of_ne ne _ _

section Views

variable (k : Ucos Msg) (p q : Prio) (e : EventId)

theorem view_makeReady :
    (k.makeReady p).view = Function.update k.view p { k.view p with ready := True } := by
  funext q
  by_cases same : q = p
  · subst same
    simp [view, makeReady]
  · simp [view, makeReady, same]

theorem view_makeUnready :
    (k.makeUnready p).view = Function.update k.view p { k.view p with ready := False } := by
  funext q
  by_cases same : q = p
  · subst same
    simp [view, makeUnready]
  · simp [view, makeUnready, same]

theorem view_setTcb (t : Option (OsTcb Msg)) :
    (k.setTcb p t).view = Function.update k.view p { k.view p with tcb := t } := by
  funext q
  by_cases same : q = p
  · subst same
    simp [view, setTcb]
  · simp [view, setTcb, same]

theorem view_setContext (c : Context) :
    (k.setContext p c).view = Function.update k.view p { k.view p with context := c } := by
  funext q
  by_cases same : q = p
  · subst same
    simp [view, setContext]
  · simp [view, setContext, same]

/-- An event changes, and who waits for it does not. -/
theorem view_setEvent {x : OsEvent Msg} (kept : x.waiting = (k.event e).waiting) :
    (k.setEvent e x).view = k.view := by
  funext q
  unfold view
  congr 1
  funext j
  by_cases same : j = e
  · subst same
    simp [setEvent, kept]
  · simp [setEvent, same]

theorem view_osEventTaskRemove :
    (k.osEventTaskRemove p e).view =
      Function.update k.view p
        { k.view p with waits := Function.update (k.view p).waits e False } := by
  funext q
  by_cases same : q = p
  · subst same
    simp only [view, osEventTaskRemove, setEvent, Function.update_self]
    congr 1
    funext j
    by_cases here : j = e
    · subst here
      simp
    · simp [here]
  · simp only [view, osEventTaskRemove, setEvent, Function.update_of_ne same]
    congr 1
    funext j
    by_cases here : j = e
    · subst here
      simp [same]
    · simp [here]

theorem view_osEventTaskInsert :
    (k.setEvent e
        { k.event e with waiting := PrioSet.insert (k.event e).waiting p }).view =
      Function.update k.view p
        { k.view p with waits := Function.update (k.view p).waits e True } := by
  funext q
  by_cases same : q = p
  · subst same
    simp only [view, setEvent, Function.update_self]
    congr 1
    funext j
    by_cases here : j = e
    · subst here
      simp
    · simp [here]
  · simp only [view, setEvent, Function.update_of_ne same]
    congr 1
    funext j
    by_cases here : j = e
    · subst here
      simp [same]
    · simp [here]

end Views

/-! ## Changes that one task sees -/

/-- Nothing but the task at `p` changes. -/
structure Touches (p : Prio) (k k' : Ucos Msg) : Prop where
  view : ∀ q, q ≠ p → k'.view q = k.view q
  eventType : ∀ e, (k'.event e).osEventType = (k.event e).osEventType
  eventCnt : ∀ e, (k'.event e).osEventCnt = (k.event e).osEventCnt
  eventPtr : ∀ e, (k'.event e).osEventPtr = (k.event e).osEventPtr
  tcbList : k'.osTCBList = k.osTCBList
  eventFreeList : k'.osEventFreeList = k.osEventFreeList
  prioCur : k'.osPrioCur = k.osPrioCur
  intNesting : k'.osIntNesting = k.osIntNesting
  lockNesting : k'.osLockNesting = k.osLockNesting
  running : k'.osRunning = k.osRunning

namespace Touches

variable {p q : Prio} {e : EventId} {k k' k'' : Ucos Msg}

protected theorem refl (p : Prio) (k : Ucos Msg) : Touches p k k :=
  ⟨fun _ _ => rfl, fun _ => rfl, fun _ => rfl, fun _ => rfl, rfl, rfl, rfl, rfl, rfl, rfl⟩

protected theorem trans (first : Touches p k k') (second : Touches p k' k'') :
    Touches p k k'' where
  view q ne := (second.view q ne).trans (first.view q ne)
  eventType e := (second.eventType e).trans (first.eventType e)
  eventCnt e := (second.eventCnt e).trans (first.eventCnt e)
  eventPtr e := (second.eventPtr e).trans (first.eventPtr e)
  tcbList := second.tcbList.trans first.tcbList
  eventFreeList := second.eventFreeList.trans first.eventFreeList
  prioCur := second.prioCur.trans first.prioCur
  intNesting := second.intNesting.trans first.intNesting
  lockNesting := second.lockNesting.trans first.lockNesting
  running := second.running.trans first.running

theorem makeReady (p : Prio) (k : Ucos Msg) : Touches p k (k.makeReady p) :=
  ⟨fun q ne => by rw [view_makeReady, Function.update_of_ne ne],
    fun _ => rfl, fun _ => rfl, fun _ => rfl, rfl, rfl, rfl, rfl, rfl, rfl⟩

theorem makeUnready (p : Prio) (k : Ucos Msg) : Touches p k (k.makeUnready p) :=
  ⟨fun q ne => by rw [view_makeUnready, Function.update_of_ne ne],
    fun _ => rfl, fun _ => rfl, fun _ => rfl, rfl, rfl, rfl, rfl, rfl, rfl⟩

theorem setTcb (p : Prio) (t : Option (OsTcb Msg)) (k : Ucos Msg) : Touches p k (k.setTcb p t) :=
  ⟨fun q ne => by rw [view_setTcb, Function.update_of_ne ne],
    fun _ => rfl, fun _ => rfl, fun _ => rfl, rfl, rfl, rfl, rfl, rfl, rfl⟩

theorem setContext (p : Prio) (c : Context) (k : Ucos Msg) : Touches p k (k.setContext p c) :=
  ⟨fun q ne => by rw [view_setContext, Function.update_of_ne ne],
    fun _ => rfl, fun _ => rfl, fun _ => rfl, rfl, rfl, rfl, rfl, rfl, rfl⟩

/-- A change to who waits for an event. -/
theorem setWaiting {w : PrioSet}
    (other : ∀ q, q ≠ p → (w.Has q ↔ (k.event e).waiting.Has q)) :
    Touches p k (k.setEvent e { k.event e with waiting := w }) := by
  refine ⟨fun q ne => ?_, fun j => ?_, fun j => ?_, fun j => ?_, rfl, rfl, rfl, rfl, rfl, rfl⟩
  · unfold Ucos.view
    congr 1
    funext j
    by_cases same : j = e
    · subst same
      rw [event_setEvent_self]
      exact propext (other q ne)
    · rw [event_setEvent_of_ne _ _ same]
  all_goals
    by_cases same : j = e
    · subst same
      rw [event_setEvent_self]
    · rw [event_setEvent_of_ne _ _ same]

theorem osEventTaskRemove (p : Prio) (e : EventId) (k : Ucos Msg) :
    Touches p k (k.osEventTaskRemove p e) :=
  setWaiting fun q ne => by simp [ne]

theorem osEventTaskInsert (p : Prio) (e : EventId) (k : Ucos Msg) :
    Touches p k (k.setEvent e
      { k.event e with waiting := PrioSet.insert (k.event e).waiting p }) :=
  setWaiting fun q ne => by simp [ne]

end Touches

end Ucos

end Stm32Robot.Kernel
