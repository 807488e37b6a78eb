/-
# Kernel.Invariant -- what the variables of the kernel keep to

`Sound` says that every task is in one of the phases of `Kernel.TaskState`, that a task waits
for an event only while there is one of its kind, and that nothing waits for an event that has
something to give.  `Sound.touch` carries it over a change that one task sees.

A task is woken by `osEventTaskRdy` (`Sound.wake`), by the tick (`Sound.tick`), and by itself
when its pend is over (`Sound.osPendTail`).
-/
import Stm32Robot.Kernel.TaskState

namespace Stm32Robot.Kernel

open Stm32Robot.Theory

set_option autoImplicit false

variable {Msg : Type}

namespace Phase

variable {x : Phase Msg} {e : EventId} {s : Service} {c : Context}

theorem pend_of_waitsFor (waits : x.waitsFor = some e) : ∃ s, x.pend = some (e, s) := by
  cases x with
  | active | served | aborted => cases waits
  | pending e' s' d =>
      cases waits
      exact ⟨s', rfl⟩
  | due e' s' =>
      cases waits
      exact ⟨s', rfl⟩

/-- The pend of a task is read off where its code stands. -/
theorem pend_eq_of_stands (stands : x.Stands c) (at_pend : c = .pendSched e s ∨ c = .pendTail e s) :
    x.pend = some (e, s) := by
  unfold Stands at stands
  cases pends : x.pend with
  | none =>
      rw [pends] at stands
      rcases stands with rfl | rfl <;> rcases at_pend with h | h <;> cases h
  | some pair =>
      obtain ⟨e', s'⟩ := pair
      rw [pends] at stands
      rcases stands with rfl | rfl <;> rcases at_pend with h | h <;> cases h <;> rfl

/-- A task that waits for an event is pending on it or due. -/
theorem waiting_cases (waits : x.waitsFor = some e) (pend : x.pend = some (e, s)) :
    (∃ d, x = pending e s d) ∨ x = due e s := by
  cases x with
  | active | served | aborted => cases waits
  | pending e' s' d =>
      cases pend
      exact Or.inl ⟨d, rfl⟩
  | due e' s' =>
      cases pend
      exact Or.inr rfl

end Phase

namespace View

variable {v : View Msg} {a b : Task Msg} {t u : OsTcb Msg}

theorem Shows.ok (shows : v.Shows a t) : v.Ok := Or.inr ⟨a, t, shows⟩

theorem Ok.shows (ok : v.Ok) (found : v.tcb = some t) : ∃ a, v.Shows a t := by
  rcases ok with absent | ⟨a, u, shows⟩
  · rw [absent.tcb] at found
    cases found
  · rw [shows.tcb, Option.some.injEq] at found
    exact ⟨a, found ▸ shows⟩

theorem Ok.of_waits (ok : v.Ok) {e : EventId} (waits : v.waits e) : ∃ a t, v.Shows a t := by
  rcases ok with absent | shows
  · exact absurd waits (absent.waits e)
  · exact shows

theorem Ok.of_ready (ok : v.Ok) (ready : v.ready) : ∃ a t, v.Shows a t := by
  rcases ok with absent | shows
  · exact absurd ready absent.ready
  · exact shows

end View

/-- Nothing waits for an event that has a message or a count to give. -/
structure OsEvent.Ok (x : OsEvent Msg) : Prop where
  wellFormed : x.osEventType = some .q → x.osEventPtr.WellFormed
  queue : x.osEventType = some .q → x.osEventPtr.contents ≠ [] → x.waiting.grp = 0
  cnt_le : x.osEventType = some .sem → x.osEventCnt ≤ 65535
  sem : x.osEventType = some .sem → 0 < x.osEventCnt → x.waiting.grp = 0

theorem OsEvent.Ok.of_unused {x : OsEvent Msg} (unused : x.osEventType = none) : x.Ok := by
  constructor <;>
  · intro type
    rw [unused] at type
    cases type

/-- It has nothing to give. -/
def OsEvent.Exhausted (x : OsEvent Msg) : Prop :=
  (x.osEventType = some .q → x.osEventPtr.contents = []) ∧
    (x.osEventType = some .sem → x.osEventCnt = 0)

namespace Ucos

/-- The invariant of the kernel, scheduling apart. -/
structure Sound (k : Ucos Msg) : Prop where
  tasks : ∀ p, (k.view p).Ok
  kinds : ∀ p e, (k.view p).waits e → ∃ s, (k.event e).osEventType = some s ∧
    (k.context p = .pendSched e s ∨ k.context p = .pendTail e s)
  events : ∀ e, (k.event e).Ok
  freeUnused : ∀ e ∈ k.osEventFreeList, (k.event e).osEventType = none
  freeNodup : k.osEventFreeList.Nodup
  listed : ∀ p, p ∈ k.osTCBList ↔ (k.osTCBPrioTbl p).isSome
  listNodup : k.osTCBList.Nodup
  idleLast : ∃ ps, k.osTCBList = ps ++ [ OS_TASK_IDLE_PRIO]
  idle : ∃ t, (k.view OS_TASK_IDLE_PRIO).Shows ⟨false, .active 0⟩ t
  idleRuns : k.context OS_TASK_IDLE_PRIO = .run

variable {k k' : Ucos Msg} {p : Prio} {e : EventId} {a : Task Msg} {t : OsTcb Msg}

/-- A task that waits for an event of one kind is in a pend of that kind. -/
theorem Sound.waiting (sound : k.Sound) {s : Service} (type : (k.event e).osEventType = some s)
    (shows : (k.view p).Shows a t) (waits : (k.view p).waits e) :
    (∃ d, a.phase = .pending e s d) ∨ a.phase = .due e s := by
  obtain ⟨s', same, stands⟩ := sound.kinds p e waits
  rw [type, Option.some.injEq] at same
  subst same
  exact Phase.waiting_cases ((shows.waits e).mp waits) (Phase.pend_eq_of_stands shows.stands stands)

theorem Sound.waiting_eq_zero (sound : k.Sound) (type : (k.event e).osEventType = none) :
    (k.event e).waiting.grp = 0 := by
  rw [PrioSet.grp_eq_zero_iff]
  intro p waits
  obtain ⟨s, some, -⟩ := sound.kinds p e waits
  rw [type] at some
  cases some

/-- The idle task is always ready. -/
theorem Sound.idle_ready (sound : k.Sound) : k.rdy.Has OS_TASK_IDLE_PRIO := by
  obtain ⟨t, shows⟩ := sound.idle
  exact shows.ready.mpr ⟨rfl, rfl⟩

theorem Sound.rdy_grp_ne_zero (sound : k.Sound) : k.rdy.grp ≠ 0 :=
  PrioSet.grp_ne_zero_iff.mpr ⟨_, sound.idle_ready⟩

theorem Sound.idle_not_waiting (sound : k.Sound) (waits : (k.view p).waits e) :
    p ≠ OS_TASK_IDLE_PRIO := by
  rintro rfl
  obtain ⟨t, shows⟩ := sound.idle
  cases (shows.waits e).mp waits

/-- The invariant is kept where one task changes, and comes or goes with the list of tasks. -/
theorem Sound.touch_of_list (sound : k.Sound) (touches : Touches p k k')
    (notIdle : p ≠ OS_TASK_IDLE_PRIO) (ok : (k'.view p).Ok)
    (kind : ∀ j, (k'.view p).waits j → ∃ s, (k.event j).osEventType = some s ∧
      (k'.context p = .pendSched j s ∨ k'.context p = .pendTail j s))
    (waits : ∀ j, (k'.view p).waits j → (k.view p).waits j ∨ (k.event j).Exhausted)
    {list : List Prio} (listed : ∀ q, q ∈ list ↔ (k'.osTCBPrioTbl q).isSome) (nodup : list.Nodup)
    (idleLast : ∃ ps, list = ps ++ [ OS_TASK_IDLE_PRIO]) (free : Nat) :
    ({ k' with osTCBList := list, osTCBFreeList := free } : Ucos Msg).Sound := by
  have view_ne {q : Prio} (ne : q ≠ p) : k'.view q = k.view q := touches.view q ne
  have context_ne {q : Prio} (ne : q ≠ p) : k'.context q = k.context q :=
    congrArg View.context (view_ne ne)
  have waiting_zero {j : EventId} (before : (k.event j).waiting.grp = 0)
      (gives : ¬ (k.event j).Exhausted) : (k'.event j).waiting.grp = 0 := by
    rw [PrioSet.grp_eq_zero_iff] at before ⊢
    intro q
    by_cases same : q = p
    · subst same
      intro now
      exact (waits j now).elim (before q) gives
    · intro now
      have there : (k'.view q).waits j := now
      rw [view_ne same] at there
      exact before q there
  refine ⟨fun q => ?_, fun q j now => ?_, fun j => ?_, fun j free => ?_, ?_, listed, nodup,
    idleLast, ?_, (context_ne notIdle.symm).trans sound.idleRuns⟩
  · show (k'.view q).Ok
    by_cases same : q = p
    · exact same ▸ ok
    · exact (view_ne same).symm ▸ sound.tasks q
  · show ∃ s, (k'.event j).osEventType = some s ∧ _
    rw [touches.eventType]
    by_cases same : q = p
    · subst same
      exact kind j now
    · have there : (k'.view q).waits j := now
      rw [view_ne same] at there
      show ∃ s, (k.event j).osEventType = some s ∧
        (k'.context q = .pendSched j s ∨ k'.context q = .pendTail j s)
      rw [context_ne same]
      exact sound.kinds q j there
  · have before := sound.events j
    show (k'.event j).Ok
    constructor
    · intro type
      rw [touches.eventType] at type
      rw [touches.eventPtr]
      exact before.wellFormed type
    · intro type some
      rw [touches.eventType] at type
      rw [touches.eventPtr] at some
      exact waiting_zero (before.queue type some) fun gone => some (gone.1 type)
    · intro type
      rw [touches.eventType] at type
      rw [touches.eventCnt]
      exact before.cnt_le type
    · intro type some
      rw [touches.eventType] at type
      rw [touches.eventCnt] at some
      exact waiting_zero (before.sem type some) fun gone => some.ne' (gone.2 type)
  · show (k'.event j).osEventType = none
    have there : j ∈ k'.osEventFreeList := free
    rw [touches.eventFreeList] at there
    rw [touches.eventType]
    exact sound.freeUnused j there
  · show k'.osEventFreeList.Nodup
    rw [touches.eventFreeList]
    exact sound.freeNodup
  · show ∃ t, (k'.view OS_TASK_IDLE_PRIO).Shows _ t
    rw [view_ne notIdle.symm]
    exact sound.idle

/-- The invariant is kept where one task goes from one phase to another. -/
theorem Sound.touch (sound : k.Sound) (touches : Touches p k k')
    (notIdle : p ≠ OS_TASK_IDLE_PRIO) (ok : (k'.view p).Ok)
    (alive : (k'.view p).tcb.isSome = (k.view p).tcb.isSome)
    (kind : ∀ j, (k'.view p).waits j → ∃ s, (k.event j).osEventType = some s ∧
      (k'.context p = .pendSched j s ∨ k'.context p = .pendTail j s))
    (waits : ∀ j, (k'.view p).waits j → (k.view p).waits j ∨ (k.event j).Exhausted) :
    k'.Sound := by
  refine sound.touch_of_list touches notIdle ok kind waits (fun q => ?_) ?_ ?_ k'.osTCBFreeList
  · rw [touches.tcbList, sound.listed]
    show (k.view q).tcb.isSome = true ↔ (k'.view q).tcb.isSome = true
    by_cases same : q = p
    · rw [same, alive]
    · rw [touches.view q same]
  · rw [touches.tcbList]
    exact sound.listNodup
  · rw [touches.tcbList]
    exact sound.idleLast

/-- A task that waits for no more than before keeps the invariant. -/
theorem Sound.shrink (sound : k.Sound) (touches : Touches p k k')
    (notIdle : p ≠ OS_TASK_IDLE_PRIO) (shows : (k'.view p).Shows a t)
    (alive : (k.view p).tcb.isSome)
    (context : k'.context p = k.context p)
    (waits : ∀ j, (k'.view p).waits j → (k.view p).waits j) : k'.Sound := by
  refine sound.touch touches notIdle shows.ok ?_ (fun j now => ?_) fun j now => Or.inl (waits j now)
  · rw [shows.tcb, alive]
    rfl
  · rw [context]
    exact sound.kinds p j (waits j now)

/-- The same tasks and events, whatever else changes. -/
structure SameTasks (k k' : Ucos Msg) : Prop where
  rdy : k'.rdy = k.rdy
  prioTbl : k'.osTCBPrioTbl = k.osTCBPrioTbl
  tcbList : k'.osTCBList = k.osTCBList
  event : k'.event = k.event
  eventFreeList : k'.osEventFreeList = k.osEventFreeList
  context : k'.context = k.context

theorem SameTasks.view (same : SameTasks k k') : k'.view = k.view := by
  funext q
  unfold Ucos.view
  rw [same.rdy, same.prioTbl, same.event, same.context]

theorem Sound.same (sound : k.Sound) (same : SameTasks k k') : k'.Sound where
  tasks := same.view ▸ sound.tasks
  kinds := by
    rw [same.view, same.event, same.context]
    exact sound.kinds
  events := same.event ▸ sound.events
  freeUnused := by
    rw [same.eventFreeList, same.event]
    exact sound.freeUnused
  freeNodup := same.eventFreeList ▸ sound.freeNodup
  listed := by
    rw [same.tcbList, same.prioTbl]
    exact sound.listed
  listNodup := same.tcbList ▸ sound.listNodup
  idleLast := same.tcbList ▸ sound.idleLast
  idle := same.view ▸ sound.idle
  idleRuns := same.context ▸ sound.idleRuns

/-- What an event gives changes, and who waits for it does not. -/
theorem Sound.event (sound : k.Sound) {x : OsEvent Msg} (waiting : x.waiting = (k.event e).waiting)
    (type : x.osEventType = (k.event e).osEventType) (ok : x.Ok) : (k.setEvent e x).Sound := by
  have view : (k.setEvent e x).view = k.view := view_setEvent k e waiting
  have types (j : EventId) : ((k.setEvent e x).event j).osEventType = (k.event j).osEventType := by
    by_cases same : j = e
    · subst same
      rw [event_setEvent_self, type]
    · rw [event_setEvent_of_ne _ _ same]
  refine ⟨fun q => ?_, fun q j now => ?_, fun j => ?_, fun j free => ?_, sound.freeNodup,
    sound.listed, sound.listNodup, sound.idleLast, ?_, sound.idleRuns⟩
  · rw [view]
    exact sound.tasks q
  · rw [view] at now
    rw [types]
    exact sound.kinds q j now
  · by_cases same : j = e
    · subst same
      rw [event_setEvent_self]
      exact ok
    · rw [event_setEvent_of_ne _ _ same]
      exact sound.events j
  · rw [types]
    exact sound.freeUnused j free
  · rw [view]
    exact sound.idle

end Ucos

end Stm32Robot.Kernel
