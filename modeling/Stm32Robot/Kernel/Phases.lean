/-
# Kernel.Phases -- what a service can do to a task

`Goes` is the table of it: a service leaves a task in its phase, or puts the task that calls it to
sleep or to wait, or ends a wait or a delay.  `Inv.follows` says that every service keeps to it.
-/
import Stm32Robot.Kernel.Runs

namespace Stm32Robot.Kernel

open Stm32Robot.Theory
open Stm32Robot.Theory.PartialRun

set_option autoImplicit false

variable {Msg : Type}

namespace Call

/-- The service gives `pmsg` to a task that waits for the event. -/
inductive Serves : Call Msg → EventId → Service → Option Msg → Prop where
  | post (e : EventId) (pmsg : Option Msg) : Serves (.osQPost e pmsg) e .q pmsg
  | postFront (e : EventId) (pmsg : Option Msg) : Serves (.osQPostFront e pmsg) e .q pmsg
  | qDel (e : EventId) (opt : DelOpt) : Serves (.osQDel e opt) e .q none
  | semPost (e : EventId) : Serves (.osSemPost e) e .sem none
  | semDel (e : EventId) (opt : DelOpt) : Serves (.osSemDel e opt) e .sem none

inductive Aborts : Call Msg → EventId → Service → Prop where
  | q (e : EventId) (opt : PendOpt) : Aborts (.osQPendAbort e opt) e .q
  | sem (e : EventId) (opt : PendOpt) : Aborts (.osSemPendAbort e opt) e .sem

inductive Pends : Call Msg → EventId → Service → Nat → Prop where
  | q (e : EventId) (timeout : Nat) : Pends (.osQPend e timeout) e .q timeout
  | sem (e : EventId) (timeout : Nat) : Pends (.osSemPend e timeout) e .sem timeout

end Call

/-- The phase of the task `q` before and after a service that somebody calls. -/
inductive Goes (who : Option Prio) (q : Prio) (c : Call Msg) : Phase Msg → Phase Msg → Prop where
  | stay (x : Phase Msg) : Goes who q c x x
  | sleep (n : Nat) (self : who = some q) (sleeps : c = .osTimeDly n) :
      Goes who q c (.active 0) (.active n)
  | wait {e : EventId} {s : Service} {n : Nat} (self : who = some q) (pends : c.Pends e s n) :
      Goes who q c (.active 0) (.pending e s n)
  | served {x : Phase Msg} {e : EventId} {s : Service} {pmsg : Option Msg}
      (serves : c.Serves e s pmsg) (waits : x.waitsFor = some e) (pend : x.pend = some (e, s)) :
      Goes who q c x (.served e s pmsg)
  | aborted {x : Phase Msg} {e : EventId} {s : Service} (aborts : c.Aborts e s)
      (waits : x.waitsFor = some e) (pend : x.pend = some (e, s)) :
      Goes who q c x (.aborted e s)
  | hurried (x : Phase Msg) (hurries : c = .osTimeDlyResume q) :
      Goes who q c x (Ucos.expirePhase x)

namespace Ucos

variable {k k' : Ucos Msg} {p q : Prio} {e : EventId} {s : Service} {a : Task Msg} {t : OsTcb Msg}
  {c : Call Msg}

/-- Every task goes where the service may put it, unless it is deleted, and one that comes is
outside of the kernel. -/
structure Follows (c : Call Msg) (k k' : Ucos Msg) : Prop where
  tasks : ∀ q a t, (k.view q).Shows a t →
    c = .osTaskDel q ∨ ∃ a' u, (k'.view q).Shows a' u ∧ Goes k.who q c a.phase a'.phase
  absent : ∀ q, k.osTCBPrioTbl q = none → k'.context q = .run ∨ k'.osTCBPrioTbl q = none

/-! ## Kinds of change -/

theorem Follows.of_view (same : k'.view = k.view) : Follows c k k' where
  tasks _ a t shows := Or.inr ⟨a, t, same ▸ shows, .stay _⟩
  absent q gone := Or.inr ((congrArg View.tcb (congrFun same q)).trans gone)

protected theorem Follows.refl (c : Call Msg) (k : Ucos Msg) : Follows c k k := .of_view rfl

theorem Follows.trans_view {k'' : Ucos Msg} (follows : Follows c k k') (same : k''.view = k'.view) :
    Follows c k k'' where
  tasks q a t shows := by
    rw [same]
    exact follows.tasks q a t shows
  absent q gone := (follows.absent q gone).imp (congrArg View.context (congrFun same q)).trans
    (congrArg View.tcb (congrFun same q)).trans

theorem Follows.touch (touches : Touches p k k')
    (there : (k.view p).tcb.isSome ∨ k'.context p = .run)
    (own : ∀ a t, (k.view p).Shows a t →
      c = .osTaskDel p ∨ ∃ a' u, (k'.view p).Shows a' u ∧ Goes k.who p c a.phase a'.phase) :
    Follows c k k' where
  tasks q a t shows := by
    by_cases same : q = p
    · subst same
      exact own a t shows
    · exact Or.inr ⟨a, t, touches.view q same ▸ shows, .stay _⟩
  absent q gone := by
    by_cases same : q = p
    · subst same
      have gone' : (k.view q).tcb = none := gone
      rw [gone'] at there
      exact Or.inl (there.resolve_left Bool.false_ne_true)
    · exact Or.inr ((congrArg View.tcb (touches.view q same)).trans gone)

theorem there (found : k.osTCBPrioTbl p = some t) : (k.view p).tcb.isSome :=
  Option.isSome_iff_exists.mpr ⟨t, found⟩

/-- The task that calls the service goes to its `OS_Sched` in the phase it is in. -/
theorem Follows.callOsSched (follows : Follows c k k') (may : k.MayCall)
    (same : SameCurrent k k') : Follows c k k'.callOsSched := by
  unfold Ucos.callOsSched
  split
  next level =>
    rw [same.intNesting] at level
    have runs : k'.context k'.osPrioCur = .run := by
      rw [same.prioCur, same.context]
      exact (may level).2.1
    refine ⟨fun q a t shows => ?_, fun q gone => ?_⟩
    rotate_left
    · have other : q ≠ k'.osPrioCur := by
        rintro rfl
        have alive := (may level).2.2
        rw [← same.prioCur, gone] at alive
        cases alive
      exact (follows.absent q gone).imp_left (Function.update_of_ne other _ _).trans
    rcases follows.tasks q a t shows with gone | ⟨a', u, shows', goes⟩
    · exact Or.inl gone
    · refine Or.inr ⟨a', u, ?_, goes⟩
      by_cases cur : q = k'.osPrioCur
      · subst cur
        exact shows_setSched shows' runs
      · exact (Touches.setContext _ _ k').view q cur ▸ shows'
  next => exact follows

/-- The tasks are woken from a wait for `e` or stay as they are. -/
structure Woken (e : EventId) (s : Service) (pmsg : Option Msg) (ps : StatPend)
    (k k' : Ucos Msg) : Prop where
  tasks : ∀ q a t, (k.view q).Shows a t → ∃ a' u, (k'.view q).Shows a' u ∧
    (a'.phase = a.phase ∨ a.phase.waitsFor = some e ∧ a.phase.pend = some (e, s) ∧
      a'.phase = wokenPhase e s pmsg ps)
  absent : ∀ q, k.osTCBPrioTbl q = none → k'.osTCBPrioTbl q = none

theorem Wakes.woken {pmsg : Option Msg} {ps : StatPend} (wakes : Wakes e s pmsg ps p k k') :
    Woken e s pmsg ps k k' := by
  obtain ⟨b, t', u, before, phase, after⟩ := wakes.before
  constructor
  · intro q a t shows
    by_cases same : q = p
    · subst same
      have pend : b.phase.pend = some (e, s) := by
        rcases phase with ⟨d, h⟩ | h <;> rw [h] <;> rfl
      have stands : (k.view q).context = .pendSched e s ∨ (k.view q).context = .pendTail e s := by
        have stands := before.stands
        unfold Phase.Stands at stands
        rw [pend] at stands
        exact stands
      exact ⟨_, u, after, Or.inr ⟨(shows.waits e).mp wakes.waited,
        Phase.pend_eq_of_stands shows.stands stands, rfl⟩⟩
    · exact ⟨a, t, wakes.touches.view q same ▸ shows, Or.inl rfl⟩
  · intro q gone
    have ne : q ≠ p := by
      rintro rfl
      have gone' : (k.view q).tcb = none := gone
      rw [before.tcb] at gone'
      cases gone'
    exact (congrArg View.tcb (wakes.touches.view q ne)).trans gone

theorem WakesAll.woken {pmsg : Option Msg} {ps : StatPend} (all : WakesAll e s pmsg ps k k') :
    Woken e s pmsg ps k k' := by
  induction all with
  | done => exact ⟨fun q a t shows => ⟨a, t, shows, Or.inl rfl⟩, fun _ gone => gone⟩
  | more first rest ih =>
      refine ⟨fun q a t shows => ?_, fun q gone => ih.absent q (first.woken.absent q gone)⟩
      obtain ⟨a₁, t₁, shows₁, phase₁⟩ := first.woken.tasks q a t shows
      obtain ⟨a₂, t₂, shows₂, phase₂⟩ := ih.tasks q a₁ t₁ shows₁
      refine ⟨a₂, t₂, shows₂, ?_⟩
      rcases phase₁ with same | ⟨waits, pend, woken⟩
      · rw [same] at phase₂
        exact phase₂
      · refine Or.inr ⟨waits, pend, ?_⟩
        rcases phase₂ with same | ⟨-, -, again⟩
        · exact same.trans woken
        · exact again

theorem Woken.follows {pmsg : Option Msg} {ps : StatPend} (woken : Woken e s pmsg ps k k')
    (goes : ∀ q (x : Phase Msg), x.waitsFor = some e → x.pend = some (e, s) →
      Goes k.who q c x (wokenPhase e s pmsg ps)) : Follows c k k' where
  tasks q a t shows := by
    obtain ⟨a', u, shows', phase⟩ := woken.tasks q a t shows
    refine Or.inr ⟨a', u, shows', ?_⟩
    rcases phase with same | ⟨waits, pend, woken⟩
    · exact same ▸ .stay _
    · exact woken ▸ goes q a.phase waits pend
  absent q gone := Or.inr (woken.absent q gone)

/-! ## Queues and semaphores -/

theorem Follows.setEvent {x : OsEvent Msg} (waiting : x.waiting = (k.event e).waiting) :
    Follows c k (k.setEvent e x) := .of_view (view_setEvent k e waiting)

/-- A task that runs outside of the kernel is in no other phase. -/
theorem active_of_runs (shows : (k.view p).Shows ⟨false, .active 0⟩ t) {u : OsTcb Msg}
    (shows' : (k.view p).Shows a u) (runs : k.context p = .run) : a.phase = .active 0 := by
  have ready : (k.view p).ready := shows.ready.mpr ⟨rfl, rfl⟩
  have runnable := (shows'.ready.mp ready).2
  have outside := pend_eq_none shows' runs
  cases phase : a.phase with
  | active d =>
      rw [phase] at runnable
      exact congrArg Phase.active runnable
  | pending | due | served | aborted =>
      rw [phase] at outside
      cases outside

theorem Inv.follows_pendWait (inv : k.Inv) (may : k.MayCall) (level : ¬ k.osIntNesting > 0)
    (unlocked : ¬ k.osLockNesting > 0) (type : (k.event e).osEventType = some s)
    (exhausted : (k.event e).Exhausted) {timeout : Nat} (pends : c.Pends e s timeout) :
    Follows c k (k.pendWait e s timeout) := by
  have level' : k.osIntNesting = 0 := by omega
  obtain ⟨notIdle, runs, -⟩ := may level'
  obtain ⟨t, shows⟩ := inv.caller level' (by omega) runs
  obtain ⟨-, touches, ⟨u, after⟩, -⟩ := inv.sound.pendWait shows notIdle type exhausted timeout
  refine .touch touches (Or.inl (there shows.tcb)) fun a t' shows' => Or.inr ⟨_, u, after, ?_⟩
  rw [active_of_runs shows shows' runs]
  exact .wait (if_pos level') pends

/-- One task is woken by a service that gives or aborts. -/
theorem Inv.follows_wake (inv : k.Inv) (may : k.MayCall) (type : (k.event e).osEventType = some s)
    (some : (k.event e).waiting.grp ≠ 0) {pmsg : Option Msg} {ps : StatPend}
    (wakes : ps ≠ .timeout)
    (goes : ∀ q (x : Phase Msg), x.waitsFor = .some e → x.pend = .some (e, s) →
      Goes k.who q c x (wokenPhase e s pmsg ps)) :
    Follows c k (k.osEventTaskRdy e pmsg s.stat ps).callOsSched := by
  obtain ⟨p, wake⟩ := @Sound.osEventTaskRdy _ k e s pmsg inv.sound type some ps wakes
  exact (wake.woken.follows goes).callOsSched may wake.same

theorem follows_osQAccept (e : EventId) (k : Ucos Msg) :
    Follows (.osQAccept e) k (k.osQAccept e).1 := by
  unfold Ucos.osQAccept
  split
  · exact .refl _ k
  · split
    · exact .setEvent rfl
    · exact .refl _ k

theorem Inv.follows_osQPend (inv : k.Inv) (may : k.MayCall) (e : EventId) (timeout : Nat) :
    Follows (.osQPend e timeout) k (k.osQPend e timeout).1 := by
  unfold Ucos.osQPend
  split
  · exact .refl _ k
  next type =>
    have type := some_of_not_ne type
    split
    · exact .refl _ k
    next level =>
      split
      · exact .refl _ k
      next unlocked =>
        split
        · exact .setEvent rfl
        next empty =>
          refine inv.follows_pendWait may level unlocked type ⟨fun _ => ?_, fun other => ?_⟩
            (.q e timeout)
          · exact OsQ.take_eq_none_iff.mp empty
          · rw [type] at other
            cases other

theorem Inv.follows_osSemPend (inv : k.Inv) (may : k.MayCall) (e : EventId) (timeout : Nat) :
    Follows (.osSemPend e timeout) k (k.osSemPend e timeout).1 := by
  unfold Ucos.osSemPend
  split
  · exact .refl _ k
  next type =>
    have type := some_of_not_ne type
    split
    · exact .refl _ k
    next level =>
      split
      · exact .refl _ k
      next unlocked =>
        split
        · exact .setEvent rfl
        next zero =>
          refine inv.follows_pendWait may level unlocked type ⟨fun other => ?_, fun _ => by omega⟩
            (.sem e timeout)
          rw [type] at other
          cases other

theorem Inv.follows_pendAbort (inv : k.Inv) (may : k.MayCall) (aborts : c.Aborts e s)
    (opt : PendOpt) : Follows c k (k.pendAbort e s opt).1 := by
  unfold Ucos.pendAbort
  split
  · exact .refl _ k
  next type =>
    have type := some_of_not_ne type
    split
    next some =>
      cases opt with
      | none =>
          exact inv.follows_wake may type some (by decide : StatPend.abort ≠ .timeout)
            fun q x waits pend => .aborted aborts waits pend
      | broadcast =>
          have all := inv.wakeAll type none (by decide : StatPend.abort ≠ .timeout)
          exact (all.woken.follows fun q x waits pend =>
            .aborted aborts waits pend).callOsSched may all.same
    · exact .refl _ k

theorem Inv.follows_qPost (inv : k.Inv) (may : k.MayCall) {pmsg : Option Msg}
    (serves : c.Serves e .q pmsg) (insert : OsQ Msg → Option (OsQ Msg)) :
    Follows c k (k.qPost insert e pmsg).1 := by
  unfold Ucos.qPost
  split
  · exact .refl _ k
  next type =>
    have type := some_of_not_ne type
    split
    next some =>
      exact inv.follows_wake may type some (by decide : StatPend.ok ≠ .timeout)
        fun q x waits pend => .served serves waits pend
    next =>
      split
      · exact .setEvent rfl
      · exact .refl _ k

theorem Inv.follows_osSemPost (inv : k.Inv) (may : k.MayCall) (e : EventId) :
    Follows (.osSemPost e) k (k.osSemPost e).1 := by
  unfold Ucos.osSemPost
  split
  · exact .refl _ k
  next type =>
    have type := some_of_not_ne type
    split
    next some =>
      exact inv.follows_wake may type some (by decide : StatPend.ok ≠ .timeout)
        fun q x waits pend => .served (.semPost e) waits pend
    next =>
      split
      · exact .setEvent rfl
      · exact .refl _ k

theorem follows_osSemAccept (e : EventId) (k : Ucos Msg) :
    Follows (.osSemAccept e) k (k.osSemAccept e).1 := by
  unfold Ucos.osSemAccept
  split
  · exact .refl _ k
  · dsimp only
    split
    · exact .setEvent rfl
    · exact .refl _ k

theorem follows_osSemSet (e : EventId) (cnt : BitVec 16) (k : Ucos Msg) :
    Follows (.osSemSet e cnt) k (k.osSemSet e cnt).1 := by
  unfold Ucos.osSemSet
  split
  · exact .refl _ k
  · split
    · exact .setEvent rfl
    · split
      · exact .setEvent rfl
      · exact .refl _ k

/-! ## Creating and deleting events -/

/-- A free event is nobody's, so taking it changes no task. -/
theorem Inv.follows_create (inv : k.Inv) {free : List EventId}
    (first : k.osEventFreeList = e :: free) {x : OsEvent Msg} (waiting : x.waiting.grp = 0)
    (queues : Nat) :
    Follows c k { k.setEvent e x with osEventFreeList := free, osQFreeList := queues } := by
  have before : (k.event e).waiting.grp = 0 :=
    inv.sound.waiting_eq_zero (inv.sound.freeUnused e (first ▸ List.mem_cons_self))
  refine .of_view ?_
  show (k.setEvent e x).view = k.view
  funext q
  unfold Ucos.view
  congr 1
  funext j
  by_cases same : j = e
  · subst same
    rw [event_setEvent_self]
    exact propext (iff_of_false (PrioSet.grp_eq_zero_iff.mp waiting q)
      (PrioSet.grp_eq_zero_iff.mp before q))
  · rw [event_setEvent_of_ne _ _ same]

theorem Inv.follows_osQCreate (inv : k.Inv) (start : Int → Option Msg) (size : Nat) :
    Follows (.osQCreate start size) k (k.osQCreate start size).1 := by
  unfold Ucos.osQCreate
  split
  · exact .refl _ k
  · split
    · exact .refl _ k
    next first =>
      split
      · exact inv.follows_create first waiting_empty _
      · exact .refl _ k

theorem Inv.follows_osSemCreate (inv : k.Inv) (cnt : BitVec 16) :
    Follows (.osSemCreate cnt) k (k.osSemCreate cnt).1 := by
  unfold Ucos.osSemCreate
  split
  · exact .refl _ k
  · split
    · exact .refl _ k
    next first => exact inv.follows_create first waiting_empty k.osQFreeList

theorem view_freeEvent (e : EventId) (k : Ucos Msg) : (k.freeEvent e).view = k.view :=
  view_setEvent k e rfl

theorem Inv.follows_eventDel (inv : k.Inv) (may : k.MayCall) {release : Ucos Msg → Ucos Msg}
    (released : ∀ k : Ucos Msg, ∃ n, release k = { k with osQFreeList := n })
    (serves : c.Serves e s none) (opt : DelOpt) : Follows c k (k.eventDel s release e opt).1 := by
  have gone (k₁ : Ucos Msg) : ((release k₁).freeEvent e).view = k₁.view ∧
      SameCurrent k₁ ((release k₁).freeEvent e) := by
    obtain ⟨n, equation⟩ := released k₁
    rw [equation]
    exact ⟨view_freeEvent e _, ⟨rfl, rfl, rfl, rfl, rfl⟩⟩
  unfold Ucos.eventDel
  split
  · exact .refl _ k
  next type =>
    have type := some_of_not_ne type
    split
    · exact .refl _ k
    next =>
      cases opt with
      | other => exact .refl _ k
      | noPend =>
          dsimp only
          split
          · exact .refl _ k
          · exact .of_view (gone k).1
      | always =>
          have all := inv.wakeAll type none (by decide : StatPend.ok ≠ .timeout)
          obtain ⟨view, same⟩ := gone (k.osEventAllRdy e none s.stat .ok 64).2
          have follows : Follows c k
              ((release (k.osEventAllRdy e none s.stat .ok 64).2).freeEvent e) :=
            (all.woken.follows fun q x waits pend =>
              .served serves waits pend).trans_view view
          dsimp only
          split
          · exact follows.callOsSched may (all.same.trans same)
          · exact follows

/-! ## Time and tasks -/

theorem Inv.follows_osTimeDly (inv : k.Inv) (may : k.MayCall) (ticks : Nat) :
    Follows (.osTimeDly ticks) k (k.osTimeDly ticks) := by
  unfold Ucos.osTimeDly
  split
  · exact .refl _ k
  next level =>
    split
    · exact .refl _ k
    next unlocked =>
      split
      next sleeps =>
        have level' : k.osIntNesting = 0 := by omega
        obtain ⟨notIdle, runs, -⟩ := may level'
        obtain ⟨t, shows⟩ := inv.caller level' (by omega) runs
        have found : (k.makeUnready k.osPrioCur).osTCBPrioTbl
            (k.makeUnready k.osPrioCur).osPrioCur = some t := shows.tcb
        obtain ⟨-, touches, ⟨u, after⟩, context⟩ := inv.sound.sleep shows notIdle sleeps rfl
        dsimp only
        rw [found]
        refine Follows.callOsSched ?_ may (.of_touches touches context)
        refine .touch touches (Or.inl (there shows.tcb)) fun a t' shows' => Or.inr ⟨_, u, after, ?_⟩
        have still : a.phase = .active 0 := active_of_runs shows shows' runs
        rw [still]
        exact .sleep ticks (if_pos level') rfl
      · exact .refl _ k

theorem follows_osTimeDlyResume (may : k.MayCall) (p : Prio) :
    Follows (.osTimeDlyResume p) k (k.osTimeDlyResume p).1 := by
  rw [osTimeDlyResume_eq]
  split
  · exact .refl _ k
  next below =>
    split
    · exact .refl _ k
    next t found =>
      split
      · exact .refl _ k
      next dly =>
        have same : SameCurrent k (k.setAndReady p (expired t)) := by
          refine .of_touches (touches_setAndReady p _ k) ?_
          unfold setAndReady
          split <;> rfl
        have follows : Follows (.osTimeDlyResume p) k (k.setAndReady p (expired t)) := by
          refine .touch (touches_setAndReady p _ k) (Or.inl (there found)) fun a t' shows => ?_
          obtain rfl : t' = t := Option.some.inj (shows.tcb.symm.trans found)
          have after := (shows_expired shows (shows.dly ▸ dly)).1
          exact Or.inr ⟨_, _, after, .hurried a.phase rfl⟩
        dsimp only
        split
        · exact follows.callOsSched may same
        · exact follows

theorem follows_osTaskCreate (may : k.MayCall) (p : Prio) :
    Follows (.osTaskCreate p) k (k.osTaskCreate p).1 := by
  unfold Ucos.osTaskCreate
  split
  · exact .refl _ k
  next level =>
    split
    · exact .refl _ k
    next absent =>
      split
      next =>
        have level' : k.osIntNesting = 0 := by omega
        have ne : k.osPrioCur ≠ p := by
          rintro rfl
          have alive := (may level').2.2
          rw [absent] at alive
          cases alive
        have same : SameCurrent k (k.created p) :=
          ⟨rfl, rfl, rfl, rfl, Function.update_of_ne ne _ _⟩
        have follows : Follows (.osTaskCreate p) k (k.created p) := by
          refine Follows.trans_view (.touch (touches_createdTask p k)
            (Or.inr (Function.update_self _ _ _)) fun a t shows => ?_) rfl
          have found : k.osTCBPrioTbl p = some t := shows.tcb
          rw [absent] at found
          cases found
        dsimp only
        split
        · exact follows.callOsSched may same
        · exact follows
      · exact .refl _ k

theorem follows_osTaskDel (may : k.MayCall) (p : Prio) :
    Follows (.osTaskDel p) k (k.osTaskDel p).1 := by
  unfold Ucos.osTaskDel
  split
  · exact .refl _ k
  · split
    · exact .refl _ k
    next =>
      split
      · exact .refl _ k
      next t found =>
        have touches := touches_deletedTask p t.osTCBEventPtr k
        have same : SameCurrent k (k.deleted p t.osTCBEventPtr) :=
          ⟨touches.prioCur, touches.intNesting, touches.lockNesting, touches.running,
            congrFun (context_deletedTask p t.osTCBEventPtr k) _⟩
        have follows : Follows (.osTaskDel p) k (k.deleted p t.osTCBEventPtr) :=
          Follows.trans_view (.touch touches (Or.inl (there found)) fun _ _ _ => Or.inl rfl) rfl
        have called : Follows (.osTaskDel p) k (if (k.deleted p t.osTCBEventPtr).osRunning then
            (k.deleted p t.osTCBEventPtr).callOsSched else k.deleted p t.osTCBEventPtr) := by
          split
          · exact follows.callOsSched may same
          · exact follows
        revert called
        cases t.osTCBEventPtr <;> exact id

theorem Inv.follows_osTaskResume (inv : k.Inv) (may : k.MayCall) (p : Prio) :
    Follows (.osTaskResume p) k (k.osTaskResume p).1 := by
  unfold Ucos.osTaskResume
  split
  · exact .refl _ k
  next t found =>
    split
    next suspends =>
      obtain ⟨a, shows⟩ := (inv.sound.tasks p).shows found
      obtain ⟨suspended, notIdle⟩ := inv.sound.suspended shows suspends
      obtain ⟨-, touches, -, context⟩ := inv.sound.resume shows notIdle rfl suspended rfl
      have same := SameCurrent.of_touches touches context
      let u : OsTcb Msg := { t with osTCBStat := t.osTCBStat &&& ~~~OS_STAT_SUSPEND }
      have follows : Follows (.osTaskResume p) k
          (if u.osTCBStat = OS_STAT_RDY ∧ u.osTCBDly = 0 then
            (k.setTcb p (some u)).makeReady p else k.setTcb p (some u)) := by
        refine .touch touches (Or.inl (there found)) fun b t' shows₁ => Or.inr ?_
        obtain rfl : t' = t := Option.some.inj (shows₁.tcb.symm.trans found)
        have flag := (inv.sound.suspended shows₁ suspends).1
        obtain ⟨-, -, after, -⟩ := inv.sound.resume shows₁ notIdle rfl flag rfl
        exact ⟨_, _, after, .stay b.phase⟩
      dsimp only [u] at same follows ⊢
      split
      next rdy =>
        split
        next zero =>
          rw [if_pos ⟨rdy, zero⟩] at same follows
          split
          · exact follows.callOsSched may same
          · exact follows
        next dly =>
          rw [if_neg fun h => dly h.2] at follows
          exact follows
      next pends =>
        rw [if_neg fun h => pends h.1] at follows
        exact follows
    · exact .refl _ k

theorem Inv.follows_osTaskSuspend (inv : k.Inv) (may : k.MayCall)
    (notIdle : p ≠ OS_TASK_IDLE_PRIO) :
    Follows (.osTaskSuspend p) k (k.osTaskSuspend p).1 := by
  unfold Ucos.osTaskSuspend
  split
  · exact .refl _ k
  next t found =>
    obtain ⟨a, shows⟩ := (inv.sound.tasks p).shows found
    obtain ⟨-, touches, -, context⟩ := inv.sound.suspend shows notIdle rfl
    have same := SameCurrent.of_touches touches context
    have follows : Follows (.osTaskSuspend p) k ((k.makeUnready p).setTcb p
        (some { t with osTCBStat := t.osTCBStat ||| OS_STAT_SUSPEND })) := by
      refine .touch touches (Or.inl (there found)) fun b t' shows₁ => Or.inr ?_
      obtain rfl : t' = t := Option.some.inj (shows₁.tcb.symm.trans found)
      obtain ⟨-, -, ⟨u, after⟩, -⟩ := inv.sound.suspend shows₁ notIdle rfl
      exact ⟨_, u, after, .stay b.phase⟩
    dsimp only
    split
    · exact follows.callOsSched may same
    · exact follows

theorem Inv.follows_osSchedUnlock (inv : k.Inv) (may : k.MayCall) :
    Follows .osSchedUnlock k k.osSchedUnlock := by
  unfold Ucos.osSchedUnlock
  rw [if_pos inv.running]
  split
  next locked =>
    dsimp only
    split
    next =>
      have called := (Follows.refl .osSchedUnlock k).callOsSched may ⟨rfl, rfl, rfl, rfl, rfl⟩
      refine called.trans_view ?_
      unfold Ucos.callOsSched
      dsimp only
      split <;> rfl
    next => exact .of_view rfl
  · exact .refl _ k

theorem follows_osSchedLock (k : Ucos Msg) : Follows .osSchedLock k k.osSchedLock := by
  unfold Ucos.osSchedLock
  repeat' split
  all_goals exact .of_view rfl

/-- Every service keeps to the table. -/
theorem Inv.follows (inv : k.Inv) (may : k.MayCall) (admits : k.Admits c) :
    Follows c k (k.perform c).1 := by
  cases c with
  | osQAccept e => exact follows_osQAccept e k
  | osQCreate start size => exact inv.follows_osQCreate start size
  | osQDel e opt => exact inv.follows_eventDel may (fun _ => ⟨_, rfl⟩) (.qDel e opt) opt
  | osQFlush e => exact .setEvent rfl
  | osQPend e timeout => exact inv.follows_osQPend may e timeout
  | osQPendAbort e opt => exact inv.follows_pendAbort may (.q e opt) opt
  | osQPost e pmsg => exact inv.follows_qPost may (.post e pmsg) _
  | osQPostFront e pmsg => exact inv.follows_qPost may (.postFront e pmsg) _
  | osSemAccept e => exact follows_osSemAccept e k
  | osSemCreate cnt => exact inv.follows_osSemCreate cnt
  | osSemDel e opt =>
      exact inv.follows_eventDel may (fun k => ⟨k.osQFreeList, rfl⟩) (.semDel e opt) opt
  | osSemPend e timeout => exact inv.follows_osSemPend may e timeout
  | osSemPendAbort e opt => exact inv.follows_pendAbort may (.sem e opt) opt
  | osSemPost e => exact inv.follows_osSemPost may e
  | osSemSet e cnt => exact follows_osSemSet e cnt k
  | osTimeDly ticks => exact inv.follows_osTimeDly may ticks
  | osTimeDlyResume p => exact follows_osTimeDlyResume may p
  | osTaskCreate p => exact follows_osTaskCreate may p
  | osTaskDel p => exact follows_osTaskDel may p
  | osTaskResume p => exact inv.follows_osTaskResume may p
  | osTaskSuspend p => exact inv.follows_osTaskSuspend may admits
  | osSchedLock => exact follows_osSchedLock k
  | osSchedUnlock => exact inv.follows_osSchedUnlock may

/-! ## Every step -/

/-- The phase of a task before and after a step that somebody takes. -/
inductive Turns (who : Option Prio) (q : Prio) : Action Msg → Phase Msg → Phase Msg → Prop where
  | call {c : Call Msg} {x y : Phase Msg} (goes : Goes who q c x y) : Turns who q (.call c) x y
  | stay {act : Action Msg} (x : Phase Msg) (noTick : act ≠ .osTimeTick) : Turns who q act x x
  | tail {x : Phase Msg} (self : who = some q) (pend : x.pend ≠ none) :
      Turns who q .pendTail x (.active 0)
  | tick (x : Phase Msg) : Turns who q .osTimeTick x (tickPhase x)

/-- Every task turns as the step may turn it, unless it is deleted, and one that comes is outside
of the kernel. -/
structure TurnsAll (act : Action Msg) (k k' : Ucos Msg) : Prop where
  tasks : ∀ q a t, (k.view q).Shows a t →
    act = .call (.osTaskDel q) ∨ ∃ a' u, (k'.view q).Shows a' u ∧ Turns k.who q act a.phase a'.phase
  absent : ∀ q, k.osTCBPrioTbl q = none → k'.context q = .run ∨ k'.osTCBPrioTbl q = none

theorem TurnsAll.of_view {act : Action Msg} (noTick : act ≠ .osTimeTick)
    (same : k'.view = k.view) : TurnsAll act k k' where
  tasks _ a t shows := Or.inr ⟨a, t, same ▸ shows, .stay _ noTick⟩
  absent q gone := Or.inr ((congrArg View.tcb (congrFun same q)).trans gone)

theorem turns_osSched (before : AtSched (k.context k.osPrioCur)) :
    TurnsAll .osSched k k.osSched := by
  have after : k.osSched.view =
      (k.setContext k.osPrioCur (Context.afterSched (k.context k.osPrioCur))).view := by
    unfold Ucos.osSched
    dsimp only
    split
    · split <;> rfl
    · rfl
  have touches := Touches.setContext k.osPrioCur (Context.afterSched (k.context k.osPrioCur)) k
  constructor
  · intro q a t shows
    refine Or.inr ⟨a, t, ?_, .stay _ nofun⟩
    rw [after]
    by_cases cur : q = k.osPrioCur
    · subst cur
      rw [view_setContext_self]
      exact ⟨shows.tcb, shows.stat, shows.dly, shows.eventPtr, shows.result, shows.ready,
        shows.waits, stands_afterSched shows.stands before⟩
    · exact touches.view q cur ▸ shows
  · intro q gone
    refine Or.inr ?_
    show (k.osSched.view q).tcb = none
    rw [after]
    exact gone

theorem Inv.turns_osPendTail (inv : k.Inv) (level : k.osIntNesting = 0)
    (context : k.context k.osPrioCur = .pendTail e s) :
    TurnsAll .pendTail k (k.osPendTail e s).1 := by
  obtain ⟨notIdle, ready, a, t, shows, pend⟩ := inv.pendEnds level context
  obtain ⟨-, touches, ⟨u, after⟩, -⟩ := inv.sound.osPendTail shows ready notIdle pend
  constructor
  · intro q b t' shows'
    by_cases cur : q = k.osPrioCur
    · subst cur
      refine Or.inr ⟨_, u, after, .tail (if_pos level) ?_⟩
      rw [Phase.pend_eq_of_stands shows'.stands (Or.inr context)]
      exact Option.some_ne_none _
    · exact Or.inr ⟨b, t', touches.view q cur ▸ shows', .stay _ nofun⟩
  · intro q gone
    have ne : q ≠ k.osPrioCur := by
      rintro rfl
      have gone' : (k.view k.osPrioCur).tcb = none := gone
      rw [shows.tcb] at gone'
      cases gone'
    exact Or.inr ((congrArg View.tcb (touches.view q ne)).trans gone)

/-- Every step keeps to the table. -/
theorem Inv.turns (inv : k.Inv) {act : Action Msg} {r : Reply Msg}
    (stepped : k.step act = some (k', r)) : TurnsAll act k k' := by
  cases act with
  | call c =>
      obtain ⟨⟨may, admits⟩, performed⟩ := Option.ite_none_right_eq_some.mp stepped
      obtain rfl : (k.perform c).1 = k' := congrArg Prod.fst (Option.some.inj performed)
      have follows := inv.follows may admits
      constructor
      · intro q a t shows
        rcases follows.tasks q a t shows with gone | ⟨a', u, shows', goes⟩
        · exact Or.inl (congrArg Action.call gone)
        · exact Or.inr ⟨a', u, shows', .call goes⟩
      · exact follows.absent
  | osSched =>
      obtain ⟨⟨level, before⟩, performed⟩ := Option.ite_none_right_eq_some.mp stepped
      cases performed
      exact turns_osSched before
  | pendTail =>
      obtain ⟨level, performed⟩ := Option.ite_none_right_eq_some.mp stepped
      split at performed
      next context =>
        obtain rfl : (k.osPendTail _ _).1 = k' := congrArg Prod.fst (Option.some.inj performed)
        exact inv.turns_osPendTail level context
      next => cases performed
  | osIntEnter =>
      cases stepped
      refine .of_view nofun ?_
      unfold Ucos.osIntEnter
      repeat' split
      all_goals rfl
  | osTimeTick =>
      obtain ⟨level, performed⟩ := Option.ite_none_right_eq_some.mp stepped
      cases performed
      obtain ⟨-, -, alive, each⟩ := inv.sound.osTimeTick inv.running
      constructor
      · intro q a t shows
        obtain ⟨⟨u, after⟩, -⟩ := each q a t shows
        exact Or.inr ⟨_, u, after, .tick a.phase⟩
      · intro q gone
        have same := alive q
        rw [show (k.view q).tcb = none from gone] at same
        exact Or.inr (Option.isSome_eq_false_iff.mp same |> Option.isNone_iff_eq_none.mp)
  | osIntExit =>
      obtain ⟨level, performed⟩ := Option.ite_none_right_eq_some.mp stepped
      cases performed
      refine .of_view nofun ?_
      unfold Ucos.osIntExit
      dsimp only
      repeat' split
      all_goals rfl

end Ucos

end Stm32Robot.Kernel
