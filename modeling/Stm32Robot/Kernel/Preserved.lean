/-
# Kernel.Preserved -- every action keeps the invariant of the kernel

One lemma for each service, over the changes of `Kernel.Transitions`, `Kernel.TaskCalls` and
`Kernel.Objects`, then one for each action (`Inv.step`).
-/
import Stm32Robot.Kernel.System

namespace Stm32Robot.Kernel

open Stm32Robot.Theory
open Stm32Robot.Theory.PartialRun

set_option autoImplicit false

variable {Msg : Type}

namespace Ucos

variable {k k' : Ucos Msg} {p : Prio} {e : EventId} {s : Service} {a : Task Msg} {t : OsTcb Msg}

/-! ## Kinds of change -/

/-- A service that ends in `OS_Sched`. -/
theorem Inv.call (inv : k.Inv) (may : k.MayCall) (sound : k'.Sound) (same : SameCurrent k k') :
    k'.callOsSched.Inv where
  sound := sound.callOsSched fun level => by
    rw [same.intNesting] at level
    obtain ⟨notIdle, runs, -⟩ := may level
    rw [same.prioCur, same.context]
    exact ⟨notIdle, runs⟩
  scheduled := inv.scheduled.callOsSched same
  running := by
    unfold Ucos.callOsSched
    split <;> exact same.running.trans inv.running

theorem Inv.call_if_running (inv : k.Inv) (may : k.MayCall) (sound : k'.Sound)
    (same : SameCurrent k k') : (if k'.osRunning then k'.callOsSched else k').Inv := by
  rw [if_pos (same.running.trans inv.running)]
  exact inv.call may sound same

/-- A service that changes what an event has to give. -/
theorem Inv.event (inv : k.Inv) {x : OsEvent Msg} (waiting : x.waiting = (k.event e).waiting)
    (type : x.osEventType = (k.event e).osEventType) (ok : x.Ok) : (k.setEvent e x).Inv where
  sound := inv.sound.event waiting type ok
  scheduled := inv.scheduled.keep ⟨rfl, rfl, rfl, rfl, rfl⟩ id
  running := inv.running

/-- A service that changes the events, and the ready list and the tasks' places not. -/
theorem Inv.events (inv : k.Inv) (sound : k'.Sound) (same : SameCurrent k k')
    (rdy : k'.rdy = k.rdy) : k'.Inv where
  sound := sound
  scheduled := inv.scheduled.keep same fun highest => by
    rw [highest, osSchedNew, osSchedNew, rdy]
  running := same.running.trans inv.running

theorem Wakes.same {pmsg : Option Msg} {ps : StatPend} (wakes : Wakes e s pmsg ps p k k') :
    SameCurrent k k' := .of_touches wakes.touches wakes.context

theorem SameCurrent.trans {k'' : Ucos Msg} (first : SameCurrent k k')
    (second : SameCurrent k' k'') : SameCurrent k k'' where
  prioCur := second.prioCur.trans first.prioCur
  intNesting := second.intNesting.trans first.intNesting
  lockNesting := second.lockNesting.trans first.lockNesting
  running := second.running.trans first.running
  context := by
    have := second.context
    rw [first.prioCur] at this
    exact this.trans first.context

theorem WakesAll.same {pmsg : Option Msg} {ps : StatPend} (all : WakesAll e s pmsg ps k k') :
    SameCurrent k k' := by
  induction all with
  | done => exact ⟨rfl, rfl, rfl, rfl, rfl⟩
  | more first rest ih => exact first.same.trans ih

/-- The types of the events are not changed by wake-ups. -/
theorem WakesAll.eventType {pmsg : Option Msg} {ps : StatPend} (all : WakesAll e s pmsg ps k k')
    (j : EventId) : (k'.event j).osEventType = (k.event j).osEventType := by
  induction all with
  | done => rfl
  | more first rest ih => exact ih.trans (first.touches.eventType j)

/-! ## Queues and semaphores -/

theorem some_of_not_ne {o : Option Service} (same : ¬ o ≠ some s) : o = some s := not_not.mp same

theorem Inv.take (inv : k.Inv) (type : (k.event e).osEventType = some .q) {pmsg : Option Msg}
    {pq : OsQ Msg} (taken : (k.event e).osEventPtr.take = some (pmsg, pq)) :
    (k.setEvent e { k.event e with osEventPtr := pq }).Inv := by
  have before := inv.sound.events e
  obtain ⟨wf, contents, -⟩ := (before.wellFormed type).take taken
  refine inv.event rfl rfl ⟨fun _ => wf, fun _ _ => ?_, before.cnt_le, before.sem⟩
  exact before.queue type (by rw [contents]; exact List.cons_ne_nil _ _)

theorem Inv.osQAccept (inv : k.Inv) (e : EventId) : (k.osQAccept e).1.Inv := by
  unfold Ucos.osQAccept
  split
  · exact inv
  next type =>
    split
    next taken => exact inv.take (some_of_not_ne type) taken
    · exact inv

theorem Inv.osQFlush (inv : k.Inv) (type : (k.event e).osEventType = some .q) :
    (k.osQFlush e).1.Inv := by
  have before := inv.sound.events e
  exact inv.event rfl rfl ⟨fun _ => (before.wellFormed type).flush,
    fun _ some => absurd (OsQ.contents_flush _) some, before.cnt_le, before.sem⟩

/-- A pend that has to wait. -/
theorem Inv.pendWait (inv : k.Inv) (may : k.MayCall) (level : ¬ k.osIntNesting > 0)
    (unlocked : ¬ k.osLockNesting > 0) (type : (k.event e).osEventType = some s)
    (exhausted : (k.event e).Exhausted) (timeout : Nat) : (k.pendWait e s timeout).Inv := by
  have level' : k.osIntNesting = 0 := by omega
  have unlocked' : k.osLockNesting = 0 := by omega
  obtain ⟨notIdle, runs, -⟩ := may level'
  obtain ⟨t, shows⟩ := inv.caller level' unlocked' runs
  obtain ⟨sound, touches, -, context, -⟩ :=
    inv.sound.pendWait shows notIdle type exhausted timeout
  refine ⟨sound, ⟨fun _ _ rests => (rests ?_).elim, fun _ _ _ => ?_⟩,
    touches.running.trans inv.running⟩
  · rw [touches.prioCur, context]
    trivial
  · rw [touches.lockNesting, unlocked']

theorem Inv.osQPend (inv : k.Inv) (may : k.MayCall) (e : EventId) (timeout : Nat) :
    (k.osQPend e timeout).1.Inv := by
  unfold Ucos.osQPend
  split
  · exact inv
  next type =>
    have type := some_of_not_ne type
    split
    · exact inv
    next level =>
      split
      · exact inv
      next unlocked =>
        split
        next taken => exact inv.take type taken
        next empty =>
          refine inv.pendWait may level unlocked type ⟨fun _ => ?_, fun other => ?_⟩ timeout
          · exact OsQ.take_eq_none_iff.mp empty
          · rw [type] at other
            cases other

theorem Inv.osSemPend (inv : k.Inv) (may : k.MayCall) (e : EventId) (timeout : Nat) :
    (k.osSemPend e timeout).1.Inv := by
  have before := inv.sound.events e
  unfold Ucos.osSemPend
  split
  · exact inv
  next type =>
    have type := some_of_not_ne type
    split
    · exact inv
    next level =>
      split
      · exact inv
      next unlocked =>
        split
        next some =>
          refine inv.event rfl rfl ⟨before.wellFormed, before.queue, fun _ => ?_, fun _ _ => ?_⟩
          · have := before.cnt_le type
            show (k.event e).osEventCnt - 1 ≤ 65535
            omega
          · exact before.sem type some
        next zero =>
          refine inv.pendWait may level unlocked type ⟨fun other => ?_, fun _ => by omega⟩ timeout
          rw [type] at other
          cases other

theorem Inv.osSemAccept (inv : k.Inv) (e : EventId) : (k.osSemAccept e).1.Inv := by
  have before := inv.sound.events e
  unfold Ucos.osSemAccept
  split
  · exact inv
  next type =>
    have type := some_of_not_ne type
    dsimp only
    split
    next some =>
      refine inv.event rfl rfl ⟨before.wellFormed, before.queue, fun _ => ?_, fun _ _ => ?_⟩
      · have := before.cnt_le type
        show (k.event e).osEventCnt - 1 ≤ 65535
        omega
      · exact before.sem type some
    next => exact inv

/-- One task is woken, by a post. -/
theorem Inv.wake (inv : k.Inv) (may : k.MayCall) (type : (k.event e).osEventType = some s)
    (some : (k.event e).waiting.grp ≠ 0) (pmsg : Option Msg) {ps : StatPend}
    (wakes : ps ≠ .timeout) : (k.osEventTaskRdy e pmsg s.stat ps).callOsSched.Inv := by
  obtain ⟨p, wake⟩ := @Sound.osEventTaskRdy _ k e s pmsg inv.sound type some ps wakes
  exact inv.call may (wake.sound inv.sound) wake.same

theorem Inv.wakeAll (inv : k.Inv) (type : (k.event e).osEventType = some s)
    (pmsg : Option Msg) {ps : StatPend} (wakes : ps ≠ .timeout) :
    WakesAll e s pmsg ps k (k.osEventAllRdy e pmsg s.stat ps 64).2 :=
  inv.sound.osEventAllRdy type wakes (card_waiters_le k e)

theorem Inv.pendAbort (inv : k.Inv) (may : k.MayCall) (e : EventId) (s : Service)
    (opt : PendOpt) : (k.pendAbort e s opt).1.Inv := by
  unfold Ucos.pendAbort
  split
  · exact inv
  next type =>
    have type := some_of_not_ne type
    split
    next some =>
      cases opt with
      | none => exact inv.wake may type some none (by decide)
      | broadcast =>
          have all := inv.wakeAll type none (by decide : StatPend.abort ≠ .timeout)
          exact inv.call may (all.sound inv.sound) all.same
    · exact inv

/-- A message goes to the first that waits, or is put into the ring by `insert`. -/
theorem Inv.qPost (inv : k.Inv) (may : k.MayCall) {insert : OsQ Msg → Option (OsQ Msg)}
    (wf : ∀ q r : OsQ Msg, q.WellFormed → insert q = some r → r.WellFormed) (e : EventId)
    (pmsg : Option Msg) : (k.qPost insert e pmsg).1.Inv := by
  have before := inv.sound.events e
  unfold Ucos.qPost
  split
  · exact inv
  next type =>
    have type := some_of_not_ne type
    split
    next some => exact inv.wake may type some pmsg (by decide)
    next none =>
      split
      next pq inserted =>
        exact inv.event rfl rfl ⟨fun _ => wf _ pq (before.wellFormed type) inserted,
          fun _ _ => not_not.mp none, before.cnt_le, before.sem⟩
      · exact inv

theorem Inv.osQPost (inv : k.Inv) (may : k.MayCall) (e : EventId) (pmsg : Option Msg) :
    (k.osQPost e pmsg).1.Inv :=
  inv.qPost may (fun _ _ wf posted => (wf.postBack posted).1) e pmsg

theorem Inv.osQPostFront (inv : k.Inv) (may : k.MayCall) (e : EventId) (pmsg : Option Msg) :
    (k.osQPostFront e pmsg).1.Inv :=
  inv.qPost may (fun _ _ wf posted => (wf.postFront posted).1) e pmsg

theorem Inv.osSemPost (inv : k.Inv) (may : k.MayCall) (e : EventId) : (k.osSemPost e).1.Inv := by
  have before := inv.sound.events e
  unfold Ucos.osSemPost
  split
  · exact inv
  next type =>
    have type := some_of_not_ne type
    split
    next some => exact inv.wake may type some none (by decide)
    next none =>
      split
      next room =>
        exact inv.event rfl rfl ⟨before.wellFormed, before.queue,
          fun _ => Nat.succ_le_of_lt room, fun _ _ => not_not.mp none⟩
      · exact inv

theorem Inv.osSemSet (inv : k.Inv) (e : EventId) (cnt : BitVec 16) : (k.osSemSet e cnt).1.Inv := by
  have before := inv.sound.events e
  have small : cnt.toNat ≤ 65535 := by have := cnt.isLt; omega
  unfold Ucos.osSemSet
  split
  · exact inv
  next type =>
    have type := some_of_not_ne type
    split
    next some =>
      exact inv.event rfl rfl ⟨before.wellFormed, before.queue, fun _ => small,
        fun _ _ => before.sem type some⟩
    next =>
      split
      next none =>
        exact inv.event rfl rfl ⟨before.wellFormed, before.queue, fun _ => small,
          fun _ _ => none⟩
      · exact inv

/-! ## Creating and deleting events -/

theorem waiting_empty : (PriorityMap.empty 8 : PrioSet).grp = 0 := rfl

/-- A new queue has nothing to give. -/
theorem ok_newQueue (start : Int → Option Msg) (size : Nat) : OsEvent.Ok
    { osEventType := some .q
      osEventCnt := 0
      osEventPtr := OsQ.create start size
      waiting := PriorityMap.empty 8 } :=
  ⟨fun _ => OsQ.wellFormed_create start size, fun _ _ => waiting_empty, fun _ => Nat.zero_le _,
    fun _ _ => waiting_empty⟩

/-- A new semaphore has a count to give, and nothing waits for it. -/
theorem ok_newSem (x : OsEvent Msg) (cnt : BitVec 16) : OsEvent.Ok
    { x with
      osEventType := some .sem
      osEventCnt := cnt.toNat
      waiting := PriorityMap.empty 8 } :=
  ⟨nofun, nofun, fun _ => Nat.le_of_lt_succ cnt.isLt, fun _ _ => waiting_empty⟩

theorem Inv.osQCreate (inv : k.Inv) (start : Int → Option Msg) (size : Nat) :
    (k.osQCreate start size).1.Inv := by
  unfold Ucos.osQCreate
  split
  · exact inv
  next =>
    split
    · exact inv
    next e free first =>
      split
      next =>
        exact inv.events (inv.sound.createEvent first waiting_empty (ok_newQueue start size) _)
          ⟨rfl, rfl, rfl, rfl, rfl⟩ rfl
      · exact inv

theorem Inv.osSemCreate (inv : k.Inv) (cnt : BitVec 16) : (k.osSemCreate cnt).1.Inv := by
  unfold Ucos.osSemCreate
  split
  · exact inv
  next =>
    split
    · exact inv
    next e free first =>
      exact inv.events
        (inv.sound.createEvent first waiting_empty (ok_newSem (k.event e) cnt) k.osQFreeList)
        ⟨rfl, rfl, rfl, rfl, rfl⟩ rfl

/-- An event is deleted once nothing waits for it; what else is given back is of no account. -/
theorem Inv.eventDel (inv : k.Inv) (may : k.MayCall) {release : Ucos Msg → Ucos Msg}
    (released : ∀ k : Ucos Msg, ∃ n, release k = { k with osQFreeList := n }) (e : EventId)
    (opt : DelOpt) : (k.eventDel s release e opt).1.Inv := by
  -- a kernel with the event gone
  have gone {k₁ : Ucos Msg} (sound : k₁.Sound) (type : (k₁.event e).osEventType = some s)
      (none : (k₁.event e).waiting.grp = 0) : ((release k₁).freeEvent e).Sound ∧
        SameCurrent k₁ ((release k₁).freeEvent e) ∧ ((release k₁).freeEvent e).rdy = k₁.rdy := by
    obtain ⟨n, equation⟩ := released k₁
    rw [equation]
    have moved : ({ k₁ with osQFreeList := n } : Ucos Msg).Sound :=
      sound.same ⟨rfl, rfl, rfl, rfl, rfl, rfl⟩
    exact ⟨moved.freeEvent type none, ⟨rfl, rfl, rfl, rfl, rfl⟩, rfl⟩
  unfold Ucos.eventDel
  split
  · exact inv
  next type =>
    have type := some_of_not_ne type
    split
    · exact inv
    next =>
      cases opt with
      | other => exact inv
      | noPend =>
          dsimp only
          split
          · exact inv
          next none =>
            obtain ⟨sound, same, rdy⟩ := gone inv.sound type (not_not.mp none)
            exact inv.events sound same rdy
      | always =>
          have all := inv.wakeAll type none (by decide : StatPend.ok ≠ .timeout)
          obtain ⟨sound, same, rdy⟩ :=
            gone (all.sound inv.sound) ((all.eventType e).trans type) all.waiting
          dsimp only
          split
          next => exact inv.call may sound (all.same.trans same)
          next idle =>
            have nothing : (k.event e).waiting.grp = 0 := by simpa using idle
            have stays : (k.osEventAllRdy e none s.stat .ok 64).2 = k := by
              unfold Ucos.osEventAllRdy
              rw [if_neg (not_not.mpr nothing)]
            refine inv.events sound (all.same.trans same) (rdy.trans ?_)
            rw [stays]

theorem Inv.osQDel (inv : k.Inv) (may : k.MayCall) (e : EventId) (opt : DelOpt) :
    (k.osQDel e opt).1.Inv :=
  inv.eventDel may (fun _ => ⟨_, rfl⟩) e opt

theorem Inv.osSemDel (inv : k.Inv) (may : k.MayCall) (e : EventId) (opt : DelOpt) :
    (k.osSemDel e opt).1.Inv :=
  inv.eventDel may (fun k => ⟨k.osQFreeList, rfl⟩) e opt

/-! ## Time and tasks -/

theorem Inv.osTimeDly (inv : k.Inv) (may : k.MayCall) (ticks : Nat) :
    (k.osTimeDly ticks).Inv := by
  unfold Ucos.osTimeDly
  split
  · exact inv
  next level =>
    split
    · exact inv
    next unlocked =>
      split
      next sleeps =>
        have level' : k.osIntNesting = 0 := by omega
        obtain ⟨notIdle, runs, -⟩ := may level'
        obtain ⟨t, shows⟩ := inv.caller level' (by omega) runs
        have found : (k.makeUnready k.osPrioCur).osTCBPrioTbl
            (k.makeUnready k.osPrioCur).osPrioCur = some t := shows.tcb
        obtain ⟨sound, touches, -, context⟩ := inv.sound.sleep shows notIdle sleeps rfl
        dsimp only
        rw [found]
        exact inv.call may sound (.of_touches touches context)
      · exact inv

/-- The check of a delay that ends early, with `expired` for what it sets. -/
theorem osTimeDlyResume_eq (p : Prio) (k : Ucos Msg) :
    k.osTimeDlyResume p =
      if p ≥ OS_TASK_IDLE_PRIO then (k, .err .prioInvalid)
      else
        match k.osTCBPrioTbl p with
        | none => (k, .err .taskNotExist)
        | some t =>
            if t.osTCBDly = 0 then (k, .err .timeNotDly)
            else
              (if (expired t).osTCBStat &&& OS_STAT_SUSPEND = OS_STAT_RDY then
                (k.setAndReady p (expired t)).callOsSched else k.setAndReady p (expired t),
                .err .none) := by
  unfold Ucos.osTimeDlyResume
  split
  · rfl
  next =>
    cases k.osTCBPrioTbl p with
    | none => rfl
    | some t =>
        dsimp only
        split
        · rfl
        next =>
          unfold setAndReady expired
          by_cases pends : t.osTCBStat &&& OS_STAT_PEND_ANY ≠ OS_STAT_RDY
          · simp only [if_pos pends]
            split <;> rfl
          · simp only [if_neg pends]
            split <;> rfl

theorem Inv.osTimeDlyResume (inv : k.Inv) (may : k.MayCall) (p : Prio) :
    (k.osTimeDlyResume p).1.Inv := by
  rw [osTimeDlyResume_eq]
  split
  · exact inv
  next below =>
    split
    · exact inv
    next t found =>
      split
      · exact inv
      next dly =>
        obtain ⟨a, shows⟩ := (inv.sound.tasks p).shows found
        have notIdle : p ≠ OS_TASK_IDLE_PRIO := fun same => below (same ▸ le_refl _)
        have sound := inv.sound.expire shows notIdle (shows.dly ▸ dly)
        have same : SameCurrent k (k.setAndReady p (expired t)) := by
          refine .of_touches (touches_setAndReady p _ k) ?_
          unfold setAndReady
          split <;> rfl
        dsimp only
        split
        next => exact inv.call may sound same
        next suspended =>
          refine inv.events sound same ?_
          unfold setAndReady
          rw [if_neg suspended]
          rfl

theorem Inv.osTaskCreate (inv : k.Inv) (may : k.MayCall) (p : Prio) :
    (k.osTaskCreate p).1.Inv := by
  unfold Ucos.osTaskCreate
  split
  · exact inv
  next level =>
    split
    · exact inv
    next absent =>
      split
      next =>
        have level' : k.osIntNesting = 0 := by omega
        have sound := inv.sound.created absent
        have ne : k.osPrioCur ≠ p := by
          rintro rfl
          have alive := (may level').2.2
          rw [absent] at alive
          cases alive
        have same : SameCurrent k (k.created p) :=
          ⟨rfl, rfl, rfl, rfl, Function.update_of_ne ne _ _⟩
        exact inv.call_if_running may sound same
      · exact inv

theorem Inv.osTaskDel (inv : k.Inv) (may : k.MayCall) (p : Prio) : (k.osTaskDel p).1.Inv := by
  unfold Ucos.osTaskDel
  split
  · exact inv
  next level =>
    split
    · exact inv
    next notIdle =>
      split
      · exact inv
      next t found =>
        obtain ⟨a, shows⟩ := (inv.sound.tasks p).shows found
        have sound := inv.sound.deleted shows notIdle
        have touches := touches_deletedTask p t.osTCBEventPtr k
        have same : SameCurrent k (k.deleted p t.osTCBEventPtr) :=
          ⟨touches.prioCur, touches.intNesting, touches.lockNesting, touches.running,
            congrFun (context_deletedTask p t.osTCBEventPtr k) _⟩
        have after := inv.call_if_running may sound same
        revert after
        cases t.osTCBEventPtr <;> exact id

theorem Inv.osTaskResume (inv : k.Inv) (may : k.MayCall) (p : Prio) :
    (k.osTaskResume p).1.Inv := by
  unfold Ucos.osTaskResume
  split
  · exact inv
  next t found =>
    split
    next suspends =>
      obtain ⟨a, shows⟩ := (inv.sound.tasks p).shows found
      obtain ⟨suspended, notIdle⟩ := inv.sound.suspended shows suspends
      obtain ⟨sound, touches, shows', context⟩ :=
        inv.sound.resume shows notIdle rfl suspended rfl
      have same := SameCurrent.of_touches touches context
      dsimp only at sound same ⊢
      split
      next rdy =>
        split
        next zero =>
          rw [if_pos ⟨rdy, zero⟩] at sound same
          exact inv.call_if_running may sound same
        next dly =>
          rw [if_neg fun h => dly h.2] at sound same
          exact inv.events sound same rfl
      next pends =>
        rw [if_neg fun h => pends h.1] at sound same
        exact inv.events sound same rfl
    · exact inv

theorem Inv.osTaskSuspend (inv : k.Inv) (may : k.MayCall) (notIdle : p ≠ OS_TASK_IDLE_PRIO) :
    (k.osTaskSuspend p).1.Inv := by
  unfold Ucos.osTaskSuspend
  split
  · exact inv
  next t found =>
    obtain ⟨a, shows⟩ := (inv.sound.tasks p).shows found
    obtain ⟨sound, touches, -, context⟩ := inv.sound.suspend shows notIdle rfl
    have same := SameCurrent.of_touches touches context
    dsimp only
    split
    next => exact inv.call may sound same
    next other =>
      refine ⟨sound, inv.scheduled.keep same fun highest => ?_, same.running.trans inv.running⟩
      have ready : k.rdy.Has k.osPrioCur := by
        rw [highest]
        exact PrioSet.has_highest inv.sound.rdy_grp_ne_zero
      refine (PrioSet.highest_eq_of_least ?_ fun q has => ?_).symm
      · exact PrioSet.has_remove.mpr ⟨fun cur => other cur.symm, ready⟩
      · rw [highest]
        exact PrioSet.highest_le (PrioSet.has_remove.mp has).2

/-! ## The scheduler and interrupts -/

theorem Inv.osSchedLock (inv : k.Inv) (may : k.MayCall) : k.osSchedLock.Inv := by
  unfold Ucos.osSchedLock
  rw [if_pos inv.running]
  split
  next level =>
    split
    next =>
      obtain ⟨-, runs, -⟩ := may level
      refine ⟨inv.sound.same ⟨rfl, rfl, rfl, rfl, rfl, rfl⟩,
        ⟨fun _ zero => absurd zero (Nat.succ_ne_zero _), fun e s pends => ?_⟩, inv.running⟩
      have pends' : k.context k.osPrioCur = .pendSched e s ∨
          k.context k.osPrioCur = .pendTail e s := pends
      rw [runs] at pends'
      rcases pends' with h | h <;> cases h
    · exact inv
  · exact inv

theorem Inv.osSchedUnlock (inv : k.Inv) (may : k.MayCall) : k.osSchedUnlock.Inv := by
  unfold Ucos.osSchedUnlock
  rw [if_pos inv.running]
  split
  next locked =>
    have sound : ({ k with osLockNesting := k.osLockNesting - 1 } : Ucos Msg).Sound :=
      inv.sound.same ⟨rfl, rfl, rfl, rfl, rfl, rfl⟩
    have pends (e : EventId) (s : Service) : ¬ (k.context k.osPrioCur = .pendSched e s ∨
        k.context k.osPrioCur = .pendTail e s) := fun h => by
      have := inv.scheduled.unlocked e s h
      omega
    dsimp only
    split
    next =>
      refine ⟨sound.callOsSched fun level => ?_, ?_, ?_⟩
      · obtain ⟨notIdle, runs, -⟩ := may level
        exact ⟨notIdle, runs⟩
      · unfold Ucos.callOsSched
        split
        next => exact scheduled_setSched _
        next nested => exact ⟨fun level => absurd level nested, fun e s h => (pends e s h).elim⟩
      · unfold Ucos.callOsSched
        split <;> exact inv.running
    next still =>
      exact ⟨sound, ⟨fun _ zero => absurd zero still, fun e s h => (pends e s h).elim⟩,
        inv.running⟩
  · exact inv

/-! ## `OS_Sched`, and the end of a pend -/

/-- Behind its `OS_Sched` the code of a task is in the same pend, or in none. -/
theorem stands_afterSched {x : Phase Msg} {c : Context} (stands : x.Stands c) (before : AtSched c) :
    x.Stands (Context.afterSched c) := by
  unfold Phase.Stands at stands ⊢
  cases pend : x.pend with
  | none =>
      rw [pend] at stands
      rcases stands with rfl | rfl <;> exact Or.inl rfl
  | some pair =>
      rw [pend] at stands
      rcases stands with rfl | rfl
      · exact Or.inr rfl
      · exact before.elim

/-- A task goes on behind its `OS_Sched`. -/
theorem Sound.afterSched (sound : k.Sound) (before : AtSched (k.context p)) :
    (k.setContext p (Context.afterSched (k.context p))).Sound := by
  have notIdle : p ≠ OS_TASK_IDLE_PRIO := by
    rintro rfl
    rw [sound.idleRuns] at before
    exact before
  have after := view_setContext_self k p (Context.afterSched (k.context p))
  have waits (j : EventId) : ((k.setContext p (Context.afterSched (k.context p))).view p).waits j ↔
      (k.view p).waits j := by rw [after]
  refine sound.touch (Touches.setContext p _ k) notIdle ?_ (by rw [after]) (fun j now => ?_)
    fun j now => Or.inl ((waits j).mp now)
  · rcases sound.tasks p with absent | ⟨a, t, shows⟩
    · rw [after]
      exact Or.inl ⟨absent.tcb, absent.ready, absent.waits⟩
    · rw [after]
      exact Or.inr ⟨a, t, shows.tcb, shows.stat, shows.dly, shows.eventPtr, shows.result,
        shows.ready, shows.waits, stands_afterSched shows.stands before⟩
  · obtain ⟨s, type, stands⟩ := sound.kinds p j ((waits j).mp now)
    refine ⟨s, type, Or.inr ?_⟩
    have there : (k.setContext p (Context.afterSched (k.context p))).context p =
        Context.afterSched (k.context p) := congrArg View.context after
    rw [there]
    rcases stands with h | h <;> rw [h] at before ⊢
    · rfl
    · exact before.elim

/-- `OSPrioCur = OSPrioHighRdy`, with interrupts on from now. -/
theorem Sound.switch (sound : k.Sound) (p : Prio) :
    ({ k with osPrioCur := p } : Ucos Msg).Sound :=
  sound.same ⟨rfl, rfl, rfl, rfl, rfl, rfl⟩

theorem Inv.osSched (inv : k.Inv) (level : k.osIntNesting = 0)
    (before : AtSched (k.context k.osPrioCur)) : k.osSched.Inv := by
  have sound := inv.sound.afterSched before
  unfold Ucos.osSched
  dsimp only
  rw [if_pos (show (k.setContext k.osPrioCur _).osIntNesting = 0 from level)]
  split
  next unlocked =>
    exact ⟨sound.switch _, ⟨fun _ _ _ => rfl, fun _ _ _ => unlocked⟩, inv.running⟩
  next locked =>
    have locked' : ¬ k.osLockNesting = 0 := locked
    refine ⟨sound, ⟨fun _ unlocked => absurd unlocked locked, fun e s pends => ?_⟩, inv.running⟩
    have there : (k.setContext k.osPrioCur (Context.afterSched (k.context k.osPrioCur))).context
        k.osPrioCur = Context.afterSched (k.context k.osPrioCur) := Function.update_self _ _ _
    -- with the scheduler locked no task is in a pend
    rw [show (k.setContext k.osPrioCur (Context.afterSched (k.context k.osPrioCur))).osPrioCur =
      k.osPrioCur from rfl, there] at pends
    cases context : k.context k.osPrioCur with
    | pendSched j s' => exact absurd (inv.scheduled.unlocked j s' (Or.inl context)) locked'
    | run | sched | pendTail =>
        rw [context] at pends
        rcases pends with h | h <;> cases h

/-- The task behind the `OS_Sched` of a pend runs, and has been woken. -/
theorem Inv.pendEnds (inv : k.Inv) (level : k.osIntNesting = 0)
    (context : k.context k.osPrioCur = .pendTail e s) :
    k.osPrioCur ≠ OS_TASK_IDLE_PRIO ∧ (k.view k.osPrioCur).ready ∧
      ∃ a t, (k.view k.osPrioCur).Shows a t ∧ a.phase.pend = some (e, s) := by
  have unlocked : k.osLockNesting = 0 := inv.scheduled.unlocked e s (Or.inr context)
  have ready := inv.current level unlocked (by rw [context]; exact id)
  obtain ⟨a, t, shows⟩ := (inv.sound.tasks k.osPrioCur).of_ready ready
  refine ⟨fun idle => ?_, ready, a, t, shows, Phase.pend_eq_of_stands shows.stands (Or.inr context)⟩
  rw [idle, inv.sound.idleRuns] at context
  cases context

theorem Inv.osPendTail (inv : k.Inv) (level : k.osIntNesting = 0)
    (context : k.context k.osPrioCur = .pendTail e s) : (k.osPendTail e s).1.Inv := by
  have unlocked : k.osLockNesting = 0 := inv.scheduled.unlocked e s (Or.inr context)
  obtain ⟨notIdle, ready, a, t, shows, pend⟩ := inv.pendEnds level context
  obtain ⟨sound, touches, -, runs, rdy, -⟩ := inv.sound.osPendTail shows ready notIdle pend
  have cur := inv.scheduled.highest level unlocked (by rw [context]; exact id)
  refine ⟨sound, ⟨fun _ _ _ => ?_, fun e' s' pends => ?_⟩, touches.running.trans inv.running⟩
  · rw [touches.prioCur, osSchedNew, rdy]
    exact cur
  · rw [touches.lockNesting]
    exact unlocked

/-! ## Interrupts -/

theorem Inv.osIntEnter (inv : k.Inv) : k.osIntEnter.Inv := by
  unfold Ucos.osIntEnter
  rw [if_pos inv.running]
  split
  next =>
    exact ⟨inv.sound.same ⟨rfl, rfl, rfl, rfl, rfl, rfl⟩,
      ⟨fun level => absurd level (Nat.succ_ne_zero _), inv.scheduled.unlocked⟩, inv.running⟩
  · exact inv

theorem Inv.osTimeTick (inv : k.Inv) (level : 0 < k.osIntNesting) : k.osTimeTick.Inv := by
  obtain ⟨sound, frame, -, -⟩ := inv.sound.osTimeTick inv.running
  refine ⟨sound, ⟨fun zero => ?_, fun e s pends => ?_⟩, frame.running.trans inv.running⟩
  · rw [frame.intNesting] at zero
    omega
  · rw [frame.prioCur, frame.context] at pends
    rw [frame.lockNesting]
    exact inv.scheduled.unlocked e s pends

/-- `OSIntExit` goes back to the task that was interrupted, or to one of higher priority. -/
theorem Inv.osIntExit (inv : k.Inv) (level : 0 < k.osIntNesting) : k.osIntExit.Inv := by
  unfold Ucos.osIntExit
  rw [if_pos inv.running]
  dsimp only
  rw [if_pos level]
  have sound : ({ k with osIntNesting := k.osIntNesting - 1 } : Ucos Msg).Sound :=
    inv.sound.same ⟨rfl, rfl, rfl, rfl, rfl, rfl⟩
  split
  next outer =>
    split
    next unlocked =>
      exact ⟨sound.switch _, ⟨fun _ _ _ => rfl, fun _ _ _ => unlocked⟩, inv.running⟩
    next locked =>
      exact ⟨sound, ⟨fun _ unlocked => absurd unlocked locked, inv.scheduled.unlocked⟩, inv.running⟩
  next inner =>
    exact ⟨sound, ⟨fun outer => absurd outer inner, inv.scheduled.unlocked⟩, inv.running⟩

/-! ## Steps and runs -/

theorem Inv.perform (inv : k.Inv) (may : k.MayCall) {c : Call Msg} (admits : k.Admits c) :
    (k.perform c).1.Inv := by
  cases c with
  | osQAccept e => exact inv.osQAccept e
  | osQCreate start size => exact inv.osQCreate start size
  | osQDel e opt => exact inv.osQDel may e opt
  | osQFlush e => exact inv.osQFlush admits
  | osQPend e timeout => exact inv.osQPend may e timeout
  | osQPendAbort e opt => exact inv.pendAbort may e .q opt
  | osQPost e pmsg => exact inv.osQPost may e pmsg
  | osQPostFront e pmsg => exact inv.osQPostFront may e pmsg
  | osSemAccept e => exact inv.osSemAccept e
  | osSemCreate cnt => exact inv.osSemCreate cnt
  | osSemDel e opt => exact inv.osSemDel may e opt
  | osSemPend e timeout => exact inv.osSemPend may e timeout
  | osSemPendAbort e opt => exact inv.pendAbort may e .sem opt
  | osSemPost e => exact inv.osSemPost may e
  | osSemSet e cnt => exact inv.osSemSet e cnt
  | osTimeDly ticks => exact inv.osTimeDly may ticks
  | osTimeDlyResume p => exact inv.osTimeDlyResume may p
  | osTaskCreate p => exact inv.osTaskCreate may p
  | osTaskDel p => exact inv.osTaskDel may p
  | osTaskResume p => exact inv.osTaskResume may p
  | osTaskSuspend p => exact inv.osTaskSuspend may admits
  | osSchedLock => exact inv.osSchedLock may
  | osSchedUnlock => exact inv.osSchedUnlock may

theorem Inv.step (inv : k.Inv) {act : Action Msg} {r : Reply Msg}
    (stepped : k.step act = some (k', r)) : k'.Inv := by
  cases act with
  | call c =>
      obtain ⟨⟨may, admits⟩, performed⟩ := Option.ite_none_right_eq_some.mp stepped
      obtain rfl : (k.perform c).1 = k' := congrArg Prod.fst (Option.some.inj performed)
      exact inv.perform may admits
  | osSched =>
      obtain ⟨⟨level, before⟩, performed⟩ := Option.ite_none_right_eq_some.mp stepped
      cases performed
      exact inv.osSched level before
  | pendTail =>
      obtain ⟨level, performed⟩ := Option.ite_none_right_eq_some.mp stepped
      split at performed
      next context =>
        obtain rfl : (k.osPendTail _ _).1 = k' := congrArg Prod.fst (Option.some.inj performed)
        exact inv.osPendTail level context
      next => cases performed
  | osIntEnter =>
      cases stepped
      exact inv.osIntEnter
  | osTimeTick =>
      obtain ⟨level, performed⟩ := Option.ite_none_right_eq_some.mp stepped
      cases performed
      exact inv.osTimeTick level
  | osIntExit =>
      obtain ⟨level, performed⟩ := Option.ite_none_right_eq_some.mp stepped
      cases performed
      exact inv.osIntExit level

end Ucos

end Stm32Robot.Kernel
