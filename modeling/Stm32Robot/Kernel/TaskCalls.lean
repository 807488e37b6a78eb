/-
# Kernel.TaskCalls -- a task waits, sleeps, and is suspended, resumed, created and deleted

Each of the changes here is one task's going from one phase to another, or its coming and going.
`Sound` is kept by all of them; of the current task they need that it runs and is ready, of the
others that they are not the idle task.
-/
import Stm32Robot.Kernel.Transitions

namespace Stm32Robot.Kernel

open Stm32Robot.Theory

set_option autoImplicit false

variable {Msg : Type}

namespace Ucos

variable {k : Ucos Msg} {p : Prio} {e : EventId} {s : Service} {a : Task Msg} {t : OsTcb Msg}

theorem flags_active : flags false none = OS_STAT_RDY := by decide

/-! ## Waiting for an event -/

/-- The changes to the current task when it starts to wait, one after the other. -/
theorem pendWait_eq (found : k.osTCBPrioTbl k.osPrioCur = some t) (e : EventId) (s : Service)
    (timeout : Nat) :
    ∃ u₁ u : OsTcb Msg, u = { t with
        osTCBStat := t.osTCBStat ||| s.stat
        osTCBStatPend := .ok
        osTCBDly := timeout
        osTCBEventPtr := some e } ∧
      k.pendWait e s timeout =
        let k₁ := (k.setTcb k.osPrioCur (some u₁)).setTcb k.osPrioCur (some u)
        ((k₁.setEvent e { k₁.event e with
            waiting := PrioSet.insert (k₁.event e).waiting k.osPrioCur }).makeUnready
          k.osPrioCur).setContext k.osPrioCur (.pendSched e s) := by
  refine ⟨{ t with
    osTCBStat := t.osTCBStat ||| s.stat
    osTCBStatPend := .ok
    osTCBDly := timeout }, _, rfl, ?_⟩
  unfold Ucos.pendWait osEventTaskWait
  simp only [osPrioCur_setTcb, osTCBPrioTbl_setTcb_self, found, Option.map_some]
  rfl

theorem touches_pendWait (e : EventId) (s : Service) (timeout : Nat) (k : Ucos Msg) :
    Touches k.osPrioCur k (k.pendWait e s timeout) :=
  (((Touches.setTcb _ _ k).trans (Touches.setTcb _ _ _)).trans
    (Touches.osEventTaskInsert _ e _)).trans
    ((Touches.makeUnready _ _).trans (Touches.setContext _ _ _))

/-- The current task waits for an event that has nothing to give. -/
theorem Sound.pendWait (sound : k.Sound) (shows : (k.view k.osPrioCur).Shows ⟨false, .active 0⟩ t)
    (notIdle : k.osPrioCur ≠ OS_TASK_IDLE_PRIO) (type : (k.event e).osEventType = some s)
    (exhausted : (k.event e).Exhausted) (timeout : Nat) :
    (k.pendWait e s timeout).Sound ∧ Touches k.osPrioCur k (k.pendWait e s timeout) ∧
      (∃ u, ((k.pendWait e s timeout).view k.osPrioCur).Shows
        ⟨false, .pending e s timeout⟩ u) ∧
      (k.pendWait e s timeout).context k.osPrioCur = .pendSched e s ∧
      ∀ q, q ≠ k.osPrioCur → (k.pendWait e s timeout).context q = k.context q := by
  have found : k.osTCBPrioTbl k.osPrioCur = some t := shows.tcb
  have touches := touches_pendWait e s timeout k
  obtain ⟨u₁, u, fields, equation⟩ := pendWait_eq found e s timeout
  have after : (k.pendWait e s timeout).view k.osPrioCur =
      { tcb := some u
        ready := False
        waits := Function.update (k.view k.osPrioCur).waits e True
        context := .pendSched e s } := by
    rw [equation]
    simp only [view_setContext_self, view_makeUnready_self, view_osEventTaskInsert_self,
      view_setTcb_self]
  have waits (j : EventId) : Function.update (k.view k.osPrioCur).waits e True j ↔ j = e := by
    by_cases same : j = e
    · rw [same, Function.update_self]
      exact iff_of_true trivial rfl
    · rw [Function.update_of_ne same]
      exact iff_of_false (fun there => by cases (shows.waits j).mp there) same
  have shows' : ((k.pendWait e s timeout).view k.osPrioCur).Shows
      ⟨false, .pending e s timeout⟩ u := by
    rw [after]
    rw [fields]
    refine ⟨rfl, ?_, rfl, rfl, rfl, ?_, fun j => ?_, Or.inl rfl⟩
    · show t.osTCBStat ||| s.stat = flags false (some s)
      rw [shows.stat]
      exact flags_or_stat false s
    · exact iff_of_false id fun h => h.2
    · show Function.update (k.view k.osPrioCur).waits e True j ↔ some e = some j
      rw [waits, Option.some.injEq]
      exact eq_comm
  have context : (k.pendWait e s timeout).context k.osPrioCur = .pendSched e s :=
    congrArg View.context after
  refine ⟨?_, touches, ⟨u, shows'⟩, context, fun q ne => congrArg View.context (touches.view q ne)⟩
  refine sound.touch touches notIdle shows'.ok ?_ (fun j now => ?_) fun j now => ?_
  · rw [shows'.tcb, shows.tcb]
    rfl
  · rw [after] at now
    obtain rfl := (waits j).mp now
    exact ⟨s, type, Or.inl context⟩
  · rw [after] at now
    obtain rfl := (waits j).mp now
    exact Or.inr exhausted

/-- What a pend comes back with. -/
def tailReply (e : EventId) (s : Service) : Phase Msg → Reply Msg
  | .served _ _ pmsg => .pended e s (if s = .q then pmsg else none) .none
  | .aborted _ _ => .pended e s none .pendAbort
  | _ => .pended e s none .timeout

/-- The pend of the current task ends. -/
theorem Sound.osPendTail (sound : k.Sound) (shows : (k.view k.osPrioCur).Shows a t)
    (ready : (k.view k.osPrioCur).ready) (notIdle : k.osPrioCur ≠ OS_TASK_IDLE_PRIO)
    (pend : a.phase.pend = some (e, s)) :
    (k.osPendTail e s).1.Sound ∧ Touches k.osPrioCur k (k.osPendTail e s).1 ∧
      (∃ u, ((k.osPendTail e s).1.view k.osPrioCur).Shows ⟨false, .active 0⟩ u) ∧
      (k.osPendTail e s).1.context k.osPrioCur = .run ∧
      (k.osPendTail e s).1.rdy = k.rdy ∧
      (k.osPendTail e s).2 = tailReply e s a.phase := by
  obtain ⟨awake, runnable⟩ := shows.ready.mp ready
  have found : k.osTCBPrioTbl k.osPrioCur = some t := shows.tcb
  let u : OsTcb Msg := { t with
    osTCBStat := OS_STAT_RDY
    osTCBStatPend := .ok
    osTCBEventPtr := none
    osTCBMsg := if s = Service.q then none else t.osTCBMsg }
  -- behind its `OS_Sched` a pend is over in one of three ways
  have ends : (k.osPendTail e s).2 = tailReply e s a.phase ∧
      ∃ k₁ : Ucos Msg, Touches k.osPrioCur k k₁ ∧ k₁.rdy = k.rdy ∧
        (k₁.view k.osPrioCur).ready = (k.view k.osPrioCur).ready ∧
        (∀ j, ¬ (k₁.view k.osPrioCur).waits j) ∧
        (k.osPendTail e s).1 =
          (k₁.setTcb k.osPrioCur (some u)).setContext k.osPrioCur .run := by
    obtain ⟨b, phase⟩ := a
    cases phase with
    | active d => cases pend
    | pending e' s' d => exact runnable.elim
    | due e' s' =>
        obtain ⟨rfl, rfl⟩ : e' = e ∧ s' = s := by
          simpa [Phase.pend] using pend
        have result : t.osTCBStatPend = .timeout := shows.result
        unfold Ucos.osPendTail
        simp only [found, result]
        refine ⟨rfl, k.osEventTaskRemove k.osPrioCur e', Touches.osEventTaskRemove _ _ k, rfl,
          by rw [view_osEventTaskRemove_self], fun j => ?_, rfl⟩
        rw [view_osEventTaskRemove_self]
        show ¬ Function.update (k.view k.osPrioCur).waits e' False j
        by_cases same : j = e'
        · rw [same, Function.update_self]
          exact id
        · rw [Function.update_of_ne same, shows.waits]
          exact fun h => same (Option.some.inj h).symm
    | served e' s' m =>
        obtain ⟨rfl, rfl⟩ : e' = e ∧ s' = s := by
          simpa [Phase.pend] using pend
        have result : t.osTCBStatPend = .ok ∧ t.osTCBMsg = m := shows.result
        unfold Ucos.osPendTail
        simp only [found, result.1]
        refine ⟨by rw [result.2]; rfl, k, Touches.refl _ k, rfl, rfl, fun j there => ?_, rfl⟩
        cases (shows.waits j).mp there
    | aborted e' s' =>
        obtain ⟨rfl, rfl⟩ : e' = e ∧ s' = s := by
          simpa [Phase.pend] using pend
        have result : t.osTCBStatPend = .abort := shows.result
        unfold Ucos.osPendTail
        simp only [found, result]
        refine ⟨rfl, k, Touches.refl _ k, rfl, rfl, fun j there => ?_, rfl⟩
        cases (shows.waits j).mp there
  obtain ⟨reply, k₁, touches₁, rdy₁, ready₁, waits₁, equation⟩ := ends
  have touches : Touches k.osPrioCur k (k.osPendTail e s).1 := by
    rw [equation]
    exact (touches₁.trans (Touches.setTcb _ _ k₁)).trans (Touches.setContext _ _ _)
  have after : (k.osPendTail e s).1.view k.osPrioCur =
      { k₁.view k.osPrioCur with tcb := some u, context := .run } := by
    rw [equation, view_setContext_self, view_setTcb_self]
  have shows' : ((k.osPendTail e s).1.view k.osPrioCur).Shows ⟨false, .active 0⟩ u := by
    rw [after]
    refine ⟨rfl, flags_active.symm, ?_, rfl, trivial, ?_, fun j => ?_, Or.inl rfl⟩
    · show t.osTCBDly = 0
      rw [shows.dly]
      cases phase : a.phase with
      | active d => rw [phase] at pend; cases pend
      | pending e' s' d => rw [phase] at runnable; exact runnable.elim
      | due | served | aborted => rfl
    · show (k₁.view k.osPrioCur).ready ↔ _
      rw [ready₁]
      exact iff_of_true ready ⟨rfl, rfl⟩
    · exact iff_of_false (waits₁ j) fun h => by cases h
  refine ⟨?_, touches, ⟨u, shows'⟩, congrArg View.context after, ?_, reply⟩
  · refine sound.touch touches notIdle shows'.ok ?_ (fun j now => ?_) fun j now => ?_
    · rw [shows'.tcb, shows.tcb]
      rfl
    · rw [after] at now
      exact (waits₁ j now).elim
    · rw [after] at now
      exact (waits₁ j now).elim
  · rw [equation]
    exact rdy₁

/-! ## Delays -/

/-- The current task sleeps. -/
theorem Sound.sleep (sound : k.Sound) (shows : (k.view k.osPrioCur).Shows ⟨false, .active 0⟩ t)
    (notIdle : k.osPrioCur ≠ OS_TASK_IDLE_PRIO) {ticks : Nat} (some : 0 < ticks) {k' : Ucos Msg}
    (set : k' = (k.makeUnready k.osPrioCur).setTcb k.osPrioCur
      (.some { t with osTCBDly := ticks })) :
    k'.Sound ∧ Touches k.osPrioCur k k' ∧
      (∃ u, (k'.view k.osPrioCur).Shows ⟨false, .active ticks⟩ u) ∧ k'.context = k.context := by
  have touches : Touches k.osPrioCur k k' := by
    rw [set]
    exact (Touches.makeUnready _ k).trans (Touches.setTcb _ _ _)
  have after : k'.view k.osPrioCur =
      { k.view k.osPrioCur with
        tcb := .some { t with osTCBDly := ticks }, ready := False } := by
    rw [set, view_setTcb_self, view_makeUnready_self]
  have context : k'.context = k.context := by rw [set]; rfl
  have shows' : (k'.view k.osPrioCur).Shows ⟨false, .active ticks⟩
      { t with osTCBDly := ticks } := by
    rw [after]
    refine ⟨rfl, shows.stat, rfl, shows.eventPtr, trivial, ?_, shows.waits, shows.stands⟩
    exact iff_of_false id fun h => some.ne' h.2
  refine ⟨?_, touches, ⟨_, shows'⟩, context⟩
  refine sound.shrink touches notIdle shows' ?_ (congrFun context _) fun j now => ?_
  · rw [shows.tcb]
    rfl
  · rw [after] at now
    exact now

/-- A delay or a timeout ends early. -/
theorem Sound.expire (sound : k.Sound) (shows : (k.view p).Shows a t)
    (notIdle : p ≠ OS_TASK_IDLE_PRIO) (dly : a.phase.dly ≠ 0) :
    (k.setAndReady p (expired t)).Sound := by
  obtain ⟨shows', waits⟩ := shows_expired shows dly
  refine sound.shrink (touches_setAndReady p _ k) notIdle shows' ?_ ?_ fun j now =>
    (waits j).mp now
  · rw [shows.tcb]
    rfl
  · unfold setAndReady
    split <;> rfl

/-! ## Suspending and resuming -/

theorem Sound.suspend (sound : k.Sound) (shows : (k.view p).Shows a t)
    (notIdle : p ≠ OS_TASK_IDLE_PRIO) {k' : Ucos Msg}
    (set : k' = (k.makeUnready p).setTcb p
      (some { t with osTCBStat := t.osTCBStat ||| OS_STAT_SUSPEND })) :
    k'.Sound ∧ Touches p k k' ∧ (∃ u, (k'.view p).Shows ⟨true, a.phase⟩ u) ∧
      k'.context = k.context := by
  have touches : Touches p k k' := by
    rw [set]
    exact (Touches.makeUnready p k).trans (Touches.setTcb p _ _)
  have after : k'.view p =
      { k.view p with
        tcb := some { t with osTCBStat := t.osTCBStat ||| OS_STAT_SUSPEND }, ready := False } := by
    rw [set, view_setTcb_self, view_makeUnready_self]
  have context : k'.context = k.context := by rw [set]; rfl
  have shows' : (k'.view p).Shows ⟨true, a.phase⟩
      { t with osTCBStat := t.osTCBStat ||| OS_STAT_SUSPEND } := by
    rw [after]
    refine ⟨rfl, ?_, shows.dly, shows.eventPtr, ?_, ?_, shows.waits, shows.stands⟩
    · show t.osTCBStat ||| OS_STAT_SUSPEND = _
      rw [shows.stat, flags_or_suspend]
    · have result := shows.result
      cases phase : a.phase <;> rw [phase] at result <;> exact result
    · exact iff_of_false id fun h => Bool.noConfusion h.1
  refine ⟨?_, touches, ⟨_, shows'⟩, context⟩
  refine sound.shrink touches notIdle shows' ?_ (congrFun context _) fun j now => ?_
  · rw [shows.tcb]
    rfl
  · rw [after] at now
    exact now

/-- The flag says that the task is suspended; the idle task never is. -/
theorem Sound.suspended (sound : k.Sound) (shows : (k.view p).Shows a t)
    (flag : t.osTCBStat &&& OS_STAT_SUSPEND ≠ OS_STAT_RDY) :
    a.suspended = true ∧ p ≠ OS_TASK_IDLE_PRIO := by
  have suspended : a.suspended = true := by
    rw [shows.stat, ne_eq, flags_and_suspend, Bool.not_eq_false] at flag
    exact flag
  refine ⟨suspended, ?_⟩
  rintro rfl
  obtain ⟨u, idle⟩ := sound.idle
  obtain rfl : u = t := Option.some.inj (idle.tcb.symm.trans shows.tcb)
  have stat := idle.stat.symm.trans shows.stat
  rw [suspended] at stat
  have both := (flags_and_suspend true a.phase.flag).mp (stat ▸ by simp [Phase.flag])
  cases both

/-- A task is not suspended any more, and ready if it can be. -/
theorem Sound.resume (sound : k.Sound) (shows : (k.view p).Shows a t)
    (notIdle : p ≠ OS_TASK_IDLE_PRIO) {u : OsTcb Msg}
    (cleared : u = { t with osTCBStat := t.osTCBStat &&& ~~~OS_STAT_SUSPEND }) {k' : Ucos Msg}
    (suspended : a.suspended = true)
    (set : k' = if u.osTCBStat = OS_STAT_RDY ∧ u.osTCBDly = 0 then
      (k.setTcb p (some u)).makeReady p else k.setTcb p (some u)) :
    k'.Sound ∧ Touches p k k' ∧ (k'.view p).Shows ⟨false, a.phase⟩ u ∧
      k'.context = k.context := by
  have touches : Touches p k k' := by
    rw [set]
    split
    · exact (Touches.setTcb p _ k).trans (Touches.makeReady p _)
    · exact Touches.setTcb p _ k
  have context : k'.context = k.context := by
    rw [set]
    split <;> rfl
  have idle : ¬ (k.view p).ready := by
    rw [shows.ready, suspended]
    exact fun h => Bool.noConfusion h.1
  have after : k'.view p =
      { k.view p with
        tcb := some u
        ready := u.osTCBStat = OS_STAT_RDY ∧ u.osTCBDly = 0 } := by
    rw [set]
    split
    next can => simp [can]
    next cannot => simp [cannot, idle]
  have stat : u.osTCBStat = flags false a.phase.flag := by
    rw [cleared]
    show t.osTCBStat &&& ~~~OS_STAT_SUSPEND = _
    rw [shows.stat, flags_and_not_suspend]
  have dly : u.osTCBDly = a.phase.dly := by
    rw [cleared]
    exact shows.dly
  have shows' : (k'.view p).Shows ⟨false, a.phase⟩ u := by
    rw [after]
    refine ⟨rfl, stat, dly, ?_, ?_, ?_, shows.waits, shows.stands⟩
    · rw [cleared]
      exact shows.eventPtr
    · have result := shows.result
      rw [cleared]
      cases phase : a.phase <;> rw [phase] at result <;> exact result
    · show u.osTCBStat = OS_STAT_RDY ∧ u.osTCBDly = 0 ↔ false = false ∧ a.phase.Runnable
      rw [stat, flags_eq_rdy, dly]
      cases a.phase <;> simp [Phase.flag, Phase.dly, Phase.Runnable]
  refine ⟨?_, touches, shows', context⟩
  refine sound.shrink touches notIdle shows' ?_ (congrFun context _) fun j now => ?_
  · rw [shows.tcb]
    rfl
  · rw [after] at now
    exact now

/-! ## `OS_Sched` is called -/

/-- A task outside of a pend is in no wait list. -/
theorem pend_eq_none (shows : (k.view p).Shows a t) (runs : k.context p = .run) :
    a.phase.pend = none := by
  have runs : (k.view p).context = .run := runs
  have stands := shows.stands
  unfold Phase.Stands at stands
  cases pend : a.phase.pend with
  | none => rfl
  | some pair =>
      rw [pend] at stands
      rcases stands with h | h <;> rw [runs] at h <;> cases h

/-- Before an `OS_Sched` a task is in the phase it was in. -/
theorem shows_setSched (shows : (k.view p).Shows a t) (runs : k.context p = .run) :
    ((k.setContext p .sched).view p).Shows a t := by
  rw [view_setContext_self]
  refine ⟨shows.tcb, shows.stat, shows.dly, shows.eventPtr, shows.result, shows.ready,
    shows.waits, ?_⟩
  unfold Phase.Stands
  rw [pend_eq_none shows runs]
  exact Or.inr rfl

/-- A task outside of a pend calls the scheduler. -/
theorem Sound.setSched (sound : k.Sound) (notIdle : p ≠ OS_TASK_IDLE_PRIO)
    (runs : k.context p = .run) : (k.setContext p .sched).Sound := by
  have after := view_setContext_self k p .sched
  rcases sound.tasks p with absent | ⟨a, t, shows⟩
  · have ok : ((k.setContext p .sched).view p).Absent := by
      rw [after]
      exact ⟨absent.tcb, absent.ready, absent.waits⟩
    refine sound.touch (Touches.setContext p _ k) notIdle (Or.inl ok) ?_
      (fun j now => (ok.waits j now).elim) fun j now => (ok.waits j now).elim
    rw [ok.tcb, absent.tcb]
  · have none (j : EventId) : ¬ (k.view p).waits j := by
      intro waits
      obtain ⟨s, pend⟩ := Phase.pend_of_waitsFor ((shows.waits j).mp waits)
      rw [pend_eq_none shows runs] at pend
      cases pend
    have shows' := shows_setSched shows runs
    refine sound.touch (Touches.setContext p _ k) notIdle shows'.ok ?_ ?_ ?_
    · rw [shows'.tcb, shows.tcb]
    · intro j now
      rw [after] at now
      exact (none j now).elim
    · intro j now
      rw [after] at now
      exact (none j now).elim

/-- From an interrupt nothing is done, and a task goes on behind its `OS_Sched`. -/
theorem Sound.callOsSched (sound : k.Sound)
    (task : k.osIntNesting = 0 →
      k.osPrioCur ≠ OS_TASK_IDLE_PRIO ∧ k.context k.osPrioCur = .run) : k.callOsSched.Sound := by
  unfold Ucos.callOsSched
  split
  next level => exact sound.setSched (task level).1 (task level).2
  next => exact sound

end Ucos

end Stm32Robot.Kernel
