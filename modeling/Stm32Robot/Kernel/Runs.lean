/-
# Kernel.Runs -- what holds in every reachable state of the kernel

The kernel starts in a state with the invariant (`inv_boot`) and every action keeps it, so every
reachable state has it.  What the invariant says of the lists, of the scheduler and of the events
is said here in terms of the variables alone.
-/
import Stm32Robot.Kernel.Preserved

namespace Stm32Robot.Kernel

open Stm32Robot.Theory
open Stm32Robot.Theory.PartialRun

set_option autoImplicit false

variable {Msg : Type}

namespace Ucos

variable {k k' : Ucos Msg} {p q : Prio} {e : EventId} {s : Service} {a : Task Msg} {t : OsTcb Msg}

/-! ## Start -/

theorem absent_osInit (p : Prio) : ((osInit : Ucos Msg).view p).Absent :=
  ⟨rfl, PrioSet.not_has_empty p, fun _ => PrioSet.not_has_empty p⟩

theorem withIdle_eq : (withIdle : Ucos Msg) = osInit.created OS_TASK_IDLE_PRIO := rfl

theorem sound_withIdle : (withIdle : Ucos Msg).Sound := by
  rw [withIdle_eq]
  have idle := shows_createdTask (@absent_osInit Msg OS_TASK_IDLE_PRIO)
  have touches := touches_createdTask OS_TASK_IDLE_PRIO (osInit : Ucos Msg)
  have absent (p : Prio) (ne : p ≠ OS_TASK_IDLE_PRIO) :
      (((osInit : Ucos Msg).created OS_TASK_IDLE_PRIO).view p).Absent := by
    have same : ((osInit : Ucos Msg).created OS_TASK_IDLE_PRIO).view p = osInit.view p :=
      touches.view p ne
    rw [same]
    exact absent_osInit p
  have none (p : Prio) (j : EventId) :
      ¬ (((osInit : Ucos Msg).created OS_TASK_IDLE_PRIO).view p).waits j :=
    PrioSet.not_has_empty p
  refine ⟨fun p => ?_, fun p j waits => (none p j waits).elim, fun j => .of_unused rfl,
    fun _ _ => rfl, List.nodup_finRange 10, fun p => ?_, List.nodup_singleton _, ⟨[], rfl⟩,
    ⟨_, idle⟩, ?_⟩
  · by_cases same : p = OS_TASK_IDLE_PRIO
    · exact same ▸ idle.ok
    · exact Or.inl (absent p same)
  · show p ∈ [ OS_TASK_IDLE_PRIO] ↔ _
    rw [List.mem_singleton]
    constructor
    · rintro rfl
      show (((osInit : Ucos Msg).createdTask OS_TASK_IDLE_PRIO).view _).tcb.isSome
      rw [idle.tcb]
      rfl
    · intro found
      by_contra ne
      have gone : ((osInit : Ucos Msg).created OS_TASK_IDLE_PRIO).osTCBPrioTbl p = Option.none :=
        (absent p ne).tcb
      rw [gone] at found
      cases found
  · show Function.update (osInit : Ucos Msg).context OS_TASK_IDLE_PRIO Context.run
      OS_TASK_IDLE_PRIO = Context.run
    rw [Function.update_self]

/-- The kernel before `OSStart`. -/
structure Primed (k : Ucos Msg) : Prop where
  sound : k.Sound
  stopped : k.osRunning = false
  intNesting : k.osIntNesting = 0
  lockNesting : k.osLockNesting = 0
  runs : ∀ p, k.context p = .run

theorem primed_withIdle : (withIdle : Ucos Msg).Primed where
  sound := sound_withIdle
  stopped := rfl
  intNesting := rfl
  lockNesting := rfl
  runs p := by
    show Function.update (fun _ => Context.run) OS_TASK_IDLE_PRIO Context.run p = _
    by_cases same : p = OS_TASK_IDLE_PRIO
    · rw [same, Function.update_self]
    · rw [Function.update_of_ne same]

theorem Primed.osTaskCreate (primed : k.Primed) (p : Prio) : (k.osTaskCreate p).1.Primed := by
  have stopped := primed.stopped
  unfold Ucos.osTaskCreate
  split
  · exact primed
  · split
    · exact primed
    next absent =>
      split
      next =>
        dsimp only
        split
        next running =>
          have running' : k.osRunning = true := running
          rw [stopped] at running'
          cases running'
        next =>
          refine ⟨primed.sound.created absent, stopped, primed.intNesting, primed.lockNesting,
            fun q => ?_⟩
          show Function.update k.context p Context.run q = _
          by_cases same : q = p
          · rw [same, Function.update_self]
          · rw [Function.update_of_ne same, primed.runs]
      · exact primed

theorem Primed.setUp (primed : k.Primed) (x : Setup Msg) : (k.setUp x).Primed := by
  cases x with
  | osTaskCreate p => exact primed.osTaskCreate p
  | osQCreate start size =>
      show (k.osQCreate start size).1.Primed
      unfold Ucos.osQCreate
      split
      · exact primed
      · split
        · exact primed
        next e free first =>
          split
          · exact ⟨primed.sound.createEvent first waiting_empty (ok_newQueue start size) _,
              primed.stopped, primed.intNesting, primed.lockNesting, primed.runs⟩
          · exact primed
  | osSemCreate cnt =>
      show (k.osSemCreate cnt).1.Primed
      unfold Ucos.osSemCreate
      split
      · exact primed
      · split
        · exact primed
        next e free first =>
          exact ⟨primed.sound.createEvent first waiting_empty (ok_newSem (k.event e) cnt)
            k.osQFreeList, primed.stopped, primed.intNesting, primed.lockNesting, primed.runs⟩

theorem Primed.setUpAll (primed : k.Primed) (all : List (Setup Msg)) :
    (all.foldl Ucos.setUp k).Primed := by
  induction all generalizing k with
  | nil => exact primed
  | cons x all ih => exact ih (primed.setUp x)

/-- The first task is started with the invariant. -/
theorem inv_boot (setup : List (Setup Msg)) : (boot setup).Inv := by
  have primed := (@primed_withIdle Msg).setUpAll
    (Setup.osTaskCreate OS_TASK_STAT_PRIO :: osTmrInit ++ setup)
  unfold boot osStart
  dsimp only
  rw [if_neg (show ¬ _ = true by rw [primed.stopped]; exact Bool.false_ne_true)]
  exact ⟨primed.sound.same ⟨rfl, rfl, rfl, rfl, rfl, rfl⟩,
    ⟨fun _ _ _ => rfl, fun _ _ _ => primed.lockNesting⟩, rfl⟩

/-! ## Reachable states -/

theorem next_eq_some {act : Action Msg} (stepped : k.next act = some k') :
    ∃ r, k.step act = some (k', r) := by
  obtain ⟨⟨k'', r⟩, stepped', rfl⟩ := Option.map_eq_some_iff.mp stepped
  exact ⟨r, stepped'⟩

theorem Inv.runs (inv : k.Inv) {acts : List (Action Msg)}
    (ran : runPartial next k acts = some k') : k'.Inv := by
  refine runPartial_invariant (P := Ucos.Inv) (fun k₁ act k₂ before stepped => ?_) inv ran
  obtain ⟨r, stepped'⟩ := next_eq_some stepped
  exact before.step stepped'

theorem Reachable.inv (reachable : k.Reachable) : k.Inv := by
  obtain ⟨setup, acts, ran⟩ := reachable
  exact (inv_boot setup).runs ran

/-- What each step of a kind keeps holds after a run of such steps. -/
theorem logged_invariant {P : Ucos Msg → List (Entry Msg) → Prop} {good : Entry Msg → Prop}
    (kept : ∀ (k : Ucos Msg) log act k' r, k.Inv → P k log → good ⟨k.who, act, r⟩ →
      k.step act = some (k', r) → P k' (log ++ [⟨k.who, act, r⟩]))
    (inv : k.Inv) (start : P k []) {acts : List (Action Msg)} {log : List (Entry Msg)}
    (ran : runPartial logged (k, []) acts = some (k', log)) (all : ∀ x ∈ log, good x) :
    P k' log := by
  let Q (s : Ucos Msg × List (Entry Msg)) : Prop := s.1.Inv ∧ ((∀ x ∈ s.2, good x) → P s.1 s.2)
  have step (s : Ucos Msg × List (Entry Msg)) (act : Action Msg) (s' : Ucos Msg × List (Entry Msg))
      (before : Q s) (stepped : logged s act = some s') : Q s' := by
    obtain ⟨⟨k₁, r⟩, stepped', rfl⟩ := Option.map_eq_some_iff.mp stepped
    refine ⟨before.1.step stepped', fun all => ?_⟩
    rw [List.forall_mem_append] at all
    exact kept s.1 s.2 act k₁ r before.1 (before.2 all.1)
      (all.2 _ (List.mem_singleton_self _)) stepped'
  have start' : Q (k, []) := ⟨inv, fun _ => start⟩
  exact (runPartial_invariant step start' ran).2 all

theorem Inv.logs (inv : k.Inv) {acts : List (Action Msg)} {log log' : List (Entry Msg)}
    (ran : runPartial logged (k, log) acts = some (k', log')) : k'.Inv := by
  have step (s : Ucos Msg × List (Entry Msg)) (act : Action Msg) (s' : Ucos Msg × List (Entry Msg))
      (before : s.1.Inv) (stepped : logged s act = some s') : s'.1.Inv := by
    obtain ⟨⟨k₁, r⟩, stepped', rfl⟩ := Option.map_eq_some_iff.mp stepped
    exact before.step stepped'
  exact runPartial_invariant (P := fun s => s.1.Inv) step inv ran

/-- The log has the actions of the run, in their order. -/
theorem acts_logged {acts : List (Action Msg)} {log log' : List (Entry Msg)}
    (ran : runPartial logged (k, log) acts = some (k', log')) :
    log'.map Entry.act = log.map Entry.act ++ acts := by
  induction acts generalizing k log with
  | nil =>
      cases ran
      exact (List.append_nil _).symm
  | cons act acts ih =>
      obtain ⟨⟨k₁, log₁⟩, stepped, rest⟩ := Option.bind_eq_some_iff.mp ran
      obtain ⟨⟨k₂, r⟩, -, written⟩ := Option.map_eq_some_iff.mp stepped
      cases written
      rw [ih rest, List.map_append, List.append_assoc]
      rfl

theorem act_mem {acts : List (Action Msg)} {log : List (Entry Msg)}
    (ran : runPartial logged (k, []) acts = some (k', log)) {x : Entry Msg} (mem : x ∈ log) :
    x.act ∈ acts := by
  have act : x.act ∈ log.map Entry.act := List.mem_map_of_mem mem
  rw [acts_logged ran] at act
  exact act

/-! ## The lists -/

/-- Nothing keeps the task from running. -/
def CanRun (k : Ucos Msg) (p : Prio) : Prop :=
  ∃ t, k.osTCBPrioTbl p = some t ∧ t.osTCBStat = OS_STAT_RDY ∧ t.osTCBDly = 0

theorem Sound.ready_iff (sound : k.Sound) : PrioSet.Has k.rdy p ↔ k.CanRun p := by
  show (k.view p).ready ↔ _
  rcases sound.tasks p with absent | ⟨a, t, shows⟩
  · refine iff_of_false absent.ready ?_
    rintro ⟨t, found, -⟩
    have gone : k.osTCBPrioTbl p = none := absent.tcb
    rw [gone] at found
    cases found
  · have found : k.osTCBPrioTbl p = some t := shows.tcb
    have can : k.CanRun p ↔ t.osTCBStat = OS_STAT_RDY ∧ t.osTCBDly = 0 := by
      unfold CanRun
      rw [found]
      simp
    rw [can, shows.ready, shows.stat, shows.dly, flags_eq_rdy]
    cases a.phase <;> simp [Phase.flag, Phase.dly, Phase.Runnable]

/-- The ready list is exact. -/
theorem Reachable.ready_exact (reachable : k.Reachable) (p : Prio) :
    PrioSet.Has k.rdy p ↔
      ∃ t, k.osTCBPrioTbl p = some t ∧ t.osTCBStat = OS_STAT_RDY ∧ t.osTCBDly = 0 :=
  reachable.inv.sound.ready_iff

/-- Three tasks and a queue. -/
def threeTasks (p q r : Prio) : List (Setup Nat) :=
  [.osTaskCreate p, .osTaskCreate q, .osTaskCreate r, .osQCreate (fun _ => none) 4]

/-- The first task waits for a message, the timer task sleeps for a tick, the second task suspends
the third, `r`, and sleeps for three, and a tick wakes the timer task. -/
def mixedRun (e : EventId) (r : Prio) : List (Action Nat) :=
  [.call (.osQPend e 0), .osSched, .call (.osTimeDly 1), .osSched, .call (.osTaskSuspend r),
    .call (.osTimeDly 3), .osSched, .osIntEnter, .osTimeTick, .osIntExit]

theorem ready_exact_mixed : ∃ k : Ucos Nat,
    runPartial next (boot (threeTasks 2 4 5)) (mixedRun 2 5) = some k ∧
    (List.finRange 64).filter (fun p => PrioSet.Has k.rdy p) = [3, 62, 63] ∧
    ∀ p, PrioSet.Has k.rdy p ↔
      ∃ t, k.osTCBPrioTbl p = some t ∧ t.osTCBStat = OS_STAT_RDY ∧ t.osTCBDly = 0 := by
  have all : (runPartial next (boot (threeTasks 2 4 5)) (mixedRun 2 5)).map (fun k =>
      (List.finRange 64).filter fun p => PrioSet.Has k.rdy p) = some [3, 62, 63] := by
    decide +kernel
  obtain ⟨k, ran, ready⟩ := Option.map_eq_some_iff.mp all
  exact ⟨k, ran, ready, Reachable.ready_exact ⟨_, _, ran⟩⟩

/-- A task is in the wait list of the event its `OSTCBEventPtr` names, and of no other, until it
is woken; where its time is up, until it runs. -/
theorem Reachable.waiting_iff (reachable : k.Reachable) (p : Prio) (e : EventId) :
    PrioSet.Has (k.event e).waiting p ↔
      ∃ t, k.osTCBPrioTbl p = some t ∧ t.osTCBEventPtr = some e ∧
        (t.osTCBStat &&& OS_STAT_PEND_ANY ≠ OS_STAT_RDY ∨ t.osTCBStatPend = .timeout) := by
  show (k.view p).waits e ↔ _
  rcases reachable.inv.sound.tasks p with absent | ⟨a, t, shows⟩
  · refine iff_of_false (absent.waits e) ?_
    rintro ⟨t, found, -⟩
    have gone : k.osTCBPrioTbl p = none := absent.tcb
    rw [gone] at found
    cases found
  · have found : k.osTCBPrioTbl p = some t := shows.tcb
    have flag : t.osTCBStat &&& OS_STAT_PEND_ANY = OS_STAT_RDY ↔ a.phase.flag = none := by
      rw [shows.stat, flags_and_pendAny]
    have result := shows.result
    have eventPtr := shows.eventPtr
    rw [shows.waits]
    simp only [found, Option.some.injEq, exists_eq_left', ne_eq, flag, eventPtr]
    cases phase : a.phase with
    | active d => simp [Phase.waitsFor, Phase.pend]
    | pending j s d => simp [Phase.waitsFor, Phase.pend, Phase.flag]
    | due j s =>
        rw [phase] at result
        have late : t.osTCBStatPend = .timeout := result
        simp [Phase.waitsFor, Phase.pend, late]
    | served j s pmsg =>
        rw [phase] at result
        have given : t.osTCBStatPend = .ok := result.1
        simp [Phase.waitsFor, Phase.flag, given]
    | aborted j s =>
        rw [phase] at result
        have given : t.osTCBStatPend = .abort := result
        simp [Phase.waitsFor, Phase.flag, given]

/-- The task of priority 2 waits for a message. -/
theorem waiting_iff_pend : ∃ k : Ucos Nat,
    runPartial next (boot [.osTaskCreate 2, .osQCreate (fun _ => none) 4])
      [.call (.osQPend 2 0), .osSched] = some k ∧
    (PrioSet.Has (k.event 2).waiting 2 ↔
      ∃ t, k.osTCBPrioTbl 2 = some t ∧ t.osTCBEventPtr = some 2 ∧
        (t.osTCBStat &&& OS_STAT_PEND_ANY ≠ OS_STAT_RDY ∨ t.osTCBStatPend = .timeout)) := by
  have all : (runPartial next (boot [.osTaskCreate 2, .osQCreate (fun _ => none) 4] : Ucos Nat)
    [.call (.osQPend 2 0), .osSched]).isSome := by decide +kernel
  obtain ⟨k, ran⟩ := Option.isSome_iff_exists.mp all
  exact ⟨k, ran, Reachable.waiting_iff ⟨_, _, ran⟩ 2 2⟩

/-- Nothing waits for an event that has a message or a count to give, or that is free. -/
theorem Reachable.nobody_waits (reachable : k.Reachable) (e : EventId)
    (gives : match (k.event e).osEventType with
      | some .q => 0 < (k.event e).osEventPtr.osQEntries
      | some .sem => 0 < (k.event e).osEventCnt
      | none => True) (p : Prio) : ¬ PrioSet.Has (k.event e).waiting p := by
  have sound := reachable.inv.sound
  refine PrioSet.grp_eq_zero_iff.mp ?_ p
  split at gives
  next type =>
    refine (sound.events e).queue type fun empty => ?_
    have := OsQ.contents_eq_nil_iff.mp empty
    omega
  next type => exact (sound.events e).sem type gives
  next type => exact sound.waiting_eq_zero type

/-- The queue has a message. -/
theorem nobody_waits_post : ∃ k : Ucos Nat,
    runPartial next (boot [.osTaskCreate 2, .osQCreate (fun _ => none) 4])
      [.call (.osQPost 2 (some 7))] = some k ∧ ∀ p, ¬ PrioSet.Has (k.event 2).waiting p := by
  have all : (runPartial next (boot [.osTaskCreate 2, .osQCreate (fun _ => none) 4] : Ucos Nat)
      [.call (.osQPost 2 (some 7))]).map (fun k =>
        ((k.event 2).osEventType, (k.event 2).osEventPtr.osQEntries)) = some (some .q, 1) := by
    decide +kernel
  obtain ⟨k, ran, fields⟩ := Option.map_eq_some_iff.mp all
  obtain ⟨type, entries⟩ := Prod.mk.inj fields
  refine ⟨k, ran, Reachable.nobody_waits ⟨_, _, ran⟩ 2 ?_⟩
  rw [type]
  show 0 < _
  rw [entries]
  decide

/-! ## The scheduler -/

/-- Outside of interrupts, with the scheduler not locked and no `OS_Sched` to come, the task that
runs can run, and no task of higher priority can. -/
theorem Reachable.highest_runs (reachable : k.Reachable) (level : k.osIntNesting = 0)
    (unlocked : k.osLockNesting = 0) (rests : ¬ AtSched (k.context k.osPrioCur)) :
    k.CanRun k.osPrioCur ∧ ∀ q, k.CanRun q → k.osPrioCur ≤ q := by
  have inv := reachable.inv
  refine ⟨inv.sound.ready_iff.mp (inv.current level unlocked rests), fun q can => ?_⟩
  rw [inv.scheduled.highest level unlocked rests]
  exact PrioSet.highest_le (inv.sound.ready_iff.mpr can)

theorem highest_runs_mixed : ∃ k : Ucos Nat,
    runPartial next (boot (threeTasks 2 4 5)) (mixedRun 2 5) = some k ∧
    k.osPrioCur = 3 ∧ k.CanRun k.osPrioCur ∧ ∀ q, k.CanRun q → k.osPrioCur ≤ q := by
  have all : (runPartial next (boot (threeTasks 2 4 5)) (mixedRun 2 5)).map (fun k =>
      (k.osIntNesting, k.osLockNesting, k.osPrioCur, decide (AtSched (k.context k.osPrioCur)))) =
        some (0, 0, 3, false) := by
    decide +kernel
  obtain ⟨k, ran, fields⟩ := Option.map_eq_some_iff.mp all
  simp only [Prod.mk.injEq, decide_eq_false_iff_not] at fields
  obtain ⟨level, unlocked, cur, rests⟩ := fields
  exact ⟨k, ran, cur, Reachable.highest_runs ⟨_, _, ran⟩ level unlocked rests⟩

end Ucos

end Stm32Robot.Kernel
