/-
# Kernel.Delays -- delays and timeouts are counted in ticks

A task that calls `OSTimeDly` is kept from running for exactly as many ticks as it asks for,
whatever the other tasks and the interrupts do meanwhile (`Reachable.sleeps`), and a pend comes
back with a timeout after that many ticks and not before (`Reachable.pend_timeout`).
-/
import Stm32Robot.Kernel.Phases

namespace Stm32Robot.Kernel

open Stm32Robot.Theory
open Stm32Robot.Theory.PartialRun

set_option autoImplicit false

variable {Msg : Type}

theorem ticks_concat (log : List (Entry Msg)) (x : Entry Msg) :
    ticks (log ++ [x]) = ticks log + if x.act.isTick then 1 else 0 := by
  unfold ticks
  rw [List.countP_append, List.countP_singleton]

namespace Ucos

variable {k k' k₁ : Ucos Msg} {p q : Prio} {e : EventId} {s : Service} {a : Task Msg}
  {t : OsTcb Msg} {act : Action Msg} {r : Reply Msg} {acts : List (Action Msg)}
  {log : List (Entry Msg)} {n : Nat}

/-- Nobody ends the delay of the task or deletes it. -/
def Lets (p : Prio) (x : Entry Msg) : Prop :=
  x.act ≠ .call (.osTimeDlyResume p) ∧ x.act ≠ .call (.osTaskDel p)

/-! ## Delays -/

/-- The task sleeps for `d` ticks more, or its delay is over. -/
def Sleeping (p : Prio) (d : Nat) (k : Ucos Msg) : Prop :=
  ∃ b t, (k.view p).Shows ⟨b, .active d⟩ t

theorem isTick_of_ne (noTick : act ≠ .osTimeTick) : act.isTick = false := by
  cases act <;> first | rfl | exact absurd rfl noTick

theorem Turns.of_asleep {who : Option Prio} {x : Phase Msg} {d : Nat}
    (turns : Turns who p act (.active d) x) (lets : act ≠ .call (.osTimeDlyResume p))
    (asleep : 0 < d) : x = .active (d - if act.isTick then 1 else 0) := by
  generalize phase : (Phase.active d : Phase Msg) = y at turns
  cases turns with
  | call goes =>
      cases goes with
      | stay => exact phase ▸ rfl
      | sleep n self sleeps =>
          cases phase
          exact absurd asleep (Nat.lt_irrefl 0)
      | wait self pends =>
          cases phase
          exact absurd asleep (Nat.lt_irrefl 0)
      | served serves waits pend =>
          subst phase
          cases waits
      | aborted aborts waits pend =>
          subst phase
          cases waits
      | hurried x hurries => exact absurd (congrArg Action.call hurries) lets
  | stay x noTick =>
      rw [isTick_of_ne noTick]
      exact phase.symm
  | tail self pend =>
      subst phase
      exact absurd rfl pend
  | tick x =>
      subst phase
      rfl

theorem Inv.sleeping_step (inv : k.Inv) {d : Nat} (sleeping : k.Sleeping p d) (asleep : 0 < d)
    (lets : Lets p ⟨k.who, act, r⟩) (stepped : k.step act = some (k', r)) :
    k'.Sleeping p (d - if act.isTick then 1 else 0) := by
  obtain ⟨b, t, shows⟩ := sleeping
  obtain ⟨notResume, notDel⟩ := lets
  rcases (inv.turns stepped).tasks p _ t shows with gone | ⟨⟨b', x⟩, u, shows', turns⟩
  · exact absurd gone notDel
  · obtain rfl := Turns.of_asleep turns notResume asleep
    exact ⟨b', u, shows'⟩

theorem callOsSched_eq (level : k.osIntNesting = 0) :
    k.callOsSched = k.setContext k.osPrioCur .sched := if_pos level

/-- The task that calls `OSTimeDly` sleeps from then on. -/
theorem Inv.sleeping_osTimeDly (inv : k.Inv) (may : k.MayCall) (level : k.osIntNesting = 0)
    (unlocked : k.osLockNesting = 0) (positive : 0 < n) :
    (k.osTimeDly n).Sleeping k.osPrioCur n := by
  obtain ⟨notIdle, runs, -⟩ := may level
  obtain ⟨t, shows⟩ := inv.caller level unlocked runs
  have found : (k.makeUnready k.osPrioCur).osTCBPrioTbl
      (k.makeUnready k.osPrioCur).osPrioCur = some t := shows.tcb
  obtain ⟨-, touches, ⟨u, after⟩, context⟩ := inv.sound.sleep shows notIdle positive rfl
  have runs' := (congrFun context k.osPrioCur).trans runs
  unfold Ucos.osTimeDly
  rw [if_neg (by omega), if_neg (by omega), if_pos positive]
  dsimp only
  rw [found]
  have called := callOsSched_eq (touches.intNesting.trans level)
  refine ⟨false, u, ?_⟩
  rw [← touches.prioCur] at after runs' ⊢
  exact called ▸ shows_setSched after runs'

/-- `OSTimeDly(n)` keeps the task from running until the `n`-th tick, and not longer: the ticks
that are left are in `OSTCBDly`, and with the last one the task is ready, unless it has been
suspended meanwhile. -/
theorem Reachable.sleeps (reachable : k.Reachable) (level : k.osIntNesting = 0)
    (unlocked : k.osLockNesting = 0) (positive : 0 < n)
    (called : k.step (.call (.osTimeDly n)) = some (k₁, r))
    (ran : runPartial logged (k₁, []) acts = some (k', log))
    (lets : ∀ x ∈ log, Lets k.osPrioCur x) :
    (ticks log < n → ∃ t, k'.osTCBPrioTbl k.osPrioCur = some t ∧ t.osTCBDly = n - ticks log ∧
        ¬ PrioSet.Has k'.rdy k.osPrioCur) ∧
      (ticks log + 1 = n → ∀ k'' r', k'.step .osTimeTick = some (k'', r') →
        ∃ t, k''.osTCBPrioTbl k.osPrioCur = some t ∧ t.osTCBDly = 0 ∧
          (PrioSet.Has k''.rdy k.osPrioCur ↔ t.osTCBStat &&& OS_STAT_SUSPEND = OS_STAT_RDY)) := by
  have inv := reachable.inv
  have inv₁ := inv.step called
  obtain ⟨⟨may, -⟩, performed⟩ := Option.ite_none_right_eq_some.mp called
  obtain rfl : k.osTimeDly n = k₁ := congrArg Prod.fst (Option.some.inj performed)
  have asleep : ticks log < n → k'.Sleeping k.osPrioCur (n - ticks log) := by
    let P (k₂ : Ucos Msg) (log : List (Entry Msg)) : Prop :=
      ticks log < n → k₂.Sleeping k.osPrioCur (n - ticks log)
    have start : P (k.osTimeDly n) [] := fun _ => inv.sleeping_osTimeDly may level unlocked positive
    refine @logged_invariant _ _ _ P _ (fun k₂ log act k₃ r inv₂ before lets stepped early => ?_)
      inv₁ start _ _ ran lets
    rw [ticks_concat] at early ⊢
    rw [← Nat.sub_sub]
    exact inv₂.sleeping_step (before (by omega)) (by omega) lets stepped
  have inv' : k'.Inv := inv₁.logs ran
  constructor
  · intro early
    obtain ⟨b, t, shows⟩ := asleep early
    refine ⟨t, shows.tcb, shows.dly, fun ready => ?_⟩
    have ended : n - ticks log = 0 := (shows.ready.mp ready).2
    omega
  · intro last k'' r' stepped
    have sleeping := asleep (by omega)
    rw [show n - ticks log = 1 by omega] at sleeping
    have tick : Lets k.osPrioCur (⟨k'.who, .osTimeTick, r'⟩ : Entry Msg) := ⟨nofun, nofun⟩
    obtain ⟨b, t, shows⟩ := inv'.sleeping_step sleeping Nat.one_pos tick stepped
    refine ⟨t, shows.tcb, shows.dly, ?_⟩
    rw [shows.stat, flags_and_suspend]
    exact shows.ready.trans (and_iff_left rfl)

/-- A task of priority 2 has slept for one of two ticks. -/
theorem sleeps_two : ∃ k' log,
    runPartial logged ((boot [.osTaskCreate 2] : Ucos Nat).osTimeDly 2, [])
      [.osSched, .osIntEnter, .osTimeTick] = some (k', log) ∧
    (ticks log < 2 → ∃ t, k'.osTCBPrioTbl 2 = some t ∧ t.osTCBDly = 2 - ticks log ∧
        ¬ PrioSet.Has k'.rdy 2) ∧
      (ticks log + 1 = 2 → ∀ k'' r', k'.step .osTimeTick = some (k'', r') →
        ∃ t, k''.osTCBPrioTbl 2 = some t ∧ t.osTCBDly = 0 ∧
          (PrioSet.Has k''.rdy 2 ↔ t.osTCBStat &&& OS_STAT_SUSPEND = OS_STAT_RDY)) := by
  have all : (runPartial logged ((boot [.osTaskCreate 2] : Ucos Nat).osTimeDly 2, [])
    [.osSched, .osIntEnter, .osTimeTick]).isSome := by decide +kernel
  obtain ⟨⟨k', log⟩, ran⟩ := Option.isSome_iff_exists.mp all
  have cur : (boot [.osTaskCreate 2] : Ucos Nat).osPrioCur = 2 := by decide +kernel
  have lets : ∀ x ∈ log, Lets (boot [.osTaskCreate 2] : Ucos Nat).osPrioCur x := fun x mem => by
    have act := act_mem ran mem
    simp only [List.mem_cons, List.not_mem_nil, or_false] at act
    rcases act with h | h | h <;> rw [Lets, h] <;> exact ⟨nofun, nofun⟩
  have called : (boot [.osTaskCreate 2] : Ucos Nat).step (.call (.osTimeDly 2)) =
      some ((boot [.osTaskCreate 2] : Ucos Nat).osTimeDly 2, .nothing) :=
    step_call (by decide +kernel) trivial
  have slept := Reachable.sleeps ⟨_, [], rfl⟩ (by decide +kernel) (by decide +kernel)
    (by decide) called ran lets
  rw [cur] at slept
  exact ⟨k', log, ran, slept⟩

/-! ## Timeouts -/

/-- The phase of a task `j` ticks after it began to wait, for `n` ticks or (with 0) for ever. -/
inductive Since (e : EventId) (s : Service) (n j : Nat) : Phase Msg → Prop where
  | forever (never : n = 0) : Since e s n j (.pending e s 0)
  | counting {d : Nat} (more : 0 < d) (count : j + d = n) : Since e s n j (.pending e s d)
  | due (positive : 0 < n) (late : n ≤ j) : Since e s n j (.due e s)
  | served (pmsg : Option Msg) : Since e s n j (.served e s pmsg)
  | aborted : Since e s n j (.aborted e s)

theorem Since.pend {j : Nat} {x : Phase Msg} (since : Since e s n j x) :
    x.pend = some (e, s) := by
  cases since <;> rfl

/-- With the time up the wait is over. -/
theorem Since.runnable {j : Nat} {x : Phase Msg} (since : Since e s n j x) (positive : 0 < n)
    (late : n ≤ j) : x.Runnable := by
  cases since with
  | forever never => omega
  | counting more count => omega
  | due | served | aborted => trivial

/-- Besides, it does not end its pend. -/
def Waits (p : Prio) (x : Entry Msg) : Prop :=
  Lets p x ∧ (x.act = .pendTail → x.who ≠ some p)

theorem Since.turn {j : Nat} {x y : Phase Msg} (since : Since e s n j x)
    (waits : Waits p ⟨k.who, act, r⟩) (turns : Turns k.who p act x y) :
    Since e s n (j + if act.isTick then 1 else 0) y := by
  obtain ⟨⟨notResume, -⟩, notTail⟩ := waits
  cases turns with
  | call goes =>
      cases goes with
      | stay => exact since
      | sleep => cases since
      | wait => cases since
      | served serves waits pend =>
          obtain ⟨rfl, rfl⟩ : e = _ ∧ s = _ := by simpa using since.pend.symm.trans pend
          exact .served _
      | aborted aborts waits pend =>
          obtain ⟨rfl, rfl⟩ : e = _ ∧ s = _ := by simpa using since.pend.symm.trans pend
          exact .aborted
      | hurried x hurries => exact absurd (congrArg Action.call hurries) notResume
  | stay x noTick =>
      rw [isTick_of_ne noTick]
      exact since
  | tail self pend => exact absurd self (notTail rfl)
  | tick x =>
      cases since with
      | forever never => exact .forever never
      | @counting d more count =>
          show Since e s n (j + 1) (if d = 1 then .due e s else .pending e s (d - 1))
          split
          next last => exact .due (by omega) (by omega)
          next more' => exact .counting (by omega) (by omega)
      | due positive late => exact .due positive (Nat.le_add_right_of_le late)
      | served pmsg => exact .served pmsg
      | aborted => exact .aborted

/-- A pend that has to wait comes back with nothing, at first. -/
theorem Inv.pends (inv : k.Inv) {c : Call Msg} (pends : c.Pends e s n)
    (called : k.step (.call c) = some (k₁, .nothing)) :
    ∃ t, (k₁.view k.osPrioCur).Shows ⟨false, .pending e s n⟩ t := by
  obtain ⟨⟨may, -⟩, performed⟩ := Option.ite_none_right_eq_some.mp called
  have performed' := Option.some.inj performed
  -- the first part of the pend, once it has come that far
  have waited (level : ¬ k.osIntNesting > 0) (unlocked : ¬ k.osLockNesting > 0)
      (type : (k.event e).osEventType = some s) (exhausted : (k.event e).Exhausted) :
      ∃ t, ((k.pendWait e s n).view k.osPrioCur).Shows ⟨false, .pending e s n⟩ t := by
    have level' : k.osIntNesting = 0 := by omega
    obtain ⟨notIdle, runs, -⟩ := may level'
    obtain ⟨t, shows⟩ := inv.caller level' (by omega) runs
    obtain ⟨-, -, after, -⟩ := inv.sound.pendWait shows notIdle type exhausted n
    exact after
  cases pends with
  | q =>
      have performed'' : k.osQPend e n = (k₁, .nothing) := performed'
      unfold Ucos.osQPend at performed''
      split at performed''
      · cases performed''
      next type =>
        have type := some_of_not_ne type
        split at performed''
        · cases performed''
        next level =>
          split at performed''
          · cases performed''
          next unlocked =>
            split at performed''
            · cases performed''
            next empty =>
              cases performed''
              refine waited level unlocked type ⟨fun _ => OsQ.take_eq_none_iff.mp empty,
                fun other => ?_⟩
              rw [type] at other
              cases other
  | sem =>
      have performed'' : k.osSemPend e n = (k₁, .nothing) := performed'
      unfold Ucos.osSemPend at performed''
      split at performed''
      · cases performed''
      next type =>
        have type := some_of_not_ne type
        split at performed''
        · cases performed''
        next level =>
          split at performed''
          · cases performed''
          next unlocked =>
            split at performed''
            · cases performed''
            next zero =>
              cases performed''
              refine waited level unlocked type ⟨fun other => ?_, fun _ => by omega⟩
              rw [type] at other
              cases other

/-- While a task is in a pend: with its time up it can run, unless it is suspended; and the pend
comes back with a timeout only when its time is up, so never where it was to wait for ever. -/
theorem Reachable.pend_timeout (reachable : k.Reachable) {c : Call Msg} (pends : c.Pends e s n)
    (called : k.step (.call c) = some (k₁, .nothing))
    (ran : runPartial logged (k₁, []) acts = some (k', log))
    (waits : ∀ x ∈ log, Waits k.osPrioCur x) :
    (0 < n → n ≤ ticks log → ∃ t, k'.osTCBPrioTbl k.osPrioCur = some t ∧
        (PrioSet.Has k'.rdy k.osPrioCur ↔ t.osTCBStat &&& OS_STAT_SUSPEND = OS_STAT_RDY)) ∧
      ∀ k'' j i pmsg, k'.who = some k.osPrioCur →
        k'.step .pendTail = some (k'', .pended j i pmsg .timeout) →
        (j, i) = (e, s) ∧ 0 < n ∧ n ≤ ticks log := by
  have inv := reachable.inv
  have inv₁ := inv.step called
  have inv' : k'.Inv := inv₁.logs ran
  let P (k₂ : Ucos Msg) (log : List (Entry Msg)) : Prop :=
    ∃ a t, (k₂.view k.osPrioCur).Shows a t ∧ Since e s n (ticks log) a.phase
  have start : P k₁ [] := by
    obtain ⟨t, shows⟩ := inv.pends pends called
    refine ⟨_, t, shows, ?_⟩
    rcases Nat.eq_zero_or_pos n with rfl | positive
    · exact .forever rfl
    · exact .counting positive (Nat.zero_add n)
  have since : P k' log := by
    refine @logged_invariant _ _ _ P _ (fun k₂ log act k₃ r inv₂ before waits stepped => ?_)
      inv₁ start _ _ ran waits
    obtain ⟨a, t, shows, since⟩ := before
    rcases (inv₂.turns stepped).tasks _ a t shows with gone | ⟨a', u, shows', turns⟩
    · exact absurd gone waits.1.2
    · refine ⟨a', u, shows', ?_⟩
      rw [ticks_concat]
      exact since.turn waits turns
  obtain ⟨a, t, shows, since⟩ := since
  constructor
  · intro positive late
    refine ⟨t, shows.tcb, ?_⟩
    rw [shows.stat, flags_and_suspend]
    refine shows.ready.trans (and_iff_left ?_)
    exact since.runnable positive late
  · intro k'' j i pmsg self stepped
    obtain ⟨level, performed⟩ := Option.ite_none_right_eq_some.mp stepped
    have cur : k'.osPrioCur = k.osPrioCur := by
      have self' : (if k'.osIntNesting = 0 then some k'.osPrioCur else none) =
        some k.osPrioCur := self
      rw [if_pos level] at self'
      exact Option.some.inj self'
    rw [← cur] at shows
    split at performed
    next e' s' context =>
      obtain ⟨notIdle, ready, -⟩ := inv'.pendEnds level context
      have pend := Phase.pend_eq_of_stands shows.stands (Or.inr context)
      obtain ⟨rfl, rfl⟩ : e = e' ∧ s = s' := by simpa using since.pend.symm.trans pend
      obtain ⟨-, -, -, -, -, reply⟩ := inv'.sound.osPendTail shows ready notIdle pend
      have came := congrArg Prod.snd (Option.some.inj performed)
      rw [reply] at came
      have came' : tailReply e s a.phase = .pended j i pmsg .timeout := came
      have runnable : a.phase.Runnable := (shows.ready.mp ready).2
      generalize a.phase = x at since came' runnable
      cases since with
      | forever | counting => exact runnable.elim
      | due positive late =>
          cases came'
          exact ⟨rfl, positive, late⟩
      | served | aborted => cases came'
    next => cases performed

/-- The two ticks for which a task waits, and the end of their interrupts. -/
def twoTicks : List (Action Nat) :=
  [.osSched, .osIntEnter, .osTimeTick, .osIntExit, .osIntEnter, .osTimeTick, .osIntExit]

/-- The task of priority 2 waits for a message, and after two ticks it comes back without one. -/
theorem pend_timeout_two : ∃ (k' k'' : Ucos Nat) (log : List (Entry Nat)),
    runPartial logged (((boot [.osTaskCreate 2, .osQCreate (fun _ => none) 4]).osQPend 2 2).1, [])
      twoTicks = some (k', log) ∧
    ticks log = 2 ∧ k'.step .pendTail = some (k'', .pended 2 .q none .timeout) ∧
    (∃ t, k'.osTCBPrioTbl 2 = some t ∧
      (PrioSet.Has k'.rdy 2 ↔ t.osTCBStat &&& OS_STAT_SUSPEND = OS_STAT_RDY)) ∧
    ((2, .q) : EventId × Service) = (2, .q) ∧ 0 < 2 ∧ 2 ≤ ticks log := by
  have all : (runPartial logged
      (((boot [.osTaskCreate 2, .osQCreate (fun _ => none) 4] : Ucos Nat).osQPend 2 2).1, [])
      twoTicks).map (fun s => (ticks s.2, s.1.who, (s.1.step .pendTail).map Prod.snd)) =
        some (2, some 2, some (.pended 2 .q none .timeout)) := by decide +kernel
  obtain ⟨⟨k', log⟩, ran, fields⟩ := Option.map_eq_some_iff.mp all
  simp only [Prod.mk.injEq] at fields
  obtain ⟨count, self, ends⟩ := fields
  obtain ⟨⟨k'', r⟩, stepped, rfl⟩ := Option.map_eq_some_iff.mp ends
  have cur : (boot [.osTaskCreate 2, .osQCreate (fun _ => none) 4] : Ucos Nat).osPrioCur = 2 := by
    decide +kernel
  have waits : ∀ x ∈ log, Waits
      (boot [.osTaskCreate 2, .osQCreate (fun _ => none) 4] : Ucos Nat).osPrioCur x := by
    intro x mem
    have act := act_mem ran mem
    simp only [twoTicks, List.mem_cons, List.not_mem_nil, or_false] at act
    rcases act with h | h | h | h | h | h | h <;> rw [Waits, Lets, h] <;>
      exact ⟨⟨nofun, nofun⟩, nofun⟩
  have called : (boot [.osTaskCreate 2, .osQCreate (fun _ => none) 4] : Ucos Nat).step
      (.call (.osQPend 2 2)) = some
        (((boot [.osTaskCreate 2, .osQCreate (fun _ => none) 4] : Ucos Nat).osQPend 2 2).1,
          .nothing) := step_call (by decide +kernel) trivial
  have timed := Reachable.pend_timeout ⟨_, [], rfl⟩ (.q 2 2) called ran waits
  rw [cur] at timed
  exact ⟨k', k'', log, ran, count, stepped, timed.1 (by decide) count.ge,
    timed.2 k'' 2 .q none self stepped⟩

end Ucos

end Stm32Robot.Kernel
