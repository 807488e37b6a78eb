/-
# Kernel.Transitions -- how a task goes from one phase to another

`Sound.osEventTaskRdy` wakes the highest priority that waits for an event, `Sound.osEventAllRdy`
all of them, and `Sound.tickTask` counts one tick of a delay or a timeout.  `Sound.pendWait` puts
the current task to wait, and `Sound.osPendTail` ends its pend.
-/
import Mathlib.Data.Finset.Card
import Mathlib.Data.Fintype.Basic
import Stm32Robot.Kernel.Invariant

namespace Stm32Robot.Kernel

open Stm32Robot.Theory

set_option autoImplicit false

variable {Msg : Type}

namespace Ucos

variable {k k' : Ucos Msg} {p : Prio} {e : EventId} {s : Service} {a : Task Msg} {t : OsTcb Msg}
  {pmsg : Option Msg}

section At

variable (k : Ucos Msg) (p : Prio) (e : EventId)

@[simp] theorem view_makeReady_self :
    (k.makeReady p).view p = { k.view p with ready := True } := by
  rw [view_makeReady, Function.update_self]

@[simp] theorem view_makeUnready_self :
    (k.makeUnready p).view p = { k.view p with ready := False } := by
  rw [view_makeUnready, Function.update_self]

@[simp] theorem view_setTcb_self (t : Option (OsTcb Msg)) :
    (k.setTcb p t).view p = { k.view p with tcb := t } := by
  rw [view_setTcb, Function.update_self]

@[simp] theorem view_setContext_self (c : Context) :
    (k.setContext p c).view p = { k.view p with context := c } := by
  rw [view_setContext, Function.update_self]

@[simp] theorem view_osEventTaskRemove_self :
    (k.osEventTaskRemove p e).view p =
      { k.view p with waits := Function.update (k.view p).waits e False } := by
  rw [view_osEventTaskRemove, Function.update_self]

@[simp] theorem view_osEventTaskInsert_self :
    (k.setEvent e
        { k.event e with waiting := PrioSet.insert (k.event e).waiting p }).view p =
      { k.view p with waits := Function.update (k.view p).waits e True } := by
  rw [view_osEventTaskInsert, Function.update_self]

end At

@[simp] theorem osTCBPrioTbl_setTcb_self (k : Ucos Msg) (p : Prio) (t : Option (OsTcb Msg)) :
    (k.setTcb p t).osTCBPrioTbl p = t := Function.update_self _ _ _

@[simp] theorem osPrioCur_setTcb (k : Ucos Msg) (p : Prio) (t : Option (OsTcb Msg)) :
    (k.setTcb p t).osPrioCur = k.osPrioCur := rfl

/-! ## Made ready, unless suspended -/

/-- `if ((ptcb->OSTCBStat & OS_STAT_SUSPEND) == OS_STAT_RDY)` behind a change of the task. -/
def setAndReady (p : Prio) (t : OsTcb Msg) (k : Ucos Msg) : Ucos Msg :=
  if t.osTCBStat &&& OS_STAT_SUSPEND = OS_STAT_RDY then (k.setTcb p (some t)).makeReady p
  else k.setTcb p (some t)

theorem touches_setAndReady (p : Prio) (t : OsTcb Msg) (k : Ucos Msg) :
    Touches p k (k.setAndReady p t) := by
  unfold setAndReady
  split
  · exact (Touches.setTcb p _ k).trans (Touches.makeReady p _)
  · exact Touches.setTcb p _ k

theorem view_setAndReady_self (p : Prio) (t : OsTcb Msg) (k : Ucos Msg) :
    (k.setAndReady p t).view p =
      { k.view p with
        tcb := some t
        ready := t.osTCBStat &&& OS_STAT_SUSPEND = OS_STAT_RDY ∨ (k.view p).ready } := by
  unfold setAndReady
  split
  next can => simp [can]
  next not => simp [not]

/-- A task that gets runnable is ready unless it is suspended. -/
theorem shows_setAndReady {b : Task Msg} {u : OsTcb Msg} (shows : (k.view p).Shows a t)
    (same : b.suspended = a.suspended) (runnable : b.phase.Runnable)
    (stat : u.osTCBStat = flags b.suspended b.phase.flag)
    (dly : u.osTCBDly = b.phase.dly) (pend : b.phase.pend = a.phase.pend)
    (eventPtr : u.osTCBEventPtr = t.osTCBEventPtr) (result : b.phase.Result u)
    (waits : b.phase.waitsFor = a.phase.waitsFor) :
    ((k.setAndReady p u).view p).Shows b u where
  tcb := by rw [view_setAndReady_self]
  stat := stat
  dly := dly
  eventPtr := by rw [eventPtr, shows.eventPtr, pend]
  result := result
  ready := by
    rw [view_setAndReady_self]
    show _ ∨ (k.view p).ready ↔ _
    rw [stat, flags_and_suspend, shows.ready, same]
    exact ⟨fun h => ⟨h.elim id And.left, runnable⟩, fun h => Or.inl h.1⟩
  waits := by
    intro j
    rw [view_setAndReady_self, waits]
    exact shows.waits j
  stands := by
    rw [view_setAndReady_self]
    have before := shows.stands
    unfold Phase.Stands at before ⊢
    rw [pend]
    exact before

/-! ## Wake-ups -/

/-- What a task goes on with that is woken by a post or by an abort. -/
def wokenPhase (e : EventId) (s : Service) (pmsg : Option Msg) : StatPend → Phase Msg
  | .ok => .served e s pmsg
  | .timeout => .due e s
  | .abort => .aborted e s

/-- What one `OS_EventTaskRdy` does: one task that waited for the event, and the first of those,
goes on. -/
structure Wakes (e : EventId) (s : Service) (pmsg : Option Msg) (ps : StatPend) (p : Prio)
    (k k' : Ucos Msg) : Prop where
  touches : Touches p k k'
  waited : (k.view p).waits e
  first : ∀ q, (k.view q).waits e → p ≤ q
  before : ∃ a t u, (k.view p).Shows a t ∧
    ((∃ d, a.phase = .pending e s d) ∨ a.phase = .due e s) ∧
    (k'.view p).Shows ⟨a.suspended, wokenPhase e s pmsg ps⟩ u
  gone : ∀ j, (k'.view p).waits j ↔ False
  context : k'.context = k.context

/-- The task it finds, with its fields set, is readied and leaves the wait list. -/
theorem osEventTaskRdy_eq (pmsg : Option Msg) (msk : BitVec 8) (ps : StatPend)
    (top : PrioSet.highest (k.event e).waiting = p) (found : k.osTCBPrioTbl p = some t) :
    ∃ u : OsTcb Msg, u = { t with
        osTCBDly := 0
        osTCBMsg := pmsg
        osTCBStat := t.osTCBStat &&& ~~~msk
        osTCBStatPend := ps } ∧
      k.osEventTaskRdy e pmsg msk ps = (k.setAndReady p u).osEventTaskRemove p e := by
  refine ⟨_, rfl, ?_⟩
  unfold Ucos.osEventTaskRdy setAndReady
  simp only [top, found]

theorem Sound.osEventTaskRdy (sound : k.Sound) (type : (k.event e).osEventType = some s)
    (some : (k.event e).waiting.grp ≠ 0) {ps : StatPend} (wakes : ps ≠ .timeout) :
    ∃ p, Wakes e s pmsg ps p k (k.osEventTaskRdy e pmsg s.stat ps) := by
  have waits : (k.view (PrioSet.highest (k.event e).waiting)).waits e := PrioSet.has_highest some
  generalize top : PrioSet.highest (k.event e).waiting = p at waits
  obtain ⟨a, t, shows⟩ := (sound.tasks p).of_waits waits
  have phase := sound.waiting type shows waits
  have pend : a.phase.pend = .some (e, s) := by
    rcases phase with ⟨d, h⟩ | h <;> rw [h] <;> rfl
  obtain ⟨u, fields, equation⟩ := osEventTaskRdy_eq pmsg s.stat ps top shows.tcb
  have stat : u.osTCBStat = flags a.suspended none := by
    rw [fields]
    show t.osTCBStat &&& ~~~s.stat = _
    rw [shows.stat]
    rcases phase with ⟨d, h⟩ | h <;> rw [h]
    · exact flags_and_not_stat _ _
    · exact flags_none_and_not_stat _ _
  rw [equation]
  have only (j : EventId) : (k.view p).waits j ↔ j = e := by
    rw [shows.waits]
    rcases phase with ⟨d, h⟩ | h <;> rw [h] <;>
      exact ⟨fun same => (Option.some.inj same).symm, fun same => same ▸ rfl⟩
  have after : ((k.setAndReady p u).osEventTaskRemove p e).view p =
      { k.view p with
        tcb := .some u
        ready := u.osTCBStat &&& OS_STAT_SUSPEND = OS_STAT_RDY ∨ (k.view p).ready
        waits := Function.update (k.view p).waits e False } := by
    rw [view_osEventTaskRemove_self, view_setAndReady_self]
  have gone (j : EventId) : Function.update (k.view p).waits e False j ↔ False := by
    by_cases same : j = e
    · rw [same, Function.update_self]
    · rw [Function.update_of_ne same, only]
      exact iff_false_intro same
  have runnable : (wokenPhase e s pmsg ps).Runnable := by
    cases ps <;> trivial
  refine ⟨p, (touches_setAndReady p u k).trans (Touches.osEventTaskRemove p e _), waits,
    fun q there => top ▸ PrioSet.highest_le there, ⟨a, t, u, shows, phase, ?_⟩, fun j => ?_, ?_⟩
  · rw [after]
    refine ⟨rfl, ?_, ?_, ?_, ?_, ?_, fun j => ?_, ?_⟩
    · rw [stat]
      cases ps <;> rfl
    · rw [fields]
      cases ps <;> rfl
    · rw [fields]
      show t.osTCBEventPtr = _
      rw [shows.eventPtr, pend]
      cases ps <;> rfl
    · rw [fields]
      cases ps with
      | ok => exact ⟨rfl, rfl⟩
      | timeout => exact absurd rfl wakes
      | abort => rfl
    · show _ ∨ (k.view p).ready ↔ _
      rw [stat, flags_and_suspend, shows.ready]
      exact ⟨fun h => ⟨h.elim id And.left, runnable⟩, fun h => Or.inl h.1⟩
    · show Function.update (k.view p).waits e False j ↔ _
      rw [gone j]
      cases ps with
      | ok => exact ⟨False.elim, fun h => by cases h⟩
      | timeout => exact absurd rfl wakes
      | abort => exact ⟨False.elim, fun h => by cases h⟩
    · have stands := shows.stands
      unfold Phase.Stands at stands ⊢
      rw [pend] at stands
      cases ps <;> exact stands
  · rw [after]
    exact gone j
  · show (k.setAndReady p u).context = k.context
    unfold setAndReady
    split <;> rfl

namespace Wakes

variable {ps : StatPend} {q : Prio}

theorem sound (sound : k.Sound) (wakes : Wakes e s pmsg ps p k k') : k'.Sound := by
  obtain ⟨a, t, u, shows, -, shows'⟩ := wakes.before
  refine sound.shrink wakes.touches (sound.idle_not_waiting wakes.waited) shows' ?_
    (congrFun wakes.context p) fun j now => ((wakes.gone j).mp now).elim
  rw [shows.tcb]
  rfl

/-- The others wait as before. -/
theorem waits_iff (wakes : Wakes e s pmsg ps p k k') :
    (k'.view q).waits e ↔ q ≠ p ∧ (k.view q).waits e := by
  by_cases same : q = p
  · subst same
    exact iff_of_false (wakes.gone e).mp fun h => h.1 rfl
  · rw [wakes.touches.view q same]
    exact (and_iff_right same).symm

end Wakes

/-- Wake-ups one after the other, until nothing waits. -/
inductive WakesAll (e : EventId) (s : Service) (pmsg : Option Msg) (ps : StatPend) :
    Ucos Msg → Ucos Msg → Prop where
  | done {k : Ucos Msg} (none : (k.event e).waiting.grp = 0) : WakesAll e s pmsg ps k k
  | more {k k' k'' : Ucos Msg} {p : Prio} (first : Wakes e s pmsg ps p k k')
      (rest : WakesAll e s pmsg ps k' k'') : WakesAll e s pmsg ps k k''

namespace WakesAll

variable {ps : StatPend}

theorem sound (all : WakesAll e s pmsg ps k k') (sound : k.Sound) : k'.Sound := by
  induction all with
  | done => exact sound
  | more first rest ih => exact ih (first.sound sound)

theorem waiting (all : WakesAll e s pmsg ps k k') : (k'.event e).waiting.grp = 0 := by
  induction all with
  | done none => exact none
  | more first rest ih => exact ih

end WakesAll

/-- The priorities that wait for an event. -/
def waiters (k : Ucos Msg) (e : EventId) : Finset Prio :=
  Finset.univ.filter fun p => (k.event e).waiting.Has p

/-- The loop ends, as each round wakes one of at most 64 tasks. -/
theorem Sound.osEventAllRdy (sound : k.Sound) (type : (k.event e).osEventType = some s)
    {ps : StatPend} (wakes : ps ≠ .timeout) {n : Nat} (enough : (k.waiters e).card ≤ n) :
    WakesAll e s pmsg ps k (k.osEventAllRdy e pmsg s.stat ps n).2 := by
  induction n generalizing k with
  | zero =>
      refine .done (PrioSet.grp_eq_zero_iff.mpr fun p waits => ?_)
      have none : k.waiters e = ∅ := Finset.card_eq_zero.mp (Nat.le_zero.mp enough)
      have mem : p ∈ k.waiters e := Finset.mem_filter.mpr ⟨Finset.mem_univ p, waits⟩
      rw [none] at mem
      exact Finset.notMem_empty p mem
  | succ n ih =>
      unfold Ucos.osEventAllRdy
      split
      next some =>
        obtain ⟨p, first⟩ := @Sound.osEventTaskRdy _ k e s pmsg sound type some ps wakes
        refine .more first (ih (first.sound sound) ?_ ?_)
        · rw [first.touches.eventType, type]
        · have less : (k.osEventTaskRdy e pmsg s.stat ps).waiters e ⊂ k.waiters e := by
            rw [Finset.ssubset_iff_of_subset]
            · refine ⟨p, Finset.mem_filter.mpr ⟨Finset.mem_univ p, first.waited⟩, fun now => ?_⟩
              exact (first.waits_iff.mp (Finset.mem_filter.mp now).2).1 rfl
            · intro q now
              exact Finset.mem_filter.mpr
                ⟨Finset.mem_univ q, (first.waits_iff.mp (Finset.mem_filter.mp now).2).2⟩
          have := Finset.card_lt_card less
          omega
      next none => exact .done (not_not.mp none)

theorem card_waiters_le (k : Ucos Msg) (e : EventId) : (k.waiters e).card ≤ 64 :=
  (Finset.card_filter_le _ _).trans (by simp)

/-! ## Delays and timeouts -/

/-- One tick of a delay or a timeout. -/
def tickPhase : Phase Msg → Phase Msg
  | .active d => .active (d - 1)
  | .pending e s d => if d = 1 then .due e s else .pending e s (d - 1)
  | x => x

/-- What a delay or a timeout that ends early leaves. -/
def expirePhase : Phase Msg → Phase Msg
  | .pending e s _ => .due e s
  | .active _ => .active 0
  | x => x

/-- `OSTCBStat` and `OSTCBStatPend` when the time of a task is up. -/
def expired (t : OsTcb Msg) : OsTcb Msg :=
  if t.osTCBStat &&& OS_STAT_PEND_ANY ≠ OS_STAT_RDY then
    { t with
      osTCBDly := 0
      osTCBStat := t.osTCBStat &&& ~~~OS_STAT_PEND_ANY
      osTCBStatPend := .timeout }
  else { t with osTCBDly := 0, osTCBStatPend := .ok }

/-- The end of a delay, or of a wait, whatever is left of it. -/
theorem shows_expired (shows : (k.view p).Shows a t) (dly : a.phase.dly ≠ 0) :
    ((k.setAndReady p (expired t)).view p).Shows ⟨a.suspended, expirePhase a.phase⟩ (expired t) ∧
      ∀ j, ((k.setAndReady p (expired t)).view p).waits j ↔ (k.view p).waits j := by
  refine ⟨?_, fun j => by rw [view_setAndReady_self]⟩
  obtain ⟨b, phase⟩ := a
  cases phase with
  | due | served | aborted => exact absurd rfl dly
  | active d =>
      have not : ¬ t.osTCBStat &&& OS_STAT_PEND_ANY ≠ OS_STAT_RDY := by
        rw [shows.stat]
        simp [Phase.flag]
      have fields : expired t = { t with osTCBDly := 0, osTCBStatPend := .ok } := if_neg not
      rw [fields]
      exact shows_setAndReady shows rfl rfl shows.stat rfl rfl rfl trivial rfl
  | pending e s d =>
      have pends : t.osTCBStat &&& OS_STAT_PEND_ANY ≠ OS_STAT_RDY := by
        rw [shows.stat]
        simp [Phase.flag]
      have fields : expired t =
          { t with
            osTCBDly := 0
            osTCBStat := t.osTCBStat &&& ~~~OS_STAT_PEND_ANY
            osTCBStatPend := .timeout } := if_pos pends
      rw [fields]
      refine shows_setAndReady shows rfl trivial ?_ rfl rfl rfl rfl rfl
      show t.osTCBStat &&& ~~~OS_STAT_PEND_ANY = flags b none
      rw [shows.stat]
      simp

/-- A tick of one task: nothing, one tick less, or the end. -/
theorem tickTask_eq (found : k.osTCBPrioTbl p = some t) :
    k.tickTask p =
      if t.osTCBDly = 0 then k
      else if t.osTCBDly = 1 then k.setAndReady p (expired t)
      else k.setTcb p (some { t with osTCBDly := t.osTCBDly - 1 }) := by
  unfold tickTask
  simp only [found]
  by_cases zero : t.osTCBDly = 0
  · rw [if_neg (not_not.mpr zero), if_pos zero]
  · rw [if_pos zero, if_neg zero]
    by_cases one : t.osTCBDly = 1
    · have last : t.osTCBDly - 1 = 0 := by omega
      rw [if_pos last, if_pos one, last]
      unfold setAndReady expired
      split <;> rfl
    · rw [if_neg (by omega), if_neg one]

theorem tickTask_of_absent (absent : k.osTCBPrioTbl p = none) : k.tickTask p = k := by
  unfold tickTask
  rw [absent]

theorem touches_tickTask (p : Prio) (k : Ucos Msg) : Touches p k (k.tickTask p) := by
  cases found : k.osTCBPrioTbl p with
  | none =>
      rw [tickTask_of_absent found]
      exact Touches.refl p k
  | some t =>
      rw [tickTask_eq found]
      split
      · exact Touches.refl p k
      · split
        · exact touches_setAndReady p _ k
        · exact Touches.setTcb p _ k

theorem context_tickTask (p : Prio) (k : Ucos Msg) : (k.tickTask p).context = k.context := by
  cases found : k.osTCBPrioTbl p with
  | none => rw [tickTask_of_absent found]
  | some t =>
      rw [tickTask_eq found]
      unfold setAndReady
      split
      · rfl
      · split
        · split <;> rfl
        · rfl

theorem tickPhase_of_zero {x : Phase Msg} (zero : x.dly = 0) : tickPhase x = x := by
  cases x with
  | due | served | aborted => rfl
  | active d =>
      obtain rfl : d = 0 := zero
      rfl
  | pending e s d =>
      obtain rfl : d = 0 := zero
      rfl

theorem tickPhase_of_one {x : Phase Msg} (one : x.dly = 1) : tickPhase x = expirePhase x := by
  cases x with
  | due | served | aborted => rfl
  | active d =>
      obtain rfl : d = 1 := one
      rfl
  | pending e s d => exact if_pos one

/-- A tick of one task is one tick of its phase, and it waits for what it waited for. -/
theorem shows_tickTask (shows : (k.view p).Shows a t) :
    (∃ u, ((k.tickTask p).view p).Shows ⟨a.suspended, tickPhase a.phase⟩ u) ∧
      ∀ j, ((k.tickTask p).view p).waits j ↔ (k.view p).waits j := by
  have count : t.osTCBDly = a.phase.dly := shows.dly
  rw [tickTask_eq shows.tcb]
  by_cases zero : t.osTCBDly = 0
  · rw [if_pos zero]
    rw [tickPhase_of_zero (count ▸ zero)]
    exact ⟨⟨t, shows⟩, fun j => Iff.rfl⟩
  · rw [if_neg zero]
    by_cases one : t.osTCBDly = 1
    · rw [if_pos one]
      obtain ⟨after, waits⟩ := shows_expired shows (count ▸ zero)
      rw [tickPhase_of_one (count ▸ one)]
      exact ⟨⟨_, after⟩, waits⟩
    · rw [if_neg one, view_setTcb_self]
      refine ⟨⟨{ t with osTCBDly := t.osTCBDly - 1 }, ?_⟩, fun j => Iff.rfl⟩
      rw [count] at zero one
      obtain ⟨b, phase⟩ := a
      cases phase with
      | due | served | aborted => exact absurd rfl zero
      | active d =>
          refine ⟨rfl, shows.stat, ?_, shows.eventPtr, trivial, ?_, shows.waits, shows.stands⟩
          · show t.osTCBDly - 1 = d - 1
            rw [count]
            rfl
          · show (k.view p).ready ↔ b = false ∧ d - 1 = 0
            rw [shows.ready]
            have ne : d ≠ 0 := zero
            have ne' : d ≠ 1 := one
            exact and_congr_right fun _ => iff_of_false ne (by omega)
      | pending e s d =>
          have more : tickPhase (.pending e s d : Phase Msg) = .pending e s (d - 1) := if_neg one
          rw [more]
          refine ⟨rfl, shows.stat, ?_, shows.eventPtr, shows.result, shows.ready, shows.waits,
            shows.stands⟩
          show t.osTCBDly - 1 = d - 1
          rw [count]
          rfl

theorem Sound.tickTask (sound : k.Sound) (notIdle : p ≠ OS_TASK_IDLE_PRIO) :
    (k.tickTask p).Sound := by
  rcases sound.tasks p with absent | ⟨a, t, shows⟩
  · rw [tickTask_of_absent absent.tcb]
    exact sound
  · obtain ⟨⟨u, after⟩, waits⟩ := shows_tickTask shows
    refine sound.shrink (touches_tickTask p k) notIdle after ?_
      (congrFun (context_tickTask p k) p) fun j now => (waits j).mp now
    rw [shows.tcb]
    rfl

/-- The tasks of a list have had one tick each. -/
theorem shows_tickAll {ps : List Prio} (nodup : ps.Nodup) (k : Ucos Msg) :
    (∀ q ∉ ps, (ps.foldl (fun k p => k.tickTask p) k).view q = k.view q) ∧
      ∀ q ∈ ps, ∀ a t, (k.view q).Shows a t →
        (∃ u, ((ps.foldl (fun k p => k.tickTask p) k).view q).Shows
            ⟨a.suspended, tickPhase a.phase⟩ u) ∧
          ∀ j, ((ps.foldl (fun k p => k.tickTask p) k).view q).waits j ↔ (k.view q).waits j := by
  induction ps generalizing k with
  | nil => exact ⟨fun _ _ => rfl, fun q mem => absurd mem List.not_mem_nil⟩
  | cons p ps ih =>
      obtain ⟨fresh, rest⟩ := List.nodup_cons.mp nodup
      obtain ⟨others, each⟩ := ih rest (k.tickTask p)
      constructor
      · intro q out
        rw [List.mem_cons, not_or] at out
        exact (others q out.2).trans ((touches_tickTask p k).view q out.1)
      · intro q mem a t shows
        rw [List.foldl_cons]
        rcases List.mem_cons.mp mem with rfl | later
        · rw [others q fresh]
          exact shows_tickTask shows
        · have ne : q ≠ p := fun same => fresh (same ▸ later)
          have before : (k.tickTask p).view q = k.view q := (touches_tickTask p k).view q ne
          rw [← before] at shows ⊢
          exact each q later a t shows

theorem tickLoop_eq {ps : List Prio} (busy : OS_TASK_IDLE_PRIO ∉ ps) (k : Ucos Msg) :
    tickLoop (ps ++ [ OS_TASK_IDLE_PRIO]) k = ps.foldl (fun k p => k.tickTask p) k := by
  induction ps generalizing k with
  | nil => exact if_pos rfl
  | cons p ps ih =>
      rw [List.mem_cons, not_or] at busy
      rw [List.cons_append, tickLoop, if_neg fun same => busy.1 same.symm, ih busy.2]
      rfl

/-- What a run of ticks of single tasks leaves as it was. -/
structure Frame (k k' : Ucos Msg) : Prop where
  eventType : ∀ e, (k'.event e).osEventType = (k.event e).osEventType
  eventCnt : ∀ e, (k'.event e).osEventCnt = (k.event e).osEventCnt
  eventPtr : ∀ e, (k'.event e).osEventPtr = (k.event e).osEventPtr
  prioCur : k'.osPrioCur = k.osPrioCur
  intNesting : k'.osIntNesting = k.osIntNesting
  lockNesting : k'.osLockNesting = k.osLockNesting
  running : k'.osRunning = k.osRunning
  context : k'.context = k.context

theorem Frame.tickAll (ps : List Prio) (k : Ucos Msg) :
    Frame k (ps.foldl (fun k p => k.tickTask p) k) := by
  induction ps generalizing k with
  | nil => exact ⟨fun _ => rfl, fun _ => rfl, fun _ => rfl, rfl, rfl, rfl, rfl, rfl⟩
  | cons p ps ih =>
      have first := touches_tickTask p k
      have rest := ih (k.tickTask p)
      exact {
        eventType := fun e => (rest.eventType e).trans (first.eventType e)
        eventCnt := fun e => (rest.eventCnt e).trans (first.eventCnt e)
        eventPtr := fun e => (rest.eventPtr e).trans (first.eventPtr e)
        prioCur := rest.prioCur.trans first.prioCur
        intNesting := rest.intNesting.trans first.intNesting
        lockNesting := rest.lockNesting.trans first.lockNesting
        running := rest.running.trans first.running
        context := rest.context.trans (context_tickTask p k) }

theorem Sound.tickAll {ps : List Prio} (busy : OS_TASK_IDLE_PRIO ∉ ps) (sound : k.Sound) :
    (ps.foldl (fun k p => k.tickTask p) k).Sound := by
  induction ps generalizing k with
  | nil => exact sound
  | cons p ps ih =>
      rw [List.mem_cons, not_or] at busy
      exact ih busy.2 (sound.tickTask fun same => busy.1 same.symm)

/-- `OSTimeTick`: every task but the idle task has one tick. -/
theorem Sound.osTimeTick (sound : k.Sound) (running : k.osRunning = true) :
    k.osTimeTick.Sound ∧ Frame k k.osTimeTick ∧
      (∀ q, (k.osTimeTick.view q).tcb.isSome = (k.view q).tcb.isSome) ∧
      ∀ q a t, (k.view q).Shows a t →
        (∃ u, (k.osTimeTick.view q).Shows ⟨a.suspended, tickPhase a.phase⟩ u) ∧
          ∀ j, (k.osTimeTick.view q).waits j ↔ (k.view q).waits j := by
  obtain ⟨ps, list⟩ := sound.idleLast
  have nodup := sound.listNodup
  rw [list, List.nodup_append] at nodup
  obtain ⟨nodup, -, apart⟩ := nodup
  have busy : OS_TASK_IDLE_PRIO ∉ ps := fun mem =>
    apart _ mem _ (List.mem_singleton_self _) rfl
  have same : SameTasks k { k with osTime := k.osTime + 1 } := ⟨rfl, rfl, rfl, rfl, rfl, rfl⟩
  have equation : k.osTimeTick =
      ps.foldl (fun k p => k.tickTask p) { k with osTime := k.osTime + 1 } := by
    unfold Ucos.osTimeTick
    rw [if_pos running, ← tickLoop_eq busy, ← list]
  have all := shows_tickAll nodup { k with osTime := k.osTime + 1 }
  have shown (q : Prio) (a : Task Msg) (t : OsTcb Msg) (shows : (k.view q).Shows a t) :
      (∃ u, (k.osTimeTick.view q).Shows ⟨a.suspended, tickPhase a.phase⟩ u) ∧
        ∀ j, (k.osTimeTick.view q).waits j ↔ (k.view q).waits j := by
    rw [equation]
    by_cases mem : q ∈ ps
    · exact all.2 q mem a t shows
    · have there : q ∈ k.osTCBList :=
        (sound.listed q).mpr (Option.isSome_iff_exists.mpr ⟨t, shows.tcb⟩)
      rw [list, List.mem_append, List.mem_singleton] at there
      obtain rfl := there.resolve_left mem
      obtain ⟨u, idle⟩ := sound.idle
      obtain rfl : u = t := Option.some.inj (idle.tcb.symm.trans shows.tcb)
      rw [all.1 _ mem, tickPhase_of_zero (shows.dly.symm.trans idle.dly)]
      exact ⟨⟨u, shows⟩, fun j => Iff.rfl⟩
  have frame := Frame.tickAll ps { k with osTime := k.osTime + 1 }
  rw [← equation] at frame
  refine ⟨?_, ⟨frame.1, frame.2, frame.3, frame.4, frame.5, frame.6, frame.7, frame.8⟩,
    fun q => ?_, shown⟩
  · rw [equation]
    exact Sound.tickAll busy (sound.same same)
  · rcases sound.tasks q with absent | ⟨a, t, shows⟩
    · have out : q ∉ ps := by
        intro mem
        have there : q ∈ k.osTCBList := list ▸ List.mem_append_left _ mem
        have found := (sound.listed q).mp there
        rw [show k.osTCBPrioTbl q = none from absent.tcb] at found
        cases found
      rw [equation, all.1 q out]
      rfl
    · obtain ⟨⟨u, after⟩, -⟩ := shown q a t shows
      rw [after.tcb, shows.tcb]
      rfl

end Ucos

end Stm32Robot.Kernel
