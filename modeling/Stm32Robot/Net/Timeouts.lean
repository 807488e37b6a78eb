/-
# Net.Timeouts -- the timeouts of lwIP

timers.c keeps the timeouts of the TCP/IP thread in one list, each with the time it is due after
the one before it, and takes the nodes from a pool of eight.  `sys_timeouts_mbox_fetch` waits for
a message for as long as the first timeout allows and calls the handler of that one when the
wait has timed out.  The loops over the list are recursions, `msecs` and `time` 32-bit words.
Handlers are not NULL here, and the test for it is left out.

`Schedule` is what the list is for: a clock and the deadlines.  The clock is no clock of the
hardware: it adds up what the waits report, up to the first deadline, and stands at the deadline
when a handler is called.  `timeouts_refine` says that the list carries it out.
-/
import Mathlib.Tactic.Ring
import Stm32Robot.Theory.DeltaList
import Stm32Robot.Theory.EventRun

namespace Stm32Robot.Net

open Stm32Robot.Theory.DeltaList
open Stm32Robot.Theory.PartialRun
open Stm32Robot.Theory.EventRun

set_option autoImplicit false

/-! ## The list -/

/-- `struct sys_timeo`; `h` is the handler with its argument. -/
structure SysTimeo (H : Type) where
  time : BitVec 32
  h : H

/-- `next_timeout` and what is left of the pool. -/
structure Timeouts (H : Type) where
  nextTimeout : List (SysTimeo H)
  free : Nat

def MEMP_NUM_SYS_TIMEOUT : Nat := 8

variable {H : Type}

/-- The loop of `sys_timeout` from `t` on. -/
def linkAfter (timeout t : SysTimeo H) : List (SysTimeo H) → List (SysTimeo H)
  | [] => [t, { timeout with time := timeout.time - t.time }]
  | next :: rest =>
      let timeout := { timeout with time := timeout.time - t.time }
      if next.time > timeout.time then
        t :: timeout :: { next with time := next.time - timeout.time } :: rest
      else t :: linkAfter timeout next rest

/-- A node is linked in. -/
def link (timeout : SysTimeo H) : List (SysTimeo H) → List (SysTimeo H)
  | [] => [timeout]
  | next :: rest =>
      if next.time > timeout.time then
        timeout :: { next with time := next.time - timeout.time } :: rest
      else linkAfter timeout next rest

/-- `if (t->next != NULL) t->next->time += t->time;` -/
def addBack (time : BitVec 32) : List (SysTimeo H) → List (SysTimeo H)
  | [] => []
  | next :: rest => { next with time := next.time + time } :: rest

/-- The loop of `sys_untimeout`: what is left, if there is a match. -/
def unlink [DecidableEq H] (h : H) : List (SysTimeo H) → Option (List (SysTimeo H))
  | [] => none
  | t :: rest =>
      if t.h = h then some (addBack t.time rest) else (unlink h rest).map fun rest => t :: rest

/-- What is seen of a call: a timeout set, or not, the pool being empty; one cancelled; a
handler called; a message fetched after so many milliseconds. -/
inductive TimeoutEvent (H : Type) where
  | set (msecs : Nat) (h : H)
  | poolEmpty
  | cancelled (h : H)
  | called (h : H)
  | fetched (msecs : Nat)
  deriving DecidableEq

namespace Timeouts

def sysTimeout (s : Timeouts H) (msecs : BitVec 32) (h : H) :
    Timeouts H × List (TimeoutEvent H) :=
  if s.free = 0 then (s, [.poolEmpty])
  else (⟨link ⟨msecs, h⟩ s.nextTimeout, s.free - 1⟩, [.set msecs.toNat h])

def sysUntimeout [DecidableEq H] (s : Timeouts H) (h : H) : Timeouts H × List (TimeoutEvent H) :=
  match unlink h s.nextTimeout with
  | none => (s, [])
  | some rest => (⟨rest, s.free + 1⟩, [.cancelled h])

/-- `SYS_ARCH_TIMEOUT` -/
def timedOut : BitVec 32 := 0xffffffff

/-- One pass of `sys_timeouts_mbox_fetch` from `again` on, up to the call of the handler; the
argument is what `sys_arch_mbox_fetch` returns. -/
def mboxFetch (s : Timeouts H) (timeNeeded : BitVec 32) : Timeouts H × List (TimeoutEvent H) :=
  match s.nextTimeout with
  | [] => (s, [.fetched timeNeeded.toNat])
  | next :: rest =>
      let timeNeeded := if next.time > 0 then timeNeeded else timedOut
      if timeNeeded = timedOut then (⟨rest, s.free + 1⟩, [.called next.h])
      else
        let time := if timeNeeded < next.time then next.time - timeNeeded else 0
        (⟨{ next with time := time } :: rest, s.free⟩, [.fetched timeNeeded.toNat])

/-- Nothing is set. -/
def none : Timeouts H := ⟨[], MEMP_NUM_SYS_TIMEOUT⟩

end Timeouts

/-- The calls of the TCP/IP thread, in any order: by the handlers or for the messages. -/
inductive TimeoutCall (H : Type) where
  | sysTimeout (msecs : BitVec 32) (h : H)
  | sysUntimeout (h : H)
  | mboxFetch (timeNeeded : BitVec 32)

def Timeouts.step [DecidableEq H] (s : Timeouts H) :
    TimeoutCall H → Option (Timeouts H × List (TimeoutEvent H))
  | .sysTimeout msecs h => some (s.sysTimeout msecs h)
  | .sysUntimeout h => some (s.sysUntimeout h)
  | .mboxFetch timeNeeded => some (s.mboxFetch timeNeeded)

/-! ## What it is for -/

/-- Handlers and when they are due. -/
structure Schedule (H : Type) where
  clock : Nat
  due : List (Nat × H)

namespace Schedule

/-- A handler goes behind all that are due no later than it; the one due first is called, and
then it is that time.  A message comes while the first is not yet due. -/
def step [DecidableEq H] (o : Schedule H) : TimeoutEvent H → Option (Schedule H)
  | .set msecs h =>
      if o.due.length < MEMP_NUM_SYS_TIMEOUT then
        some { o with due := o.due.orderedInsert Before (o.clock + msecs, h) }
      else none
  | .poolEmpty => if o.due.length = MEMP_NUM_SYS_TIMEOUT then some o else none
  | .cancelled h =>
      if h ∈ o.due.map Prod.snd then some { o with due := o.due.eraseP fun e => e.2 = h } else none
  | .called h =>
      match o.due with
      | [] => none
      | (deadline, first) :: rest => if first = h then some ⟨deadline, rest⟩ else none
  | .fetched msecs =>
      match o.due with
      | [] => some o
      | (deadline, _) :: _ => some { o with clock := min (o.clock + msecs) deadline }

def empty : Schedule H := ⟨0, []⟩

end Schedule

/-! ## The differences -/

/-- The differences and handlers of the nodes. -/
def differences (l : List (SysTimeo H)) : List (Nat × H) := l.map fun t => (t.time.toNat, t.h)

/-- A timeout `timeout` goes behind those that are due no later, the first of which is `t`. -/
theorem differences_linkAfter {timeout t : SysTimeo H} (le : t.time ≤ timeout.time)
    (l : List (SysTimeo H)) :
    differences (linkAfter timeout t l) =
      insertDelta timeout.time.toNat timeout.h (differences (t :: l)) := by
  have later : ¬ timeout.time.toNat < t.time.toNat := Nat.not_lt.mpr (BitVec.le_def.mp le)
  induction l generalizing timeout t with
  | nil => simp [linkAfter, differences, insertDelta, later, BitVec.toNat_sub_of_le le]
  | cons next l ih =>
      rw [linkAfter]
      have rest : (timeout.time - t.time).toNat = timeout.time.toNat - t.time.toNat :=
        BitVec.toNat_sub_of_le le
      split
      next early =>
        have before : timeout.time.toNat - t.time.toNat < next.time.toNat := by
          rw [← rest]
          exact BitVec.lt_def.mp early
        have shorter : (next.time - (timeout.time - t.time)).toNat =
            next.time.toNat - (timeout.time.toNat - t.time.toNat) := by
          rw [BitVec.toNat_sub_of_le (BitVec.le_of_lt early), rest]
        simp [differences, insertDelta, later, before, rest, shorter]
      next late =>
        have le' : next.time ≤ timeout.time - t.time := BitVec.not_lt.mp late
        have after : differences
            (linkAfter { timeout with time := timeout.time - t.time } next l) =
              insertDelta (timeout.time - t.time).toNat timeout.h (differences (next :: l)) :=
          ih le' (Nat.not_lt.mpr (BitVec.le_def.mp le'))
        have step : differences (t :: linkAfter { timeout with time := timeout.time - t.time }
            next l) = (t.time.toNat, t.h) ::
              differences (linkAfter { timeout with time := timeout.time - t.time } next l) := rfl
        rw [step, after, rest]
        simp [differences, insertDelta, later]

theorem differences_link (timeout : SysTimeo H) (l : List (SysTimeo H)) :
    differences (link timeout l) =
      insertDelta timeout.time.toNat timeout.h (differences l) := by
  cases l with
  | nil => rfl
  | cons next l =>
      rw [link]
      split
      next early =>
        have before : timeout.time.toNat < next.time.toNat := BitVec.lt_def.mp early
        simp [differences, insertDelta, before, BitVec.toNat_sub_of_le (BitVec.le_of_lt early)]
      next late => exact differences_linkAfter (BitVec.not_lt.mp late) l

/-- Taking a node out delays the next one; the time until the last one does not grow, so no
word overflows. -/
theorem differences_unlink [DecidableEq H] (h : H) {l : List (SysTimeo H)}
    (small : span (differences l) < 2 ^ 32) :
    (h ∉ l.map SysTimeo.h → unlink h l = none) ∧
      (h ∈ l.map SysTimeo.h → ∃ rest, unlink h l = some rest ∧ l.length = rest.length + 1 ∧
        differences rest = eraseDelta (fun x => x = h) (differences l)) := by
  induction l with
  | nil => simp [unlink]
  | cons t l ih =>
      have below : span (differences l) < 2 ^ 32 := by
        simp only [differences, List.map_cons, span] at small
        exact Nat.lt_of_le_of_lt (Nat.le_add_left _ _) small
      obtain ⟨absent, present⟩ := ih below
      rw [unlink]
      by_cases found : t.h = h
      · rw [if_pos found]
        refine ⟨fun apart => absurd (by simp [found]) apart, fun _ => ?_⟩
        cases l with
        | nil => exact ⟨_, rfl, rfl, by simp [addBack, differences, eraseDelta, found, delay]⟩
        | cons next l =>
            have sum : (next.time + t.time).toNat = next.time.toNat + t.time.toNat := by
              simp only [differences, List.map_cons, span] at small
              rw [BitVec.toNat_add]
              exact Nat.mod_eq_of_lt (by omega)
            exact ⟨_, rfl, rfl, by simp [addBack, differences, eraseDelta, found, delay, sum]⟩
      · rw [if_neg found]
        constructor
        · intro apart
          rw [absent fun mem => apart (List.mem_cons_of_mem _ mem), Option.map_none]
        · intro mem
          have mem' := (List.mem_cons.mp mem).resolve_left fun same => found same.symm
          obtain ⟨rest, taken, length, same⟩ := present mem'
          refine ⟨t :: rest, by rw [taken, Option.map_some], by simp [length], ?_⟩
          simp only [differences, List.map_cons, eraseDelta, found, decide_false,
            Bool.false_eq_true, if_false] at same ⊢
          rw [same]

/-! ## The list carries out the schedule -/

structure KeepsTime (s : Timeouts H) (o : Schedule H) : Prop where
  due : due o.clock (differences s.nextTimeout) = o.due
  small : span (differences s.nextTimeout) < 2 ^ 32
  pool : s.nextTimeout.length + s.free = MEMP_NUM_SYS_TIMEOUT

namespace KeepsTime

variable {s s' : Timeouts H} {o : Schedule H} {es : List (TimeoutEvent H)}

theorem length_eq (keeps : KeepsTime s o) : o.due.length = s.nextTimeout.length := by
  rw [← keeps.due, length_due, differences, List.length_map]

theorem handlers (keeps : KeepsTime s o) : o.due.map Prod.snd = s.nextTimeout.map SysTimeo.h := by
  rw [← keeps.due, map_snd_due, differences, List.map_map]
  rfl

/-- No deadline is behind the clock. -/
theorem clock_le (keeps : KeepsTime s o) {e : Nat × H} (mem : e ∈ o.due) : o.clock ≤ e.1 := by
  rw [← keeps.due] at mem
  exact (mem_due mem).1

variable [DecidableEq H]

theorem sysTimeout (keeps : KeepsTime s o) (msecs : BitVec 32) (h : H) :
    ∃ o', runPartial Schedule.step o (s.sysTimeout msecs h).2 = some o' ∧
      KeepsTime (s.sysTimeout msecs h).1 o' := by
  have length := keeps.length_eq
  have pool := keeps.pool
  unfold Timeouts.sysTimeout
  by_cases empty : s.free = 0
  · rw [if_pos empty]
    have full : o.due.length = MEMP_NUM_SYS_TIMEOUT := by omega
    exact ⟨o, by simp [runPartial, Schedule.step, full], keeps⟩
  · rw [if_neg empty]
    have room : o.due.length < MEMP_NUM_SYS_TIMEOUT := by omega
    refine ⟨_, by simp [runPartial, Schedule.step, room]; rfl, ?_⟩
    have linked := differences_link ⟨msecs, h⟩ s.nextTimeout
    have count := congrArg List.length linked
    exact
      { due := by
          show Theory.DeltaList.due o.clock (differences (link ⟨msecs, h⟩ s.nextTimeout)) = _
          rw [linked, due_insertDelta, keeps.due]
        small := by
          show span (differences (link ⟨msecs, h⟩ s.nextTimeout)) < 2 ^ 32
          rw [linked, span_insertDelta]
          exact max_lt msecs.isLt keeps.small
        pool := by
          have one := congrArg List.length (due_insertDelta 0 msecs.toNat h
            (differences s.nextTimeout))
          simp only [length_due, List.orderedInsert_length] at one
          simp only [differences, List.length_map] at one count
          show (link ⟨msecs, h⟩ s.nextTimeout).length + (s.free - 1) = MEMP_NUM_SYS_TIMEOUT
          omega }

theorem sysUntimeout (keeps : KeepsTime s o) (h : H) :
    ∃ o', runPartial Schedule.step o (s.sysUntimeout h).2 = some o' ∧
      KeepsTime (s.sysUntimeout h).1 o' := by
  obtain ⟨absent, present⟩ := differences_unlink h keeps.small
  unfold Timeouts.sysUntimeout
  by_cases mem : h ∈ s.nextTimeout.map SysTimeo.h
  · obtain ⟨rest, taken, length, same⟩ := present mem
    have due := keeps.handlers ▸ mem
    rw [taken]
    refine ⟨_, by simp only [runPartial, Schedule.step, if_pos due]; rfl, ?_⟩
    have pool := keeps.pool
    exact
      { due := by
          show Theory.DeltaList.due o.clock (differences rest) = _
          rw [same, due_eraseDelta, keeps.due]
        small := by
          show span (differences rest) < 2 ^ 32
          rw [same]
          exact lt_of_le_of_lt (span_eraseDelta_le _ _) keeps.small
        pool := by
          show rest.length + (s.free + 1) = MEMP_NUM_SYS_TIMEOUT
          omega }
  · rw [absent mem]
    exact ⟨o, rfl, keeps⟩

theorem mboxFetch (keeps : KeepsTime s o) (timeNeeded : BitVec 32) :
    ∃ o', runPartial Schedule.step o (s.mboxFetch timeNeeded).2 = some o' ∧
      KeepsTime (s.mboxFetch timeNeeded).1 o' := by
  have due := keeps.due
  have small := keeps.small
  have pool := keeps.pool
  obtain ⟨l, free⟩ := s
  cases l with
  | nil =>
      have none : o.due = [] := due.symm
      exact ⟨o, by simp [Timeouts.mboxFetch, runPartial, Schedule.step, none], keeps⟩
  | cons next rest =>
      have first : o.due = (o.clock + next.time.toNat, next.h) ::
          Theory.DeltaList.due (o.clock + next.time.toNat) (differences rest) := due.symm
      simp only [Timeouts.mboxFetch]
      generalize (if next.time > 0 then timeNeeded else Timeouts.timedOut) = needed
      by_cases out : needed = Timeouts.timedOut
      · rw [if_pos out]
        refine ⟨_, by simp only [runPartial, Schedule.step, first, if_pos]; rfl, ?_⟩
        simp only [differences, List.map_cons, span] at small
        simp only [List.length_cons] at pool
        exact
          { due := rfl
            small := by
              show span (differences rest) < 2 ^ 32
              simp only [differences]
              omega
            pool := by
              show rest.length + (free + 1) = MEMP_NUM_SYS_TIMEOUT
              omega }
      · rw [if_neg out]
        refine ⟨_, by simp only [runPartial, Schedule.step, first]; rfl, ?_⟩
        -- what is left of the first difference, and how far the clock goes
        have left : (if needed < next.time then next.time - needed else 0).toNat =
            next.time.toNat - min needed.toNat next.time.toNat := by
          split
          next early =>
            have below : needed.toNat < next.time.toNat := BitVec.lt_def.mp early
            rw [BitVec.toNat_sub_of_le (BitVec.le_of_lt early)]
            omega
          next late =>
            have above : next.time.toNat ≤ needed.toNat := BitVec.le_def.mp (BitVec.not_lt.mp late)
            show 0 = _
            omega
        have clock : min (o.clock + needed.toNat) (o.clock + next.time.toNat) =
            o.clock + min needed.toNat next.time.toNat := by omega
        simp only [differences, List.map_cons, span] at small
        exact
          { due := by
              simp only [differences, List.map_cons, left, clock]
              rw [due_pass (Nat.min_le_right _ _)]
              exact due.trans first
            small := by
              simp only [differences, List.map_cons, span, left]
              omega
            pool := pool }

theorem step {c : TimeoutCall H} (keeps : KeepsTime s o) (stepped : s.step c = some (s', es)) :
    ∃ o', runPartial Schedule.step o es = some o' ∧ KeepsTime s' o' := by
  cases c with
  | sysTimeout msecs h =>
      obtain ⟨rfl, rfl⟩ := Prod.mk.inj (Option.some.inj stepped)
      exact keeps.sysTimeout msecs h
  | sysUntimeout h =>
      obtain ⟨rfl, rfl⟩ := Prod.mk.inj (Option.some.inj stepped)
      exact keeps.sysUntimeout h
  | mboxFetch timeNeeded =>
      obtain ⟨rfl, rfl⟩ := Prod.mk.inj (Option.some.inj stepped)
      exact keeps.mboxFetch timeNeeded

end KeepsTime

theorem keepsTime_none : KeepsTime (Timeouts.none : Timeouts H) Schedule.empty where
  due := rfl
  small := Nat.two_pow_pos 32
  pool := rfl

end Stm32Robot.Net
