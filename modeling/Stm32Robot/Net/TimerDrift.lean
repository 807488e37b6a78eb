/-
# Net.TimerDrift -- the timers and the tick counter

`sys_timeouts_mbox_fetch` knows the time only by what `sys_arch_mbox_fetch` reports.  Here the
TCP/IP thread runs on that function and on a tick counter: a wait for a message takes some ticks,
and comes back with the message or, after at least the ticks it was to wait, without one.

`timers_not_early` holds the clock of the timers against the counter, as long as every wait for a
message has moved the counter.  `timers_run_away` is about messages that are already waiting:
each is reported to have taken nearly six hours, and the first timer is called at once.
-/
import Stm32Robot.Net.CyclicTimers
import Stm32Robot.Net.SysArch

namespace Stm32Robot.Net

open Stm32Robot.Theory.DeltaList
open Stm32Robot.Theory.PartialRun
open Stm32Robot.Theory.EventRun

set_option autoImplicit false

/-! ## The thread -/

/-- The timers, and the ticks since the start. -/
structure TcpipThread where
  cyclic : Cyclic
  osTime : Nat

/-- A pass from `again` on, with the ticks that its wait has taken; ticks that pass while the
thread is at work; or a PCB is registered. -/
inductive ThreadCall where
  | again (arrived : Bool) (elapsed : Nat) (pcbs : Bool)
  | work (elapsed : Nat)
  | tcpTimerNeeded (pcbs : Bool)

namespace TcpipThread

/-- The timeout of the wait. -/
def timeout (s : TcpipThread) : BitVec 32 :=
  match s.cyclic.timeouts.nextTimeout with
  | [] => 0
  | next :: _ => next.time

/-- There is a timer, and it is due. -/
def isDue (s : TcpipThread) : Bool := !s.cyclic.timeouts.nextTimeout.isEmpty && s.timeout == 0

/-- The ticks the kernel is told to wait. -/
def ticksToWait (s : TcpipThread) : Nat := ((ucosTimeout s.timeout).setWidth 16).toNat

/-- What the pend comes back with after so many ticks. -/
def pended (s : TcpipThread) (arrived : Bool) (elapsed : Nat) : Pended where
  ucErr := if arrived then 0 else OS_ERR_TIMEOUT
  msg := 0
  osTime := .ofNat 32 (s.osTime + elapsed)

/-- What the wait reports; where it has put the message is of no concern here. -/
def timeNeeded (s : TcpipThread) (arrived : Bool) (elapsed : Nat) : BitVec 32 :=
  (sysArchMboxFetch 0 (.ofNat 32 s.osTime) (fun _ => s.pended arrived elapsed) 0 s.timeout).1

/-- A pend without a message has lasted as long as it was told to, and one told to wait for ever
does not end so. -/
def step (s : TcpipThread) : ThreadCall → Option (TcpipThread × List (TimeoutEvent CyclicTimer))
  | .again arrived elapsed pcbs =>
      if s.isDue then
        let (cyclic, es) := s.cyclic.mboxFetch Timeouts.timedOut pcbs
        some ({ s with cyclic }, es)
      else if arrived ∨ 0 < s.ticksToWait ∧ s.ticksToWait ≤ elapsed then
        let (cyclic, es) := s.cyclic.mboxFetch (s.timeNeeded arrived elapsed) pcbs
        some (⟨cyclic, s.osTime + elapsed⟩, es)
      else none
  | .work elapsed => some ({ s with osTime := s.osTime + elapsed }, [])
  | .tcpTimerNeeded pcbs =>
      let (cyclic, es) := s.cyclic.tcpTimerNeeded pcbs
      some ({ s with cyclic }, es)

def start : TcpipThread × List (TimeoutEvent CyclicTimer) :=
  (⟨Cyclic.sysTimeoutsInit.1, 0⟩, Cyclic.sysTimeoutsInit.2)

end TcpipThread

def TimeoutEvent.isCalled {H : Type} : TimeoutEvent H → Bool
  | .called _ => true
  | _ => false

def TimeoutEvent.isFetched {H : Type} : TimeoutEvent H → Bool
  | .fetched _ => true
  | _ => false

/-! ## What is reported -/

namespace TcpipThread

variable {s : TcpipThread} {elapsed : Nat}

theorem timeNeeded_timedOut (s : TcpipThread) (elapsed : Nat) :
    s.timeNeeded false elapsed = Timeouts.timedOut := rfl

theorem timeNeeded_arrived (s : TcpipThread) (elapsed : Nat) :
    s.timeNeeded true elapsed =
      (if BitVec.ofNat 32 s.osTime < BitVec.ofNat 32 (s.osTime + elapsed) then
          BitVec.ofNat 32 (s.osTime + elapsed) - BitVec.ofNat 32 s.osTime
        else 0xffffffff - BitVec.ofNat 32 s.osTime + BitVec.ofNat 32 (s.osTime + elapsed)) *
          1000 / OS_TICKS_PER_SEC + 1 := by
  have arrives : Arrives (fun _ => s.pended true elapsed) s.timeout
      (BitVec.ofNat 32 (s.osTime + elapsed)) := ⟨by simp [pended, OS_ERR_TIMEOUT], rfl⟩
  exact sysArchMboxFetch_eq arrives

/-- A wait that has moved the counter is reported a millisecond too long. -/
theorem timeNeeded_moved (moved : 0 < elapsed) (short : elapsed < 4294967)
    (inside : s.osTime + elapsed < 2 ^ 32) :
    (s.timeNeeded true elapsed).toNat = 5 * elapsed + 1 := by
  have before : (BitVec.ofNat 32 s.osTime).toNat = s.osTime := by
    rw [BitVec.toNat_ofNat]
    exact Nat.mod_eq_of_lt (by omega)
  have after : (BitVec.ofNat 32 (s.osTime + elapsed)).toNat = s.osTime + elapsed := by
    rw [BitVec.toNat_ofNat]
    exact Nat.mod_eq_of_lt inside
  have later : BitVec.ofNat 32 s.osTime < BitVec.ofNat 32 (s.osTime + elapsed) := by
    rw [BitVec.lt_def, before, after]
    omega
  have difference : (BitVec.ofNat 32 (s.osTime + elapsed) - BitVec.ofNat 32 s.osTime).toNat =
      elapsed := by
    rw [BitVec.toNat_sub_of_le (BitVec.le_of_lt later), before, after]
    omega
  rw [timeNeeded_arrived, if_pos later, toNat_milliseconds (by rw [difference]; exact short),
    difference]
  show elapsed * 1000 / 200 + 1 = 5 * elapsed + 1
  omega

/-- What a message that is already waiting is reported to have taken: nearly six hours. -/
def unmoved : BitVec 32 := 21474832

theorem timeNeeded_unmoved (s : TcpipThread) : s.timeNeeded true 0 = unmoved := by
  rw [timeNeeded_arrived, Nat.add_zero, if_neg (BitVec.lt_irrefl _), BitVec.sub_add_cancel]
  rfl

/-- The ticks to wait are the timeout, rounded down, but one at least. -/
theorem timeout_le_ticksToWait (small : s.timeout.toNat ≤ ARP_TMR_INTERVAL) :
    s.timeout.toNat ≤ 5 * s.ticksToWait + 4 := by
  have product : (s.timeout * OS_TICKS_PER_SEC).toNat = s.timeout.toNat * 200 := by
    rw [BitVec.toNat_mul]
    exact Nat.mod_eq_of_lt (by simp only [ARP_TMR_INTERVAL] at small; show _ * 200 < 2 ^ 32; omega)
  have quotient : (s.timeout * OS_TICKS_PER_SEC / 1000).toNat = s.timeout.toNat * 200 / 1000 := by
    rw [BitVec.toNat_udiv, product]
    rfl
  have limit : s.timeout.toNat ≤ 5000 := small
  unfold ticksToWait ucosTimeout
  split
  next =>
    dsimp only
    split
    next less =>
      have zero : (s.timeout * OS_TICKS_PER_SEC / 1000).toNat < 1 := BitVec.lt_def.mp less
      rw [quotient] at zero
      show _ ≤ 5 * 1 + 4
      omega
    next =>
      rw [BitVec.toNat_setWidth, quotient, Nat.mod_eq_of_lt (by show _ < 2 ^ 16; omega)]
      omega
  next none =>
    rw [not_not.mp none]
    exact Nat.zero_le _

end TcpipThread

/-! ## A pass -/

section Pass

variable {s : Cyclic} {o o' : Schedule CyclicTimer} {es : List (TimeoutEvent CyclicTimer)}
  {next : SysTimeo CyclicTimer} {rest : List (SysTimeo CyclicTimer)} {timeNeeded : BitVec 32}

/-- The first timer is due within the longest interval. -/
theorem Cyclic.OnTime.first_le (onTime : OnTime s es o) : ∃ next rest,
    s.timeouts.nextTimeout = next :: rest ∧ next.time.toNat ≤ ARP_TMR_INTERVAL := by
  obtain ⟨d, -, planned⟩ := onTime.planned
  have arp := planned.mem_iff (h := .arpTimer).mpr rfl
  have last := onTime.arp.last
  rw [← onTime.keeps.due] at arp
  cases at_list : s.timeouts.nextTimeout with
  | nil =>
      rw [at_list] at arp
      cases arp
  | cons next rest =>
      refine ⟨next, rest, rfl, ?_⟩
      rw [at_list] at arp
      have first : o.clock + next.time.toNat ≤
          ARP_TMR_INTERVAL * (calls es .arpTimer + 1) := by
        rcases List.mem_cons.mp arp with same | later
        · exact (congrArg Prod.fst same).ge
        · exact (mem_due later).1
      rw [Nat.mul_add, Nat.mul_one] at first
      omega

/-- The first timer is due already, or the wait has timed out. -/
def Calls (next : SysTimeo CyclicTimer) (timeNeeded : BitVec 32) : Prop :=
  next.time = 0 ∨ timeNeeded = Timeouts.timedOut

instance : Decidable (Calls next timeNeeded) :=
  inferInstanceAs (Decidable (next.time = 0 ∨ timeNeeded = Timeouts.timedOut))

theorem calls_timedOut (next : SysTimeo CyclicTimer) : Calls next Timeouts.timedOut := Or.inr rfl

theorem shows_mboxFetch (first : s.timeouts.nextTimeout = next :: rest) (timeNeeded : BitVec 32) :
    (s.timeouts.mboxFetch timeNeeded).2 =
      if Calls next timeNeeded then [.called next.h] else [.fetched timeNeeded.toNat] := by
  simp only [Timeouts.mboxFetch, first, Calls]
  by_cases zero : next.time = 0
  · simp [zero]
  · have positive : next.time > 0 := by bv_omega
    rw [if_pos positive]
    by_cases out : timeNeeded = Timeouts.timedOut
    · simp [out]
    · simpa [out] using zero

/-- The clock goes on to the time at which the first timer is due, or by what is reported. -/
theorem clock_mboxFetch (keeps : KeepsTime s.timeouts o)
    (first : s.timeouts.nextTimeout = next :: rest)
    (taken : runPartial Schedule.step o (s.timeouts.mboxFetch timeNeeded).2 = some o') :
    o'.clock ≤ o.clock +
      (if Calls next timeNeeded then next.time.toNat else timeNeeded.toNat) := by
  have due : o.due = (o.clock + next.time.toNat, next.h) ::
      Theory.DeltaList.due (o.clock + next.time.toNat) (differences rest) := by
    rw [← keeps.due, first]
    rfl
  rw [shows_mboxFetch first timeNeeded] at taken
  split at taken
  next calls =>
    simp only [runPartial, Schedule.step, due, if_true] at taken
    cases taken
    rw [if_pos calls]
  next waits =>
    simp only [runPartial, Schedule.step, due] at taken
    cases taken
    rw [if_neg waits]
    exact min_le_left _ _

/-- A handler calls none and fetches nothing. -/
theorem silent_handler (s : Cyclic) (pcbs : Bool) (h : CyclicTimer) :
    (s.handler pcbs h).2.countP TimeoutEvent.isCalled = 0 ∧
      (s.handler pcbs h).2.countP TimeoutEvent.isFetched = 0 := by
  have silent (msecs : Nat) (h : CyclicTimer) :
      (s.sysTimeout msecs h).2.countP TimeoutEvent.isCalled = 0 ∧
        (s.sysTimeout msecs h).2.countP TimeoutEvent.isFetched = 0 := by
    simp only [Cyclic.sysTimeout, Timeouts.sysTimeout]
    split <;> exact ⟨rfl, rfl⟩
  cases h with
  | ipReassTimer => exact silent _ _
  | arpTimer => exact silent _ _
  | tcpipTcpTimer =>
      simp only [Cyclic.handler, Cyclic.tcpipTcpTimer]
      split
      · exact silent _ _
      · exact ⟨rfl, rfl⟩

/-- The timer is called or the message is there. -/
theorem count_mboxFetch (first : s.timeouts.nextTimeout = next :: rest) (timeNeeded : BitVec 32)
    (pcbs : Bool) :
    (s.mboxFetch timeNeeded pcbs).2.countP TimeoutEvent.isCalled =
        (if Calls next timeNeeded then 1 else 0) ∧
      (s.mboxFetch timeNeeded pcbs).2.countP TimeoutEvent.isFetched =
        (if Calls next timeNeeded then 0 else 1) := by
  have shows := shows_mboxFetch first timeNeeded
  by_cases calls : Calls next timeNeeded
  · rw [if_pos calls] at shows
    let after : Cyclic := { s with timeouts := (s.timeouts.mboxFetch timeNeeded).1 }
    obtain ⟨called, fetched⟩ := silent_handler after pcbs next.h
    have is : (s.mboxFetch timeNeeded pcbs).2 =
        .called next.h :: (after.handler pcbs next.h).2 := by
      simp [Cyclic.mboxFetch, shows, after]
    rw [is, List.countP_cons, List.countP_cons, called, fetched, if_pos calls, if_pos calls]
    exact ⟨rfl, rfl⟩
  · rw [if_neg calls] at shows
    simp [Cyclic.mboxFetch, shows, calls, TimeoutEvent.isCalled, TimeoutEvent.isFetched]

end Pass

/-! ## Never early -/

/-- A wait that ends with a message has moved the tick counter. -/
def ThreadCall.Moves : ThreadCall → Prop
  | .again arrived elapsed _ => arrived = true → 0 < elapsed ∧ elapsed < 4294967
  | .work _ | .tcpTimerNeeded _ => True

namespace TcpipThread

variable {s s' : TcpipThread} {es more : List (TimeoutEvent CyclicTimer)} {c : ThreadCall}

/-- What the clock of the timers may be ahead of the tick counter. -/
def lead (es : List (TimeoutEvent CyclicTimer)) : Nat :=
  es.countP TimeoutEvent.isFetched + 4 * es.countP TimeoutEvent.isCalled

/-- The timers are on time by a clock that is not too far ahead of the counter. -/
def InTime (s : TcpipThread) (es : List (TimeoutEvent CyclicTimer)) : Prop :=
  ∃ o, Cyclic.OnTime s.cyclic es o ∧
    (s.osTime < 2 ^ 32 → o.clock ≤ 5 * s.osTime + lead es)

theorem lead_append (es more : List (TimeoutEvent CyclicTimer)) :
    lead (es ++ more) = lead es + lead more := by
  simp only [lead, List.countP_append]
  omega

theorem timeout_eq {next : SysTimeo CyclicTimer} {rest : List (SysTimeo CyclicTimer)}
    (first : s.cyclic.timeouts.nextTimeout = next :: rest) : s.timeout = next.time := by
  simp [timeout, first]

/-- A pass, with what the thread has been told and the ticks it has taken. -/
theorem InTime.pass (inTime : InTime s es) {timeNeeded : BitVec 32} (elapsed : Nat)
    (told : ∀ next rest, s.cyclic.timeouts.nextTimeout = next :: rest →
      next.time.toNat ≤ ARP_TMR_INTERVAL → s.osTime + elapsed < 2 ^ 32 →
        if Calls next timeNeeded then next.time.toNat ≤ 5 * elapsed + 4
        else timeNeeded.toNat ≤ 5 * elapsed + 1) (pcbs : Bool) :
    InTime ⟨(s.cyclic.mboxFetch timeNeeded pcbs).1, s.osTime + elapsed⟩
      (es ++ (s.cyclic.mboxFetch timeNeeded pcbs).2) := by
  obtain ⟨o, onTime, ahead⟩ := inTime
  obtain ⟨next, rest, first, small⟩ := onTime.first_le
  obtain ⟨o', after, e, taken, same⟩ := onTime.mboxFetch timeNeeded pcbs
  refine ⟨o', after, fun inside => ?_⟩
  have clock := clock_mboxFetch onTime.keeps first taken
  obtain ⟨called, fetched⟩ := count_mboxFetch (s := s.cyclic) first timeNeeded pcbs
  have before := ahead (Nat.lt_of_le_of_lt (Nat.le_add_right _ _) inside)
  have told := told next rest first small inside
  rw [lead_append, same]
  simp only [lead, called, fetched]
  split at told
  next calls =>
    rw [if_pos calls] at clock
    simp only [lead, if_pos calls] at before ⊢
    omega
  next waits =>
    rw [if_neg waits] at clock
    simp only [lead, if_neg waits] at before ⊢
    omega

theorem isDue_iff {next : SysTimeo CyclicTimer} {rest : List (SysTimeo CyclicTimer)}
    (first : s.cyclic.timeouts.nextTimeout = next :: rest) : s.isDue = true ↔ next.time = 0 := by
  simp [isDue, timeout_eq first, first]

theorem InTime.again (inTime : InTime s es) {arrived : Bool} {elapsed : Nat} {pcbs : Bool}
    (moves : (ThreadCall.again arrived elapsed pcbs).Moves)
    (stepped : s.step (.again arrived elapsed pcbs) = some (s', more)) :
    InTime s' (es ++ more) := by
  simp only [TcpipThread.step] at stepped
  split at stepped
  next due =>
    cases stepped
    refine inTime.pass 0 (fun next rest first _ _ => ?_) pcbs
    rw [if_pos (calls_timedOut next), (isDue_iff first).mp due]
    exact Nat.zero_le _
  next wait =>
    obtain ⟨ends, returned⟩ := Option.ite_none_right_eq_some.mp stepped
    cases returned
    refine inTime.pass elapsed (fun next rest first small inside => ?_) pcbs
    have zero : next.time ≠ 0 := mt (isDue_iff first).mpr wait
    cases arrived with
    | true =>
        obtain ⟨moved, short⟩ := moves rfl
        have needed := timeNeeded_moved moved short inside
        have waits : ¬ Calls next (s.timeNeeded true elapsed) := by
          rintro (none | out)
          · exact zero none
          · rw [out] at needed
            have all : Timeouts.timedOut.toNat = 4294967295 := rfl
            omega
        rw [if_neg waits]
        exact needed.le
    | false =>
        rw [timeNeeded_timedOut, if_pos (calls_timedOut next)]
        obtain ⟨-, waited⟩ := ends.resolve_left Bool.false_ne_true
        have bound := timeout_le_ticksToWait (s := s) (by rw [timeout_eq first]; exact small)
        rw [timeout_eq first] at bound
        omega

theorem InTime.step (inTime : InTime s es) (moves : c.Moves)
    (stepped : s.step c = some (s', more)) : InTime s' (es ++ more) := by
  cases c with
  | again arrived elapsed pcbs => exact inTime.again moves stepped
  | work elapsed =>
      cases stepped
      obtain ⟨o, onTime, ahead⟩ := inTime
      rw [List.append_nil]
      refine ⟨o, onTime, fun inside => ?_⟩
      have before := ahead (Nat.lt_of_le_of_lt (Nat.le_add_right _ _) inside)
      show o.clock ≤ 5 * (s.osTime + elapsed) + lead es
      omega
  | tcpTimerNeeded pcbs =>
      cases stepped
      obtain ⟨o, onTime, ahead⟩ := inTime
      obtain ⟨o', after, same⟩ := onTime.tcpTimerNeeded pcbs
      refine ⟨o', after, fun inside => ?_⟩
      rw [same, lead_append]
      exact (ahead inside).trans (Nat.add_le_add_left (Nat.le_add_right _ _) _)

theorem start_inTime : InTime start.1 start.2 := by
  obtain ⟨o, onTime⟩ := Cyclic.onTime_sysTimeoutsInit
  refine ⟨o, onTime, fun _ => ?_⟩
  have taken := onTime.taken
  have at_zero : (runPartial Schedule.step Schedule.empty Cyclic.sysTimeoutsInit.2).map
      Schedule.clock = some 0 := by decide
  rw [taken] at at_zero
  exact (Option.some.inj at_zero).trans_le (Nat.zero_le _)

end TcpipThread

/-- As long as every wait that ends with a message has moved the tick counter, and the counter has
not wrapped, no timer is called early by more than a millisecond for each message and four for
each call; a tick is five. -/
theorem timers_not_early {calls : List ThreadCall} {s : TcpipThread}
    {es : List (TimeoutEvent CyclicTimer)} (moves : ∀ c ∈ calls, c.Moves)
    (inside : s.osTime < 2 ^ 32)
    (ran : runPartial (shown TcpipThread.step) TcpipThread.start calls = some (s, es)) :
    IP_TMR_INTERVAL * Cyclic.calls es .ipReassTimer ≤ 5 * s.osTime +
        es.countP TimeoutEvent.isFetched + 4 * es.countP TimeoutEvent.isCalled ∧
      ARP_TMR_INTERVAL * Cyclic.calls es .arpTimer ≤ 5 * s.osTime +
        es.countP TimeoutEvent.isFetched + 4 * es.countP TimeoutEvent.isCalled := by
  have kept (s : TcpipThread) (es : List (TimeoutEvent CyclicTimer)) (c : ThreadCall)
      (s' : TcpipThread) (more : List (TimeoutEvent CyclicTimer)) (before : s.InTime es)
      (moves : c.Moves) (stepped : s.step c = some (s', more)) : s'.InTime (es ++ more) :=
    before.step moves stepped
  obtain ⟨o, onTime, ahead⟩ := shown_invariant kept moves TcpipThread.start_inTime ran
  have clock := ahead inside
  have ip := onTime.ip.last
  have arp := onTime.arp.last
  simp only [TcpipThread.lead] at clock
  omega

/-- Three seconds without a message, then one after ten ticks. -/
theorem timers_not_early_three : ∃ (s : TcpipThread) (es : List (TimeoutEvent CyclicTimer)),
    runPartial (shown TcpipThread.step) TcpipThread.start
        [.again false 200 false, .again false 201 false, .again false 200 false,
          .again true 10 false] = some (s, es) ∧
      IP_TMR_INTERVAL * Cyclic.calls es .ipReassTimer ≤ 5 * s.osTime +
          es.countP TimeoutEvent.isFetched + 4 * es.countP TimeoutEvent.isCalled ∧
        ARP_TMR_INTERVAL * Cyclic.calls es .arpTimer ≤ 5 * s.osTime +
          es.countP TimeoutEvent.isFetched + 4 * es.countP TimeoutEvent.isCalled := by
  have all : (runPartial (shown TcpipThread.step) TcpipThread.start
      [.again false 200 false, .again false 201 false, .again false 200 false,
        .again true 10 false]).map (fun s => s.1.osTime) = some 611 := by decide +kernel
  obtain ⟨⟨s, es⟩, ran, time⟩ := Option.map_eq_some_iff.mp all
  have inside : s.osTime < 2 ^ 32 := lt_of_eq_of_lt time (by decide)
  refine ⟨s, es, ran, timers_not_early ?_ inside ran⟩
  simp [ThreadCall.Moves]

/-! ## Messages that are waiting -/

namespace TcpipThread

variable {s s' : TcpipThread} {es more : List (TimeoutEvent CyclicTimer)} {c : ThreadCall}

theorem onTime_step (before : ∃ o, Cyclic.OnTime s.cyclic es o)
    (stepped : s.step c = some (s', more)) : ∃ o, Cyclic.OnTime s'.cyclic (es ++ more) o := by
  obtain ⟨o, onTime⟩ := before
  cases c with
  | again arrived elapsed pcbs =>
      simp only [TcpipThread.step] at stepped
      split at stepped
      next =>
        cases stepped
        obtain ⟨o', after, -⟩ := onTime.mboxFetch Timeouts.timedOut pcbs
        exact ⟨o', after⟩
      next =>
        obtain ⟨-, returned⟩ := Option.ite_none_right_eq_some.mp stepped
        cases returned
        obtain ⟨o', after, -⟩ := onTime.mboxFetch (s.timeNeeded arrived elapsed) pcbs
        exact ⟨o', after⟩
  | work elapsed =>
      cases stepped
      rw [List.append_nil]
      exact ⟨o, onTime⟩
  | tcpTimerNeeded pcbs =>
      cases stepped
      obtain ⟨o', after, -⟩ := onTime.tcpTimerNeeded pcbs
      exact ⟨o', after⟩

theorem step_due (due : s.isDue = true) (arrived : Bool) (elapsed : Nat) (pcbs : Bool) :
    s.step (.again arrived elapsed pcbs) =
      some ({ s with cyclic := (s.cyclic.mboxFetch Timeouts.timedOut pcbs).1 },
        (s.cyclic.mboxFetch Timeouts.timedOut pcbs).2) := by
  simp [TcpipThread.step, due]

theorem step_waiting (early : s.isDue = false) (pcbs : Bool) :
    s.step (.again true 0 pcbs) =
      some ({ s with cyclic := (s.cyclic.mboxFetch unmoved pcbs).1 },
        (s.cyclic.mboxFetch unmoved pcbs).2) := by
  simp [TcpipThread.step, early, timeNeeded_unmoved]

/-- A timer that is due is called before the thread looks for a message. -/
theorem called_of_due (onTime : ∃ o, Cyclic.OnTime s.cyclic es o) (pcbs : Bool) :
    (s.cyclic.mboxFetch Timeouts.timedOut pcbs).2.countP TimeoutEvent.isCalled = 1 := by
  obtain ⟨o, onTime⟩ := onTime
  obtain ⟨next, rest, first, -⟩ := onTime.first_le
  rw [(count_mboxFetch (s := s.cyclic) first Timeouts.timedOut pcbs).1,
    if_pos (calls_timedOut next)]

/-- A message that is already waiting makes the first timer due. -/
theorem due_of_waiting (onTime : ∃ o, Cyclic.OnTime s.cyclic es o) (early : s.isDue = false)
    (pcbs : Bool) :
    isDue { s with cyclic := (s.cyclic.mboxFetch unmoved pcbs).1 } = true := by
  obtain ⟨o, onTime⟩ := onTime
  obtain ⟨next, rest, first, small⟩ := onTime.first_le
  have zero : next.time ≠ 0 := fun none => by
    rw [(isDue_iff first).mpr none] at early
    cases early
  have positive : next.time > 0 := by bv_omega
  have longer : ¬ unmoved < next.time := by
    rw [BitVec.lt_def]
    simp only [ARP_TMR_INTERVAL] at small
    show ¬ 21474832 < _
    omega
  have after : s.cyclic.timeouts.mboxFetch unmoved =
      (⟨{ next with time := 0 } :: rest, s.cyclic.timeouts.free⟩, [.fetched unmoved.toNat]) := by
    simp only [Timeouts.mboxFetch, first, if_pos positive, if_neg longer]
    exact if_neg (by decide)
  simp [isDue, timeout, Cyclic.mboxFetch, after]

theorem step_again (s : TcpipThread) (pcbs : Bool) :
    ∃ s' more, s.step (.again true 0 pcbs) = some (s', more) ∧ s'.osTime = s.osTime := by
  cases due : s.isDue with
  | true => exact ⟨_, _, step_due due true 0 pcbs, rfl⟩
  | false => exact ⟨_, _, step_waiting due pcbs, rfl⟩

/-- Two passes with a message waiting each time call a timer, and no tick passes. -/
theorem again_twice (onTime : ∃ o, Cyclic.OnTime s.cyclic es o) (pcbs : Bool) :
    ∃ s₁ s₂ first second, s.step (.again true 0 pcbs) = some (s₁, first) ∧
      s₁.step (.again true 0 pcbs) = some (s₂, second) ∧ s₂.osTime = s.osTime ∧
      1 ≤ (first ++ second).countP TimeoutEvent.isCalled := by
  cases due : s.isDue with
  | true =>
      obtain ⟨s₂, second, stepped, same⟩ := step_again
        { s with cyclic := (s.cyclic.mboxFetch Timeouts.timedOut pcbs).1 } pcbs
      refine ⟨_, s₂, _, second, step_due due true 0 pcbs, stepped, same, ?_⟩
      rw [List.countP_append, called_of_due onTime pcbs]
      exact Nat.le_add_right _ _
  | false =>
      have stepped := step_waiting due pcbs
      have due' := due_of_waiting onTime due pcbs
      refine ⟨_, _, _, _, stepped, step_due due' true 0 pcbs, rfl, ?_⟩
      have called := called_of_due (onTime_step onTime stepped) pcbs
      rw [List.countP_append, called]
      exact Nat.le_add_left _ _

end TcpipThread

/-- Whatever has been, messages that are already waiting make the timers run away: with two
messages for each call any number of timers is called, and no tick passes. -/
theorem timers_run_away {calls : List ThreadCall} {s : TcpipThread}
    {es : List (TimeoutEvent CyclicTimer)}
    (ran : runPartial (shown TcpipThread.step) TcpipThread.start calls = some (s, es))
    (pcbs : Bool) (k : Nat) :
    ∃ s' more, runPartial (shown TcpipThread.step) (s, es)
        (List.replicate (2 * k) (.again true 0 pcbs)) = some (s', es ++ more) ∧
      s'.osTime = s.osTime ∧ k ≤ more.countP TimeoutEvent.isCalled := by
  have kept (s : TcpipThread) (es : List (TimeoutEvent CyclicTimer)) (c : ThreadCall)
      (s' : TcpipThread) (more : List (TimeoutEvent CyclicTimer))
      (before : ∃ o, Cyclic.OnTime s.cyclic es o) (_ : True)
      (stepped : s.step c = some (s', more)) : ∃ o, Cyclic.OnTime s'.cyclic (es ++ more) o :=
    TcpipThread.onTime_step before stepped
  have onTime := shown_invariant kept (fun _ _ => trivial) Cyclic.onTime_sysTimeoutsInit ran
  clear ran
  induction k generalizing s es with
  | zero => exact ⟨s, [], by rw [List.append_nil]; rfl, rfl, Nat.zero_le _⟩
  | succ k ih =>
      obtain ⟨s₁, s₂, first, second, step₁, step₂, time, called⟩ :=
        TcpipThread.again_twice onTime pcbs
      have onTime₂ := TcpipThread.onTime_step (TcpipThread.onTime_step onTime step₁) step₂
      obtain ⟨s', more, rest, time', count⟩ := ih onTime₂
      refine ⟨s', first ++ second ++ more, ?_, time'.trans time, ?_⟩
      · have twice : List.replicate (2 * (k + 1)) (ThreadCall.again true 0 pcbs) =
            .again true 0 pcbs :: .again true 0 pcbs ::
              List.replicate (2 * k) (.again true 0 pcbs) := rfl
        rw [twice]
        simp only [runPartial, shown, step₁, step₂, Option.map_some, Option.bind_some]
        rw [rest]
        simp
      · rw [List.countP_append]
        omega

/-- Six messages are waiting when the thread starts. -/
theorem timers_run_away_six : ∃ (s : TcpipThread) (es : List (TimeoutEvent CyclicTimer)),
    runPartial (shown TcpipThread.step) TcpipThread.start [] = some (s, es) ∧
      ∃ s' more, runPartial (shown TcpipThread.step) (s, es)
          (List.replicate (2 * 3) (.again true 0 false)) = some (s', es ++ more) ∧
        s'.osTime = s.osTime ∧ 3 ≤ more.countP TimeoutEvent.isCalled := by
  have ran : runPartial (shown TcpipThread.step) TcpipThread.start [] =
      some (TcpipThread.start.1, TcpipThread.start.2) := rfl
  exact ⟨_, _, ran, timers_run_away ran false 3⟩

end Stm32Robot.Net
