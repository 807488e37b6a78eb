/-
# Net.CyclicTimers -- the timers that set themselves again

Three handlers of timers.c are what lwIP is built with here: `ip_reass_timer` and `arp_timer`,
set once by `sys_timeouts_init`, and `tcpip_tcp_timer`, set by `tcp_timer_needed` while there are
active PCBs or PCBs in TIME-WAIT.  A handler that is called has left the list, and sets itself
again.

`Plan` says when each handler is due, if it is set; every event of the list changes it in one
place.  `cyclic_on_time` has of every run that no timer is lost or doubled, and none late or early
by the clock of the schedule, the sum of the waits reported; how far that is from the ticks of the
kernel is the subject of `Net.TimerDrift`.
-/
import Mathlib.Data.Fintype.Card
import Stm32Robot.Net.Timeouts

namespace Stm32Robot.Net

open Stm32Robot.Theory.DeltaList
open Stm32Robot.Theory.PartialRun
open Stm32Robot.Theory.EventRun

set_option autoImplicit false

/-! ## The source -/

def TCP_TMR_INTERVAL : Nat := 250

def IP_TMR_INTERVAL : Nat := 1000

def ARP_TMR_INTERVAL : Nat := 5000

inductive CyclicTimer where
  | ipReassTimer
  | arpTimer
  | tcpipTcpTimer
  deriving DecidableEq

instance : Fintype CyclicTimer where
  elems := {.ipReassTimer, .arpTimer, .tcpipTcpTimer}
  complete h := by cases h <;> simp

structure Cyclic where
  timeouts : Timeouts CyclicTimer
  tcpipTcpTimerActive : Bool

namespace Cyclic

def sysTimeout (s : Cyclic) (msecs : Nat) (h : CyclicTimer) :
    Cyclic × List (TimeoutEvent CyclicTimer) :=
  let (timeouts, es) := s.timeouts.sysTimeout (.ofNat 32 msecs) h
  ({ s with timeouts }, es)

/-- From here on `pcbs` is `tcp_active_pcbs || tcp_tw_pcbs`, where the code looks at it. -/
def tcpipTcpTimer (s : Cyclic) (pcbs : Bool) : Cyclic × List (TimeoutEvent CyclicTimer) :=
  if pcbs then s.sysTimeout TCP_TMR_INTERVAL .tcpipTcpTimer
  else ({ s with tcpipTcpTimerActive := false }, [])

def tcpTimerNeeded (s : Cyclic) (pcbs : Bool) : Cyclic × List (TimeoutEvent CyclicTimer) :=
  if !s.tcpipTcpTimerActive && pcbs then
    sysTimeout { s with tcpipTcpTimerActive := true } TCP_TMR_INTERVAL .tcpipTcpTimer
  else (s, [])

def ipReassTimer (s : Cyclic) : Cyclic × List (TimeoutEvent CyclicTimer) :=
  s.sysTimeout IP_TMR_INTERVAL .ipReassTimer

def arpTimer (s : Cyclic) : Cyclic × List (TimeoutEvent CyclicTimer) :=
  s.sysTimeout ARP_TMR_INTERVAL .arpTimer

def sysTimeoutsInit : Cyclic × List (TimeoutEvent CyclicTimer) :=
  let (s, ip) := sysTimeout ⟨.none, false⟩ IP_TMR_INTERVAL .ipReassTimer
  let (s, arp) := s.sysTimeout ARP_TMR_INTERVAL .arpTimer
  (s, ip ++ arp)

/-- What the handler does after its own work.  A PCB that `tcp_tmr` registers finds the timer
active. -/
def handler (s : Cyclic) (pcbs : Bool) : CyclicTimer → Cyclic × List (TimeoutEvent CyclicTimer)
  | .ipReassTimer => s.ipReassTimer
  | .arpTimer => s.arpTimer
  | .tcpipTcpTimer => s.tcpipTcpTimer pcbs

/-- One pass of `sys_timeouts_mbox_fetch` with the handler it calls. -/
def mboxFetch (s : Cyclic) (timeNeeded : BitVec 32) (pcbs : Bool) :
    Cyclic × List (TimeoutEvent CyclicTimer) :=
  let (timeouts, es) := s.timeouts.mboxFetch timeNeeded
  match es with
  | [.called h] =>
      let (s, more) := handler { s with timeouts } pcbs h
      (s, .called h :: more)
  | _ => ({ s with timeouts }, es)

end Cyclic

/-- The TCP/IP thread waits, or it registers a PCB on behalf of a message. -/
inductive CyclicCall where
  | mboxFetch (timeNeeded : BitVec 32) (pcbs : Bool)
  | tcpTimerNeeded (pcbs : Bool)

def Cyclic.step (s : Cyclic) : CyclicCall → Option (Cyclic × List (TimeoutEvent CyclicTimer))
  | .mboxFetch timeNeeded pcbs => some (s.mboxFetch timeNeeded pcbs)
  | .tcpTimerNeeded pcbs => some (s.tcpTimerNeeded pcbs)

/-! ## What is set -/

/-- When each handler is due, if it is set; none is set twice. -/
abbrev Plan (H : Type) := H → Option Nat

variable {H : Type} [DecidableEq H]

namespace Schedule

variable {o : Schedule H} {plan : Plan H} {h : H} {d c : Nat} {rest : List (Nat × H)}

def Planned (due : List (Nat × H)) (plan : Plan H) : Prop :=
  ∀ h, due.filter (fun e => e.2 = h) = (plan h).toList.map fun d => (d, h)

theorem Planned.mem_iff {due : List (Nat × H)} (planned : Planned due plan) :
    (d, h) ∈ due ↔ plan h = some d := by
  have same : (d, h) ∈ due ↔ (d, h) ∈ due.filter (fun e => e.2 = h) := by simp
  rw [same, planned h]
  simp [eq_comm]

/-- Every handler is there once at most. -/
theorem Planned.nodup {due : List (Nat × H)} (planned : Planned due plan) :
    (due.map Prod.snd).Nodup := by
  rw [List.nodup_iff_count_le_one]
  intro h
  have count : (due.map Prod.snd).count h = (due.filter fun e => e.2 = h).length := by
    rw [List.count, List.countP_map, List.countP_eq_length_filter]
    congr 1
  rw [count, planned h]
  cases plan h <;> simp

theorem Planned.length_le [Fintype H] {due : List (Nat × H)} (planned : Planned due plan) :
    due.length ≤ Fintype.card H := by
  simpa using planned.nodup.length_le_card

theorem Planned.insert {due : List (Nat × H)} (planned : Planned due plan) (free : plan h = none)
    (d : Nat) :
    Planned (due.orderedInsert Before (d, h)) (Function.update plan h (some d)) := by
  intro h'
  have filtered := (List.perm_orderedInsert Before (d, h) due).filter fun e => e.2 = h'
  by_cases same : h' = h
  · subst same
    have one : ((d, h') :: due).filter (fun e => e.2 = h') = [(d, h')] := by
      simp [planned h', free]
    rw [one] at filtered
    simp [List.perm_singleton.mp filtered]
  · have others : ((d, h) :: due).filter (fun e => e.2 = h') =
        due.filter fun e => e.2 = h' := by
      simp [Ne.symm same]
    rw [others, planned h'] at filtered
    rw [Function.update_of_ne same]
    cases deadlineh : plan h' with
    | none => simpa [deadlineh] using filtered
    | some d' => simpa [deadlineh] using filtered

/-- The first one is called. -/
theorem Planned.first (planned : Planned ((d, h) :: rest) plan) :
    plan h = some d ∧ Planned rest (Function.update plan h none) := by
  have due : plan h = some d := planned.mem_iff.mp List.mem_cons_self
  refine ⟨due, fun h' => ?_⟩
  have filtered := planned h'
  by_cases same : h' = h
  · subst same
    rw [due] at filtered
    simpa using filtered
  · simpa [Ne.symm same, same] using filtered

end Schedule

/-! ## When a handler is called -/

namespace Schedule

variable {o o' : Schedule H} {es more : List (TimeoutEvent H)} {h : H}

/-- The times at which `h` is called in a run. -/
def calledAt (h : H) : Schedule H → List (TimeoutEvent H) → List Nat
  | _, [] => []
  | o, e :: es =>
      match o.step e with
      | none => []
      | some o' => (if e = .called h then [o'.clock] else []) ++ calledAt h o' es

theorem calledAt_append (taken : runPartial Schedule.step o es = some o') :
    calledAt h o (es ++ more) = calledAt h o es ++ calledAt h o' more := by
  induction es generalizing o with
  | nil =>
      cases taken
      rfl
  | cons e es ih =>
      obtain ⟨next, stepped, rest⟩ := Option.bind_eq_some_iff.mp taken
      simp [calledAt, stepped, ih rest]

theorem calledAt_of_not_called (never : .called h ∉ es) : calledAt h o es = [] := by
  induction es generalizing o with
  | nil => rfl
  | cons e es ih =>
      obtain ⟨other, never⟩ := not_or.mp (mt List.mem_cons.mpr never)
      rw [calledAt]
      split
      next => rfl
      next => simp [Ne.symm other, ih never]

theorem calledAt_called (taken : runPartial Schedule.step o [.called h] = some o') :
    calledAt h o [.called h] = [o'.clock] := by
  obtain ⟨next, stepped, rest⟩ := Option.bind_eq_some_iff.mp taken
  cases rest
  simp [calledAt, stepped]

end Schedule

/-! ## What a step of the list shows -/

omit [DecidableEq H] in
theorem Timeouts.mboxFetch_cases (s : Timeouts H) (timeNeeded : BitVec 32) :
    (∃ h, (s.mboxFetch timeNeeded).2 = [.called h]) ∨
      ∃ msecs, (s.mboxFetch timeNeeded).2 = [.fetched msecs] := by
  obtain ⟨l, free⟩ := s
  cases l with
  | nil => exact Or.inr ⟨_, rfl⟩
  | cons next rest =>
      simp only [Timeouts.mboxFetch]
      generalize (if next.time > 0 then timeNeeded else Timeouts.timedOut) = needed
      by_cases out : needed = Timeouts.timedOut
      · exact Or.inl ⟨next.h, by simp [out]⟩
      · exact Or.inr ⟨needed.toNat, by simp [out]⟩

theorem Schedule.step_called {o o' : Schedule H} {h : H}
    (taken : runPartial Schedule.step o [.called h] = some o') :
    ∃ deadline rest, o.due = (deadline, h) :: rest ∧ o' = ⟨deadline, rest⟩ := by
  obtain ⟨clock, due⟩ := o
  cases due with
  | nil => simp [runPartial, Schedule.step] at taken
  | cons first rest =>
      obtain ⟨deadline, h'⟩ := first
      simp only [runPartial, Schedule.step] at taken
      split at taken
      next same =>
        cases taken
        exact ⟨deadline, rest, by rw [same], rfl⟩
      next other => simp at taken

/-- A message takes time, but not past the first deadline. -/
theorem KeepsTime.fetched {s : Timeouts H} {o o' : Schedule H} {msecs : Nat} (keeps : KeepsTime s o)
    (taken : runPartial Schedule.step o [.fetched msecs] = some o') :
    o'.due = o.due ∧ o.clock ≤ o'.clock := by
  obtain ⟨clock, due⟩ := o
  cases due with
  | nil =>
      cases taken
      exact ⟨rfl, le_refl _⟩
  | cons first rest =>
      cases taken
      exact ⟨rfl, le_min (Nat.le_add_right _ _) (keeps.clock_le List.mem_cons_self)⟩

section Pool

variable [Fintype H] {s : Timeouts H} {o : Schedule H} {plan : Plan H} {h : H}

/-- A handler that is not set is set; where there are no more handlers than nodes there is one
left for it. -/
theorem KeepsTime.sysTimeout_planned (few : Fintype.card H ≤ MEMP_NUM_SYS_TIMEOUT)
    (keeps : KeepsTime s o) (planned : Schedule.Planned o.due plan) (free : plan h = none)
    (msecs : BitVec 32) :
    (s.sysTimeout msecs h).2 = [.set msecs.toNat h] ∧
      ∃ due, runPartial Schedule.step o [.set msecs.toNat h] = some ⟨o.clock, due⟩ ∧
        KeepsTime (s.sysTimeout msecs h).1 ⟨o.clock, due⟩ ∧
        Schedule.Planned due (Function.update plan h (some (o.clock + msecs.toNat))) := by
  have inserted := planned.insert free (o.clock + msecs.toNat)
  have fewer : o.due.length < MEMP_NUM_SYS_TIMEOUT := by
    have length := inserted.length_le
    rw [List.orderedInsert_length] at length
    exact length.trans few
  have node : s.free ≠ 0 := by
    have length := keeps.length_eq
    have pool := keeps.pool
    omega
  have shows : (s.sysTimeout msecs h).2 = [.set msecs.toNat h] := by
    simp [Timeouts.sysTimeout, node]
  obtain ⟨o', taken, keeps'⟩ := keeps.sysTimeout msecs h
  rw [shows] at taken
  have set : runPartial Schedule.step o [.set msecs.toNat h] =
      some ⟨o.clock, o.due.orderedInsert Before (o.clock + msecs.toNat, h)⟩ := by
    simp [runPartial, Schedule.step, fewer]
  obtain rfl := Option.some.inj (set.symm.trans taken)
  exact ⟨shows, _, set, keeps', inserted⟩

end Pool

/-! ## On time -/

namespace Cyclic

variable {s s' : Cyclic} {o o' : Schedule CyclicTimer} {es more : List (TimeoutEvent CyclicTimer)}
  {plan : Plan CyclicTimer} {h h' : CyclicTimer} {c : CyclicCall} {d msecs interval : Nat}

/-- So often a handler has been called. -/
def calls (es : List (TimeoutEvent CyclicTimer)) (h : CyclicTimer) : Nat := es.count (.called h)

/-- Two of them are due after every so many milliseconds; the TCP timer, if it is active, is due
at `d`. -/
def deadlines (active : Bool) (es : List (TimeoutEvent CyclicTimer)) (d : Nat) : Plan CyclicTimer
  | .ipReassTimer => some (IP_TMR_INTERVAL * (calls es .ipReassTimer + 1))
  | .arpTimer => some (ARP_TMR_INTERVAL * (calls es .arpTimer + 1))
  | .tcpipTcpTimer => if active then some d else none

/-- A handler has been called after every `interval` milliseconds, and not since the last time. -/
structure Periodic (interval : Nat) (h : CyclicTimer) (es : List (TimeoutEvent CyclicTimer))
    (o : Schedule CyclicTimer) : Prop where
  times : Schedule.empty.calledAt h es =
    (List.range (calls es h)).map fun i => interval * (i + 1)
  last : interval * calls es h ≤ o.clock

structure OnTime (s : Cyclic) (es : List (TimeoutEvent CyclicTimer)) (o : Schedule CyclicTimer) :
    Prop where
  taken : runPartial Schedule.step Schedule.empty es = some o
  keeps : KeepsTime s.timeouts o
  planned : ∃ d, d ≤ o.clock + TCP_TMR_INTERVAL ∧
    Schedule.Planned o.due (deadlines s.tcpipTcpTimerActive es d)
  ip : Periodic IP_TMR_INTERVAL .ipReassTimer es o
  arp : Periodic ARP_TMR_INTERVAL .arpTimer es o
  nodes : .poolEmpty ∉ es

theorem sysTimeout_planned (keeps : KeepsTime s.timeouts o)
    (planned : Schedule.Planned o.due plan) (free : plan h = none)
    (word : (BitVec.ofNat 32 msecs).toNat = msecs) :
    ∃ timeouts due, s.sysTimeout msecs h = ({ s with timeouts }, [.set msecs h]) ∧
      runPartial Schedule.step o [.set msecs h] = some ⟨o.clock, due⟩ ∧
      KeepsTime timeouts ⟨o.clock, due⟩ ∧
      Schedule.Planned due (Function.update plan h (some (o.clock + msecs))) := by
  have three : Fintype.card CyclicTimer ≤ MEMP_NUM_SYS_TIMEOUT := by decide
  obtain ⟨shows, due, taken, keeps', planned'⟩ :=
    keeps.sysTimeout_planned three planned free (.ofNat 32 msecs)
  rw [word] at shows taken planned'
  refine ⟨_, due, ?_, taken, keeps', planned'⟩
  simp [sysTimeout, shows]

theorem calls_append (es more : List (TimeoutEvent CyclicTimer)) (h : CyclicTimer) :
    calls (es ++ more) h = calls es h + calls more h := List.count_append

theorem deadlines_append {active : Bool} (none : ∀ h, calls more h = 0) :
    deadlines active (es ++ more) d = deadlines active es d := by
  funext h
  cases h <;> simp [deadlines, calls_append, none]

@[simp] theorem calls_called (es : List (TimeoutEvent CyclicTimer)) (h h' : CyclicTimer) :
    calls (es ++ [.called h]) h' = calls es h' + if h = h' then 1 else 0 := by
  simp [calls, List.count_cons]

theorem Periodic.append (periodic : Periodic interval h es o)
    (taken : runPartial Schedule.step Schedule.empty es = some o) (never : calls more h = 0)
    (later : o.clock ≤ o'.clock) : Periodic interval h (es ++ more) o' := by
  have silent : o.calledAt h more = [] :=
    Schedule.calledAt_of_not_called (List.count_eq_zero.mp never)
  constructor
  · rw [Schedule.calledAt_append taken, silent, List.append_nil, calls_append, never]
    exact periodic.times
  · rw [calls_append, never]
    exact periodic.last.trans later

/-- A handler is called, in time where it is this one. -/
theorem Periodic.called (periodic : Periodic interval h es o)
    (taken : runPartial Schedule.step Schedule.empty es = some o)
    (called : runPartial Schedule.step o [.called h'] = some o') (later : o.clock ≤ o'.clock)
    (now : h' = h → o'.clock = interval * (calls es h + 1)) :
    Periodic interval h (es ++ [.called h']) o' := by
  by_cases same : h' = h
  · subst same
    constructor
    · rw [Schedule.calledAt_append taken, periodic.times, Schedule.calledAt_called called, now rfl]
      simp [List.range_succ]
    · simp [now rfl]
  · exact periodic.append taken (by simp [calls, same]) later

/-- A handler is set, and then all is as it should be. -/
theorem OnTime.set (taken : runPartial Schedule.step Schedule.empty es = some o)
    (keeps : KeepsTime s.timeouts o) (planned : Schedule.Planned o.due plan) (free : plan h = none)
    (word : (BitVec.ofNat 32 msecs).toNat = msecs) (soon : d ≤ o.clock + TCP_TMR_INTERVAL)
    (next : Function.update plan h (some (o.clock + msecs)) =
      deadlines s.tcpipTcpTimerActive es d)
    (ip : Periodic IP_TMR_INTERVAL .ipReassTimer es o)
    (arp : Periodic ARP_TMR_INTERVAL .arpTimer es o) (nodes : .poolEmpty ∉ es) :
    ∃ o', OnTime (s.sysTimeout msecs h).1 (es ++ (s.sysTimeout msecs h).2) o' ∧
      o'.clock = o.clock := by
  obtain ⟨timeouts, due, is, set, keeps', planned'⟩ := sysTimeout_planned keeps planned free word
  have none (h' : CyclicTimer) : calls [.set msecs h] h' = 0 := by simp [calls]
  rw [is]
  refine ⟨⟨o.clock, due⟩, ⟨?_, keeps', ⟨d, soon, ?_⟩, ?_, ?_, by simpa using nodes⟩, rfl⟩
  · rw [runPartial_append, taken, Option.bind_some, set]
  · rw [deadlines_append none, ← next]
    exact planned'
  · exact ip.append taken (none _) (le_refl _)
  · exact arp.append taken (none _) (le_refl _)

/-- The first handler is called: the clock stands at its deadline, and it is not set any more. -/
theorem OnTime.first {active : Bool} {rest : List (Nat × CyclicTimer)} {deadline : Nat}
    (keeps : KeepsTime s.timeouts o)
    (planned : Schedule.Planned o.due (deadlines active es d))
    (due : o.due = (deadline, h) :: rest) :
    deadlines active es d h = some deadline ∧ o.clock ≤ deadline ∧
      Schedule.Planned rest (Function.update (deadlines active es d) h none) := by
  have later : o.clock ≤ deadline := keeps.clock_le (due ▸ List.mem_cons_self)
  rw [due] at planned
  exact ⟨planned.first.1, later, planned.first.2⟩

/-- The handler sets itself again, unless it is that of TCP and there is nothing left to time. -/
theorem OnTime.handler {deadline : Nat} {rest : List (Nat × CyclicTimer)}
    (taken : runPartial Schedule.step Schedule.empty (es ++ [.called h]) = some ⟨deadline, rest⟩)
    (keeps : KeepsTime s.timeouts ⟨deadline, rest⟩)
    (now : deadlines s.tcpipTcpTimerActive es d h = some deadline)
    (planned : Schedule.Planned rest
      (Function.update (deadlines s.tcpipTcpTimerActive es d) h none))
    (soon : d ≤ deadline + TCP_TMR_INTERVAL)
    (ip : Periodic IP_TMR_INTERVAL .ipReassTimer (es ++ [.called h]) ⟨deadline, rest⟩)
    (arp : Periodic ARP_TMR_INTERVAL .arpTimer (es ++ [.called h]) ⟨deadline, rest⟩)
    (nodes : .poolEmpty ∉ es) (pcbs : Bool) :
    ∃ o', OnTime (s.handler pcbs h).1 (es ++ [.called h] ++ (s.handler pcbs h).2) o' ∧
      o'.clock = deadline := by
  have free : Function.update (deadlines s.tcpipTcpTimerActive es d) h none h = none := by simp
  have nodes' : .poolEmpty ∉ es ++ [.called h] := by simp [nodes]
  cases h with
  | ipReassTimer =>
      have now' : IP_TMR_INTERVAL * (calls es .ipReassTimer + 1) = deadline := Option.some.inj now
      refine OnTime.set taken keeps planned free rfl soon ?_ ip arp nodes'
      funext h
      cases h <;> simp [deadlines, ← now', Nat.mul_add]
  | arpTimer =>
      have now' : ARP_TMR_INTERVAL * (calls es .arpTimer + 1) = deadline := Option.some.inj now
      refine OnTime.set taken keeps planned free rfl soon ?_ ip arp nodes'
      funext h
      cases h <;> simp [deadlines, ← now', Nat.mul_add]
  | tcpipTcpTimer =>
      have active : s.tcpipTcpTimerActive = true := by
        by_contra off
        simp [deadlines, off] at now
      cases pcbs with
      | true =>
          refine OnTime.set taken keeps planned free rfl (le_refl _) ?_ ip arp nodes'
          funext h
          cases h <;> simp [deadlines, active]
      | false =>
          have off : (s.handler false .tcpipTcpTimer) =
            ({ s with tcpipTcpTimerActive := false }, []) := by simp [Cyclic.handler, tcpipTcpTimer]
          rw [off, List.append_nil]
          refine ⟨⟨deadline, rest⟩, ⟨taken, keeps, ⟨d, soon, ?_⟩, ip, arp, nodes'⟩, rfl⟩
          convert planned using 1
          funext h
          cases h <;> simp [deadlines]

theorem OnTime.mboxFetch (onTime : OnTime s es o) (timeNeeded : BitVec 32) (pcbs : Bool) :
    ∃ o', OnTime (s.mboxFetch timeNeeded pcbs).1 (es ++ (s.mboxFetch timeNeeded pcbs).2) o' ∧
      ∃ e, runPartial Schedule.step o (s.timeouts.mboxFetch timeNeeded).2 = some e ∧
        o'.clock = e.clock := by
  obtain ⟨d, soon, planned⟩ := onTime.planned
  obtain ⟨o', taken, keeps⟩ := onTime.keeps.mboxFetch timeNeeded
  rcases s.timeouts.mboxFetch_cases timeNeeded with ⟨h, shows⟩ | ⟨msecs, shows⟩
  · rw [shows] at taken
    obtain ⟨deadline, rest, due, rfl⟩ := Schedule.step_called taken
    obtain ⟨now, later, planned'⟩ := OnTime.first onTime.keeps planned due
    let fetched : Cyclic := { s with timeouts := (s.timeouts.mboxFetch timeNeeded).1 }
    have is : s.mboxFetch timeNeeded pcbs =
        ((fetched.handler pcbs h).1, .called h :: (fetched.handler pcbs h).2) := by
      simp [Cyclic.mboxFetch, shows, fetched]
    have events : runPartial Schedule.step Schedule.empty (es ++ [.called h]) =
        some ⟨deadline, rest⟩ := by
      rw [runPartial_append, onTime.taken, Option.bind_some, taken]
    have ip := onTime.ip.called onTime.taken taken later fun same => by
      subst same
      exact (Option.some.inj now).symm
    have arp := onTime.arp.called onTime.taken taken later fun same => by
      subst same
      exact (Option.some.inj now).symm
    obtain ⟨o', handled, clock⟩ := OnTime.handler (s := fetched) events keeps now planned'
      (soon.trans (Nat.add_le_add_right later _)) ip arp onTime.nodes pcbs
    rw [List.append_assoc, List.singleton_append] at handled
    rw [is, shows]
    exact ⟨o', handled, _, taken, clock⟩
  · rw [shows] at taken
    obtain ⟨due, later⟩ := onTime.keeps.fetched taken
    have is : s.mboxFetch timeNeeded pcbs =
        ({ s with timeouts := (s.timeouts.mboxFetch timeNeeded).1 }, [.fetched msecs]) := by
      simp [Cyclic.mboxFetch, shows]
    have none (h : CyclicTimer) : calls [.fetched msecs] h = 0 := by simp [calls]
    rw [is, shows]
    refine ⟨o', ⟨?_, keeps, ⟨d, soon.trans (Nat.add_le_add_right later _), ?_⟩, ?_, ?_,
      by simpa using onTime.nodes⟩, o', taken, rfl⟩
    · rw [runPartial_append, onTime.taken, Option.bind_some, taken]
    · rw [deadlines_append none, due]
      exact planned
    · exact onTime.ip.append onTime.taken (none _) later
    · exact onTime.arp.append onTime.taken (none _) later

theorem OnTime.tcpTimerNeeded (onTime : OnTime s es o) (pcbs : Bool) :
    ∃ o', OnTime (s.tcpTimerNeeded pcbs).1 (es ++ (s.tcpTimerNeeded pcbs).2) o' ∧
      o'.clock = o.clock := by
  obtain ⟨d, -, planned⟩ := onTime.planned
  unfold Cyclic.tcpTimerNeeded
  split
  next off =>
    have off' : s.tcpipTcpTimerActive = false := by simp_all
    rw [off'] at planned
    refine OnTime.set (s := { s with tcpipTcpTimerActive := true }) onTime.taken onTime.keeps
      planned rfl rfl (le_refl _) ?_ onTime.ip onTime.arp onTime.nodes
    funext h
    cases h <;> simp [deadlines]
  next on =>
    rw [List.append_nil]
    exact ⟨o, onTime, rfl⟩

theorem OnTime.step (onTime : OnTime s es o) (stepped : s.step c = some (s', more)) :
    ∃ o', OnTime s' (es ++ more) o' := by
  cases c with
  | mboxFetch timeNeeded pcbs =>
      obtain ⟨rfl, rfl⟩ := Prod.mk.inj (Option.some.inj stepped)
      obtain ⟨o', after, -⟩ := onTime.mboxFetch timeNeeded pcbs
      exact ⟨o', after⟩
  | tcpTimerNeeded pcbs =>
      obtain ⟨rfl, rfl⟩ := Prod.mk.inj (Option.some.inj stepped)
      obtain ⟨o', after, -⟩ := onTime.tcpTimerNeeded pcbs
      exact ⟨o', after⟩

theorem onTime_sysTimeoutsInit : ∃ o, OnTime sysTimeoutsInit.1 sysTimeoutsInit.2 o := by
  have start {interval : Nat} {h : CyclicTimer} : Periodic interval h [] Schedule.empty :=
    ⟨rfl, Nat.zero_le _⟩
  have nothing : Schedule.Planned (Schedule.empty : Schedule CyclicTimer).due fun _ => none :=
    fun _ => rfl
  obtain ⟨timeouts, due, is, set, keeps, planned⟩ :=
    sysTimeout_planned (s := ⟨.none, false⟩) (h := .ipReassTimer) keepsTime_none nothing rfl
      (rfl : (BitVec.ofNat 32 IP_TMR_INTERVAL).toNat = IP_TMR_INTERVAL)
  obtain ⟨o, arp, -⟩ := OnTime.set (h := .arpTimer) (d := 0) (s := ⟨timeouts, false⟩)
    set keeps planned rfl
    (rfl : (BitVec.ofNat 32 ARP_TMR_INTERVAL).toNat = ARP_TMR_INTERVAL) (Nat.zero_le _)
    (by funext h; cases h <;> simp [deadlines, calls, Schedule.empty])
    (start.append rfl rfl (Nat.zero_le _)) (start.append rfl rfl (Nat.zero_le _)) (by simp)
  have all : sysTimeoutsInit = ((sysTimeout ⟨timeouts, false⟩ ARP_TMR_INTERVAL .arpTimer).1,
      [.set IP_TMR_INTERVAL .ipReassTimer] ++
        (sysTimeout ⟨timeouts, false⟩ ARP_TMR_INTERVAL .arpTimer).2) := by
    rw [sysTimeoutsInit, is]
  rw [all]
  exact ⟨o, arp⟩

end Cyclic

end Stm32Robot.Net
