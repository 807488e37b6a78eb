/-
# Kernel.Traffic -- a queue or a semaphore as a counter of items

A queue and a semaphore are both a `Counter` of `Theory.Handover`: the messages in the ring, or as
many null pointers as the count says, wait in line, and a task that was woken by a post, and whose
pend is not over, has an item in its hand.

`Inv.carries` says which move of the counter a step of the kernel is; what came and what left is
read off the log.
-/
import Stm32Robot.Kernel.Phases
import Stm32Robot.Theory.Handover

namespace Stm32Robot.Kernel

open Stm32Robot.Theory
open Stm32Robot.Theory.Handover
open Stm32Robot.Theory.PartialRun

set_option autoImplicit false

variable {Msg : Type}

/-- What a task was given, and has not come back with. -/
def Phase.inHand (e : EventId) (s : Service) : Phase Msg → Option (Option Msg)
  | .served j i pmsg => if j = e ∧ i = s then some (if s = .q then pmsg else none) else none
  | _ => none

namespace Entry

/-- What a step put into the event. -/
def posted (e : EventId) (x : Entry Msg) : List (Option Msg) :=
  match x.act, x.reply with
  | .call (.osQPost j pmsg), .err .none => if j = e then [pmsg] else []
  | .call (.osQPostFront j pmsg), .err .none => if j = e then [pmsg] else []
  | .call (.osSemPost j), .err .none => if j = e then [none] else []
  | _, _ => []

/-- What a step took out of it. -/
def received (e : EventId) (s : Service) (x : Entry Msg) : List (Option Msg) :=
  match x.reply with
  | .pended j i pmsg .none => if j = e ∧ i = s then [pmsg] else []
  | .accepted j pmsg .none => if j = e ∧ s = .q then [pmsg] else []
  | .cnt j n => if j = e ∧ s = .sem ∧ 0 < n then [none] else []
  | _ => []

end Entry

/-- The event a reply is about. -/
def Reply.event : Reply Msg → Option EventId
  | .pended j _ _ _ => some j
  | .accepted j _ _ => some j
  | .cnt j _ => some j
  | _ => none

namespace Call

/-- The event a service is called for. -/
def event : Call Msg → Option EventId
  | .osQAccept e => some e
  | .osQDel e _ => some e
  | .osQFlush e => some e
  | .osQPend e _ => some e
  | .osQPendAbort e _ => some e
  | .osQPost e _ => some e
  | .osQPostFront e _ => some e
  | .osSemAccept e => some e
  | .osSemDel e _ => some e
  | .osSemPend e _ => some e
  | .osSemPendAbort e _ => some e
  | .osSemPost e => some e
  | .osSemSet e _ => some e
  | _ => none

/-- The service neither deletes nor empties the event, nor sets its count, nor deletes a task. -/
def Spares (e : EventId) : Call Msg → Prop
  | .osQDel j _ => j ≠ e
  | .osQFlush j => j ≠ e
  | .osSemDel j _ => j ≠ e
  | .osSemSet j _ => j ≠ e
  | .osTaskDel _ => False
  | _ => True

/-- The service may take a message out of the event. -/
def Reads (e : EventId) : Call Msg → Prop
  | .osQAccept j => j = e
  | .osQPend j _ => j = e
  | .osSemAccept j => j = e
  | .osSemPend j _ => j = e
  | _ => False

end Call

def Action.Spares (e : EventId) : Action Msg → Prop
  | .call c => c.Spares e
  | _ => True

namespace Ucos

variable {k k' : Ucos Msg} {p q : Prio} {e j : EventId} {s : Service} {a : Task Msg}
  {t : OsTcb Msg} {c : Call Msg} {act : Action Msg} {r : Reply Msg}

/-- What the task has been given by the event and has not come back with. -/
def inHand (k : Ucos Msg) (e : EventId) (s : Service) (p : Prio) : Option (Option Msg) :=
  match k.osTCBPrioTbl p with
  | none => none
  | some t =>
      if (k.context p = .pendSched e s ∨ k.context p = .pendTail e s) ∧
          t.osTCBStat &&& OS_STAT_PEND_ANY = OS_STAT_RDY ∧ t.osTCBStatPend = .ok then
        some (if s = .q then t.osTCBMsg else none)
      else none

/-- What the event has to give. -/
def line (k : Ucos Msg) (e : EventId) : List (Option Msg) :=
  match (k.event e).osEventType with
  | some .q => (k.event e).osEventPtr.contents
  | some .sem => List.replicate (k.event e).osEventCnt none
  | none => []

def counter (k : Ucos Msg) (e : EventId) (s : Service) : Counter Prio (Option Msg) where
  line := k.line e
  hand := k.inHand e s

/-! ## In hand -/

theorem inHand_eq (shows : (k.view p).Shows a t) : k.inHand e s p = a.phase.inHand e s := by
  have found : k.osTCBPrioTbl p = some t := shows.tcb
  have pend (at_pend : k.context p = .pendSched e s ∨ k.context p = .pendTail e s) :
      a.phase.pend = some (e, s) := Phase.pend_eq_of_stands shows.stands at_pend
  have flag : t.osTCBStat &&& OS_STAT_PEND_ANY = OS_STAT_RDY ↔ a.phase.flag = none := by
    rw [shows.stat, flags_and_pendAny]
  have result := shows.result
  have stands := shows.stands
  unfold inHand
  rw [found]
  dsimp only
  cases phase : a.phase with
  | active d =>
      refine if_neg fun h => ?_
      have := pend h.1
      rw [phase] at this
      cases this
  | pending j i d =>
      refine if_neg fun h => ?_
      have := flag.mp h.2.1
      rw [phase] at this
      cases this
  | due j i =>
      rw [phase] at result
      refine if_neg fun h => ?_
      have late : t.osTCBStatPend = .timeout := result
      rw [late] at h
      cases h.2.2
  | aborted j i =>
      rw [phase] at result
      refine if_neg fun h => ?_
      have late : t.osTCBStatPend = .abort := result
      rw [late] at h
      cases h.2.2
  | served j i pmsg =>
      rw [phase] at result flag stands
      have given : t.osTCBStatPend = .ok ∧ t.osTCBMsg = pmsg := result
      have there : k.context p = .pendSched j i ∨ k.context p = .pendTail j i := stands
      show _ = if j = e ∧ i = s then some (if s = .q then pmsg else none) else none
      by_cases same : j = e ∧ i = s
      · rw [if_pos same, given.2]
        rw [same.1, same.2] at there
        exact if_pos ⟨there, flag.mpr rfl, given.1⟩
      · rw [if_neg same]
        refine if_neg fun h => same ?_
        have := pend h.1
        rw [phase] at this
        simpa [Phase.pend] using this

theorem inHand_of_out (out : k.context p = .run ∨ k.context p = .sched) :
    k.inHand e s p = none := by
  unfold inHand
  split
  · rfl
  · refine if_neg fun h => ?_
    rcases out with c | c <;> rw [c] at h <;> rcases h.1 with h | h <;> cases h

theorem inHand_of_run (runs : k.context p = .run) : k.inHand e s p = none :=
  inHand_of_out (Or.inl runs)

theorem inHand_of_absent (absent : k.osTCBPrioTbl p = none) : k.inHand e s p = none := by
  unfold inHand
  rw [absent]

theorem inHand_congr (same : k'.view p = k.view p) : k'.inHand e s p = k.inHand e s p := by
  have tcb : k'.osTCBPrioTbl p = k.osTCBPrioTbl p := congrArg View.tcb same
  have context : k'.context p = k.context p := congrArg View.context same
  unfold inHand
  rw [tcb, context]

/-- A service that gives nothing puts nothing into anybody's hand, and takes nothing out of it. -/
theorem Goes.inHand {who : Option Prio} {x y : Phase Msg} (goes : Goes who q c x y)
    (gives : ∀ pmsg, ¬ c.Serves e s pmsg) : y.inHand e s = x.inHand e s := by
  cases goes with
  | stay | sleep | wait => rfl
  | @served _ j i pmsg serves waits pend =>
      have before : x.inHand e s = none := by
        cases x with
        | active | pending | due | aborted => rfl
        | served => cases waits
      rw [before]
      refine if_neg fun same => ?_
      obtain ⟨rfl, rfl⟩ := same
      exact gives pmsg serves
  | aborted aborts waits pend =>
      cases x with
      | active | pending | due | aborted => rfl
      | served => cases waits
  | hurried hurries => cases x <;> rfl

theorem Follows.inHand (follows : Follows c k k') (sound : k.Sound) (spares : c.Spares e)
    (gives : ∀ pmsg, ¬ c.Serves e s pmsg) : k'.inHand e s = k.inHand e s := by
  funext q
  rcases sound.tasks q with absent | ⟨a, t, shows⟩
  · rw [inHand_of_absent absent.tcb]
    rcases follows.absent q absent.tcb with runs | gone
    · exact inHand_of_run runs
    · exact inHand_of_absent gone
  · rcases follows.tasks q a t shows with gone | ⟨a', u, shows', goes⟩
    · rw [gone] at spares
      exact spares.elim
    · rw [inHand_eq shows', inHand_eq shows, Goes.inHand goes gives]

/-! ## Other events -/

/-- The event has the same to give, to whoever waits. -/
structure SameEvent (e : EventId) (k k' : Ucos Msg) : Prop where
  type : (k'.event e).osEventType = (k.event e).osEventType
  cnt : (k'.event e).osEventCnt = (k.event e).osEventCnt
  ptr : (k'.event e).osEventPtr = (k.event e).osEventPtr

namespace SameEvent

protected theorem refl (e : EventId) (k : Ucos Msg) : SameEvent e k k := ⟨rfl, rfl, rfl⟩

protected theorem trans {k'' : Ucos Msg} (first : SameEvent e k k') (second : SameEvent e k' k'') :
    SameEvent e k k'' :=
  ⟨second.type.trans first.type, second.cnt.trans first.cnt, second.ptr.trans first.ptr⟩

theorem of_touches (touches : Touches p k k') : SameEvent e k k' :=
  ⟨touches.eventType e, touches.eventCnt e, touches.eventPtr e⟩

theorem set (other : some j ≠ some e) (x : OsEvent Msg) : SameEvent e k (k.setEvent j x) := by
  have ne : e ≠ j := fun same => other (congrArg some same.symm)
  have same := event_setEvent_of_ne k x ne
  exact ⟨congrArg _ same, congrArg _ same, congrArg _ same⟩

theorem called (same : SameEvent e k k') : SameEvent e k k'.callOsSched := by
  unfold Ucos.callOsSched
  split <;> exact ⟨same.type, same.cnt, same.ptr⟩

theorem of_wakesAll {pmsg : Option Msg} {ps : StatPend} (all : WakesAll j s pmsg ps k k') :
    SameEvent e k k' := by
  induction all with
  | done => exact .refl e _
  | more first rest ih => exact (SameEvent.of_touches first.touches).trans ih

theorem line (same : SameEvent e k k') : k'.line e = k.line e := by
  unfold Ucos.line
  rw [same.type, same.cnt, same.ptr]

end SameEvent

theorem Inv.elsewhere_wake (inv : k.Inv) (type : (k.event j).osEventType = some s)
    (waits : (k.event j).waiting.grp ≠ 0) (pmsg : Option Msg) {ps : StatPend}
    (wakes : ps ≠ .timeout) :
    SameEvent e k (k.osEventTaskRdy j pmsg s.stat ps).callOsSched := by
  obtain ⟨p, wake⟩ := @Sound.osEventTaskRdy _ k j s pmsg inv.sound type waits ps wakes
  exact (SameEvent.of_touches wake.touches).called

/-- Aborting a wait leaves what the event has to give. -/
theorem Inv.elsewhere_pendAbort (inv : k.Inv) (j : EventId) (s : Service) (opt : PendOpt) :
    SameEvent e k (k.pendAbort j s opt).1 := by
  unfold Ucos.pendAbort
  split
  · exact .refl e k
  next type =>
    have type := some_of_not_ne type
    split
    next waits =>
      cases opt with
      | none => exact inv.elsewhere_wake type waits none (by decide)
      | broadcast =>
          have all := inv.wakeAll type none (by decide : StatPend.abort ≠ .timeout)
          exact (SameEvent.of_wakesAll all).called
    · exact .refl e k

theorem Inv.elsewhere_eventDel (inv : k.Inv) {release : Ucos Msg → Ucos Msg}
    (released : ∀ k : Ucos Msg, ∃ n, release k = { k with osQFreeList := n })
    (other : some j ≠ some e) (opt : DelOpt) : SameEvent e k (k.eventDel s release j opt).1 := by
  have gone (k₁ : Ucos Msg) : SameEvent e k₁ ((release k₁).freeEvent j) := by
    obtain ⟨n, equation⟩ := released k₁
    rw [equation]
    have set := SameEvent.set (k := { k₁ with osQFreeList := n }) other
      { k₁.event j with osEventType := none, osEventCnt := 0 }
    exact ⟨set.type, set.cnt, set.ptr⟩
  unfold Ucos.eventDel
  split
  · exact .refl e k
  next type =>
    split
    · exact .refl e k
    next =>
      cases opt with
      | other => exact .refl e k
      | noPend =>
          dsimp only
          split
          · exact .refl e k
          · exact gone k
      | always =>
          have all := inv.wakeAll (some_of_not_ne type) none (by decide : StatPend.ok ≠ .timeout)
          have both := (SameEvent.of_wakesAll all).trans (gone _)
          dsimp only
          split
          · exact both.called
          · exact both

theorem Inv.elsewhere_qPost (inv : k.Inv) (insert : OsQ Msg → Option (OsQ Msg))
    (other : some j ≠ some e) (pmsg : Option Msg) : SameEvent e k (k.qPost insert j pmsg).1 := by
  unfold Ucos.qPost
  split
  · exact .refl e k
  next type =>
    split
    next waits => exact inv.elsewhere_wake (some_of_not_ne type) waits pmsg (by decide)
    next =>
      split
      · exact .set other _
      · exact .refl e k

/-- A free event is another one. -/
theorem Inv.free_ne (inv : k.Inv) (used : (k.event e).osEventType = some s) {f : EventId}
    {fs : List EventId} (first : k.osEventFreeList = f :: fs) : some f ≠ some e := by
  rintro ⟨⟩
  have unused := inv.sound.freeUnused e (first ▸ List.mem_cons_self)
  rw [unused] at used
  cases used

theorem SameEvent.osQAccept (other : some j ≠ some e) : SameEvent e k (k.osQAccept j).1 := by
  unfold Ucos.osQAccept
  split
  · exact .refl e k
  · split
    · exact .set other _
    · exact .refl e k

theorem Inv.elsewhere_osQCreate (inv : k.Inv) (used : (k.event e).osEventType = some s)
    (start : Int → Option Msg) (size : Nat) : SameEvent e k (k.osQCreate start size).1 := by
  unfold Ucos.osQCreate
  split
  · exact .refl e k
  · split
    · exact .refl e k
    next first =>
      split
      · have set := SameEvent.set (k := k) (inv.free_ne used first)
          { osEventType := some .q
            osEventCnt := 0
            osEventPtr := OsQ.create start size
            waiting := PriorityMap.empty 8 }
        exact ⟨set.type, set.cnt, set.ptr⟩
      · exact .refl e k

theorem SameEvent.osQPend (other : some j ≠ some e) (timeout : Nat) :
    SameEvent e k (k.osQPend j timeout).1 := by
  unfold Ucos.osQPend
  split
  · exact .refl e k
  · split
    · exact .refl e k
    · split
      · exact .refl e k
      · split
        · exact .set other _
        · exact .of_touches (touches_pendWait j .q timeout k)

theorem SameEvent.osSemAccept (other : some j ≠ some e) : SameEvent e k (k.osSemAccept j).1 := by
  unfold Ucos.osSemAccept
  split
  · exact .refl e k
  · dsimp only
    split
    · exact .set other _
    · exact .refl e k

theorem Inv.elsewhere_osSemCreate (inv : k.Inv) (used : (k.event e).osEventType = some s)
    (cnt : BitVec 16) : SameEvent e k (k.osSemCreate cnt).1 := by
  unfold Ucos.osSemCreate
  split
  · exact .refl e k
  · split
    · exact .refl e k
    next f _ first =>
      have set := SameEvent.set (k := k) (inv.free_ne used first)
        { k.event f with
          osEventType := some .sem
          osEventCnt := cnt.toNat
          waiting := PriorityMap.empty 8 }
      exact ⟨set.type, set.cnt, set.ptr⟩

theorem SameEvent.osSemPend (other : some j ≠ some e) (timeout : Nat) :
    SameEvent e k (k.osSemPend j timeout).1 := by
  unfold Ucos.osSemPend
  split
  · exact .refl e k
  · split
    · exact .refl e k
    · split
      · exact .refl e k
      · split
        · exact .set other _
        · exact .of_touches (touches_pendWait j .sem timeout k)

theorem Inv.elsewhere_osSemPost (inv : k.Inv) (other : some j ≠ some e) :
    SameEvent e k (k.osSemPost j).1 := by
  unfold Ucos.osSemPost
  split
  · exact .refl e k
  next type =>
    split
    next waits => exact inv.elsewhere_wake (some_of_not_ne type) waits none (by decide)
    next =>
      split
      · exact .set other _
      · exact .refl e k

theorem SameEvent.osSemSet (other : some j ≠ some e) (cnt : BitVec 16) :
    SameEvent e k (k.osSemSet j cnt).1 := by
  unfold Ucos.osSemSet
  split
  · exact .refl e k
  · split
    · exact .set other _
    · split
      · exact .set other _
      · exact .refl e k

theorem SameEvent.osTimeDly (e : EventId) (k : Ucos Msg) (ticks : Nat) :
    SameEvent e k (k.osTimeDly ticks) := by
  unfold Ucos.osTimeDly
  split
  · exact .refl e k
  · split
    · exact .refl e k
    · split
      · exact SameEvent.called ⟨rfl, rfl, rfl⟩
      · exact .refl e k

theorem SameEvent.osTimeDlyResume (e : EventId) (k : Ucos Msg) (p : Prio) :
    SameEvent e k (k.osTimeDlyResume p).1 := by
  rw [osTimeDlyResume_eq]
  split
  · exact .refl e k
  · split
    · exact .refl e k
    next t found =>
      split
      · exact .refl e k
      · have first := SameEvent.of_touches (e := e) (touches_setAndReady p (expired t) k)
        dsimp only
        split
        · exact first.called
        · exact first

theorem SameEvent.osTaskCreate (e : EventId) (k : Ucos Msg) (p : Prio) :
    SameEvent e k (k.osTaskCreate p).1 := by
  unfold Ucos.osTaskCreate
  split
  · exact .refl e k
  · split
    · exact .refl e k
    · split
      · have first := SameEvent.of_touches (e := e) (touches_createdTask p k)
        have first' : SameEvent e k (k.created p) := ⟨first.type, first.cnt, first.ptr⟩
        dsimp only
        split
        · exact first'.called
        · exact first'
      · exact .refl e k

theorem SameEvent.osTaskDel (e : EventId) (k : Ucos Msg) (p : Prio) :
    SameEvent e k (k.osTaskDel p).1 := by
  unfold Ucos.osTaskDel
  split
  · exact .refl e k
  · split
    · exact .refl e k
    · split
      · exact .refl e k
      next t found =>
        have first := SameEvent.of_touches (e := e) (touches_deletedTask p t.osTCBEventPtr k)
        have first' : SameEvent e k (k.deleted p t.osTCBEventPtr) :=
          ⟨first.type, first.cnt, first.ptr⟩
        have called : SameEvent e k (if (k.deleted p t.osTCBEventPtr).osRunning then
            (k.deleted p t.osTCBEventPtr).callOsSched else k.deleted p t.osTCBEventPtr) := by
          split
          · exact first'.called
          · exact first'
        revert called
        cases t.osTCBEventPtr <;> exact id

theorem SameEvent.osTaskResume (e : EventId) (k : Ucos Msg) (p : Prio) :
    SameEvent e k (k.osTaskResume p).1 := by
  unfold Ucos.osTaskResume
  split
  · exact .refl e k
  · split
    · dsimp only
      split
      · split
        · split
          · exact SameEvent.called ⟨rfl, rfl, rfl⟩
          · exact ⟨rfl, rfl, rfl⟩
        · exact ⟨rfl, rfl, rfl⟩
      · exact ⟨rfl, rfl, rfl⟩
    · exact .refl e k

theorem SameEvent.osTaskSuspend (e : EventId) (k : Ucos Msg) (p : Prio) :
    SameEvent e k (k.osTaskSuspend p).1 := by
  unfold Ucos.osTaskSuspend
  split
  · exact .refl e k
  · dsimp only
    split
    · exact SameEvent.called ⟨rfl, rfl, rfl⟩
    · exact ⟨rfl, rfl, rfl⟩

theorem SameEvent.osSchedLock (e : EventId) (k : Ucos Msg) : SameEvent e k k.osSchedLock := by
  unfold Ucos.osSchedLock
  repeat' split
  all_goals exact ⟨rfl, rfl, rfl⟩

theorem SameEvent.osSchedUnlock (e : EventId) (k : Ucos Msg) : SameEvent e k k.osSchedUnlock := by
  unfold Ucos.osSchedUnlock
  dsimp only
  split
  · split
    · split
      · exact SameEvent.called ⟨rfl, rfl, rfl⟩
      · exact ⟨rfl, rfl, rfl⟩
    · exact .refl e k
  · exact .refl e k

/-- A service for another event, or for none, leaves the event alone. -/
theorem Inv.elsewhere (inv : k.Inv) (used : (k.event e).osEventType = some s)
    (other : c.event ≠ some e) : SameEvent e k (k.perform c).1 := by
  cases c with
  | osQAccept j => exact .osQAccept other
  | osQCreate start size => exact inv.elsewhere_osQCreate used start size
  | osQDel j opt => exact inv.elsewhere_eventDel (fun _ => ⟨_, rfl⟩) other opt
  | osQFlush j => exact .set other _
  | osQPend j timeout => exact .osQPend other timeout
  | osQPendAbort j opt => exact inv.elsewhere_pendAbort j .q opt
  | osQPost j pmsg => exact inv.elsewhere_qPost _ other pmsg
  | osQPostFront j pmsg => exact inv.elsewhere_qPost _ other pmsg
  | osSemAccept j => exact .osSemAccept other
  | osSemCreate cnt => exact inv.elsewhere_osSemCreate used cnt
  | osSemDel j opt => exact inv.elsewhere_eventDel (fun k => ⟨k.osQFreeList, rfl⟩) other opt
  | osSemPend j timeout => exact .osSemPend other timeout
  | osSemPendAbort j opt => exact inv.elsewhere_pendAbort j .sem opt
  | osSemPost j => exact inv.elsewhere_osSemPost other
  | osSemSet j cnt => exact .osSemSet other cnt
  | osTimeDly ticks => exact .osTimeDly e k ticks
  | osTimeDlyResume p => exact .osTimeDlyResume e k p
  | osTaskCreate p => exact .osTaskCreate e k p
  | osTaskDel p => exact .osTaskDel e k p
  | osTaskResume p => exact .osTaskResume e k p
  | osTaskSuspend p => exact .osTaskSuspend e k p
  | osSchedLock => exact .osSchedLock e k
  | osSchedUnlock => exact .osSchedUnlock e k

/-! ## Moves -/

/-- The step is this move of the counter, and the log says so. -/
structure Carries (e : EventId) (s : Service) (k k' : Ucos Msg) (x : Entry Msg)
    (m : Move Prio (Option Msg)) : Prop where
  step : Step (k.counter e s) m (k'.counter e s)
  type : (k'.event e).osEventType = some s
  came : m.came = x.posted e
  left : m.left = x.received e s
  hand : ∀ p y, m = .hand p y → (k.view p).waits e
  take : ∀ w y, m = .take w y → w = x.who ∧ ∃ c, x.act = .call c ∧ c.Reads e
  front : ∀ y, m = .front y → ∃ pmsg, x.act = .call (.osQPostFront e pmsg)

theorem Carries.rest {x : Entry Msg} (type : (k.event e).osEventType = some s)
    (same : SameEvent e k k') (hand : k'.inHand e s = k.inHand e s) (came : x.posted e = [])
    (left : x.received e s = []) : Carries e s k k' x .rest where
  step := by
    show k'.counter e s = k.counter e s
    unfold counter
    rw [same.line, hand]
  type := same.type.trans type
  came := came.symm
  left := left.symm
  hand := nofun
  take := nofun
  front := nofun

theorem line_q (type : (k.event e).osEventType = some .q) :
    k.line e = (k.event e).osEventPtr.contents := by
  unfold line
  rw [type]

theorem line_sem (type : (k.event e).osEventType = some .sem) :
    k.line e = List.replicate (k.event e).osEventCnt none := by
  unfold line
  rw [type]

/-- Who calls a service has nothing in his hand. -/
theorem inHand_of_mayCall (may : k.MayCall) (who : k.who = some p) : k.inHand e s p = none := by
  unfold Ucos.who at who
  split at who
  next level =>
    cases who
    exact inHand_of_run (may level).2.1
  next => cases who

/-- Nobody goes to an `OS_Sched` with something in his hand. -/
theorem inHand_callOsSched (may : k.MayCall) (same : SameCurrent k k') :
    k'.callOsSched.inHand e s = k'.inHand e s := by
  unfold Ucos.callOsSched
  split
  next level =>
    rw [same.intNesting] at level
    have runs : k'.context k'.osPrioCur = .run := by
      rw [same.prioCur, same.context]
      exact (may level).2.1
    funext q
    by_cases cur : q = k'.osPrioCur
    · subst cur
      rw [inHand_of_run runs]
      exact inHand_of_out (Or.inr (Function.update_self _ _ _))
    · exact inHand_congr ((Touches.setContext _ _ k').view q cur)
  next => rfl

/-- Where something waits there is nothing in line. -/
theorem Inv.line_of_waits (inv : k.Inv) (type : (k.event e).osEventType = some s)
    (waits : (k.event e).waiting.grp ≠ 0) : k.line e = [] := by
  have ok := inv.sound.events e
  cases s with
  | q =>
      rw [line_q type]
      by_contra some
      exact waits (ok.queue type some)
  | sem =>
      have zero : (k.event e).osEventCnt = 0 := by
        by_contra some
        exact waits (ok.sem type (Nat.pos_of_ne_zero some))
      rw [line_sem type, zero]
      rfl

/-- The event changes and no task does. -/
theorem inHand_setEvent {x : OsEvent Msg} (waiting : x.waiting = (k.event j).waiting) :
    (k.setEvent j x).inHand e s = k.inHand e s := by
  funext q
  exact inHand_congr (congrFun (view_setEvent k j waiting) q)

/-! ## Services for the event -/

/-- The first item that waits in line is taken. -/
theorem carries_take (may : k.MayCall) {x : OsEvent Msg} {y : Option Msg} {c : Call Msg}
    (reads : c.Reads e) (type' : x.osEventType = some s) (waiting : x.waiting = (k.event e).waiting)
    (line : k.line e = y :: (k.setEvent e x).line e)
    (came : Entry.posted e ⟨k.who, .call c, r⟩ = [])
    (left : Entry.received e s ⟨k.who, .call c, r⟩ = [y]) :
    Carries e s k (k.setEvent e x) ⟨k.who, .call c, r⟩ (.take k.who y) where
  step := ⟨fun i who => inHand_of_mayCall may who, line, inHand_setEvent waiting⟩
  type := by rw [event_setEvent_self, type']
  came := came.symm
  left := left.symm
  hand := nofun
  take := by
    rintro w y ⟨⟩
    exact ⟨rfl, c, rfl, reads⟩
  front := nofun

/-- An item is put to the back of the line. -/
theorem carries_back {x : OsEvent Msg} {y : Option Msg} {z : Entry Msg}
    (type' : x.osEventType = some s) (waiting : x.waiting = (k.event e).waiting)
    (line : (k.setEvent e x).line e = k.line e ++ [y]) (came : z.posted e = [y])
    (left : z.received e s = []) : Carries e s k (k.setEvent e x) z (.back y) where
  step := by
    show (k.setEvent e x).counter e s = _
    unfold counter
    rw [line, inHand_setEvent waiting]
  type := by rw [event_setEvent_self, type']
  came := came.symm
  left := left.symm
  hand := nofun
  take := nofun
  front := nofun

/-- An item is put to the front of the line. -/
theorem carries_front {x : OsEvent Msg} {y : Option Msg} {z : Entry Msg}
    (type' : x.osEventType = some s) (waiting : x.waiting = (k.event e).waiting)
    (line : (k.setEvent e x).line e = y :: k.line e) (came : z.posted e = [y])
    (left : z.received e s = []) (front : ∃ pmsg, z.act = .call (.osQPostFront e pmsg)) :
    Carries e s k (k.setEvent e x) z (.front y) where
  step := by
    show (k.setEvent e x).counter e s = _
    unfold counter
    rw [line, inHand_setEvent waiting]
  type := by rw [event_setEvent_self, type']
  came := came.symm
  left := left.symm
  hand := nofun
  take := nofun
  front := fun _ _ => front

/-- An item is handed to the first task that waits; then nothing was in line. -/
theorem Inv.carries_wake (inv : k.Inv) (type : (k.event e).osEventType = some s)
    (may : k.MayCall) (waits : (k.event e).waiting.grp ≠ 0) (pmsg : Option Msg) {z : Entry Msg}
    (came : z.posted e = [if s = .q then pmsg else none]) (left : z.received e s = []) :
    ∃ m, Carries e s k (k.osEventTaskRdy e pmsg s.stat .ok).callOsSched z m := by
  obtain ⟨p, wake⟩ := @Sound.osEventTaskRdy _ k e s pmsg inv.sound type waits .ok (by decide)
  obtain ⟨a, t, u, before, phase, after⟩ := wake.before
  have same : SameEvent e k (k.osEventTaskRdy e pmsg s.stat .ok).callOsSched :=
    (SameEvent.of_touches wake.touches).called
  have free : k.inHand e s p = none := by
    rw [inHand_eq before]
    rcases phase with ⟨d, h⟩ | h <;> rw [h] <;> rfl
  have given : (k.osEventTaskRdy e pmsg s.stat .ok).inHand e s p =
      some (if s = .q then pmsg else none) := by
    rw [inHand_eq after]
    exact if_pos ⟨rfl, rfl⟩
  have hand : (k.osEventTaskRdy e pmsg s.stat .ok).callOsSched.inHand e s =
      Function.update (k.inHand e s) p (some (if s = .q then pmsg else none)) := by
    rw [inHand_callOsSched may wake.same]
    funext q
    by_cases here : q = p
    · rw [here, given, Function.update_self]
    · rw [Function.update_of_ne here, inHand_congr (wake.touches.view q here)]
  refine ⟨.hand p (if s = .q then pmsg else none), ?_⟩
  refine ⟨⟨inv.line_of_waits type waits, free, ?_⟩, same.type.trans type, came.symm, left.symm,
    ?_, nofun, nofun⟩
  · unfold counter
    rw [same.line, hand]
  · rintro p y ⟨⟩
    exact wake.waited

/-- The kind of an event in use is the one it has. -/
theorem eq_of_type {i : Service} (type : (k.event e).osEventType = some s)
    (same : ¬ (k.event e).osEventType ≠ some i) : s = i :=
  Option.some.inj (type.symm.trans (some_of_not_ne same))

theorem Inv.carries_osQAccept (inv : k.Inv) (type : (k.event e).osEventType = some s)
    (may : k.MayCall) : ∃ m, Carries e s k (k.osQAccept e).1
    ⟨k.who, .call (.osQAccept e), (k.osQAccept e).2⟩ m := by
  unfold Ucos.osQAccept
  split
  · exact ⟨.rest, .rest type (.refl e k) rfl rfl rfl⟩
  next same =>
    obtain rfl := eq_of_type type same
    split
    next pmsg pq taken =>
      obtain ⟨-, contents, -⟩ := ((inv.sound.events e).wellFormed type).take taken
      refine ⟨.take k.who pmsg, carries_take may (c := .osQAccept e) rfl type rfl ?_ rfl ?_⟩
      · rw [line_q type, contents, line_q (by rw [event_setEvent_self]; exact type),
          event_setEvent_self]
      · simp [Entry.received]
    next => exact ⟨.rest, .rest type (.refl e k) rfl rfl rfl⟩

/-- A task that begins to wait has nothing in hand. -/
theorem Inv.inHand_pendWait (inv : k.Inv) (type : (k.event e).osEventType = some s)
    (may : k.MayCall) (level : ¬ k.osIntNesting > 0)
    (unlocked : ¬ k.osLockNesting > 0) (exhausted : (k.event e).Exhausted) (timeout : Nat) :
    (k.pendWait e s timeout).inHand e s = k.inHand e s := by
  cases s with
  | q =>
      exact (inv.follows_pendWait may level unlocked type exhausted (.q e timeout)).inHand
        inv.sound (e := e) trivial nofun
  | sem =>
      exact (inv.follows_pendWait may level unlocked type exhausted (.sem e timeout)).inHand
        inv.sound (e := e) trivial nofun

theorem Inv.carries_osQPend (inv : k.Inv) (type : (k.event e).osEventType = some s)
    (may : k.MayCall) (timeout : Nat) :
    ∃ m, Carries e s k (k.osQPend e timeout).1
      ⟨k.who, .call (.osQPend e timeout), (k.osQPend e timeout).2⟩ m := by
  unfold Ucos.osQPend
  split
  · exact ⟨.rest, .rest type (.refl e k) rfl rfl rfl⟩
  next same =>
    obtain rfl := eq_of_type type same
    split
    · exact ⟨.rest, .rest type (.refl e k) rfl rfl rfl⟩
    next level =>
      split
      · exact ⟨.rest, .rest type (.refl e k) rfl rfl rfl⟩
      next unlocked =>
        split
        next pmsg pq taken =>
          obtain ⟨-, contents, -⟩ := ((inv.sound.events e).wellFormed type).take taken
          refine ⟨.take k.who pmsg,
            carries_take may (c := .osQPend e timeout) rfl type rfl ?_ rfl ?_⟩
          · rw [line_q type, contents, line_q (by rw [event_setEvent_self]; exact type),
              event_setEvent_self]
          · simp [Entry.received]
        next empty =>
          have exhausted : (k.event e).Exhausted :=
            ⟨fun _ => OsQ.take_eq_none_iff.mp empty, fun other => by
              rw [type] at other
              cases other⟩
          exact ⟨.rest, .rest type (.of_touches (touches_pendWait e .q timeout k))
            (inv.inHand_pendWait type may level unlocked exhausted timeout) rfl rfl⟩

theorem Inv.carries_pendAbort (inv : k.Inv) (type : (k.event e).osEventType = some s)
    (may : k.MayCall) {i : Service} (aborts : c.Aborts e i) (opt : PendOpt) :
    ∃ m, Carries e s k (k.pendAbort e i opt).1 ⟨k.who, .call c, (k.pendAbort e i opt).2⟩ m := by
  have hand : (k.pendAbort e i opt).1.inHand e s = k.inHand e s := by
    refine (inv.follows_pendAbort may aborts opt).inHand inv.sound ?_ ?_
    · cases aborts <;> trivial
    · cases aborts <;> nofun
  refine ⟨.rest, .rest type (inv.elsewhere_pendAbort e i opt) hand ?_ ?_⟩
  · cases aborts <;> rfl
  · unfold Ucos.pendAbort
    repeat' split
    all_goals rfl

/-- A post, to the back or to the front. -/
theorem Inv.carries_qPost (inv : k.Inv) (type : (k.event e).osEventType = some s)
    (may : k.MayCall) {insert : OsQ Msg → Option (OsQ Msg)} {pmsg : Option Msg}
    (post : s = .q → ∀ pq, insert (k.event e).osEventPtr = some pq →
      ∃ m, Carries e s k (k.setEvent e { k.event e with osEventPtr := pq })
        ⟨k.who, .call c, .err .none⟩ m)
    (came : Entry.posted e (⟨k.who, .call c, .err .none⟩ : Entry Msg) = [pmsg])
    (full : Entry.posted e (⟨k.who, .call c, .err .qFull⟩ : Entry Msg) = [])
    (other : Entry.posted e (⟨k.who, .call c, .err .eventType⟩ : Entry Msg) = []) :
    ∃ m, Carries e s k (k.qPost insert e pmsg).1 ⟨k.who, .call c, (k.qPost insert e pmsg).2⟩ m := by
  unfold Ucos.qPost
  split
  · exact ⟨.rest, .rest type (.refl e k) rfl other rfl⟩
  next same =>
    obtain rfl := eq_of_type type same
    split
    next waits => exact inv.carries_wake type may waits pmsg (by rw [came, if_pos rfl]) rfl
    next =>
      split
      next pq inserted => exact post rfl pq inserted
      next => exact ⟨.rest, .rest type (.refl e k) rfl full rfl⟩

theorem Inv.carries_osQPost (inv : k.Inv) (type : (k.event e).osEventType = some s)
    (may : k.MayCall) (pmsg : Option Msg) : ∃ m, Carries e s k (k.osQPost e pmsg).1
      ⟨k.who, .call (.osQPost e pmsg), (k.osQPost e pmsg).2⟩ m := by
  refine inv.carries_qPost type may (fun same pq posted => ?_) (if_pos rfl) rfl rfl
  subst same
  obtain ⟨-, contents, -⟩ := ((inv.sound.events e).wellFormed type).postBack posted
  refine ⟨.back pmsg, carries_back type rfl ?_ (if_pos rfl) rfl⟩
  rw [line_q type, line_q (by rw [event_setEvent_self]; exact type), event_setEvent_self, contents]

/-- The only message that overtakes others. -/
theorem Inv.carries_osQPostFront (inv : k.Inv) (type : (k.event e).osEventType = some s)
    (may : k.MayCall) (pmsg : Option Msg) : ∃ m, Carries e s k (k.osQPostFront e pmsg).1
      ⟨k.who, .call (.osQPostFront e pmsg), (k.osQPostFront e pmsg).2⟩ m := by
  refine inv.carries_qPost type may (fun same pq posted => ?_) (if_pos rfl) rfl rfl
  subst same
  obtain ⟨-, contents, -⟩ := ((inv.sound.events e).wellFormed type).postFront posted
  refine ⟨.front pmsg, carries_front type rfl ?_ (if_pos rfl) rfl ⟨pmsg, rfl⟩⟩
  rw [line_q type, line_q (by rw [event_setEvent_self]; exact type), event_setEvent_self, contents]

theorem carries_osSemAccept (type : (k.event e).osEventType = some s)
    (may : k.MayCall) : ∃ m, Carries e s k (k.osSemAccept e).1
      ⟨k.who, .call (.osSemAccept e), (k.osSemAccept e).2⟩ m := by
  unfold Ucos.osSemAccept
  split
  · exact ⟨.rest, .rest type (.refl e k) rfl rfl (by simp [Entry.received])⟩
  next same =>
    obtain rfl := eq_of_type type same
    dsimp only
    split
    next some =>
      refine ⟨.take k.who none, carries_take may (c := .osSemAccept e) rfl type rfl ?_ rfl ?_⟩
      · rw [line_sem type, line_sem (by rw [event_setEvent_self]; exact type), event_setEvent_self]
        show List.replicate (k.event e).osEventCnt none =
          none :: List.replicate ((k.event e).osEventCnt - 1) none
        rw [← List.replicate_succ, Nat.sub_add_cancel some]
      · exact if_pos ⟨rfl, rfl, some⟩
    next zero =>
      exact ⟨.rest, .rest type (.refl e k) rfl rfl (if_neg fun h => zero h.2.2)⟩

theorem Inv.carries_osSemPend (inv : k.Inv) (type : (k.event e).osEventType = some s)
    (may : k.MayCall) (timeout : Nat) : ∃ m, Carries e s k (k.osSemPend e timeout).1
      ⟨k.who, .call (.osSemPend e timeout), (k.osSemPend e timeout).2⟩ m := by
  unfold Ucos.osSemPend
  split
  · exact ⟨.rest, .rest type (.refl e k) rfl rfl rfl⟩
  next same =>
    obtain rfl := eq_of_type type same
    split
    · exact ⟨.rest, .rest type (.refl e k) rfl rfl rfl⟩
    next level =>
      split
      · exact ⟨.rest, .rest type (.refl e k) rfl rfl rfl⟩
      next unlocked =>
        split
        next some =>
          refine ⟨.take k.who none,
            carries_take may (c := .osSemPend e timeout) rfl type rfl ?_ rfl ?_⟩
          · rw [line_sem type, line_sem (by rw [event_setEvent_self]; exact type),
              event_setEvent_self]
            show List.replicate (k.event e).osEventCnt none =
              none :: List.replicate ((k.event e).osEventCnt - 1) none
            rw [← List.replicate_succ, Nat.sub_add_cancel some]
          · exact if_pos ⟨rfl, rfl⟩
        next zero =>
          have exhausted : (k.event e).Exhausted :=
            ⟨fun other => (by rw [type] at other; cases other), fun _ => by omega⟩
          exact ⟨.rest, .rest type (.of_touches (touches_pendWait e .sem timeout k))
            (inv.inHand_pendWait type may level unlocked exhausted timeout) rfl rfl⟩

theorem Inv.carries_osSemPost (inv : k.Inv) (type : (k.event e).osEventType = some s)
    (may : k.MayCall) : ∃ m, Carries e s k (k.osSemPost e).1
      ⟨k.who, .call (.osSemPost e), (k.osSemPost e).2⟩ m := by
  unfold Ucos.osSemPost
  split
  · exact ⟨.rest, .rest type (.refl e k) rfl rfl rfl⟩
  next same =>
    obtain rfl := eq_of_type type same
    split
    next waits => exact inv.carries_wake type may waits none (if_pos rfl) rfl
    next =>
      split
      next room =>
        refine ⟨.back none, carries_back type rfl ?_ (if_pos rfl) rfl⟩
        rw [line_sem type, line_sem (by rw [event_setEvent_self]; exact type), event_setEvent_self]
        exact List.replicate_succ'
      next => exact ⟨.rest, .rest type (.refl e k) rfl rfl rfl⟩

/-! ## Steps -/

theorem event_eventDel (k : Ucos Msg) (s : Service) (release : Ucos Msg → Ucos Msg) (j : EventId)
    (opt : DelOpt) : (k.eventDel s release j opt).2.event = none := by
  unfold Ucos.eventDel
  repeat' split
  all_goals rfl

theorem event_pendAbort (k : Ucos Msg) (s : Service) (j : EventId) (opt : PendOpt) :
    (k.pendAbort j s opt).2.event = none := by
  unfold Ucos.pendAbort
  repeat' split
  all_goals rfl

theorem event_qPost (k : Ucos Msg) (insert : OsQ Msg → Option (OsQ Msg)) (j : EventId)
    (pmsg : Option Msg) : (k.qPost insert j pmsg).2.event = none := by
  unfold Ucos.qPost
  repeat' split
  all_goals rfl

/-- A reply is about the event the service was called for, or about none. -/
theorem event_reply (k : Ucos Msg) (c : Call Msg) :
    (k.perform c).2.event = none ∨ (k.perform c).2.event = c.event := by
  cases c with
  | osQAccept j =>
      show (k.osQAccept j).2.event = none ∨ (k.osQAccept j).2.event = some j
      unfold Ucos.osQAccept
      repeat' split
      all_goals exact Or.inr rfl
  | osQPend j timeout =>
      show (k.osQPend j timeout).2.event = none ∨ (k.osQPend j timeout).2.event = some j
      unfold Ucos.osQPend
      repeat' split
      all_goals first | exact Or.inr rfl | exact Or.inl rfl
  | osSemAccept j =>
      show (k.osSemAccept j).2.event = none ∨ (k.osSemAccept j).2.event = some j
      unfold Ucos.osSemAccept
      dsimp only
      repeat' split
      all_goals exact Or.inr rfl
  | osSemPend j timeout =>
      show (k.osSemPend j timeout).2.event = none ∨ (k.osSemPend j timeout).2.event = some j
      unfold Ucos.osSemPend
      repeat' split
      all_goals first | exact Or.inr rfl | exact Or.inl rfl
  | osQCreate start size =>
      refine Or.inl ?_
      show (k.osQCreate start size).2.event = none
      unfold Ucos.osQCreate
      repeat' split
      all_goals rfl
  | osSemCreate cnt =>
      refine Or.inl ?_
      show (k.osSemCreate cnt).2.event = none
      unfold Ucos.osSemCreate
      repeat' split
      all_goals rfl
  | osQFlush | osTimeDly | osSchedLock | osSchedUnlock => exact Or.inl rfl
  | osQDel j opt => exact Or.inl (event_eventDel k .q _ j opt)
  | osSemDel j opt => exact Or.inl (event_eventDel k .sem _ j opt)
  | osQPendAbort j opt => exact Or.inl (event_pendAbort k .q j opt)
  | osSemPendAbort j opt => exact Or.inl (event_pendAbort k .sem j opt)
  | osQPost j pmsg => exact Or.inl (event_qPost k _ j pmsg)
  | osQPostFront j pmsg => exact Or.inl (event_qPost k _ j pmsg)
  | osSemPost j =>
      refine Or.inl ?_
      show (k.osSemPost j).2.event = none
      unfold Ucos.osSemPost
      repeat' split
      all_goals rfl
  | osSemSet j cnt =>
      refine Or.inl ?_
      show (k.osSemSet j cnt).2.event = none
      unfold Ucos.osSemSet
      repeat' split
      all_goals rfl
  | osTimeDlyResume p =>
      refine Or.inl ?_
      show (k.osTimeDlyResume p).2.event = none
      unfold Ucos.osTimeDlyResume
      repeat' split
      all_goals rfl
  | osTaskCreate p =>
      refine Or.inl ?_
      show (k.osTaskCreate p).2.event = none
      unfold Ucos.osTaskCreate
      repeat' split
      all_goals rfl
  | osTaskDel p =>
      refine Or.inl ?_
      show (k.osTaskDel p).2.event = none
      unfold Ucos.osTaskDel
      repeat' split
      all_goals rfl
  | osTaskResume p =>
      refine Or.inl ?_
      show (k.osTaskResume p).2.event = none
      unfold Ucos.osTaskResume
      dsimp only
      repeat' split
      all_goals rfl
  | osTaskSuspend p =>
      refine Or.inl ?_
      show (k.osTaskSuspend p).2.event = none
      unfold Ucos.osTaskSuspend
      repeat' split
      all_goals rfl

/-- A service for another event, or for none, is no move. -/
theorem Inv.carries_elsewhere (inv : k.Inv) (type : (k.event e).osEventType = some s)
    (may : k.MayCall) (admits : k.Admits c) (spares : c.Spares e) (other : c.event ≠ some e) :
    ∃ m, Carries e s k (k.perform c).1 ⟨k.who, .call c, (k.perform c).2⟩ m := by
  have gives (pmsg : Option Msg) : ¬ c.Serves e s pmsg := fun serves => by
    cases serves <;> exact other rfl
  have hand := (inv.follows may admits).inHand inv.sound spares gives
  refine ⟨.rest, .rest type (inv.elsewhere type other) hand ?_ ?_⟩
  · unfold Entry.posted
    dsimp only
    split
    next called _ =>
      cases called
      exact if_neg fun same => other (congrArg some same)
    next called _ =>
      cases called
      exact if_neg fun same => other (congrArg some same)
    next called _ =>
      cases called
      exact if_neg fun same => other (congrArg some same)
    next => rfl
  · have about : (k.perform c).2.event ≠ some e := by
      rcases event_reply k c with none | same
      · rw [none]
        nofun
      · rw [same]
        exact other
    unfold Entry.received
    generalize (k.perform c).2 = r at about
    dsimp only
    split
    all_goals first | rfl | exact if_neg fun same => about (congrArg some same.1)

/-- A service is a move of the counter. -/
theorem Inv.carries_call (inv : k.Inv) (type : (k.event e).osEventType = some s)
    (may : k.MayCall) (admits : k.Admits c) (spares : c.Spares e) :
    ∃ m, Carries e s k (k.perform c).1 ⟨k.who, .call c, (k.perform c).2⟩ m := by
  by_cases here : c.event = some e
  · cases c with
    | osQAccept j => cases here; exact inv.carries_osQAccept type may
    | osQDel j => cases here; exact absurd rfl spares
    | osQFlush j => cases here; exact absurd rfl spares
    | osQPend j timeout => cases here; exact inv.carries_osQPend type may timeout
    | osQPendAbort j opt => cases here; exact inv.carries_pendAbort type may (.q e opt) opt
    | osQPost j pmsg => cases here; exact inv.carries_osQPost type may pmsg
    | osQPostFront j pmsg => cases here; exact inv.carries_osQPostFront type may pmsg
    | osSemAccept j => cases here; exact carries_osSemAccept type may
    | osSemDel j => cases here; exact absurd rfl spares
    | osSemPend j timeout => cases here; exact inv.carries_osSemPend type may timeout
    | osSemPendAbort j opt => cases here; exact inv.carries_pendAbort type may (.sem e opt) opt
    | osSemPost j => cases here; exact inv.carries_osSemPost type may
    | osSemSet j => cases here; exact absurd rfl spares
    | osQCreate | osSemCreate | osTimeDly | osTimeDlyResume | osTaskCreate | osTaskDel
    | osTaskResume | osTaskSuspend | osSchedLock | osSchedUnlock => cases here
  · exact inv.carries_elsewhere type may admits spares here

/-- The end of a pend is the collection of what the task was given, if it was given something. -/
theorem Inv.carries_osPendTail (inv : k.Inv) (type : (k.event e).osEventType = some s)
    {i : Service} (level : k.osIntNesting = 0)
    (context : k.context k.osPrioCur = .pendTail j i) :
    ∃ m, Carries e s k (k.osPendTail j i).1 ⟨k.who, .pendTail, (k.osPendTail j i).2⟩ m := by
  obtain ⟨notIdle, ready, a, t, shows, pend⟩ := inv.pendEnds level context
  obtain ⟨-, touches, ⟨u, after⟩, -, -, reply⟩ := inv.sound.osPendTail shows ready notIdle pend
  have runnable : a.phase.Runnable := (shows.ready.mp ready).2
  have hand : (k.osPendTail j i).1.inHand e s =
      Function.update (k.inHand e s) k.osPrioCur none := by
    funext q
    by_cases cur : q = k.osPrioCur
    · rw [cur, Function.update_self, inHand_eq after]
      rfl
    · rw [Function.update_of_ne cur, inHand_congr (touches.view q cur)]
  have same : SameEvent e k (k.osPendTail j i).1 := .of_touches touches
  have before := inHand_eq (e := e) (s := s) shows
  have idle (free : k.inHand e s k.osPrioCur = none) :
      (k.osPendTail j i).1.inHand e s = k.inHand e s := by
    rw [hand, ← free, Function.update_eq_self]
  rw [reply]
  generalize a.phase = x at pend runnable before
  cases x with
  | active => cases pend
  | pending => exact runnable.elim
  | due | aborted => exact ⟨.rest, .rest type same (idle before) rfl rfl⟩
  | served j' i' pmsg =>
      cases pend
      by_cases here : j = e ∧ i = s
      · obtain ⟨rfl, rfl⟩ := here
        have given : k.inHand j i k.osPrioCur = some (if i = .q then pmsg else none) :=
          before.trans (if_pos ⟨rfl, rfl⟩)
        refine ⟨.collect k.osPrioCur (if i = .q then pmsg else none), ⟨given, ?_⟩,
          same.type.trans type, rfl, (if_pos ⟨rfl, rfl⟩).symm, nofun, nofun, nofun⟩
        unfold counter
        rw [same.line, hand]
      · exact ⟨.rest, .rest type same (idle (before.trans (if_neg here))) rfl (if_neg here)⟩

/-- Every step is a move of the counter. -/
theorem Inv.carries (inv : k.Inv) (type : (k.event e).osEventType = some s)
    (spares : act.Spares e) (stepped : k.step act = some (k', r)) :
    ∃ m, Carries e s k k' ⟨k.who, act, r⟩ m := by
  -- a step that is no service changes nobody's hand, unless a pend ends
  have still (turns : TurnsAll act k k') (noCall : ∀ c, act ≠ .call c) (noTail : act ≠ .pendTail) :
      k'.inHand e s = k.inHand e s := by
    funext q
    rcases inv.sound.tasks q with absent | ⟨a, t, shows⟩
    · rw [inHand_of_absent absent.tcb]
      rcases turns.absent q absent.tcb with runs | gone
      · exact inHand_of_run runs
      · exact inHand_of_absent gone
    · rcases turns.tasks q a t shows with gone | ⟨a', u, shows', turn⟩
      · exact absurd gone (noCall _)
      · rw [inHand_eq shows', inHand_eq shows]
        generalize a.phase = x at turn
        generalize a'.phase = y at turn
        cases turn with
        | call => exact absurd rfl (noCall _)
        | stay => rfl
        | tail => exact absurd rfl noTail
        | tick =>
            cases x with
            | pending j i d =>
                show Phase.inHand e s (if d = 1 then .due j i else .pending j i (d - 1)) = none
                split <;> rfl
            | active | due | served | aborted => rfl
  have turns := inv.turns stepped
  cases act with
  | call c =>
      obtain ⟨⟨may, admits⟩, performed⟩ := Option.ite_none_right_eq_some.mp stepped
      obtain ⟨m, carries⟩ := inv.carries_call type may admits spares
      rw [Option.some.inj performed] at carries
      exact ⟨m, carries⟩
  | pendTail =>
      obtain ⟨level, performed⟩ := Option.ite_none_right_eq_some.mp stepped
      split at performed
      next context =>
        obtain ⟨m, carries⟩ := inv.carries_osPendTail type level context
        rw [Option.some.inj performed] at carries
        exact ⟨m, carries⟩
      next => cases performed
  | osSched =>
      obtain ⟨-, performed⟩ := Option.ite_none_right_eq_some.mp stepped
      cases performed
      refine ⟨.rest, .rest type ?_ (still turns nofun nofun) rfl rfl⟩
      unfold Ucos.osSched
      dsimp only
      repeat' split
      all_goals exact ⟨rfl, rfl, rfl⟩
  | osIntEnter =>
      cases stepped
      refine ⟨.rest, .rest type ?_ (still turns nofun nofun) rfl rfl⟩
      unfold Ucos.osIntEnter
      repeat' split
      all_goals exact ⟨rfl, rfl, rfl⟩
  | osTimeTick =>
      obtain ⟨-, performed⟩ := Option.ite_none_right_eq_some.mp stepped
      cases performed
      obtain ⟨-, frame, -⟩ := inv.sound.osTimeTick inv.running
      exact ⟨.rest, .rest type ⟨frame.eventType e, frame.eventCnt e, frame.eventPtr e⟩
        (still turns nofun nofun) rfl rfl⟩
  | osIntExit =>
      obtain ⟨-, performed⟩ := Option.ite_none_right_eq_some.mp stepped
      cases performed
      refine ⟨.rest, .rest type ?_ (still turns nofun nofun) rfl rfl⟩
      unfold Ucos.osIntExit
      dsimp only
      repeat' split
      all_goals exact ⟨rfl, rfl, rfl⟩

end Ucos

end Stm32Robot.Kernel
