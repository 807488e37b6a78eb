/-
# Kernel.Objects -- tasks and events come and go

A task created is ready at once, and a task deleted leaves the ready list and the wait list it is
in.  An event goes from the free list to the caller and back; nothing waits for a free one.
`Sound` is kept by all four.
-/
import Stm32Robot.Kernel.TaskCalls

namespace Stm32Robot.Kernel

open Stm32Robot.Theory

set_option autoImplicit false

variable {Msg : Type}

namespace Ucos

variable {k k' : Ucos Msg} {p : Prio} {e : EventId} {s : Service} {a : Task Msg} {t : OsTcb Msg}

/-! ## Tasks -/

/-- The task control block of a task that is created. -/
def freshTcb : OsTcb Msg where
  osTCBStat := OS_STAT_RDY
  osTCBStatPend := .ok
  osTCBDly := 0
  osTCBMsg := none
  osTCBEventPtr := none

/-- What `OSTaskCreate` changes of the task itself where it succeeds. -/
def createdTask (p : Prio) (k : Ucos Msg) : Ucos Msg :=
  ((k.setTcb p (some freshTcb)).makeReady p).setContext p .run

theorem touches_createdTask (p : Prio) (k : Ucos Msg) : Touches p k (k.createdTask p) :=
  ((Touches.setTcb p _ k).trans (Touches.makeReady p _)).trans (Touches.setContext p _ _)

theorem shows_createdTask (absent : (k.view p).Absent) :
    ((k.createdTask p).view p).Shows ⟨false, .active 0⟩ freshTcb := by
  have after : (k.createdTask p).view p =
      { tcb := some freshTcb, ready := True, waits := (k.view p).waits, context := .run } := by
    unfold createdTask
    rw [view_setContext_self, view_makeReady_self, view_setTcb_self]
  rw [after]
  refine ⟨rfl, flags_active.symm, rfl, rfl, trivial, iff_of_true trivial ⟨rfl, rfl⟩,
    fun j => ?_, Or.inl rfl⟩
  exact iff_of_false (absent.waits j) fun h => by cases h

/-- The task is there, and first in the list. -/
def created (p : Prio) (k : Ucos Msg) : Ucos Msg :=
  { k.createdTask p with
    osTCBList := p :: k.osTCBList
    osTCBFreeList := k.osTCBFreeList - 1 }

theorem Sound.absent (sound : k.Sound) (none : k.osTCBPrioTbl p = none) : (k.view p).Absent := by
  rcases sound.tasks p with absent | ⟨a, t, shows⟩
  · exact absent
  · rw [show k.osTCBPrioTbl p = some t from shows.tcb] at none
    cases none

theorem Sound.created (sound : k.Sound) (none : k.osTCBPrioTbl p = none) :
    (k.created p).Sound := by
  have absent := sound.absent none
  have shows := shows_createdTask absent
  have notIdle : p ≠ OS_TASK_IDLE_PRIO := by
    rintro rfl
    obtain ⟨t, idle⟩ := sound.idle
    have found := absent.tcb
    rw [idle.tcb] at found
    cases found
  have waits (j : EventId) : ¬ ((k.createdTask p).view p).waits j := fun there => by
    cases (shows.waits j).mp there
  refine sound.touch_of_list (touches_createdTask p k) notIdle shows.ok
    (fun j now => (waits j now).elim) (fun j now => (waits j now).elim) (fun q => ?_) ?_ ?_ _
  · show q ∈ p :: k.osTCBList ↔ (Function.update k.osTCBPrioTbl p (some freshTcb) q).isSome
    by_cases same : q = p
    · subst same
      simp
    · rw [List.mem_cons, Function.update_of_ne same, ← sound.listed q]
      exact or_iff_right same
  · refine List.nodup_cons.mpr ⟨fun mem => ?_, sound.listNodup⟩
    have found := (sound.listed p).mp mem
    rw [none] at found
    cases found
  · obtain ⟨ps, list⟩ := sound.idleLast
    exact ⟨p :: ps, by rw [list, List.cons_append]⟩

/-- What `OSTaskDel` changes of the task itself, with this `OSTCBEventPtr`. -/
def deletedTask (p : Prio) (eventPtr : Option EventId) (k : Ucos Msg) : Ucos Msg :=
  (match eventPtr with
    | some e => (k.makeUnready p).osEventTaskRemove p e
    | none => k.makeUnready p).setTcb p none

/-- The task is gone, also from the list. -/
def deleted (p : Prio) (eventPtr : Option EventId) (k : Ucos Msg) : Ucos Msg :=
  { k.deletedTask p eventPtr with
    osTCBList := k.osTCBList.erase p
    osTCBFreeList := k.osTCBFreeList + 1 }

theorem touches_deletedTask (p : Prio) (eventPtr : Option EventId) (k : Ucos Msg) :
    Touches p k (k.deletedTask p eventPtr) := by
  cases eventPtr with
  | none => exact (Touches.makeUnready p k).trans (Touches.setTcb p none _)
  | some e =>
      exact ((Touches.makeUnready p k).trans (Touches.osEventTaskRemove p e _)).trans
        (Touches.setTcb p none _)

theorem context_deletedTask (p : Prio) (eventPtr : Option EventId) (k : Ucos Msg) :
    (k.deletedTask p eventPtr).context = k.context := by
  cases eventPtr <;> rfl

/-- A task waits only for the event its `OSTCBEventPtr` names, so no bit of it stays behind. -/
theorem absent_deletedTask (shows : (k.view p).Shows a t) :
    ((k.deletedTask p t.osTCBEventPtr).view p).Absent := by
  have left (j : EventId) (waits : (k.view p).waits j) : t.osTCBEventPtr = some j := by
    obtain ⟨s, pend⟩ := Phase.pend_of_waitsFor ((shows.waits j).mp waits)
    rw [shows.eventPtr, pend]
    rfl
  cases ptr : t.osTCBEventPtr with
  | none =>
      unfold deletedTask
      rw [view_setTcb_self]
      simp only [view_makeUnready_self]
      refine ⟨rfl, id, fun j waits => ?_⟩
      have := left j waits
      rw [ptr] at this
      cases this
  | some e =>
      unfold deletedTask
      rw [view_setTcb_self]
      simp only [view_osEventTaskRemove_self, view_makeUnready_self]
      refine ⟨rfl, id, fun j waits => ?_⟩
      by_cases same : j = e
      · subst same
        simp at waits
      · have there : (k.view p).waits j := by simpa [same] using waits
        have := left j there
        rw [ptr] at this
        exact same (Option.some.inj this).symm

theorem Sound.deleted (sound : k.Sound) (shows : (k.view p).Shows a t)
    (notIdle : p ≠ OS_TASK_IDLE_PRIO) : (k.deleted p t.osTCBEventPtr).Sound := by
  have absent := absent_deletedTask shows
  have touches := touches_deletedTask p t.osTCBEventPtr k
  refine sound.touch_of_list touches notIdle (Or.inl absent)
    (fun j now => (absent.waits j now).elim) (fun j now => (absent.waits j now).elim)
    (fun q => ?_) (sound.listNodup.erase p) ?_ _
  · rw [sound.listNodup.mem_erase_iff, sound.listed]
    show q ≠ p ∧ (k.view q).tcb.isSome = true ↔
      ((k.deletedTask p t.osTCBEventPtr).view q).tcb.isSome = true
    by_cases same : q = p
    · subst same
      rw [absent.tcb]
      exact iff_of_false (fun h => h.1 rfl) Bool.false_ne_true
    · rw [touches.view q same]
      exact and_iff_right same
  · obtain ⟨ps, list⟩ := sound.idleLast
    have there : p ∈ k.osTCBList :=
      (sound.listed p).mpr (Option.isSome_iff_exists.mpr ⟨t, shows.tcb⟩)
    rw [list, List.mem_append, List.mem_singleton] at there
    have mem : p ∈ ps := there.resolve_right notIdle
    exact ⟨ps.erase p, by rw [list, List.erase_append_left _ mem]⟩

/-! ## Events -/

/-- An event nothing waits for takes a new content, and comes from the free list or goes back. -/
theorem Sound.renew (sound : k.Sound) {x : OsEvent Msg} (before : (k.event e).waiting.grp = 0)
    (waiting : x.waiting.grp = 0) (ok : x.Ok) {free : List EventId}
    (unused : ∀ j ∈ free, (j = e → x.osEventType = none) ∧
      (j ≠ e → (k.event j).osEventType = none))
    (nodup : free.Nodup) (queues : Nat) :
    ({ k.setEvent e x with osEventFreeList := free, osQFreeList := queues } :
      Ucos Msg).Sound := by
  have view : (k.setEvent e x).view = k.view := by
    funext q
    unfold Ucos.view
    congr 1
    funext j
    by_cases same : j = e
    · subst same
      rw [event_setEvent_self]
      exact propext (iff_of_false (PrioSet.grp_eq_zero_iff.mp waiting q)
        (PrioSet.grp_eq_zero_iff.mp before q))
    · rw [event_setEvent_of_ne _ _ same]
  refine ⟨fun q => ?_, fun q j now => ?_, fun j => ?_, fun j mem => ?_, nodup, sound.listed,
    sound.listNodup, sound.idleLast, ?_, sound.idleRuns⟩
  · show ((k.setEvent e x).view q).Ok
    rw [view]
    exact sound.tasks q
  · have there : ((k.setEvent e x).view q).waits j := now
    rw [view] at there
    have other : j ≠ e := by
      rintro rfl
      exact PrioSet.grp_eq_zero_iff.mp before q there
    show ∃ s, ((k.setEvent e x).event j).osEventType = some s ∧ _
    rw [event_setEvent_of_ne _ _ other]
    exact sound.kinds q j there
  · show ((k.setEvent e x).event j).Ok
    by_cases same : j = e
    · subst same
      rw [event_setEvent_self]
      exact ok
    · rw [event_setEvent_of_ne _ _ same]
      exact sound.events j
  · show ((k.setEvent e x).event j).osEventType = none
    by_cases same : j = e
    · subst same
      rw [event_setEvent_self]
      exact (unused j mem).1 rfl
    · rw [event_setEvent_of_ne _ _ same]
      exact (unused j mem).2 same
  · show ∃ t, ((k.setEvent e x).view OS_TASK_IDLE_PRIO).Shows _ t
    rw [view]
    exact sound.idle

/-- The first event of the free list is taken. -/
theorem Sound.createEvent (sound : k.Sound) {free : List EventId}
    (first : k.osEventFreeList = e :: free) {x : OsEvent Msg} (waiting : x.waiting.grp = 0)
    (ok : x.Ok) (queues : Nat) :
    ({ k.setEvent e x with osEventFreeList := free, osQFreeList := queues } :
      Ucos Msg).Sound := by
  have nodup := sound.freeNodup
  rw [first, List.nodup_cons] at nodup
  have unused (j : EventId) (mem : j ∈ free) : (k.event j).osEventType = none :=
    sound.freeUnused j (first ▸ List.mem_cons_of_mem e mem)
  refine sound.renew (sound.waiting_eq_zero ?_) waiting ok (fun j mem => ⟨?_, fun _ => ?_⟩)
    nodup.2 queues
  · exact sound.freeUnused e (first ▸ List.mem_cons_self)
  · rintro rfl
    exact absurd mem nodup.1
  · exact unused j mem

/-- An event goes back to the free list. -/
theorem Sound.freeEvent (sound : k.Sound) (used : (k.event e).osEventType = some s)
    (unwaited : (k.event e).waiting.grp = 0) : (k.freeEvent e).Sound := by
  have out : e ∉ k.osEventFreeList := fun mem => by
    rw [sound.freeUnused e mem] at used
    cases used
  refine sound.renew (x := { k.event e with osEventType := none, osEventCnt := 0 }) unwaited
    unwaited (.of_unused rfl) (fun j mem => ⟨fun _ => rfl, fun ne => ?_⟩)
    (List.nodup_cons.mpr ⟨out, sound.freeNodup⟩) k.osQFreeList
  exact sound.freeUnused j ((List.mem_cons.mp mem).resolve_left ne)

end Ucos

end Stm32Robot.Kernel
