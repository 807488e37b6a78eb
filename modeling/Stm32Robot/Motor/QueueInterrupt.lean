/-
# Motor.QueueInterrupt -- GetAndDelQueueinter between interrupts

`can_thread` takes frames out of DCQ while USART1 and USART2 interrupts put frames in, and
nothing locks the queue.  Here `GetAndDelQueueinter` is its statements, one program counter
each, with `QueueCount--` split into the read and the write; a whole `EnQueueinter` call
may run between any two of them.

* `finish` is what the statements still to come would do if nothing interrupted them;
  a statement leaves it alone (`finish_stmt`).
* An `EnQueueinter` that finds room, outside the read-write window of `QueueCount--`,
  commutes with `finish` (`finish_irq`), so the whole call is one atomic
  `GetAndDelQueueinter` followed by the interrupts' enqueues.
* Inside the window the count of the interrupt is overwritten
  (`getAndDel_interrupt_loses_node`), and on a full queue the interrupt's own node is the one
  the call then drops (`full_interrupt_loses_node`).

Nodes carry a label: `none` for a node queued before the call, the number of the interrupt
for one queued during it.  The code never reads it (`run_relabel`).
-/
import Stm32Robot.Motor.QueueRefinement

namespace Stm32Robot.Motor.QueueInterrupt

open Stm32Robot.Theory.RingAddress
open Stm32Robot.Theory.BoundedFifo
open Stm32Robot.Motor.Queue

set_option autoImplicit false

/-- The next statement of `GetAndDelQueueinter`; `writeCount` holds the value read. -/
inductive Pc where
  | test
  | copy
  | incFront
  | wrapTest
  | wrapSet
  | readCount
  | writeCount (read : Int)
  | done (ret : Int)
deriving DecidableEq

/-- A call in progress: the statement to run, the caller's buffer, the shared queue. -/
structure Call (α : Type) where
  pc : Pc
  pe : α
  queue : InterQueue (Int → α)

/-- A statement of the call, or an interrupt that enqueues a node. -/
inductive Act (α : Type) where
  | stmt
  | irq (x : α)

variable {α β : Type}

def Call.start (pe : α) (Q : InterQueue (Int → α)) : Call α := ⟨.test, pe, Q⟩

/-- One statement of `GetAndDelQueueinter`. -/
def stmt (t : Call α) : Call α :=
  match t.pc with
  | .test => if t.queue.queueCount ≤ 0 then { t with pc := .done (-1) } else { t with pc := .copy }
  | .copy => { t with pe := load t.queue.qNode t.queue.front, pc := .incFront }
  | .incFront => { t with queue := { t.queue with front := t.queue.front + 1 }, pc := .wrapTest }
  | .wrapTest =>
      if t.queue.front ≥ t.queue.maxCount then { t with pc := .wrapSet }
      else { t with pc := .readCount }
  | .wrapSet => { t with queue := { t.queue with front := 0 }, pc := .readCount }
  | .readCount => { t with pc := .writeCount t.queue.queueCount }
  | .writeCount read => { t with queue := { t.queue with queueCount := read - 1 }, pc := .done 0 }
  | .done _ => t

def step (t : Call α) : Act α → Call α
  | .stmt => stmt t
  | .irq x => { t with queue := (enQueueinter x t.queue).2 }

def run (t : Call α) (acts : List (Act α)) : Call α := acts.foldl step t

/-- The call is over. -/
def Pc.finished : Pc → Bool
  | .done _ => true
  | _ => false

/-- `QueueCount--` has read the count and not yet written it back. -/
def Pc.window : Pc → Bool
  | .writeCount _ => true
  | _ => false

/-- Interrupts come between two statements: after the first, before the last.  Those before the
first or between the last access and the return are left out: they find the queue as it is before
the call, or as the call leaves it. -/
def Interleaved (t : Call α) : List (Act α) → Prop
  | [] => t.pc.finished = true
  | .stmt :: acts => t.pc.finished = false ∧ Interleaved (stmt t) acts
  | .irq x :: acts => t.pc ≠ .test ∧ t.pc.finished = false ∧ Interleaved (step t (.irq x)) acts

/-- An interrupt that meets no hazard: it finds room in the queue, and `QueueCount--` is
not between its read and its write. -/
def Clear (t : Call α) : Prop :=
  t.pc.window = false ∧ t.queue.queueCount < t.queue.maxCount

/-- Every interrupt of the run is clear of both hazards. -/
def AllClear (t : Call α) : List (Act α) → Prop
  | [] => True
  | .stmt :: acts => AllClear (stmt t) acts
  | .irq x :: acts => Clear t ∧ AllClear (step t (.irq x)) acts

instance decidableInterleaved (t : Call α) : ∀ acts, Decidable (Interleaved t acts)
  | [] => inferInstanceAs (Decidable (_ = _))
  | .stmt :: acts =>
      have := decidableInterleaved (stmt t) acts
      inferInstanceAs (Decidable (_ ∧ _))
  | .irq x :: acts =>
      have := decidableInterleaved (step t (.irq x)) acts
      inferInstanceAs (Decidable (_ ∧ _ ∧ _))

instance decidableAllClear (t : Call α) : ∀ acts, Decidable (AllClear t acts)
  | [] => inferInstanceAs (Decidable True)
  | .stmt :: acts => decidableAllClear (stmt t) acts
  | .irq x :: acts =>
      have := decidableAllClear (step t (.irq x)) acts
      inferInstanceAs (Decidable ((_ ∧ _) ∧ _))

/-- The nodes a schedule enqueues, in order. -/
def arrivals : List (Act α) → List α
  | [] => []
  | .stmt :: acts => arrivals acts
  | .irq x :: acts => x :: arrivals acts

/-- The nodes the interrupts enqueue, less those a later overflow flushes. -/
def survivors (t : Call α) (kept : List α) : List (Act α) → List α
  | [] => kept
  | .stmt :: acts => survivors (stmt t) kept acts
  | .irq x :: acts =>
      survivors (step t (.irq x))
        (if t.queue.queueCount ≥ t.queue.maxCount then [x] else kept ++ [x]) acts

/-! ## Labels are not read -/

def Call.map (f : α → β) (t : Call α) : Call β := ⟨t.pc, f t.pe, t.queue.map f⟩

def Act.map (f : α → β) : Act α → Act β
  | .stmt => .stmt
  | .irq x => .irq (f x)

theorem step_relabel (f : α → β) (t : Call α) (a : Act α) :
    (step t a).map f = step (t.map f) (a.map f) := by
  cases a with
  | irq x => simp only [step, Act.map, Call.map, InterQueue.map_enQueueinter]
  | stmt =>
      obtain ⟨pc, pe, Q⟩ := t
      cases pc with
      | test => exact apply_ite (Call.map f) _ _ _
      | wrapTest => exact apply_ite (Call.map f) _ _ _
      | _ => rfl

/-- A run on labelled nodes, stripped of the labels, is the run on the nodes. -/
theorem run_relabel (f : α → β) (t : Call α) (acts : List (Act α)) :
    (run t acts).map f = run (t.map f) (acts.map (Act.map f)) := by
  induction acts generalizing t with
  | nil => rfl
  | cons a acts ih =>
      simp only [run, List.map_cons, List.foldl_cons] at ih ⊢
      rw [← step_relabel, ih]

/-- Number the interrupts of a schedule; a labelled node tells when it was queued. -/
def labelled (k : Nat) : List (Act α) → List (Act (α × Option Nat))
  | [] => []
  | .stmt :: acts => .stmt :: labelled k acts
  | .irq x :: acts => .irq (x, some k) :: labelled (k + 1) acts

/-- The call on a queue whose nodes are labelled as queued before it. -/
def Call.startLabelled (pe : α) (Q : InterQueue (Int → α)) : Call (α × Option Nat) :=
  .start (pe, none) (Q.map fun x => (x, none))

/-! ## The rest of the call, uninterrupted -/

/-- The buffer and the queue after the statements still to come. -/
def finish (t : Call α) : α × InterQueue (Int → α) :=
  match t.pc with
  | .test => ((getAndDelQueueinter t.pe t.queue).2.1, (getAndDelQueueinter t.pe t.queue).2.2)
  | .copy => (load t.queue.qNode t.queue.front, { t.queue with
      front := advance t.queue.maxCount t.queue.front, queueCount := t.queue.queueCount - 1 })
  | .incFront => (t.pe, { t.queue with
      front := advance t.queue.maxCount t.queue.front, queueCount := t.queue.queueCount - 1 })
  | .wrapTest => (t.pe, { t.queue with
      front := if t.queue.front ≥ t.queue.maxCount then 0 else t.queue.front
      queueCount := t.queue.queueCount - 1 })
  | .wrapSet => (t.pe, { t.queue with front := 0, queueCount := t.queue.queueCount - 1 })
  | .readCount => (t.pe, { t.queue with queueCount := t.queue.queueCount - 1 })
  | .writeCount read => (t.pe, { t.queue with queueCount := read - 1 })
  | .done _ => (t.pe, t.queue)

theorem finish_start (pe : α) (Q : InterQueue (Int → α)) :
    finish (.start pe Q) = ((getAndDelQueueinter pe Q).2.1, (getAndDelQueueinter pe Q).2.2) := rfl

theorem finish_of_finished {t : Call α} (finished : t.pc.finished = true) :
    finish t = (t.pe, t.queue) := by
  obtain ⟨pc, pe, Q⟩ := t
  cases pc with
  | done ret => rfl
  | _ => cases finished

/-- A statement does a part of what is still to come, and nothing else. -/
theorem finish_stmt (t : Call α) : finish (stmt t) = finish t := by
  obtain ⟨pc, pe, Q⟩ := t
  cases pc with
  | test =>
      by_cases empty : Q.queueCount ≤ 0
      · simp only [stmt, finish, empty, if_true, getAndDelQueueinter_of_empty pe empty]
      · simp only [stmt, finish, empty, if_false, getAndDelQueueinter_of_pos pe (not_le.mp empty)]
  | wrapTest =>
      by_cases wraps : Q.front ≥ Q.maxCount <;> simp only [stmt, finish, wraps, if_true, if_false]
  | _ => rfl

/-- What the proof needs of a state before the copy: the ring is well formed and holds
the node the call will take. -/
def Ready (t : Call α) : Prop := t.pc = .copy → t.queue.WellFormed ∧ 0 < t.queue.queueCount

/-- A clear interrupt enqueues into the finished queue as it does into the real one. -/
theorem finish_irq {t : Call α} (started : t.pc ≠ .test) (running : t.pc.finished = false)
    (ready : Ready t) (clear : Clear t) (x : α) :
    finish (step t (.irq x)) = ((finish t).1, (enQueueinter x (finish t).2).2) := by
  obtain ⟨pc, pe, Q⟩ := t
  obtain ⟨outside, room⟩ := clear
  -- the same enqueue on the finished queue, whose count is one lower
  have lower (front : Int) :
      (enQueueinter x { Q with front := front, queueCount := Q.queueCount - 1 }).2 = { Q with
        front := front
        qNode := store Q.qNode Q.rear x
        rear := advance Q.maxCount Q.rear
        queueCount := Q.queueCount + 1 - 1 } := by
    rw [enQueueinter_of_room _ (by simp only at room ⊢; omega)]
    simp only [InterQueue.mk.injEq, true_and, and_true]
    omega
  cases pc with
  | test => exact absurd rfl started
  | done ret => cases running
  | writeCount read => cases outside
  | copy =>
      obtain ⟨wf, some⟩ := ready rfl
      have apart : Q.front ≠ Q.rear := by
        intro same
        have first : slot Q.maxCount Q.front 0 = slot Q.maxCount Q.front Q.queueCount := by
          rw [slot_zero wf.front_nonneg wf.front_lt, ← wf.rear_eq]
          exact same
        exact some.ne (slot_injective (le_refl 0) wf.positive some.le room first)
      simp only [step, finish, enQueueinter_of_room x room, lower, load_store, if_neg apart]
  | incFront => simp only [step, finish, enQueueinter_of_room x room, lower]
  | wrapTest => simp only [step, finish, enQueueinter_of_room x room, lower]
  | wrapSet => simp only [step, finish, enQueueinter_of_room x room, lower]
  | readCount => simp only [step, finish, enQueueinter_of_room x room, lower Q.front]

theorem ready_stmt {t : Call α} (wf : t.pc = .test → t.queue.WellFormed) : Ready (stmt t) := by
  obtain ⟨pc, pe, Q⟩ := t
  intro next
  cases pc with
  | test =>
      by_cases empty : Q.queueCount ≤ 0
      · simp [stmt, empty] at next
      · simp only [stmt, empty, if_false]
        exact ⟨wf rfl, not_le.mp empty⟩
  | wrapTest =>
      by_cases wraps : Q.front ≥ Q.maxCount <;> simp [stmt, wraps] at next
  | _ => simp [stmt] at next

theorem ready_irq {t : Call α} (ready : Ready t) (x : α) : Ready (step t (.irq x)) := by
  intro next
  obtain ⟨wf, some⟩ := ready next
  refine ⟨wf.enQueueinter x, ?_⟩
  rcases lt_or_ge t.queue.queueCount t.queue.maxCount with room | full
  · simp only [step, enQueueinter_of_room x room]
    omega
  · simp only [step, enQueueinter_of_full x full]
    omega

/-- The finished queue is one node shorter than the real one. -/
theorem finish_room {t : Call α} (started : t.pc ≠ .test) (running : t.pc.finished = false)
    (clear : Clear t) : (finish t).2.queueCount < (finish t).2.maxCount := by
  obtain ⟨pc, pe, Q⟩ := t
  obtain ⟨outside, room⟩ := clear
  simp only at room
  cases pc with
  | test => exact absurd rfl started
  | done ret => cases running
  | writeCount read => cases outside
  | _ => simp only [finish]; omega

/-! ## Clear runs -/

/-- Every node of a clear run arrives: no overflow flushes any. -/
theorem survivors_of_allClear {t : Call α} (acts : List (Act α)) (kept : List α)
    (clear : AllClear t acts) : survivors t kept acts = kept ++ arrivals acts := by
  induction acts generalizing t kept with
  | nil => simp [survivors, arrivals]
  | cons a acts ih =>
      cases a with
      | stmt => exact ih kept clear
      | irq x =>
          obtain ⟨⟨_, room⟩, rest⟩ := clear
          simp only [survivors, arrivals, if_neg (not_le.mpr room)]
          rw [ih _ rest, List.append_assoc, List.singleton_append]

/-- A clear run ends as the uninterrupted call would, with the arrivals queued after it. -/
theorem run_allClear {t : Call α} (acts : List (Act α))
    (wf : t.pc = .test → t.queue.WellFormed) (ready : Ready t) (ideal : (finish t).2.WellFormed)
    (interleaved : Interleaved t acts) (clear : AllClear t acts) :
    (run t acts).pc.finished = true ∧ (run t acts).pe = (finish t).1 ∧
      (run t acts).queue.WellFormed ∧
      (run t acts).queue.contents = (finish t).2.contents ++ arrivals acts := by
  induction acts generalizing t with
  | nil =>
      have same := finish_of_finished interleaved
      rw [same] at ideal ⊢
      exact ⟨interleaved, rfl, ideal, (List.append_nil _).symm⟩
  | cons a acts ih =>
      cases a with
      | stmt =>
          have fresh : (stmt t).pc = .test → (stmt t).queue.WellFormed := by
            intro next
            obtain ⟨pc, pe, Q⟩ := t
            cases pc with
            | test => simp only [stmt] at next; split at next <;> cases next
            | wrapTest => simp only [stmt] at next; split at next <;> cases next
            | done ret => cases next
            | _ => cases next
          have := ih fresh (ready_stmt wf) (by rw [finish_stmt]; exact ideal) interleaved.2 clear
          rwa [finish_stmt] at this
      | irq x =>
          obtain ⟨started, running, rest⟩ := interleaved
          obtain ⟨here, later⟩ := clear
          have commutes := finish_irq started running ready here x
          have fits : (finish t).2.contents.length < (finish t).2.capacity := by
            have := finish_room started running here
            have := ideal.count_nonneg
            rw [InterQueue.length_contents, InterQueue.capacity]
            omega
          have next := @ih (step t (.irq x)) (fun test => absurd test started)
            (ready_irq ready x) (by rw [commutes]; exact ideal.enQueueinter x) rest later
          rw [commutes, InterQueue.contents_enQueueinter ideal, push_of_room fits,
            List.append_assoc, List.singleton_append] at next
          exact next

/-! ## Integrity of the call -/

/-- What is asked of a call from `t` to `final` that kept the interrupt nodes `kept`: the
ring is well formed again, every kept node is queued exactly once, and a node returned was
queued when the call began. -/
structure Integrity [DecidableEq α] (t final : Call α) (kept : List α) : Prop where
  ring : final.queue.WellFormed
  once : ∀ y ∈ kept, final.queue.contents.count y = 1
  taken : final.pc = .done 0 → final.pe ∈ t.queue.contents

theorem arrivals_labelled (k : Nat) (acts : List (Act α)) :
    (arrivals (labelled k acts)).map Prod.snd =
      (List.range' k (arrivals acts).length).map some := by
  induction acts generalizing k with
  | nil => rfl
  | cons a acts ih =>
      cases a with
      | stmt => exact ih k
      | irq x =>
          simp only [labelled, arrivals, List.map_cons, List.length_cons, List.range'_succ]
          rw [ih (k + 1)]

theorem nodup_arrivals_labelled (k : Nat) (acts : List (Act α)) :
    (arrivals (labelled k acts)).Nodup := by
  apply List.Nodup.of_map Prod.snd
  rw [arrivals_labelled]
  exact List.Nodup.map (Option.some_injective _) List.nodup_range'

/-- An arrival carries the number of its interrupt. -/
theorem labelled_some {k : Nat} {acts : List (Act α)} {y : α × Option Nat}
    (arrived : y ∈ arrivals (labelled k acts)) : y.2 ≠ none := by
  have member : y.2 ∈ (arrivals (labelled k acts)).map Prod.snd := List.mem_map_of_mem arrived
  rw [arrivals_labelled, List.mem_map] at member
  obtain ⟨i, -, same⟩ := member
  rw [← same]
  exact Option.some_ne_none i

/-- Of distinct arrivals queued behind older nodes, each is there once. -/
theorem count_arrival [DecidableEq β] {old new : List β} (distinct : new.Nodup) {y : β}
    (arrived : y ∈ new) (fresh : y ∉ old) : (old ++ new).count y = 1 := by
  rw [List.count_append, List.count_eq_zero.mpr fresh, zero_add]
  exact List.count_eq_one_of_mem distinct arrived

/-- An empty queue ends the call at its first statement, with -1. -/
theorem run_of_empty {pe : α} {Q : InterQueue (Int → α)} (empty : Q.queueCount ≤ 0)
    {acts : List (Act α)} (interleaved : Interleaved (.start pe Q) acts) :
    (run (.start pe Q) acts).pc = .done (-1) := by
  have first : stmt (.start pe Q) = ⟨.done (-1), pe, Q⟩ := by
    simp only [stmt, Call.start, empty, if_true]
  cases acts with
  | nil => cases interleaved
  | cons a acts =>
      cases a with
      | irq x => exact absurd rfl interleaved.1
      | stmt =>
          have rest := interleaved.2
          rw [first] at rest
          cases acts with
          | nil => rw [run, List.foldl_cons, List.foldl_nil, step, first]
          | cons b acts =>
              cases b with
              | stmt => cases rest.1
              | irq x => cases rest.2.1

/-- When no `EnQueueinter` runs between the read and the write of `QueueCount--`, and none
finds the queue full, the interrupted call keeps the queue's integrity. -/
theorem getAndDel_interrupt_integrity [DecidableEq α] (pe : α) (Q : InterQueue (Int → α))
    (wf : Q.WellFormed) (acts : List (Act α))
    (interleaved : Interleaved (Call.startLabelled pe Q) (labelled 0 acts))
    (clear : AllClear (Call.startLabelled pe Q) (labelled 0 acts)) :
    Integrity (Call.startLabelled pe Q) (run (Call.startLabelled pe Q) (labelled 0 acts))
      (survivors (Call.startLabelled pe Q) [] (labelled 0 acts)) := by
  let label : α → α × Option Nat := fun x => (x, none)
  have start : (Q.map label).WellFormed := InterQueue.wellFormed_map wf
  have old : (Q.map label).contents = Q.contents.map label := InterQueue.contents_map label Q
  have idle : Ready (Call.startLabelled pe Q) := by intro copy; cases copy
  rw [survivors_of_allClear _ _ clear, List.nil_append]
  cases live : Q.contents with
  | nil =>
      have empty : (Q.map label).queueCount ≤ 0 :=
        InterQueue.contents_eq_nil_iff.mp (by rw [old, live, List.map_nil])
      have same : finish (Call.startLabelled pe Q) = ((pe, none), Q.map label) := by
        rw [Call.startLabelled, finish_start, getAndDelQueueinter_of_empty _ empty]
      obtain ⟨-, -, ring, queued⟩ := run_allClear _ (fun _ => start) idle
        (by rw [same]; exact start) interleaved clear
      have ret := run_of_empty empty interleaved
      rw [same, old, live, List.map_nil] at queued
      refine ⟨ring, fun y arrived => ?_, fun zero => ?_⟩
      · rw [queued]
        exact count_arrival (nodup_arrivals_labelled 0 acts) arrived List.not_mem_nil
      · rw [Call.startLabelled, ret] at zero
        cases zero
  | cons x l =>
      have head : (Q.map label).contents = label x :: l.map label := by
        rw [old, live, List.map_cons]
      obtain ⟨-, buffer, ring', rest, -⟩ :=
        InterQueue.getAndDelQueueinter_of_cons start (pe, none) head
      obtain ⟨-, taken, ring, queued⟩ := run_allClear _ (fun _ => start) idle
        (by rw [Call.startLabelled, finish_start]; exact ring') interleaved clear
      refine ⟨ring, fun y arrived => ?_, fun _ => ?_⟩
      · rw [queued, Call.startLabelled, finish_start, rest]
        apply count_arrival (nodup_arrivals_labelled 0 acts) arrived
        rw [List.mem_map]
        rintro ⟨z, -, same⟩
        exact labelled_some arrived (by rw [← same])
      · rw [taken, Call.startLabelled, finish_start, buffer]
        change label x ∈ (Q.map label).contents
        rw [head]
        exact List.mem_cons_self

/-- The ring of DCQ's size with one node in slot 0. -/
def oneNode : InterQueue (Int → Nat) := ⟨0, 1, 1, fun _ => 7, 40⟩

theorem oneNode_wellFormed : oneNode.WellFormed := by
  constructor <;> decide

/-- One interrupt after the copy and one before the count is read. -/
theorem getAndDel_interrupt_integrity_clear :
    Integrity (Call.startLabelled 0 oneNode)
      (run (Call.startLabelled 0 oneNode)
        (labelled 0 [.stmt, .stmt, .irq 8, .stmt, .stmt, .irq 9, .stmt, .stmt]))
      (survivors (Call.startLabelled 0 oneNode) []
        (labelled 0 [.stmt, .stmt, .irq 8, .stmt, .stmt, .irq 9, .stmt, .stmt])) :=
  getAndDel_interrupt_integrity 0 oneNode oneNode_wellFormed _ (by decide) (by decide)

/-! ## A full queue -/

/-- One `EnQueueinter` on the full queue, outside the window, leaves its own node alone in the
queue, and the rest of the call then takes that node out. -/
theorem full_interrupt_loses_node {t : Call α} (started : t.pc ≠ .test)
    (running : t.pc.finished = false) (outside : t.pc.window = false)
    (full : t.queue.maxCount ≤ t.queue.queueCount) (x : α) :
    (finish (step t (.irq x))).2.contents = [] := by
  obtain ⟨pc, pe, Q⟩ := t
  rw [InterQueue.contents_eq_nil_iff]
  cases pc with
  | test => exact absurd rfl started
  | done ret => cases running
  | writeCount read => cases outside
  | _ => simp only [step, finish, enQueueinter_of_full x full]; omega

/-! ## The read-write window of `QueueCount--` -/

/-- One `EnQueueinter` with room, run between the read and the write of the count, leaves
the ring ill formed: `rear` has moved and the count has not. -/
theorem window_interrupt_breaks_ring {t : Call α} {read : Int} (window : t.pc = .writeCount read)
    (current : read = t.queue.queueCount) (room : t.queue.queueCount < t.queue.maxCount)
    (ideal : (finish t).2.WellFormed) (x : α) :
    ¬ (stmt (step t (.irq x))).queue.WellFormed := by
  obtain ⟨pc, pe, Q⟩ := t
  simp only at window current room
  subst window current
  intro broken
  have before : Q.rear = slot Q.maxCount Q.front (Q.queueCount - 1) := ideal.rear_eq
  have low : 0 ≤ Q.queueCount - 1 := ideal.count_nonneg
  have positive : 0 < Q.maxCount := ideal.positive
  have after := broken.rear_eq
  simp only [stmt, step, enQueueinter_of_room x room] at after
  rw [before, advance_slot positive] at after
  have same := slot_injective (by omega) (by omega) low (by omega) after
  omega

/-- The lost update: the node enqueued in the window is in no live slot afterwards. -/
theorem getAndDel_interrupt_loses_node :
    Interleaved (Call.startLabelled 0 oneNode)
        (labelled 0 [.stmt, .stmt, .stmt, .stmt, .stmt, .irq 8, .stmt]) ∧
      ¬ Integrity (Call.startLabelled 0 oneNode)
        (run (Call.startLabelled 0 oneNode)
          (labelled 0 [.stmt, .stmt, .stmt, .stmt, .stmt, .irq 8, .stmt]))
        (survivors (Call.startLabelled 0 oneNode) []
          (labelled 0 [.stmt, .stmt, .stmt, .stmt, .stmt, .irq 8, .stmt])) := by
  refine ⟨by decide, fun integrity => ?_⟩
  have once := integrity.once (8, some 0) (by decide)
  revert once
  decide

end Stm32Robot.Motor.QueueInterrupt
