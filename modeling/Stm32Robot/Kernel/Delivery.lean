/-
# Kernel.Delivery -- what is posted is received

Over a run of the kernel, with any number of tasks and interrupts at a queue or a semaphore,
nothing that is posted is lost and nothing is received twice (`Reachable.nothing_lost`).  With one
reader a queue delivers in the order of the posts (`Reachable.in_order`), and a semaphore of
count `n` lets at most `n` tasks hold it (`Reachable.holders_bounded`).
-/
import Stm32Robot.Kernel.Traffic

namespace Stm32Robot.Kernel

open Stm32Robot.Theory
open Stm32Robot.Theory.Handover
open Stm32Robot.Theory.PartialRun

set_option autoImplicit false

variable {Msg : Type}

theorem flatMap_concat {α β : Type} (f : α → List β) (xs : List α) (x : α) :
    (xs ++ [x]).flatMap f = xs.flatMap f ++ f x := by
  simp

namespace Ucos

variable {k k' : Ucos Msg} {p q : Prio} {e : EventId} {s : Service} {a : Task Msg} {t : OsTcb Msg}
  {act : Action Msg} {r : Reply Msg} {acts : List (Action Msg)} {log : List (Entry Msg)}

/-! ## Nothing is lost -/

/-- All that was posted, and what there was before, has been received or is there still. -/
structure Balanced (e : EventId) (s : Service) (before : Multiset (Option Msg)) (k : Ucos Msg)
    (log : List (Entry Msg)) : Prop where
  type : (k.event e).osEventType = some s
  balance : (log.flatMap (Entry.posted e) : Multiset (Option Msg)) + before =
    (log.flatMap (Entry.received e s) : Multiset (Option Msg)) + (k.counter e s).goods

theorem Inv.balanced_step (inv : k.Inv) {there : Multiset (Option Msg)}
    (before : Balanced e s there k log) (spares : act.Spares e)
    (stepped : k.step act = some (k', r)) :
    Balanced e s there k' (log ++ [⟨k.who, act, r⟩]) := by
  obtain ⟨m, carries⟩ := inv.carries before.type spares stepped
  have conserved := carries.step.conserved
  rw [carries.came, carries.left] at conserved
  refine ⟨carries.type, ?_⟩
  rw [flatMap_concat, flatMap_concat, ← Multiset.coe_add, ← Multiset.coe_add]
  exact balance_add before.balance conserved

theorem Inv.balanced (inv : k.Inv) {there : Multiset (Option Msg)}
    (start : Balanced e s there k []) (ran : runPartial logged (k, []) acts = some (k', log))
    (spared : ∀ x ∈ log, x.act.Spares e) : Balanced e s there k' log :=
  logged_invariant (fun _ _ _ _ _ inv before spares stepped =>
    inv.balanced_step before spares stepped) inv start ran spared

/-- Nothing that is posted to a queue or a semaphore is lost or received twice, whatever the
tasks and the interrupts do in between, as long as the event is not deleted, emptied or set and
no task is deleted. -/
theorem Reachable.nothing_lost (reachable : k.Reachable) (type : (k.event e).osEventType = some s)
    (ran : runPartial logged (k, []) acts = some (k', log))
    (spared : ∀ x ∈ log, x.act.Spares e) :
    (log.flatMap (Entry.posted e) : Multiset (Option Msg)) + (k.counter e s).goods =
      (log.flatMap (Entry.received e s) : Multiset (Option Msg)) + (k'.counter e s).goods :=
  (reachable.inv.balanced ⟨type, by simp⟩ ran spared).balance

/-- A task of priority 2 waits for a message of the task of priority 3. -/
theorem conserved_seven : ∃ (k' : Ucos Nat) (log : List (Entry Nat)),
    runPartial logged (boot [.osTaskCreate 2, .osQCreate (fun _ => none) 4], [])
      [.call (.osQPend 2 0), .osSched, .call (.osQPost 2 (some 7)), .osSched, .pendTail] =
        some (k', log) ∧
    (log.flatMap (Entry.posted 2) : Multiset (Option Nat)) +
        ((boot [.osTaskCreate 2, .osQCreate (fun _ => none) 4] : Ucos Nat).counter 2 .q).goods =
      (log.flatMap (Entry.received 2 .q) : Multiset (Option Nat)) + (k'.counter 2 .q).goods := by
  have all : (runPartial logged
      ((boot [.osTaskCreate 2, .osQCreate (fun _ => none) 4] : Ucos Nat), [])
      [.call (.osQPend 2 0), .osSched, .call (.osQPost 2 (some 7)), .osSched, .pendTail]).isSome :=
    by decide +kernel
  obtain ⟨⟨k', log⟩, ran⟩ := Option.isSome_iff_exists.mp all
  have spared : ∀ x ∈ log, x.act.Spares 2 := by
    intro x mem
    have act := act_mem ran mem
    simp only [List.mem_cons, List.not_mem_nil, or_false] at act
    rcases act with h | h | h | h | h <;> rw [h] <;> trivial
  exact ⟨k', log, ran, Reachable.nothing_lost ⟨_, [], rfl⟩ (by decide +kernel) ran spared⟩

/-! ## One reader -/

theorem inHand_of_unread (unread : k.context q ≠ .pendSched e s ∧ k.context q ≠ .pendTail e s) :
    k.inHand e s q = none := by
  unfold inHand
  split
  · rfl
  · exact if_neg fun h => h.1.elim unread.1 unread.2

/-- The step leaves the queue to one reader: nobody else reads, and nothing is posted to the
front. -/
structure SingleReader (p : Prio) (e : EventId) (x : Entry Msg) : Prop where
  spares : x.act.Spares e
  back : ∀ pmsg, x.act ≠ .call (.osQPostFront e pmsg)
  reader : ∀ c, x.act = .call c → c.Reads e → x.who = some p

/-- A task gets into a pend by a call of its own. -/
theorem Turns.pend {who : Option Prio} {x y : Phase Msg} (turns : Turns who q act x y)
    (pend : y.pend = some (e, s)) :
    x.pend = some (e, s) ∨ ∃ c n, act = .call c ∧ c.Pends e s n ∧ who = some q := by
  cases turns with
  | call goes =>
      cases goes with
      | stay => exact Or.inl pend
      | sleep => cases pend
      | wait self pends =>
          cases pend
          exact Or.inr ⟨_, _, rfl, pends, self⟩
      | served _ _ before =>
          cases pend
          exact Or.inl before
      | aborted _ _ before =>
          cases pend
          exact Or.inl before
      | hurried x =>
          refine Or.inl ?_
          cases x <;> exact pend
  | stay => exact Or.inl pend
  | tail => cases pend
  | tick x =>
      refine Or.inl ?_
      cases x with
      | pending j i d =>
          have split : (if d = 1 then .due j i else .pending j i (d - 1) : Phase Msg).pend =
              some (e, s) := pend
          split at split <;> exact split
      | active | due | served | aborted => exact pend

/-- Nobody but the reader is in a pend on the queue. -/
def Apart (p : Prio) (e : EventId) (k : Ucos Msg) : Prop :=
  ∀ q, q ≠ p → ∀ a t, (k.view q).Shows a t → a.phase.pend ≠ some (e, .q)

theorem Inv.apart_step (inv : k.Inv) (apart : Apart p e k)
    (single : SingleReader p e ⟨k.who, act, r⟩) (stepped : k.step act = some (k', r)) :
    Apart p e k' := by
  intro q other a' u' shows' pend
  have turns := inv.turns stepped
  -- where the code stands tells the pend, whatever else is known of the task
  have stands : k'.context q = .pendSched e .q ∨ k'.context q = .pendTail e .q := by
    have stands := shows'.stands
    unfold Phase.Stands at stands
    rw [pend] at stands
    exact stands
  rcases inv.sound.tasks q with absent | ⟨a, t, shows⟩
  · rcases turns.absent q absent.tcb with runs | gone
    · rcases stands with h | h <;> rw [runs] at h <;> cases h
    · have found : k'.osTCBPrioTbl q = some u' := shows'.tcb
      rw [gone] at found
      cases found
  · rcases turns.tasks q a t shows with gone | ⟨b, u, after, turn⟩
    · have spares := single.spares
      rw [show (⟨k.who, act, r⟩ : Entry Msg).act = _ from gone] at spares
      exact spares.elim
    · have pend' := Phase.pend_eq_of_stands after.stands stands
      rcases Turns.pend turn pend' with before | ⟨c, n, called, pends, self⟩
      · exact apart q other a t shows before
      · have reads : c.Reads e := by cases pends; rfl
        have reader : k.who = some p := single.reader c called reads
        exact other (Option.some.inj (self.symm.trans reader))

/-- The queue and its one reader, after a run. -/
structure Ordered (p : Prio) (e : EventId) (k : Ucos Msg) (log : List (Entry Msg)) : Prop where
  type : (k.event e).osEventType = some .q
  apart : Apart p e k
  order : InOrder p (k.counter e .q) (log.flatMap (Entry.posted e))
    (log.flatMap (Entry.received e .q))

theorem Inv.ordered_step (inv : k.Inv) (before : Ordered p e k log)
    (single : SingleReader p e ⟨k.who, act, r⟩) (stepped : k.step act = some (k', r)) :
    Ordered p e k' (log ++ [⟨k.who, act, r⟩]) := by
  obtain ⟨m, carries⟩ := inv.carries before.type single.spares stepped
  refine ⟨carries.type, inv.apart_step before.apart single stepped, ?_⟩
  rw [flatMap_concat, flatMap_concat, ← carries.came, ← carries.left]
  refine carries.step.inOrder before.order ?_
  cases m with
  | rest | back | collect => trivial
  | front y =>
      obtain ⟨pmsg, called⟩ := carries.front y rfl
      exact (single.back pmsg called).elim
  | hand q y =>
      have waits := carries.hand q y rfl
      obtain ⟨a, t, shows⟩ := (inv.sound.tasks q).of_waits waits
      by_contra other
      refine before.apart q other a t shows ?_
      obtain ⟨i, type, stands⟩ := inv.sound.kinds q e waits
      obtain rfl : i = .q := Option.some.inj (type.symm.trans before.type)
      exact Phase.pend_eq_of_stands shows.stands stands
  | take who y =>
      obtain ⟨rfl, c, called, reads⟩ := carries.take who y rfl
      exact single.reader c called reads

theorem Inv.ordered (inv : k.Inv) (start : Ordered p e k [])
    (ran : runPartial logged (k, []) acts = some (k', log))
    (single : ∀ x ∈ log, SingleReader p e x) : Ordered p e k' log :=
  logged_invariant (fun _ _ _ _ _ inv before single stepped =>
    inv.ordered_step before single stepped) inv start ran single

/-- A queue with one reader delivers the messages in the order of the posts: what the reader has
received so far, then what it was handed, then what waits in the ring, are the messages
posted. -/
theorem Reachable.in_order (reachable : k.Reachable) (type : (k.event e).osEventType = some .q)
    (empty : (k.event e).osEventPtr.contents = [])
    (unread : ∀ q, k.context q ≠ .pendSched e .q ∧ k.context q ≠ .pendTail e .q)
    (ran : runPartial logged (k, []) acts = some (k', log))
    (single : ∀ x ∈ log, SingleReader p e x) :
    log.flatMap (Entry.posted e) = log.flatMap (Entry.received e .q) ++
      (k'.inHand e .q p).toList ++ (k'.event e).osEventPtr.contents := by
  have free (q : Prio) : k.inHand e .q q = none := inHand_of_unread (unread q)
  have start : Ordered p e k [] := by
    refine ⟨type, fun q _ a t shows pend => ?_, fun q _ => free q, ?_⟩
    · have stands := shows.stands
      unfold Phase.Stands at stands
      rw [pend] at stands
      exact stands.elim (unread q).1 (unread q).2
    · show [] = [] ++ (k.inHand e .q p).toList ++ k.line e
      rw [free, line_q type, empty]
      rfl
  have ordered := reachable.inv.ordered start ran single
  have order := ordered.order.order
  rw [← line_q ordered.type]
  exact order

/-- The task of priority 2 is the only reader. -/
theorem in_order_seven : ∃ (k' : Ucos Nat) (log : List (Entry Nat)),
    runPartial logged (boot [.osTaskCreate 2, .osQCreate (fun _ => none) 4], [])
      [.call (.osQPend 2 0), .osSched, .call (.osQPost 2 (some 7)), .osSched, .pendTail] =
        some (k', log) ∧
    log.flatMap (Entry.posted 2) = log.flatMap (Entry.received 2 .q) ++
      (k'.inHand 2 .q 2).toList ++ (k'.event 2).osEventPtr.contents := by
  have all : (runPartial logged
      ((boot [.osTaskCreate 2, .osQCreate (fun _ => none) 4] : Ucos Nat), [])
      [.call (.osQPend 2 0), .osSched, .call (.osQPost 2 (some 7)), .osSched, .pendTail]).map
        (fun s => s.2.map Entry.who) = some [some 2, some 2, some 3, some 3, some 2] := by
    decide +kernel
  obtain ⟨⟨k', log⟩, ran, who⟩ := Option.map_eq_some_iff.mp all
  have single : ∀ x ∈ log, SingleReader 2 2 x := by
    intro x mem
    have pair : (x.who, x.act) ∈ (log.map Entry.who).zip (log.map Entry.act) := by
      rw [List.zip_map']
      exact List.mem_map_of_mem mem
    rw [who, acts_logged ran] at pair
    simp only [List.map_nil, List.nil_append, List.zip_cons_cons, List.zip_nil_left,
      List.mem_cons, List.not_mem_nil, or_false, Prod.mk.injEq] at pair
    rcases pair with ⟨w, h⟩ | ⟨w, h⟩ | ⟨w, h⟩ | ⟨w, h⟩ | ⟨w, h⟩ <;>
      refine ⟨by rw [h]; trivial, by rw [h]; nofun, fun c called reads => ?_⟩ <;>
      rw [h] at called <;> cases called
    · exact w
    · exact reads.elim
  have unread : ∀ q, (boot [.osTaskCreate 2, .osQCreate (fun _ => none) 4] : Ucos Nat).context q ≠
        .pendSched 2 .q ∧
      (boot [.osTaskCreate 2, .osQCreate (fun _ => none) 4] : Ucos Nat).context q ≠
        .pendTail 2 .q := by
    decide +kernel
  exact ⟨k', log, ran, Reachable.in_order ⟨_, [], rfl⟩ (by decide +kernel) (by decide +kernel)
    unread ran single⟩

/-! ## Holders of a semaphore -/

/-- Tasks that have taken the semaphore more often than they have given it back: never more than
its count at the start.  So a semaphore of count 1 is held by one task at a time. -/
theorem Reachable.holders_bounded (reachable : k.Reachable)
    (type : (k.event e).osEventType = some .sem)
    (unheld : ∀ q, k.context q ≠ .pendSched e .sem ∧ k.context q ≠ .pendTail e .sem)
    (ran : runPartial logged (k, []) acts = some (k', log))
    (spared : ∀ x ∈ log, x.act.Spares e)
    (tasks : ∀ x ∈ log, x.posted e ≠ [] ∨ x.received e .sem ≠ [] → x.who.isSome)
    (fair : ∀ q, countOf Entry.who (Entry.posted e) log q ≤
      countOf Entry.who (Entry.received e .sem) log q) :
    (Finset.univ.filter fun q => countOf Entry.who (Entry.posted e) log q <
      countOf Entry.who (Entry.received e .sem) log q).card ≤ (k.event e).osEventCnt := by
  have start : Balanced e .sem (k.counter e .sem).goods k [] := ⟨type, by simp⟩
  have balance := (reachable.inv.balanced start ran spared).balance
  have before : (k.counter e .sem).goods = (k.line e : Multiset (Option Msg)) :=
    Counter.goods_of_free fun q => inHand_of_unread (unheld q)
  rw [before, line_sem type] at balance
  have cards := congrArg Multiset.card balance
  simp only [Multiset.card_add, Multiset.coe_card, List.length_replicate] at cards
  exact Handover.holders_le (by omega) (fun x mem some => tasks x mem (Or.inl some))
    (fun x mem some => tasks x mem (Or.inr some)) fair

/-- The task of priority 2 holds a semaphore of count 1 that the task of priority 3 waits for. -/
theorem holders_le_one : ∃ (k' : Ucos Nat) (log : List (Entry Nat)),
    runPartial logged (boot [.osTaskCreate 2, .osSemCreate 1#16], [])
      [.call (.osSemPend 2 0), .call (.osTimeDly 1), .osSched, .call (.osSemPend 2 0), .osSched] =
        some (k', log) ∧
    (Finset.univ.filter fun q => countOf Entry.who (Entry.posted 2) log q <
      countOf Entry.who (Entry.received 2 .sem) log q).card ≤ 1 := by
  have all : (runPartial logged ((boot [.osTaskCreate 2, .osSemCreate 1#16] : Ucos Nat), [])
      [.call (.osSemPend 2 0), .call (.osTimeDly 1), .osSched, .call (.osSemPend 2 0),
        .osSched]).map (fun s => (s.2.all fun x => x.who.isSome, s.2.flatMap (Entry.posted 2))) =
          some (true, []) := by
    decide +kernel
  obtain ⟨⟨k', log⟩, ran, fields⟩ := Option.map_eq_some_iff.mp all
  obtain ⟨tasks, none⟩ := Prod.mk.inj fields
  have spared : ∀ x ∈ log, x.act.Spares 2 := by
    intro x mem
    have act := act_mem ran mem
    simp only [List.mem_cons, List.not_mem_nil, or_false] at act
    rcases act with h | h | h | h | h <;> rw [h] <;> trivial
  have unheld : ∀ q, (boot [.osTaskCreate 2, .osSemCreate 1#16] : Ucos Nat).context q ≠
        .pendSched 2 .sem ∧
      (boot [.osTaskCreate 2, .osSemCreate 1#16] : Ucos Nat).context q ≠ .pendTail 2 .sem := by
    decide +kernel
  have fair (q : Prio) : countOf Entry.who (Entry.posted 2) log q ≤
      countOf Entry.who (Entry.received 2 .sem) log q := by
    have nothing : countOf Entry.who (Entry.posted 2) log q = 0 := by
      refine List.length_eq_zero_iff.mpr (List.flatMap_eq_nil_iff.mpr fun x mem => ?_)
      exact List.flatMap_eq_nil_iff.mp none x (List.mem_of_mem_filter mem)
    rw [nothing]
    exact Nat.zero_le _
  have held := Reachable.holders_bounded ⟨_, [], rfl⟩ (by decide +kernel) unheld ran spared
    (fun x mem _ => List.all_eq_true.mp tasks x mem) fair
  rw [show ((boot [.osTaskCreate 2, .osSemCreate 1#16] : Ucos Nat).event 2).osEventCnt = 1 by
    decide +kernel] at held
  exact ⟨k', log, ran, held⟩

end Ucos

end Stm32Robot.Kernel
