/-
# Can.DriveAddress -- the identifiers of the frames on the bus

DCQ holds bare node numbers: `SendCan` adds `DRIVER_ID` to whatever it takes out of the queue,
and the three drives listen at 0x601 to 0x603.  `InitDriver` alone enqueues identifiers that
carry a base already, 0x604 to 0x606; they leave as 0xC04 to 0xC06, which no standard frame
can hold.

A run is any order of the calls that touch DCQ, from the state `InitDriverCmdQueue` leaves.
Every frame waiting and every frame sent is for a drive exactly as long as `InitDriver` has
not been called (`addresses_iff`).
-/
import Stm32Robot.Can.MotionDelivery
import Stm32Robot.Theory.PartialRun

namespace Stm32Robot.Can

open Stm32Robot.Theory.PartialRun
open Stm32Robot.Motor.Driver
open Stm32Robot.Motor.Queue
open Stm32Robot.Motor.Message

set_option autoImplicit false

/-! ## The calls -/

/-- A call that fills or empties DCQ. -/
inductive BusCall where
  | initDriverCmdQueue
  | initDriver
  | messageHandle (l : Locals) (msg : Nat → UInt8) (len : Nat)
  | canThread (sendCanMsg : SCM) (reply : Option (Int × Vector UInt8 8))

/-- No state where the call has no defined result. -/
def busStep (k : Kinematics) (w : World) : BusCall → Option World
  | .initDriverCmdQueue => some (initDriverCmdQueue w)
  | .initDriver => some (initDriver w)
  | .messageHandle l msg len => (messageHandle k l msg len w).map Prod.snd
  | .canThread sendCanMsg reply => some (canThread sendCanMsg reply w).2

/-- The state after a list of calls, the first `InitDriverCmdQueue` before them. -/
def busRun (k : Kinematics) (calls : List BusCall) : Option World :=
  runPartial (busStep k) (initDriverCmdQueue .powerUp) calls

/-! ## Addresses -/

/-- A frame of eight bytes for one of the drives. -/
def ForDrive (m : SCM) : Prop := m.id ∈ [LEFT_ID, RIGHT_ID, FRONT_ID] ∧ m.len = 8

instance (m : SCM) : Decidable (ForDrive m) :=
  inferInstanceAs (Decidable (m.id ∈ [LEFT_ID, RIGHT_ID, FRONT_ID] ∧ m.len = 8))

/-- `StdId` and `DLC` of the frames put into a transmit mailbox. -/
def mailboxes (es : List Event) : List (Int × UInt8) :=
  es.filterMap fun
    | .canTransmit StdId _ DLC => some (StdId, DLC)
    | _ => none

/-- The identifier of a drive, in the eleven bits of a standard frame, and eight bytes. -/
def ToDrive (box : Int × UInt8) : Prop :=
  box.1 ∈ [0x601, 0x602, 0x603] ∧ (0 ≤ box.1 ∧ box.1 < 2 ^ 11) ∧ box.2 = 8

/-- All frames waiting and all frames sent are for drives. -/
structure Addresses (w : World) : Prop where
  waiting : ∀ m ∈ w.dcq.contents, ForDrive m
  sent : ∀ box ∈ mailboxes w.log, ToDrive box

@[simp] theorem mailboxes_append (es fs : List Event) :
    mailboxes (es ++ fs) = mailboxes es ++ mailboxes fs := List.filterMap_append

/-- The identifier of a drive after `SendCan` has added the base. -/
theorem toDrive_of_forDrive {m : SCM} (drive : ForDrive m) : ToDrive (m.id + DRIVER_ID, m.len) := by
  obtain ⟨node, eight⟩ := drive
  simp only [List.mem_cons, List.not_mem_nil, or_false] at node
  rcases node with node | node | node
  · simp [ToDrive, node, eight, LEFT_ID, DRIVER_ID]
  · simp [ToDrive, node, eight, RIGHT_ID, DRIVER_ID]
  · simp [ToDrive, node, eight, FRONT_ID, DRIVER_ID]

/-! ## What the calls enqueue -/

theorem forDrive_setupFrames : ∀ m ∈ setupFrames, ForDrive m := by decide

theorem forDrive_feedbackFrames : ∀ m ∈ feedbackFrames, ForDrive m := by decide

theorem forDrive_motionFrames (ExpPos l r : Int) : ∀ m ∈ motionFrames ExpPos l r, ForDrive m := by
  simp [motionFrames, ForDrive]

/-- The last frame of `InitDriver` is for no drive. -/
theorem driverFrames_concat : ∃ ms m, driverFrames = ms ++ [m] ∧ ¬ ForDrive m :=
  ⟨driverFrames.dropLast, ⟨0x606, getStautsFram, 8⟩, by decide, by decide⟩

section Calls

variable (k : Kinematics)

theorem mailboxes_initDriverCmdQueue (w : World) :
    mailboxes (initDriverCmdQueue w).log = mailboxes w.log := by
  simp [initDriverCmdQueue, enDriverCmdQueue, World.record, mailboxes]

theorem mailboxes_dispatchEvents (feedBackMsg rxMsg : STM) (w : World) :
    mailboxes (dispatchEvents k feedBackMsg rxMsg w) = [] := by
  unfold dispatchEvents
  cases motionOf k w.isAuto rxMsg with
  | some target => rfl
  | none =>
      simp only
      split_ifs <;> rfl

theorem mailboxes_accept (l : Locals) (rxMsg : STM) (w : World) :
    mailboxes (accept k l rxMsg w).log = mailboxes w.log := by
  have parity : mailboxes (parityEvents rxMsg) = [] := by
    unfold parityEvents
    split <;> rfl
  have reply : mailboxes (feedbackEvents (feedbackReply k l.feedBackMsg rxMsg.seq w)) = [] := rfl
  rw [log_accept_eq]
  simp [parity, reply, mailboxes_dispatchEvents]

end Calls

/-! ## One call -/

section Steps

variable {k : Kinematics} {w v : World}

theorem wellFormed_initDriverCmdQueue (w : World) : (initDriverCmdQueue w).dcq.WellFormed := by
  rw [dcq_initDriverCmdQueue]
  exact emptyRing_wellFormed.enAll _

/-- Afresh, DCQ holds the setup frames. -/
theorem forDrive_initDriverCmdQueue (w : World) :
    ∀ m ∈ (initDriverCmdQueue w).dcq.contents, ForDrive m := by
  rw [dcq_initDriverCmdQueue]
  refine InterQueue.forall_mem_enAll emptyRing_wellFormed ?_ forDrive_setupFrames
  rw [contents_emptyRing]
  exact List.forall_mem_nil _

/-- `MessageHandle` prints a message or accepts the frame. -/
theorem messageHandle_cases {l : Locals} {msg : Nat → UInt8} {len : Nat}
    (ran : busStep k w (.messageHandle l msg len) = some v) :
    (∃ text, v = w.record (.printf text)) ∨ ∃ rxMsg, v = accept k l rxMsg w := by
  simp only [busStep, messageHandle] at ran
  split_ifs at ran
  · cases ran
  · simp only [Option.map_some, Option.some.injEq] at ran
    exact .inl ⟨_, ran.symm⟩
  · simp only [Option.map_some, Option.some.injEq] at ran
    exact .inr ⟨_, ran.symm⟩

/-- A turn of `can_thread` finds nothing to do, or sends the oldest frame. -/
theorem canThread_cases (wf : w.dcq.WellFormed) (sendCanMsg : SCM)
    (reply : Option (Int × Vector UInt8 8)) :
    (canThread sendCanMsg reply w).2 = w ∨
      ∃ m rest, w.dcq.contents = m :: rest ∧
        (canThread sendCanMsg reply w).2.dcq.WellFormed ∧
        (canThread sendCanMsg reply w).2.dcq.contents = rest ∧
        (canThread sendCanMsg reply w).2.log =
          w.log ++ [.canTransmit (m.id + DRIVER_ID) m.data m.len] := by
  rcases le_or_gt w.dcq.queueCount 0 with empty | some
  · exact .inl (by rw [canThread_of_empty _ _ empty])
  · have live := InterQueue.contents_eq_cons wf some
    obtain ⟨-, head, ring, rest, -⟩ := InterQueue.getAndDelQueueinter_of_cons wf sendCanMsg live
    obtain ⟨-, dcq⟩ := canThread_of_pos sendCanMsg reply some
    refine .inr ⟨_, _, live, ?_, ?_, ?_⟩
    · rwa [dcq]
    · rwa [dcq]
    · rw [log_canThread_of_pos _ _ some, head]

/-- Every call keeps the ring well formed. -/
theorem wellFormed_busStep {c : BusCall} (wf : w.dcq.WellFormed) (ran : busStep k w c = some v) :
    v.dcq.WellFormed := by
  cases c with
  | initDriverCmdQueue => exact Option.some.inj ran ▸ wellFormed_initDriverCmdQueue w
  | initDriver =>
      rw [← Option.some.inj ran, dcq_initDriver]
      exact wf.enAll _
  | messageHandle l msg len =>
      rcases messageHandle_cases ran with ⟨text, rfl⟩ | ⟨rxMsg, rfl⟩
      · exact wf
      · rw [dcq_accept]
        exact wf.enAll _
  | canThread sendCanMsg reply =>
      rw [← Option.some.inj ran]
      rcases canThread_cases wf sendCanMsg reply with idle | ⟨_, _, _, ring, -⟩
      · rwa [idle]
      · exact ring

/-- Every call but `InitDriver` keeps the addresses. -/
theorem Addresses.busStep {c : BusCall} (wf : w.dcq.WellFormed) (addresses : Addresses w)
    (other : c ≠ .initDriver) (ran : busStep k w c = some v) : Addresses v := by
  cases c with
  | initDriverCmdQueue =>
      rw [← Option.some.inj ran]
      refine ⟨forDrive_initDriverCmdQueue w, ?_⟩
      rw [mailboxes_initDriverCmdQueue]
      exact addresses.sent
  | initDriver => exact absurd rfl other
  | messageHandle l msg len =>
      rcases messageHandle_cases ran with ⟨text, rfl⟩ | ⟨rxMsg, rfl⟩
      · refine ⟨addresses.waiting, ?_⟩
        simpa [World.record, mailboxes] using addresses.sent
      · refine ⟨?_, ?_⟩
        · rw [dcq_accept]
          refine InterQueue.forall_mem_enAll wf addresses.waiting fun m mem => ?_
          rcases List.mem_append.mp mem with query | switched
          · exact forDrive_feedbackFrames m query
          · exact forall_mem_enqueued_dispatchEvents k _ _ w forDrive_motionFrames
              forDrive_feedbackFrames m switched
        · rw [mailboxes_accept]
          exact addresses.sent
  | canThread sendCanMsg reply =>
      rw [← Option.some.inj ran]
      rcases canThread_cases wf sendCanMsg reply with idle | ⟨m, rest, live, -, left, sent⟩
      · rwa [idle]
      · have waiting := addresses.waiting
        rw [live] at waiting
        obtain ⟨drive, others⟩ := List.forall_mem_cons.mp waiting
        refine ⟨by rwa [left], ?_⟩
        rw [sent, mailboxes_append]
        intro box mem
        rcases List.mem_append.mp mem with before | here
        · exact addresses.sent box before
        · rw [List.mem_singleton.mp here]
          exact toDrive_of_forDrive drive

/-- `InitDriver` leaves a frame in DCQ that is for no drive. -/
theorem not_addresses_initDriver (wf : w.dcq.WellFormed) : ¬ Addresses (initDriver w) := by
  obtain ⟨ms, m, frames, foreign⟩ := driverFrames_concat
  intro addresses
  apply foreign
  apply addresses.waiting m
  rw [dcq_initDriver, frames]
  exact InterQueue.mem_enAll_concat wf ms m

end Steps

/-! ## Runs -/

theorem addresses_start : Addresses (initDriverCmdQueue .powerUp) := by
  refine ⟨forDrive_initDriverCmdQueue _, ?_⟩
  rw [mailboxes_initDriverCmdQueue]
  exact List.forall_mem_nil _

/-- In every run, all frames waiting and all frames sent are for drives in every state exactly
when `InitDriver` is never called. -/
theorem addresses_iff (k : Kinematics) (calls : List BusCall) :
    (∀ before w, before <+: calls → busRun k before = some w → Addresses w) ↔
      ∀ before c w, before ++ [c] <+: calls → busRun k (before ++ [c]) = some w →
        c ≠ .initDriver := by
  have always (w : World) (c : BusCall) (v : World) (wf : w.dcq.WellFormed)
      (ran : busStep k w c = some v) : v.dcq.WellFormed := wellFormed_busStep wf ran
  refine throughout_iff always ?_ ?_ (wellFormed_initDriverCmdQueue _) addresses_start calls
  · intro w c v wf addresses other ran
    exact addresses.busStep wf other ran
  · rintro w c v wf rfl ran
    rw [← Option.some.inj ran]
    exact not_addresses_initDriver wf

/-- The initialisation of the program itself leaves frames for 0xC04 to 0xC06 in DCQ. -/
theorem initDriver_spoils_addresses :
    ¬ ∀ (k : Kinematics) (calls : List BusCall) (w : World),
      busRun k calls = some w → Addresses w := by
  intro stated
  exact not_addresses_initDriver (wellFormed_initDriverCmdQueue .powerUp)
    (stated .still [.initDriver] _ rfl)

end Stm32Robot.Can
