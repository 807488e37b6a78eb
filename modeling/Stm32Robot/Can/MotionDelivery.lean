/-
# Can.MotionDelivery -- motion commands on their way through DCQ

The steps are whole calls of the three handlers that fill DCQ and turns of `can_thread`.  To
tell which command a frame on the bus belongs to, a run carries a second copy of DCQ, filled
and emptied by the same queue functions, whose nodes are frames with a `Tag`: the number of
the handler call that enqueued the frame and the count of DCQ when that call began.  Stripped
of its tags the copy is DCQ (`Inv.erased`).

A command that begins at a count of 38 or 39 fills the queue with its own first frames; the
overflow then discards them and the rest of the command goes out alone.  At every other count
the three frames stay together or are discarded together.  `steered_iff` says so of every run.
-/
import Stm32Robot.Can.CanThread
import Stm32Robot.Motor.MessageEffect
import Stm32Robot.Motor.QueueRefinement
import Stm32Robot.Theory.History

namespace Stm32Robot.Can

open Stm32Robot.Theory.BoundedFifo
open Stm32Robot.Theory.History
open Stm32Robot.Motor.Driver
open Stm32Robot.Motor.Queue
open Stm32Robot.Motor.Message

set_option autoImplicit false

/-! ## The step relation -/

/-- A whole call of a handler that fills DCQ. -/
inductive HandlerCall where
  | motionCmd (data : Nat → UInt8) (len : UInt8)
  | angleMotionCmd (data : Nat → UInt8) (len : UInt8)
  | motionFeedback (feedBackMsg : STM) (Seq : UInt8)

inductive Act where
  | call (c : HandlerCall)
  | turn (reply : Option (Int × Vector UInt8 8))

/-- The handler call that enqueued a frame, 0 for the frames of the initialisation, and the
count of DCQ when it began. -/
structure Tag where
  call : Nat
  fill : Int
deriving DecidableEq

/-- The state of a run: the program, the tagged copy of DCQ, the number of the next call, and
what `can_thread` has taken out so far, with and without tags. -/
structure Rig where
  world : World
  tagged : InterQueue (Int → SCM × Tag)
  calls : Nat
  sent : List SCM
  delivered : List (SCM × Tag)

def setupTag : Tag := ⟨0, 0⟩

section Runs

variable (k : Kinematics)

def handle (c : HandlerCall) (w : World) : World :=
  match c with
  | .motionCmd data len => (motionCmdHandle k data len w).2
  | .angleMotionCmd data len => (angleMotionCmdHandle k data len w).2
  | .motionFeedback feedBackMsg Seq => (motionFeedbackHandle k feedBackMsg Seq w).2

def step (s : Rig) : Act → Rig
  | .call c =>
      let w := handle k c { s.world with log := [] }
      let tag : Tag := ⟨s.calls, s.world.dcq.queueCount⟩
      { s with
        world := w
        tagged := enAll s.tagged ((enqueued w.log).map fun m => (m, tag))
        calls := s.calls + 1 }
  | .turn reply =>
      let turn := canThread SCM.zero reply s.world
      let taken := getAndDelQueueinter (SCM.zero, setupTag) s.tagged
      { s with
        world := turn.2
        tagged := taken.2.2
        sent := s.sent ++ turn.1.toList
        delivered := s.delivered ++ if 0 < s.tagged.queueCount then [taken.2.1] else [] }

/-- The state `InitDriverCmdQueue` leaves, and `InitDriver` after it. -/
def start (driver : Bool) : Rig :=
  let w := initDriverCmdQueue .powerUp
  let w := if driver then initDriver w else w
  ⟨w, w.dcq.map fun m => (m, setupTag), 1, [], []⟩

def run (driver : Bool) (acts : List Act) : Rig := acts.foldl (step k) (start driver)

/-! ## What a handler call enqueues -/

/-- Nothing, three queries, or the three frames of a motion. -/
inductive Batch : List SCM → Prop where
  | nothing : Batch []
  | feedback : Batch feedbackFrames
  | motion (ExpPos ExpLeftV ExpRightV : Int) : Batch (motionFrames ExpPos ExpLeftV ExpRightV)

theorem handle_batch (c : HandlerCall) {w : World} (fresh : w.log = []) :
    Batch (enqueued (handle k c w).log) ∧
      (handle k c w).dcq = enAll w.dcq (enqueued (handle k c w).log) := by
  cases c with
  | motionCmd data len =>
      by_cases four : len = 0x4
      · simp only [handle, motionCmdHandle_of_length k four, enMotion_eq, fresh, List.nil_append]
        exact ⟨.motion _ _ _, rfl⟩
      · simp only [handle, motionCmdHandle_of_other k four, World.record, fresh, List.nil_append]
        exact ⟨.nothing, rfl⟩
  | angleMotionCmd data len =>
      by_cases four : len = 0x4
      · simp only [handle, angleMotionCmdHandle_of_length k four, enMotion_eq, fresh,
          List.nil_append]
        exact ⟨.motion _ _ _, rfl⟩
      · simp only [handle, angleMotionCmdHandle_of_other k four, World.record, fresh,
          List.nil_append]
        exact ⟨.nothing, rfl⟩
  | motionFeedback feedBackMsg Seq =>
      simp only [handle, motionFeedbackHandle_eq, fresh, List.nil_append]
      exact ⟨.feedback, rfl⟩

end Runs

/-! ## Steered frames -/

/-- The FRONT frame of the command `tag` is among these. -/
def Steered (past : List (SCM × Tag)) (tag : Tag) : Prop :=
  ∃ m, (m, tag) ∈ past ∧ m.isTargetPosition = true

/-- The command began at a count that does not cut it in two. -/
def Tag.Whole (tag : Tag) : Prop := tag.fill ≠ 38 ∧ tag.fill ≠ 39

/-- A wheel frame comes after the FRONT frame of its command. -/
def SteeredBefore (past : List (SCM × Tag)) (x : SCM × Tag) : Prop :=
  x.1.isSetVelocity = true → Steered past x.2

/-- A wheel frame comes after the FRONT frame of its command exactly when the command is
whole. -/
def SteeredIffWhole (past : List (SCM × Tag)) (x : SCM × Tag) : Prop :=
  x.1.isSetVelocity = true → (Steered past x.2 ↔ x.2.Whole)

section Batches

variable {past : List (SCM × Tag)} {tag : Tag}

/-- Queries have no wheel frame among them. -/
theorem along_feedback (ms : List SCM) (queries : ∀ m ∈ ms, m.isMotion = false) :
    Along SteeredIffWhole past (ms.map fun m => (m, tag)) := by
  apply along_of_forall
  rintro past x mem wheel
  obtain ⟨m, query, rfl⟩ := List.mem_map.mp mem
  have still := queries m query
  rw [SCM.isMotion, wheel, Bool.or_true] at still
  cases still

/-- The three frames of a whole command. -/
theorem along_motion (whole : tag.Whole) (ExpPos l r : Int) :
    Along SteeredIffWhole past ((motionFrames ExpPos l r).map fun m => (m, tag)) := by
  have front := isTargetPosition_setPositionFram FRONT_ID ExpPos
  refine ⟨?_, ?_, ?_, trivial⟩
  · intro wheel
    rw [isSetVelocity_setPositionFram] at wheel
    cases wheel
  · intro _
    exact iff_of_true ⟨_, by simp, front⟩ whole
  · intro _
    exact iff_of_true ⟨_, by simp, front⟩ whole

/-- What is left of a command that was cut: wheel frames, and no FRONT frame before them. -/
theorem along_cut (cut : ¬ tag.Whole) (unsteered : ¬ Steered past tag) (ms : List SCM)
    (wheels : ∀ m ∈ ms, m.isTargetPosition = false) :
    Along SteeredIffWhole past (ms.map fun m => (m, tag)) := by
  induction ms generalizing past with
  | nil => trivial
  | cons m ms ih =>
      refine ⟨fun _ => iff_of_false unsteered cut, ih ?_ fun n mem => ?_⟩
      · rintro ⟨n, mem, front⟩
        rcases List.mem_append.mp mem with before | here
        · exact unsteered ⟨n, before, front⟩
        · obtain ⟨rfl, -⟩ := Prod.mk.inj (List.mem_singleton.mp here)
          rw [wheels n List.mem_cons_self] at front
          cases front
      · exact wheels n (List.mem_cons_of_mem m mem)

/-- Behind its first frame a motion has wheel frames only. -/
theorem along_motion_drop (cut : ¬ tag.Whole) (unsteered : ¬ Steered past tag) (ExpPos l r : Int)
    (n : Nat) :
    Along SteeredIffWhole past
      (((motionFrames ExpPos l r).drop (n + 1)).map fun m => (m, tag)) := by
  apply along_cut cut unsteered
  intro m mem
  have wheel : m ∈ (motionFrames ExpPos l r).drop 1 := by
    rw [Nat.add_comm, ← List.drop_drop] at mem
    exact List.mem_of_mem_drop mem
  rcases List.mem_cons.mp wheel with rfl | last
  · exact isTargetPosition_setVelocityFram LEFT_ID l
  · rw [List.mem_singleton.mp last]
    exact isTargetPosition_setVelocityFram RIGHT_ID r

end Batches

/-! ## The invariant -/

/-- What holds between two steps.  `steered` speaks of the frames delivered and the frames
waiting, in one list: a turn moves a frame across the border and an overflow cuts the list
back to the delivered part. -/
structure Inv (s : Rig) : Prop where
  erased : s.tagged.map Prod.fst = s.world.dcq
  same : s.delivered.map Prod.fst = s.sent
  wellFormed : s.tagged.WellFormed
  bound : s.tagged.maxCount = QUEUEMAXCOUNT
  fresh : ∀ x ∈ s.delivered ++ s.tagged.contents, x.2.call < s.calls
  steered : Along SteeredIffWhole [] (s.delivered ++ s.tagged.contents)

section Steps

variable {k : Kinematics} {s : Rig}

theorem Inv.capacity (inv : Inv s) : s.tagged.capacity = 40 := by
  rw [InterQueue.capacity, inv.bound]
  rfl

theorem Inv.length_le (inv : Inv s) : s.tagged.contents.length ≤ 40 := by
  have bounded := inv.wellFormed.length_contents_le
  rwa [inv.capacity] at bounded

theorem Inv.queueCount_eq (inv : Inv s) : s.tagged.queueCount = s.tagged.contents.length := by
  have := inv.wellFormed.count_nonneg
  rw [InterQueue.length_contents]
  omega

/-- The call about to begin has no frame anywhere yet. -/
theorem Inv.unsteered (inv : Inv s) (fill : Int) : ¬ Steered s.delivered ⟨s.calls, fill⟩ := by
  rintro ⟨m, mem, -⟩
  exact lt_irrefl _ (inv.fresh _ (List.mem_append_left _ mem))

/-- A batch keeps the delivered and waiting frames steered. -/
theorem Inv.steered_batch (inv : Inv s) {ms : List SCM} (batch : Batch ms) :
    Along SteeredIffWhole [] (s.delivered ++ pushAll 40 s.tagged.contents
      (ms.map fun m => (m, (⟨s.calls, s.tagged.queueCount⟩ : Tag)))) := by
  obtain ⟨before, after⟩ := (along_append _ _).mp inv.steered
  have length := inv.length_le
  have count := inv.queueCount_eq
  rw [along_append]
  refine ⟨before, ?_⟩
  by_cases room : s.tagged.contents.length + ms.length ≤ 40
  · -- the batch is queued behind what was waiting
    rw [pushAll_of_room _ _ (by rwa [List.length_map]), along_append]
    refine ⟨after, ?_⟩
    cases batch with
    | nothing => trivial
    | feedback => exact along_feedback _ isMotion_feedbackFrames
    | motion p l r =>
        have three : (motionFrames p l r).length = 3 := rfl
        refine along_motion ⟨?_, ?_⟩ p l r <;> simp only <;> omega
  · have short : ms.length ≤ 3 := by cases batch <;> simp [feedbackFrames, motionFrames]
    have exceeds : 40 < s.tagged.contents.length + ms.length := by omega
    rw [pushAll_of_no_room length (by rw [List.length_map]; omega) (by rwa [List.length_map]),
      ← List.map_drop]
    cases batch with
    | nothing => exact absurd length (by simpa using room)
    | feedback =>
        exact along_feedback _ fun m mem => isMotion_feedbackFrames m (List.mem_of_mem_drop mem)
    | motion p l r =>
        have three : (motionFrames p l r).length = 3 := rfl
        cases lost : 40 - s.tagged.contents.length with
        | zero =>
            -- a full queue is emptied before the FRONT frame
            refine along_motion ⟨?_, ?_⟩ p l r <;> simp only <;> omega
        | succ n =>
            -- the FRONT frame, and perhaps the LEFT one, fills the queue and is lost with it
            have cut : ¬ Tag.Whole ⟨s.calls, s.tagged.queueCount⟩ := by
              rintro ⟨two, one⟩
              simp only at two one
              omega
            exact along_motion_drop cut (inv.unsteered _) p l r n

theorem Inv.call (inv : Inv s) (c : HandlerCall) : Inv (step k s (.call c)) := by
  obtain ⟨batch, queued⟩ := handle_batch k c (w := { s.world with log := [] }) rfl
  have count : s.world.dcq.queueCount = s.tagged.queueCount := by rw [← inv.erased]; rfl
  have contents : (step k s (.call c)).tagged.contents = pushAll 40 s.tagged.contents
      ((enqueued (handle k c { s.world with log := [] }).log).map
        fun m => (m, (⟨s.calls, s.tagged.queueCount⟩ : Tag))) := by
    simp only [step, count]
    rw [InterQueue.contents_enAll inv.wellFormed, inv.capacity]
  refine ⟨?_, inv.same, inv.wellFormed.enAll _, ?_, ?_, ?_⟩
  · simp only [step]
    rw [InterQueue.map_enAll, inv.erased, List.map_map, queued]
    simp only [Function.comp_def, List.map_id']
  · simp only [step]
    rw [InterQueue.maxCount_enAll, inv.bound]
  · intro x mem
    rw [contents] at mem
    rcases List.mem_append.mp mem with gone | waiting
    · exact Nat.lt_succ_of_lt (inv.fresh x (List.mem_append_left _ gone))
    · rcases mem_pushAll waiting with old | new
      · exact Nat.lt_succ_of_lt (inv.fresh x (List.mem_append_right _ old))
      · obtain ⟨m, -, rfl⟩ := List.mem_map.mp new
        exact Nat.lt_succ_self _
  · rw [contents]
    exact inv.steered_batch batch

theorem Inv.turn (inv : Inv s) (reply : Option (Int × Vector UInt8 8)) :
    Inv (step k s (.turn reply)) := by
  have count : s.world.dcq.queueCount = s.tagged.queueCount := by rw [← inv.erased]; rfl
  cases live : s.tagged.contents with
  | nil =>
      have empty : s.tagged.queueCount ≤ 0 := InterQueue.contents_eq_nil_iff.mp live
      have idle : step k s (.turn reply) = s := by
        simp only [step, canThread_of_empty SCM.zero reply (by rwa [count]),
          getAndDelQueueinter_of_empty _ empty, if_neg (not_lt.mpr empty), Option.toList_none,
          List.append_nil]
      rw [idle]
      exact inv
  | cons x l =>
      obtain ⟨-, head, wf, rest, bound⟩ := InterQueue.getAndDelQueueinter_of_cons inv.wellFormed
        (SCM.zero, setupTag) live
      have some : 0 < s.tagged.queueCount := by
        rw [inv.queueCount_eq, live]
        exact Int.natCast_pos.mpr (Nat.succ_pos _)
      obtain ⟨frame, dcq⟩ := canThread_of_pos SCM.zero reply (by rwa [count])
      have erased := InterQueue.map_getAndDelQueueinter Prod.fst (SCM.zero, setupTag) s.tagged
      rw [inv.erased] at erased
      have border : (step k s (.turn reply)).delivered ++ (step k s (.turn reply)).tagged.contents =
          s.delivered ++ s.tagged.contents := by
        simp only [step, if_pos some, head, rest, live, List.append_assoc, List.singleton_append]
      refine ⟨?_, ?_, wf, bound.trans inv.bound, ?_, ?_⟩
      · simp only [step, dcq, erased]
      · simp only [step, if_pos some, frame, erased, List.map_append, inv.same,
          List.map_singleton, Option.toList_some]
      · rw [border]
        exact inv.fresh
      · rw [border]
        exact inv.steered

end Steps

/-! ## The initialisation -/

/-- The frames `InitDriverCmdQueue` leaves in DCQ. -/
def setupFrames : List SCM :=
  [⟨FRONT_ID, setTVelocityFram POS_MAX_SPEED, 8⟩, ⟨LEFT_ID, setTVelocityFram POS_MAX_SPEED, 8⟩,
    ⟨RIGHT_ID, setTVelocityFram POS_MAX_SPEED, 8⟩, ⟨FRONT_ID, enableFram, 8⟩,
    ⟨LEFT_ID, enableFram, 8⟩, ⟨RIGHT_ID, enableFram, 8⟩]

/-- The frames `InitDriver` adds. -/
def driverFrames : List SCM :=
  [0x604, 0x605, 0x606].flatMap fun ID =>
    [⟨ID, setTVelocityFram POS_MAX_SPEED, 8⟩, ⟨ID, enableFram, 8⟩, ⟨ID, getStautsFram, 8⟩]

def startFrames (driver : Bool) : List SCM :=
  if driver then setupFrames ++ driverFrames else setupFrames

/-- The ring before the first frame. -/
def emptyRing : InterQueue (Int → SCM) := ⟨0, 0, 0, fun _ => SCM.zero, QUEUEMAXCOUNT⟩

theorem dcq_enDriverCmdQueue (ID : Int) (data : Vector UInt8 8) (len : UInt8) (w : World) :
    (enDriverCmdQueue ID data len w).2.dcq = (enQueueinter ⟨ID, data, len⟩ w.dcq).2 := rfl

theorem dcq_initDriverCmdQueue (w : World) :
    (initDriverCmdQueue w).dcq = enAll emptyRing setupFrames := by
  simp only [initDriverCmdQueue, dcq_enDriverCmdQueue, enAll, setupFrames, List.foldl_cons,
    List.foldl_nil]
  rfl

theorem dcq_initDriver (w : World) : (initDriver w).dcq = enAll w.dcq driverFrames := by
  simp only [initDriver, initDriverTurn, List.foldl_cons, List.foldl_nil, dcq_enDriverCmdQueue,
    enAll, driverFrames, List.flatMap_cons, List.flatMap_nil, List.append_nil, List.cons_append,
    List.nil_append]
  rfl

theorem start_dcq (driver : Bool) :
    (start driver).world.dcq = enAll emptyRing (startFrames driver) := by
  cases driver with
  | false => exact dcq_initDriverCmdQueue .powerUp
  | true =>
      show (initDriver (initDriverCmdQueue .powerUp)).dcq =
        enAll emptyRing (setupFrames ++ driverFrames)
      rw [dcq_initDriver, dcq_initDriverCmdQueue]
      exact List.foldl_append.symm

theorem emptyRing_wellFormed : emptyRing.WellFormed :=
  InterQueue.wellFormed_initQueueinter (Q := emptyRing) (by decide)

theorem contents_emptyRing : emptyRing.contents = [] :=
  InterQueue.contents_eq_nil_iff.mpr (le_refl _)

theorem contents_start (driver : Bool) :
    (enAll emptyRing (startFrames driver)).contents = startFrames driver := by
  rw [InterQueue.contents_enAll emptyRing_wellFormed]
  rw [contents_emptyRing, pushAll_of_room, List.nil_append]
  cases driver <;> decide

/-- None of them drives a wheel. -/
theorem isMotion_startFrames (driver : Bool) :
    ∀ m ∈ startFrames driver, m.isMotion = false := by
  cases driver <;> decide

theorem inv_start (driver : Bool) : Inv (start driver) := by
  have dcq := start_dcq driver
  have wf : (start driver).world.dcq.WellFormed := by
    rw [dcq]
    exact emptyRing_wellFormed.enAll _
  have waiting : (start driver).tagged.contents =
      (startFrames driver).map fun m => (m, setupTag) := by
    show (InterQueue.map _ (start driver).world.dcq).contents = _
    rw [InterQueue.contents_map, dcq, contents_start]
  have ring : (start driver).tagged.WellFormed :=
    InterQueue.wellFormed_map (f := fun m => (m, setupTag)) wf
  refine ⟨rfl, rfl, ring, ?_, ?_, ?_⟩
  · show (start driver).world.dcq.maxCount = QUEUEMAXCOUNT
    rw [dcq, InterQueue.maxCount_enAll]
    rfl
  · intro x mem
    rw [waiting] at mem
    obtain ⟨m, -, rfl⟩ := List.mem_map.mp mem
    exact Nat.one_pos
  · rw [waiting]
    exact along_feedback _ (isMotion_startFrames driver)

/-! ## Runs -/

section Main

variable (k : Kinematics)

theorem Inv.foldl {s : Rig} (inv : Inv s) (acts : List Act) : Inv (acts.foldl (step k) s) := by
  induction acts generalizing s with
  | nil => exact inv
  | cons a acts ih =>
      cases a with
      | call c => exact ih (inv.call c)
      | turn reply => exact ih (inv.turn reply)

theorem inv_run (driver : Bool) (acts : List Act) : Inv (run k driver acts) :=
  (inv_start driver).foldl k acts

/-- In every run, a wheel frame that `can_thread` takes out comes after the FRONT frame of its
command exactly when DCQ held neither 38 nor 39 frames as the command began. -/
theorem steered_iff (driver : Bool) (acts : List Act) :
    (run k driver acts).delivered.map Prod.fst = (run k driver acts).sent ∧
      ∀ before x after, (run k driver acts).delivered = before ++ x :: after →
        SteeredIffWhole before x := by
  have inv := inv_run k driver acts
  exact ⟨inv.same, (along_iff _).mp ((along_append _ _).mp inv.steered).1⟩

end Main

/-- Eleven feedback requests leave 39 frames waiting; the motion command that follows loses
its FRONT frame, and the next frame on the bus drives the left wheel. -/
def cutRun : List Act :=
  List.replicate 11 (.call (.motionFeedback STM.zero 0)) ++
    [.call (.motionCmd (fun _ => 0) 4), .turn none]

theorem cutRun_unsteered :
    ¬ ∀ (k : Kinematics) (driver : Bool) (acts : List Act),
      ∀ before x after, (run k driver acts).delivered = before ++ x :: after →
        SteeredBefore before x := by
  intro stated
  have wheel : (run .still false cutRun).delivered =
      [] ++ (⟨LEFT_ID, setVelocityFram 0, 8⟩, ⟨12, 39⟩) :: [] := by decide +kernel
  obtain ⟨m, none, -⟩ :=
    stated .still false cutRun [] _ [] wheel (isSetVelocity_setVelocityFram LEFT_ID 0)
  cases none

end Stm32Robot.Can
