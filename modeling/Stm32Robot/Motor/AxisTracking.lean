/-
# Motor.AxisTracking -- which drive a reply is credited to

`FeedbackMessge` sees the replies of three drives that answer the same objects.  `lastRead` is
the value of the last read reply of one object from one drive, and `lastReads` puts the three
that matter together: the state of the drives as the traffic tells it.

The wheel velocities follow it always, since `setCruVelocity` looks at the identifier.
`setCruPosition` does not: a reply from any other drive to a position query is taken for the
steering angle.  `tracked_iff` says which traffic the state follows: that in which every such
reply repeats what the steering drive said last.
-/
import Mathlib.Data.List.Induction
import Stm32Robot.Motor.Driver
import Stm32Robot.Theory.History

namespace Stm32Robot.Motor.Driver

open Stm32Robot.Theory.History

set_option autoImplicit false

/-- The identifier of a reply from the steering drive, node `FRONT_ID`. -/
def ID_FRONT : Int := 0x583

/-- A frame received from the bus. -/
structure CanRxMsg where
  stdId : Int
  data : Vector UInt8 8

namespace CanRxMsg

/-- A read reply for an object. -/
def Reads (m : CanRxMsg) (object : KincoCmd) : Prop :=
  (framSize m.data = RBYTE1 ∨ framSize m.data = RBYTE2 ∨ framSize m.data = RBYTE4) ∧
    framCmd m.data = object.code.toNat

instance (m : CanRxMsg) (object : KincoCmd) : Decidable (m.Reads object) :=
  inferInstanceAs (Decidable ((_ ∨ _ ∨ _) ∧ _))

/-- A read reply that tells something about an axis. -/
def Counts (m : CanRxMsg) : Prop :=
  (m.stdId = ID_FRONT ∧ m.Reads .getCruPos) ∨
    ((m.stdId = ID_LEFT ∨ m.stdId = ID_RIGHT) ∧ m.Reads .getVelocity)

end CanRxMsg

/-! ## The state as the traffic tells it -/

/-- The value of the last read reply of an object from one drive, 0 before the first. -/
def lastRead (ID : Int) (object : KincoCmd) (past : List CanRxMsg) : Int :=
  ((past.filter fun m => m.stdId = ID ∧ m.Reads object).getLast?.map fun m => framMsg m.data).getD 0

def lastReads (past : List CanRxMsg) : Cru :=
  ⟨lastRead ID_FRONT .getCruPos past, lastRead ID_LEFT .getVelocity past,
    lastRead ID_RIGHT .getVelocity past⟩

/-- The state after the frames received since reset. -/
def cruAfter (past : List CanRxMsg) : Cru :=
  past.foldl (fun c m => feedbackMessge m.stdId m.data c) ⟨0, 0, 0⟩

/-- After the frame the state is as the traffic tells it, and a frame that tells nothing has
left it alone. -/
def Tracked (past : List CanRxMsg) (m : CanRxMsg) : Prop :=
  cruAfter (past ++ [m]) = lastReads (past ++ [m]) ∧
    (¬ m.Counts → cruAfter (past ++ [m]) = cruAfter past)

/-- A position reply that is not the steering drive's repeats its last one. -/
def Consistent (past : List CanRxMsg) (m : CanRxMsg) : Prop :=
  m.stdId ≠ ID_FRONT → m.Reads .getCruPos → framMsg m.data = lastRead ID_FRONT .getCruPos past

section Frames

variable (past : List CanRxMsg) (m : CanRxMsg)

theorem lastRead_concat (ID : Int) (object : KincoCmd) :
    lastRead ID object (past ++ [m]) =
      if m.stdId = ID ∧ m.Reads object then framMsg m.data else lastRead ID object past := by
  unfold lastRead
  split_ifs with reply <;> simp [List.filter_append, reply]

theorem cruAfter_concat :
    cruAfter (past ++ [m]) = feedbackMessge m.stdId m.data (cruAfter past) := by
  simp [cruAfter, List.foldl_append]

/-- A read reply is no acknowledgement. -/
theorem framSize_of_reads {m : CanRxMsg} {object : KincoCmd} (reads : m.Reads object) :
    framSize m.data ≠ 0x60 := by
  rcases reads.1 with header | header | header <;> rw [header] <;> decide

/-- A reply reads one object. -/
theorem not_reads_velocity {m : CanRxMsg} (position : m.Reads .getCruPos) :
    ¬ m.Reads .getVelocity := by
  rintro ⟨-, velocity⟩
  rw [position.2] at velocity
  exact absurd velocity (by decide)

theorem feedbackMessge_of_position {m : CanRxMsg} (c : Cru) (position : m.Reads .getCruPos) :
    feedbackMessge m.stdId m.data c = { c with cruPosition := framMsg m.data } := by
  simp only [feedbackMessge, if_neg (framSize_of_reads position), if_pos position.1,
    if_pos position.2, setCruPosition]

theorem feedbackMessge_of_velocity {m : CanRxMsg} (c : Cru) (velocity : m.Reads .getVelocity) :
    feedbackMessge m.stdId m.data c = setCruVelocity (framMsg m.data) m.stdId c := by
  have position : framCmd m.data ≠ KincoCmd.getCruPos.code.toNat := fun same =>
    not_reads_velocity ⟨velocity.1, same⟩ velocity
  simp only [feedbackMessge, if_neg (framSize_of_reads velocity), if_pos velocity.1,
    if_neg position, if_pos velocity.2]

theorem feedbackMessge_of_other {m : CanRxMsg} (c : Cru) (position : ¬ m.Reads .getCruPos)
    (velocity : ¬ m.Reads .getVelocity) : feedbackMessge m.stdId m.data c = c := by
  simp only [feedbackMessge]
  split_ifs with ack header object object
  · rfl
  · exact absurd ⟨header, object⟩ position
  · exact absurd ⟨header, object⟩ velocity
  · rfl
  · rfl

/-- What a frame does to the three variables. -/
theorem feedbackMessge_eq (m : CanRxMsg) (c : Cru) :
    feedbackMessge m.stdId m.data c =
      ⟨if m.Reads .getCruPos then framMsg m.data else c.cruPosition,
        if m.stdId = ID_LEFT ∧ m.Reads .getVelocity then framMsg m.data else c.cruLeftVelocity,
        if m.stdId = ID_RIGHT ∧ m.Reads .getVelocity then framMsg m.data
        else c.cruRightVelocity⟩ := by
  by_cases position : m.Reads .getCruPos
  · rw [feedbackMessge_of_position c position]
    simp [position, not_reads_velocity position]
  · by_cases velocity : m.Reads .getVelocity
    · rw [feedbackMessge_of_velocity c velocity, setCruVelocity]
      by_cases left : m.stdId = ID_LEFT
      · simp [position, velocity, left, ID_LEFT, ID_RIGHT]
      · by_cases right : m.stdId = ID_RIGHT
        · simp [position, velocity, right, ID_LEFT, ID_RIGHT]
        · simp [position, left, right]
    · rw [feedbackMessge_of_other c position velocity]
      simp [position, velocity]

end Frames

/-! ## The wheels -/

/-- Each wheel velocity is the last one its own drive reported. -/
theorem wheels_tracked (past : List CanRxMsg) :
    (cruAfter past).cruLeftVelocity = lastRead ID_LEFT .getVelocity past ∧
      (cruAfter past).cruRightVelocity = lastRead ID_RIGHT .getVelocity past := by
  induction past using List.reverseRecOn with
  | nil => exact ⟨rfl, rfl⟩
  | append_singleton past m ih =>
      rw [cruAfter_concat, feedbackMessge_eq, lastRead_concat, lastRead_concat, ih.1, ih.2]
      exact ⟨rfl, rfl⟩

/-! ## The steering angle -/

/-- Where the state is as the traffic tells it, it stays so over a frame exactly when the
frame is consistent. -/
theorem tracked_iff_consistent {past : List CanRxMsg} {m : CanRxMsg}
    (invariant : cruAfter past = lastReads past) : Tracked past m ↔ Consistent past m := by
  unfold Tracked Consistent
  rw [cruAfter_concat, invariant, feedbackMessge_eq]
  simp only [lastReads, lastRead_concat, Cru.mk.injEq, and_true]
  by_cases front : m.stdId = ID_FRONT
  · by_cases position : m.Reads .getCruPos
    · simp [CanRxMsg.Counts, front, position]
    · simp [front, position, ID_FRONT, ID_LEFT, ID_RIGHT]
  · by_cases position : m.Reads .getCruPos
    · simp only [front, position, not_reads_velocity position, if_true, if_false, and_true,
        and_false, and_self, ne_eq, not_false_eq_true, forall_const, and_iff_left_iff_imp]
      intro repeated _
      exact repeated
    · simp only [CanRxMsg.Counts, front, position, false_and, false_or, if_false, true_and,
        false_implies, implies_true, iff_true]
      intro other
      refine ⟨if_neg fun left => other ⟨.inl left.1, left.2⟩, ?_⟩
      exact if_neg fun right => other ⟨.inr right.1, right.2⟩

/-- The state follows the traffic at every frame exactly when every position reply that is not
the steering drive's repeats the steering drive's last one. -/
theorem tracked_iff (frames : List CanRxMsg) :
    Along Tracked [] frames ↔ Along Consistent [] frames := by
  refine along_congr (I := fun past => cruAfter past = lastReads past) ?_ ?_ rfl frames
  · intro past m invariant
    exact tracked_iff_consistent invariant
  · intro past m invariant consistent
    exact ((tracked_iff_consistent invariant).mpr consistent).1

/-- A position reply of the left drive is taken for the steering angle. -/
theorem leftPosition_taken :
    ¬ ∀ frames : List CanRxMsg, Along Tracked [] frames := by
  intro stated
  have credited := (stated [⟨ID_LEFT, #v[RBYTE4, 0x63, 0x60, 0, 1, 0, 0, 0]⟩]).1.1
  exact absurd (congrArg Cru.cruPosition credited) (by decide)

end Stm32Robot.Motor.Driver
