/-
# Motor.ClosedLoop -- the speeds commanded and the speeds reported

The wheel speeds of a command and the two velocities of a feedback message are written down
as four formulas.  `getCurVelocity_of_reports` and `getCurAngleVel_of_reports` put them
together: wheels that turn as they were told give the speed along the robot's axis and the
rate of turn back.  For a motion command the rate of turn is then the one commanded
(`loop_closes`).
-/
import Stm32Robot.Motor.ExactKinematics
import Stm32Robot.Motor.MessageEffect

namespace Stm32Robot.Motor.ExactKinematics

open Real
open Stm32Robot.Theory.Bytes
open Stm32Robot.Motor.ConvertData
open Stm32Robot.Motor.Message (motionSpeed motionAngleVel PI)

set_option autoImplicit false

/-- The wheels report exactly the speeds commanded for `v`, and `getVelocity` is their exact
half difference. -/
def Reports (atCommand : Drives) (v : ℝ) (atReport : Drives) : Prop :=
  atReport.velocity =
    (getExpLeftVelocity atCommand v - getExpRightVelocity atCommand v) / (2 : ℚ)

section Loop

variable {atCommand atReport : Drives} {v : ℝ}

theorem vRatioa_pos : (0 : ℝ) < vRatioa := by norm_num [vRatioa, PI]

/-- The differential parts of the wheel speeds cancel. -/
theorem getCurVelocity_of_reports (reports : Reports atCommand v atReport) :
    getCurVelocity atReport = v * cos (getCurAngle atCommand) := by
  have ratio := vRatioa_pos.ne'
  rw [getCurVelocity, reports, getExpLeftVelocity, getExpRightVelocity, div_eq_iff ratio]
  push_cast
  ring

theorem getCurAngleVel_of_reports (small : |getCurAngle atCommand| ≤ 0.279)
    (same : getCurAngle atReport = getCurAngle atCommand)
    (reports : Reports atCommand v atReport) :
    getCurAngleVel atReport = v * sin (getCurAngle atCommand) / Length := by
  obtain ⟨lo, hi⟩ := abs_le.mp small
  have upright : cos (getCurAngle atCommand) ≠ 0 :=
    (cos_pos_of_mem_Ioo ⟨by linarith [pi_gt_three], by linarith [pi_gt_three]⟩).ne'
  rw [getCurAngleVel, getCurVelocity_of_reports reports, same, mul_assoc, mul_comm (cos _),
    tan_mul_cos upright]

/-- At the steering angle of a command the rate of turn is the one commanded. -/
theorem getCurAngleVel_of_command {w : ℝ} (moving : v ≠ 0)
    (small : |arcsin (w * Length / v)| ≤ 0.279)
    (commanded : getCurAngle atCommand = arcsin (w * Length / v))
    (reached : getCurAngle atReport = arcsin (w * Length / v))
    (reports : Reports atCommand v atReport) : getCurAngleVel atReport = w := by
  obtain ⟨lo, hi⟩ := abs_le.mp small
  have pi_lower := pi_gt_three
  have above : -1 ≤ w * Length / v :=
    (neg_pi_div_two_lt_arcsin.mp (by linarith)).le
  have below : w * Length / v ≤ 1 := (arcsin_lt_pi_div_two.mp (by linarith)).le
  have length : (Length : ℝ) ≠ 0 := by norm_num [Length]
  rw [getCurAngleVel_of_reports (by rwa [commanded]) (reached.trans commanded.symm) reports,
    commanded, sin_arcsin above below]
  field_simp

end Loop

/-! ## Motion commands -/

section Command

variable (data : Nat → UInt8)

/-- A speed that is not zero is beyond the guard of `getExpPosition`. -/
theorem one_le_abs_motionSpeed (moving : motionSpeed data ≠ 0) : 1 ≤ |motionSpeed data| := by
  simp only [motionSpeed] at moving ⊢
  split_ifs at moving ⊢ with fast back
  · norm_num
  · norm_num
  · have whole : (hexbyte2short fun i => data (2 + i)).toInt ≠ 0 := by exact_mod_cast moving
    exact_mod_cast Int.one_le_abs whole

/-- The target of a motion command is the position of its steering angle. -/
theorem getExpPosition_of_moving (moving : motionSpeed data ≠ 0) :
    getExpPosition (motionAngleVel data) (motionSpeed data) =
      angle2Position (arcsin (motionAngleVel data * Length / motionSpeed data)) := by
  have fast : (1 : ℝ) ≤ |(motionSpeed data : ℝ)| := by
    exact_mod_cast one_le_abs_motionSpeed data moving
  rw [getExpPosition, if_neg (by linarith)]

end Command

/-- For every speed and every steering angle inside the clamp, wheels that turn as commanded
give `v cos d` and `v sin d / Length` back.  For every motion command whose steering angle is
inside the clamp, the target position is the one of that angle, and once the steering has
reached it the rate of turn reported is the one commanded. -/
theorem loop_closes :
    (∀ (v : ℝ) (atCommand atReport : Drives), |getCurAngle atCommand| ≤ 0.279 →
      getCurAngle atReport = getCurAngle atCommand → Reports atCommand v atReport →
        getCurVelocity atReport = v * cos (getCurAngle atCommand) ∧
          getCurAngleVel atReport = v * sin (getCurAngle atCommand) / Length) ∧
    ∀ data : Nat → UInt8, motionSpeed data ≠ 0 →
      |arcsin (motionAngleVel data * Length / motionSpeed data)| ≤ 0.279 →
        (∀ s : Drives, s.position = getExpPosition (motionAngleVel data) (motionSpeed data) →
          getCurAngle s = arcsin (motionAngleVel data * Length / motionSpeed data)) ∧
        ∀ atCommand atReport : Drives,
          getCurAngle atCommand = arcsin (motionAngleVel data * Length / motionSpeed data) →
          getCurAngle atReport = arcsin (motionAngleVel data * Length / motionSpeed data) →
          Reports atCommand (motionSpeed data) atReport →
            getCurAngleVel atReport = motionAngleVel data := by
  refine ⟨?_, ?_⟩
  · intro v atCommand atReport small same reports
    exact ⟨getCurVelocity_of_reports reports, getCurAngleVel_of_reports small same reports⟩
  · intro data moving small
    refine ⟨?_, ?_⟩
    · intro s reached
      rw [getExpPosition_of_moving data moving] at reached
      exact getCurAngle_angle2Position small reached
    · intro atCommand atReport commanded reached reports
      exact getCurAngleVel_of_command (by exact_mod_cast moving) small commanded reached reports

/-- A tenth of a radian a second at half a metre a second. -/
def gentleTurn : Nat → UInt8 := ofList [0x03, 0xE8, 0x01, 0xF4]

theorem motionSpeed_gentleTurn : motionSpeed gentleTurn = 500 := by decide +kernel

theorem motionAngleVel_gentleTurn : motionAngleVel gentleTurn = 1 / 10 := by decide +kernel

/-- Its steering angle is inside the clamp. -/
theorem abs_arcsin_gentleTurn :
    |arcsin (motionAngleVel gentleTurn * Length / motionSpeed gentleTurn)| ≤ 0.279 := by
  have quotient : (motionAngleVel gentleTurn * Length / motionSpeed gentleTurn : ℝ) = 0.1112 := by
    rw [motionAngleVel_gentleTurn, motionSpeed_gentleTurn]
    norm_num [Length]
  rw [quotient, abs_of_nonneg (arcsin_nonneg.mpr (by norm_num))]
  apply arcsin_le_iff_le_sin' ⟨by linarith [pi_gt_three], by linarith [pi_gt_three]⟩ |>.mpr
  have chord := mul_le_sin (x := 0.279) (by norm_num) (by linarith [pi_gt_three])
  have slope : 0.5 ≤ 2 / π := by
    rw [le_div_iff₀ pi_pos]
    linarith [pi_le_four]
  nlinarith

theorem loop_closes_gentleTurn :
    ∃ atCommand atReport : Drives, Reports atCommand (motionSpeed gentleTurn) atReport ∧
      getCurAngleVel atReport = motionAngleVel gentleTurn := by
  have moving : motionSpeed gentleTurn ≠ 0 := by rw [motionSpeed_gentleTurn]; norm_num
  obtain ⟨standing, reported⟩ := loop_closes.2 gentleTurn moving abs_arcsin_gentleTurn
  let position := getExpPosition (motionAngleVel gentleTurn) (motionSpeed gentleTurn)
  let atCommand : Drives := ⟨position, 0⟩
  let atReport : Drives := ⟨position, (getExpLeftVelocity atCommand (motionSpeed gentleTurn) -
    getExpRightVelocity atCommand (motionSpeed gentleTurn)) / (2 : ℚ)⟩
  have turned := reported atCommand atReport (standing _ rfl) (standing _ rfl) rfl
  exact ⟨atCommand, atReport, rfl, turned⟩

end Stm32Robot.Motor.ExactKinematics
