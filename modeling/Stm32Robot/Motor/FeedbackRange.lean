/-
# Motor.FeedbackRange -- the velocities in a feedback message

`MotionFeedbackHandle` casts the speed and, in steps of `wRatio`, the rate of turn to `short`.
Wheels that turn as commanded for a speed `v` report it back to within one and a half units
(`abs_reported_sub_le`), so the two fields grow with `v`: the speed field by about `v cos d`,
the other by about 18 `v sin d`.

`MotionCmdHandle` clamps `v` to 1000, far from the end of a `short`; `AngleMotionCmdHandle`
does not clamp.  `feedback_fits_iff` finds the last raw speed, 3307, at which both quantities stay
in the range of a `short` at every steering angle inside the clamp.  It takes the tangent of the
clamp to seven digits, from that of its quarter.

The cast truncates first: at 3308 the rate of turn field is 32767.19 and still becomes 32767, and
from 3309 on it wraps (`exists_wraps`).
-/
import Stm32Robot.Motor.VelocityEcho
import Stm32Robot.Theory.Doubling

namespace Stm32Robot.Motor.ExactKinematics

open Real
open Stm32Robot.Theory.Bytes
open Stm32Robot.Theory.Doubling
open Stm32Robot.Motor.ConvertData
open Stm32Robot.Motor.Driver
open Stm32Robot.Motor.Message

set_option autoImplicit false

/-! ## The two fields -/

/-- The drives after they have reported exactly the wheel speeds commanded for `v` in the state
`s`, with the steering where it was. -/
noncomputable def reported (s : Drives) (v : ℝ) : Drives where
  position := s.position
  velocity := getVelocity ⟨0, truncate (getExpLeftVelocity s v) * DEC,
    truncate (getExpRightVelocity s v) * DEC⟩

/-- In the range of a `short`, as a real number. -/
def InShort (x : ℝ) : Prop := (-32768 : Int) ≤ x ∧ x ≤ (32767 : Int)

/-- The two quantities that `MotionFeedbackHandle` casts are in the range of a `short`.  Then
neither cast wraps; one that is beyond the range by less than one does not wrap either. -/
def FieldsFit (s : Drives) (v : ℝ) : Prop :=
  InShort (getCurVelocity (reported s v)) ∧ InShort (getCurAngleVel (reported s v) / wRatio)

section Fields

variable (s : Drives) (v : ℝ)

/-- Halving truncates by at most a half. -/
theorem abs_tdiv_two_sub_le (n : Int) : |((n.tdiv 2 : Int) : ℝ) - n / 2| ≤ 0.5 := by
  have twice : 2 * n.tdiv 2 - n ≤ 1 ∧ -1 ≤ 2 * n.tdiv 2 - n := by
    have split := Int.mul_tdiv_add_tmod n 2
    have small := Int.tmod_lt_of_pos n (by decide : (0 : Int) < 2)
    have large := Int.lt_tmod_of_pos n (by decide : (0 : Int) < 2)
    omega
  have above : (2 * (n.tdiv 2 : Int) - n : ℝ) ≤ 1 := by exact_mod_cast twice.1
  have below : (-1 : ℝ) ≤ 2 * (n.tdiv 2 : Int) - n := by exact_mod_cast twice.2
  rw [abs_le]
  constructor <;> linarith

/-- Two wheel speeds truncated, and half their difference truncated. -/
theorem abs_reported_sub_le :
    |(reported s v).velocity - v * vRatioa * cos (getCurAngle s)| ≤ 1.5 := by
  obtain ⟨leftLow, leftHigh⟩ := abs_le.mp (abs_truncate_sub_le (getExpLeftVelocity s v))
  obtain ⟨rightLow, rightHigh⟩ := abs_le.mp (abs_truncate_sub_le (getExpRightVelocity s v))
  obtain ⟨halfLow, halfHigh⟩ := abs_le.mp (abs_tdiv_two_sub_le
    (truncate (getExpLeftVelocity s v) - truncate (getExpRightVelocity s v)))
  have axis : (getExpLeftVelocity s v - getExpRightVelocity s v) / 2 =
      v * vRatioa * cos (getCurAngle s) := by
    rw [getExpLeftVelocity, getExpRightVelocity]
    ring
  rw [reported, getVelocity_of_multiples, ← axis, abs_le]
  push_cast at halfLow halfHigh ⊢
  constructor <;> linarith

theorem getCurVelocity_reported :
    getCurVelocity (reported s v) = (reported s v).velocity / vRatioa := rfl

/-- The rate of turn field. -/
theorem getCurAngleVel_reported :
    getCurAngleVel (reported s v) / wRatio =
      (reported s v).velocity * tan (getCurAngle s) / vRatioa * (10000 / 556) := by
  have same : getCurAngle (reported s v) = getCurAngle s := rfl
  rw [getCurAngleVel, getCurVelocity_reported, same]
  norm_num [wRatio, Length]
  ring

/-- The speed along the robot's axis, in front of an upright wheel. -/
theorem abs_axis (upright : 0 < cos (getCurAngle s)) :
    |v * vRatioa * cos (getCurAngle s)| = |v| * vRatioa * cos (getCurAngle s) := by
  rw [abs_mul, abs_mul, abs_of_pos vRatioa_pos, abs_of_pos upright]

end Fields

/-! ## Speeds that fit -/

/-- Inside the clamp. -/
theorem abs_sin_le_of_small {d : ℝ} (small : |d| ≤ 0.279) :
    |sin d| ≤ 0.2754 ∧ 0.96 ≤ cos d := by
  obtain ⟨lo, hi⟩ := abs_le.mp small
  have half := pi_gt_three
  have series := (abs_le.mp (sin_bound (x := 0.279) (by rw [abs_of_pos] <;> norm_num))).2
  have size : |(0.279 : ℝ)| = 0.279 := abs_of_pos (by norm_num)
  have most : sin 0.279 ≤ 0.2754 := by
    rw [size] at series
    norm_num at *
    linarith
  have above : sin d ≤ sin 0.279 :=
    sin_le_sin_of_le_of_le_pi_div_two (by linarith) (by linarith) hi
  have below : sin (-0.279) ≤ sin d :=
    sin_le_sin_of_le_of_le_pi_div_two (by linarith) (by linarith) lo
  rw [sin_neg] at below
  refine ⟨abs_le.mpr ⟨by linarith, by linarith⟩, ?_⟩
  have cosine := one_sub_sq_div_two_le_cos (x := d)
  nlinarith

theorem inShort_of_abs_le {x : ℝ} (bound : |x| ≤ 32767) : InShort x := by
  obtain ⟨below, above⟩ := abs_le.mp bound
  constructor
  · push_cast
    linarith
  · push_cast
    exact above

theorem abs_reported_le {s : Drives} {v : ℝ} (upright : 0 < cos (getCurAngle s)) :
    |(reported s v).velocity| ≤ |v| * vRatioa * cos (getCurAngle s) + 1.5 := by
  have near := abs_reported_sub_le s v
  have triangle :=
    abs_sub_abs_le_abs_sub (reported s v).velocity (v * vRatioa * cos (getCurAngle s))
  rw [abs_axis s v upright] at triangle
  linarith

/-- Times the tangent of the angle the cosine becomes the sine. -/
theorem abs_turn_le {s : Drives} {v top : ℝ} (small : |getCurAngle s| ≤ 0.279)
    (slow : |v| ≤ top) :
    |(reported s v).velocity * tan (getCurAngle s)| ≤ top * 0.2754 * vRatioa + 0.4305 := by
  obtain ⟨sine, cosine⟩ := abs_sin_le_of_small small
  set d := getCurAngle s
  have upright : 0 < cos d := by linarith
  have tangent : |tan d| * cos d = |sin d| := by
    have unsigned := congrArg abs (tan_mul_cos upright.ne')
    rwa [abs_mul, abs_of_pos upright] at unsigned
  have tangent_le : |tan d| ≤ 0.287 := by
    by_contra large
    nlinarith [abs_nonneg (tan d)]
  have positive := vRatioa_pos
  rw [abs_mul]
  calc |(reported s v).velocity| * |tan d|
      ≤ (|v| * vRatioa * cos d + 1.5) * |tan d| := by
        gcongr
        exact abs_reported_le upright
    _ = |v| * |sin d| * vRatioa + 1.5 * |tan d| := by rw [← tangent]; ring
    _ ≤ top * 0.2754 * vRatioa + 1.5 * 0.287 := by
        have least := (abs_nonneg v).trans slow
        gcongr
    _ = top * 0.2754 * vRatioa + 0.4305 := by norm_num

theorem fieldsFit_of_slow {s : Drives} (small : |getCurAngle s| ≤ 0.279) {v : ℝ}
    (slow : |v| ≤ 6614) : FieldsFit s v := by
  obtain ⟨-, cosine⟩ := abs_sin_le_of_small small
  have ratio : (1.9098 : ℝ) ≤ vRatioa ∧ (vRatioa : ℝ) ≤ 1.9099 := by
    constructor <;> norm_num [vRatioa, PI]
  have positive := vRatioa_pos
  have upright : 0 < cos (getCurAngle s) := by linarith
  have size := abs_reported_le (v := v) upright
  have cosine_le := cos_le_one (getCurAngle s)
  refine ⟨inShort_of_abs_le ?_, inShort_of_abs_le ?_⟩
  · rw [getCurVelocity_reported, abs_div, abs_of_pos positive, div_le_iff₀ positive]
    have whole : |v| * vRatioa * cos (getCurAngle s) ≤ 6614 * vRatioa * 1 := by gcongr
    linarith
  · have turn := abs_turn_le small slow
    have bound : |(reported s v).velocity * tan (getCurAngle s)| ≤ 32767 * 0.0556 * vRatioa := by
      linarith
    rw [getCurAngleVel_reported, abs_mul, abs_div, abs_of_pos positive,
      abs_of_pos (by norm_num : (0 : ℝ) < 10000 / 556), ← le_div_iff₀ (by norm_num),
      div_le_iff₀ positive]
    linarith

/-! ## Speeds that do not -/

theorem le_tan_quarter : 0.069863302 ≤ tan 0.06975 ∧ tan 0.06975 < 1 := by
  have half := pi_gt_three
  have size : |(0.06975 : ℝ)| = 0.06975 := abs_of_pos (by norm_num)
  have sine := sin_gt_sub_cube (x := 0.06975) (by norm_num)
  have cosine := (abs_le.mp (cos_bound (x := 0.06975) (by rw [size]; norm_num))).2
  have upright : 0 < cos 0.06975 := cos_pos_of_mem_Ioo ⟨by linarith, by linarith⟩
  have least := one_sub_sq_div_two_le_cos (x := 0.06975)
  have sine_le := sin_lt (x := 0.06975) (by norm_num)
  rw [size] at cosine
  rw [tan_eq_sin_div_cos, le_div_iff₀ upright, div_lt_one upright]
  norm_num at *
  constructor <;> linarith

/-- The tangent of the clamp, from that of its quarter. -/
theorem le_tan_clamp : 0.2864717 ≤ tan 0.279 := by
  obtain ⟨quarter, flat⟩ := le_tan_quarter
  have half : 0.14041193 ≤ tan (2 * 0.06975) :=
    le_tan_two_mul (by norm_num) quarter flat (by norm_num)
  have flatHalf : tan (2 * 0.06975) < 1 := by
    rw [← tan_pi_div_four]
    have := pi_gt_three
    exact tan_lt_tan_of_nonneg_of_lt_pi_div_two (by norm_num) (by linarith) (by linarith)
  have whole := le_tan_two_mul (u := 0.2864717) (by norm_num) half flatHalf (by norm_num)
  norm_num at whole ⊢
  exact whole

theorem le_cos_clamp : 0.9613 ≤ cos 0.279 := by
  have size : |(0.1395 : ℝ)| = 0.1395 := abs_of_pos (by norm_num)
  have series := (abs_le.mp (sin_bound (x := 0.1395) (by rw [size]; norm_num))).2
  have positive := sin_gt_sub_cube (x := 0.1395) (by norm_num)
  rw [size] at series
  have most : sin 0.1395 ≤ 0.1391 := by
    norm_num at *
    linarith
  have least : 0 ≤ sin 0.1395 := by
    norm_num at *
    linarith
  have same : (2 * 0.1395 : ℝ) = 0.279 := by norm_num
  have square : sin 0.1395 ^ 2 ≤ 0.1391 ^ 2 := pow_le_pow_left₀ least most 2
  rw [← same, cos_two_mul_eq]
  norm_num at *
  linarith

/-- To the side of the sign `σ`, the wheels report more than `n` at the ends of the clamp; what
they report is a whole number. -/
theorem le_reported {s : Drives} (atEnd : |getCurAngle s| = 0.279) {v least : ℝ} {σ n : Int}
    (unit : |σ| = 1) (positive : 0 ≤ least) (fast : least ≤ σ * v)
    (speed : n + 1.5 < least * 1.90985 * 0.9613) : n + 1 ≤ σ * (reported s v).velocity := by
  have ratio : (1.90985 : ℝ) ≤ vRatioa := by norm_num [vRatioa, PI]
  have cosine : 0.9613 ≤ cos (getCurAngle s) := by
    rw [← cos_abs, atEnd]
    exact le_cos_clamp
  have near : |σ * (reported s v).velocity - σ * (v * vRatioa * cos (getCurAngle s))| ≤ 1.5 := by
    rw [← mul_sub, abs_mul, ← Int.cast_abs, unit, Int.cast_one, one_mul]
    exact abs_reported_sub_le s v
  have wheels : least * 1.90985 * 0.9613 ≤ σ * v * vRatioa * cos (getCurAngle s) := by
    have moving := positive.trans fast
    gcongr
  have close : (n : ℝ) < σ * (reported s v).velocity := by
    have low := (abs_le.mp near).1
    linarith
  obtain ⟨m, whole⟩ : ∃ m : Int, (reported s v).velocity = m := ⟨_, rfl⟩
  rw [whole] at close ⊢
  have beyond : n < σ * m := by exact_mod_cast close
  have next : n + 1 ≤ σ * m := Int.add_one_le_of_lt beyond
  exact_mod_cast next

/-- There the rate of turn field is positive, to the side the robot turns to. -/
theorem exists_le_turn {v least : ℝ} {n : Nat} (positive : 0 ≤ least) (fast : least ≤ |v|)
    (speed : n + 1.5 < least * 1.90985 * 0.9613) :
    ∃ s : Drives, |getCurAngle s| ≤ 0.279 ∧
      (n + 1) * 0.2864717 / 1.9098595 * (10000 / 556) ≤ getCurAngleVel (reported s v) / wRatio := by
  have tangent := le_tan_clamp
  have ratio : (vRatioa : ℝ) ≤ 1.9098595 := by norm_num [vRatioa, PI]
  have wheel := vRatioa_pos
  obtain ⟨σ, sign, side⟩ : ∃ σ : Int, (σ = 1 ∨ σ = -1) ∧ |v| = σ * v := by
    rcases abs_choice v with same | opposite
    · exact ⟨1, .inl rfl, by rw [same, Int.cast_one, one_mul]⟩
    · exact ⟨-1, .inr rfl, by rw [opposite, Int.cast_neg, Int.cast_one, neg_one_mul]⟩
  have unit : |σ| = 1 := by rcases sign with rfl | rfl <;> rfl
  have size : |σ * (0.279 : ℝ)| = 0.279 := by
    rw [abs_mul, ← Int.cast_abs, unit, Int.cast_one, one_mul, abs_of_pos (by norm_num)]
  let s : Drives := ⟨angle2Position (σ * 0.279), 0⟩
  have angle : getCurAngle s = σ * 0.279 := getCurAngle_angle2Position size.le rfl
  have atEnd : |getCurAngle s| = 0.279 := by rw [angle, size]
  have moves : (n + 1 : ℝ) ≤ σ * (reported s v).velocity :=
    le_reported (n := n) atEnd unit positive (side ▸ fast) speed
  have odd : tan (getCurAngle s) = σ * tan 0.279 := by
    rw [angle]
    rcases sign with rfl | rfl
    · simp
    · simp
  have moving : 0 ≤ σ * (reported s v).velocity := (by positivity : (0 : ℝ) ≤ n + 1).trans moves
  have turning : 0 ≤ σ * (reported s v).velocity * tan 0.279 :=
    mul_nonneg moving (by linarith)
  refine ⟨s, atEnd.le, ?_⟩
  rw [getCurAngleVel_reported, odd, ← mul_assoc, mul_comm _ (σ : ℝ)]
  gcongr

/-- From raw speeds of 3308 on, the rate of turn field is beyond the range of a `short`. -/
theorem exists_not_fieldsFit {v : ℝ} (fast : 6616 ≤ |v|) :
    ∃ s : Drives, |getCurAngle s| ≤ 0.279 ∧ ¬ FieldsFit s v := by
  obtain ⟨s, small, turn⟩ := exists_le_turn (n := 12145) (by norm_num) fast (by norm_num)
  refine ⟨s, small, fun fit => ?_⟩
  have high := fit.2.2
  norm_num at *
  linarith

theorem toInt_cast_neg {x : ℝ} (low : 32768 ≤ x) (high : x < 65536) :
    (BitVec.ofInt 16 (truncate x)).toInt < 0 := by
  have least : 32767 < truncate x := by
    by_contra inside
    have below := (truncate_lt_iff (n := 32768) (by decide)).mp (by omega : truncate x < 32768)
    norm_num at below
    linarith
  have most : truncate x < 65536 := by
    rw [truncate_lt_iff (by decide)]
    exact_mod_cast high
  rw [BitVec.toInt_ofInt, Int.bmod_def]
  omega

/-- From raw speeds of 3309 on the cast wraps; while the field is below twice the range, to a
negative number. -/
theorem exists_wraps {v : ℝ} (fast : 6618 ≤ |v|) (slow : |v| ≤ 13000) :
    ∃ s : Drives, |getCurAngle s| ≤ 0.279 ∧ 32768 ≤ getCurAngleVel (reported s v) / wRatio ∧
      (BitVec.ofInt 16 (truncate (getCurAngleVel (reported s v) / wRatio))).toInt < 0 := by
  obtain ⟨s, small, turn⟩ := exists_le_turn (n := 12148) (by norm_num) fast (by norm_num)
  have beyond : 32768 ≤ getCurAngleVel (reported s v) / wRatio := by
    norm_num at *
    linarith
  have positive := vRatioa_pos
  have ratio : (1.9098 : ℝ) ≤ vRatioa := by norm_num [vRatioa, PI]
  refine ⟨s, small, beyond, toInt_cast_neg beyond ?_⟩
  have bound := (le_abs_self _).trans (abs_turn_le small slow)
  rw [getCurAngleVel_reported, ← lt_div_iff₀ (by norm_num), div_lt_iff₀ positive]
  linarith

/-! ## Accepted frames -/

/-- The speed of an accepted 0x60 frame, from its raw speed. -/
theorem speeds_angle (k : Kinematics) {w : World} {f : AcceptedFrame} (command : f.cmd = 0x60)
    (manual : w.isAuto = 0) (four : f.len = 10) :
    speeds (messageStep k w f).2 = [(f.rawSpeed * 2 : ℚ), (f.rawSpeed * 2 : ℚ)] := by
  have length := len_rxMsg_of_four four
  have double : vRatio = 2 := by decide +kernel
  rw [speeds_messageStep, motionOf, if_neg (not_not.mpr length), f.cmd_rxMsg,
    if_pos ⟨command, manual⟩, wheelSpeeds, angleMotionSpeed, AcceptedFrame.rawSpeed_eq four, double]

theorem four_of_len_rxMsg {f : AcceptedFrame} (length : f.rxMsg.len = 0x4) : f.len = 10 := by
  obtain ⟨long, -, total⟩ := f.framed
  have stored : f.rxMsg.len = f.msg 4 := len_loadRxMsg _ long
  have value : (f.msg 4).toNat = 4 := by
    rw [← stored, length]
    rfl
  omega

/-- Every other speed is clamped. -/
theorem abs_speeds_le_of_other (k : Kinematics) {w : World} {f : AcceptedFrame}
    (other : ¬ (f.cmd = 0x60 ∧ w.isAuto = 0 ∧ f.len = 10)) :
    ∀ v ∈ speeds (messageStep k w f).2, |v| ≤ 1000 := by
  rw [speeds_messageStep, motionOf, f.cmd_rxMsg]
  intro v mem
  split_ifs at mem with length angle motion
  · cases mem
  · exact absurd ⟨angle.1, angle.2, four_of_len_rxMsg (not_not.mp length)⟩ other
  · simp only [wheelSpeeds, List.mem_cons, List.not_mem_nil, or_false, or_self] at mem
    rw [mem]
    exact abs_motionSpeed_le f.rxMsg.data
  · cases mem

/-- For every accepted frame in whatever mode, both quantities are in the range of a `short` at
every steering angle inside the clamp, once the wheels report what the frame commanded, exactly
when the frame is not a 0x60 frame, carried out, with a raw speed beyond 3307. -/
theorem feedback_fits_iff (w : World) (f : AcceptedFrame) :
    (∀ v ∈ speeds (messageStep exact w f).2, ∀ s : Drives, |getCurAngle s| ≤ 0.279 →
        FieldsFit s v) ↔
      ¬ (f.cmd = 0x60 ∧ w.isAuto = 0 ∧ f.len = 10 ∧ 3307 < |f.rawSpeed|) := by
  constructor
  · rintro fit ⟨command, manual, four, fast⟩
    have driven : (f.rawSpeed * 2 : ℚ) ∈ speeds (messageStep exact w f).2 := by
      rw [speeds_angle exact command manual four]
      exact List.mem_cons_self
    have raw : (3308 : ℝ) ≤ |(f.rawSpeed : ℝ)| := by exact_mod_cast fast
    have speed : 6616 ≤ |((f.rawSpeed * 2 : ℚ) : ℝ)| := by
      push_cast
      rw [abs_mul, abs_two]
      linarith
    obtain ⟨s, small, beyond⟩ := exists_not_fieldsFit speed
    exact beyond (fit _ driven s small)
  · intro condition v mem s small
    have slow : |v| ≤ 6614 := by
      by_cases angle : f.cmd = 0x60 ∧ w.isAuto = 0 ∧ f.len = 10
      · obtain ⟨command, manual, four⟩ := angle
        have raw : |f.rawSpeed| ≤ 3307 :=
          not_lt.mp fun fast => condition ⟨command, manual, four, fast⟩
        have rational : |(f.rawSpeed : ℚ)| ≤ 3307 := by exact_mod_cast raw
        rw [speeds_angle exact command manual four] at mem
        simp only [List.mem_cons, List.not_mem_nil, or_false, or_self] at mem
        rw [mem, abs_mul, abs_two]
        linarith
      · exact (abs_speeds_le_of_other exact angle v mem).trans (by norm_num)
    exact fieldsFit_of_slow small (by exact_mod_cast slow)

/-- A manual command with a raw speed of 3309. -/
def racingFrame : AcceptedFrame where
  msg := ofList [0xAA, 0, 0x60, 0, 4, 0, 0, 0x0C, 0xED, 0xE1]
  len := 10
  framed := by decide
  fits := fastFrame.fits
  locals := .zero
  meanwhile := ⟨World.powerUp.dcq, World.powerUp.fmq, World.powerUp.cru, 0⟩

/-- Its rate of turn does not fit, and at an end of the clamp it is reported with the wrong
sign. -/
theorem racingFrame_wraps :
    (¬ ∀ (w : World) (f : AcceptedFrame), f.cmd = 0x60 ∨ f.cmd = 0x80 →
      ∀ v ∈ speeds (messageStep exact w f).2, ∀ s : Drives, |getCurAngle s| ≤ 0.279 →
        FieldsFit s v) ∧
    ∃ v ∈ speeds (messageStep exact .powerUp racingFrame).2, ∃ s : Drives,
      |getCurAngle s| ≤ 0.279 ∧ 32768 ≤ getCurAngleVel (reported s v) / wRatio ∧
        (BitVec.ofInt 16 (truncate (getCurAngleVel (reported s v) / wRatio))).toInt < 0 := by
  have driven : (racingFrame.rawSpeed * 2 : ℚ) ∈
      speeds (messageStep exact .powerUp racingFrame).2 := by
    rw [speeds_angle exact (by decide) (by decide) rfl]
    exact List.mem_cons_self
  have speed : |((racingFrame.rawSpeed * 2 : ℚ) : ℝ)| = 6618 := by
    have raw : racingFrame.rawSpeed = 3309 := by decide
    rw [raw]
    norm_num
  constructor
  · intro stated
    obtain ⟨s, small, beyond⟩ := exists_not_fieldsFit (by rw [speed]; norm_num)
    exact beyond (stated .powerUp racingFrame (.inl (by decide)) _ driven s small)
  · exact ⟨_, driven, exists_wraps speed.ge (by rw [speed]; norm_num)⟩

end Stm32Robot.Motor.ExactKinematics
