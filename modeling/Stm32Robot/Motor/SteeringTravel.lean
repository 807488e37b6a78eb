/-
# Motor.SteeringTravel -- the steering angle and the travel of its drive

`Angle2Position` limits the angle and `getCurAngle` reads it back from the position: for every
angle the two are inverse, the clamp apart (`steering_inverse`).  The position grows with the
angle all the way from one end of the clamp to the other.

driver.h declares the travel of the drive as `POS_MIN` to `POS_MAX` and nothing uses it.  The
upper end is out of reach of the clamp, the lower end is not: `steeringLimit` is the angle at
which the position passes it, 25 steps of the raw angle to one side.
-/
import Mathlib.Topology.Order.IntermediateValue
import Stm32Robot.Motor.ClosedLoop
import Stm32Robot.Motor.SteeringDomain
import Stm32Robot.Theory.Doubling

namespace Stm32Robot.Motor.ExactKinematics

open Real Set
open Stm32Robot.Theory.Bytes
open Stm32Robot.Theory.Doubling
open Stm32Robot.Motor.ConvertData
open Stm32Robot.Motor.Driver
open Stm32Robot.Motor.Message

set_option autoImplicit false

/-! ## The clamp of Angle2Position -/

/-- The local `Angle` after the clamp. -/
noncomputable def clampAngle (Angle : ℝ) : ℝ := max (-0.279) (min Angle 0.279)

/-- The local `tempL`: the height the second bar has to bridge. -/
noncomputable def tempL (Angle : ℝ) : ℝ := L1 * sin (clampAngle Angle + theta0) - L3

section Clamp

variable (a : ℝ)

theorem clampAngle_eq :
    clampAngle a = if a > 0.279 then 0.279 else if a < -0.279 then -0.279 else a := by
  unfold clampAngle
  split_ifs with above below
  · rw [min_eq_right above.le, max_eq_right (by norm_num)]
  · rw [min_eq_left (not_lt.mp above), max_eq_left below.le]
  · rw [min_eq_left (not_lt.mp above), max_eq_right (not_lt.mp below)]

theorem abs_clampAngle_le : |clampAngle a| ≤ 0.279 :=
  abs_le.mpr ⟨le_max_left _ _, max_le (by norm_num) (min_le_right _ _)⟩

theorem clampAngle_of_small {a : ℝ} (small : |a| ≤ 0.279) : clampAngle a = a := by
  obtain ⟨lo, hi⟩ := abs_le.mp small
  rw [clampAngle, min_eq_left hi, max_eq_right lo]

/-- The function in its two locals. -/
theorem angle2Position_eq :
    angle2Position a = (L0 - L1 * cos (clampAngle a + theta0) -
      √(L2 * L2 - tempL a * tempL a)) * Millimeter2Pulse := by
  rw [tempL, clampAngle_eq]
  rfl

theorem angle2Position_clampAngle : angle2Position (clampAngle a) = angle2Position a := by
  rw [angle2Position_eq, angle2Position_eq a, tempL, tempL,
    clampAngle_of_small (abs_clampAngle_le a)]

/-- Forward and inverse kinematics: the square root is taken of a number that is not negative,
and the angle read at the position of an angle is that angle, clamped. -/
theorem steering_inverse :
    0 ≤ L2 * L2 - tempL a * tempL a ∧
      ∀ velocity : ℝ, getCurAngle ⟨angle2Position a, velocity⟩ = max (-0.279) (min a 0.279) := by
  have small := abs_clampAngle_le a
  refine ⟨?_, ?_⟩
  · have bridge := bridge_pos small
    exact le_trans (by norm_num) bridge
  · intro velocity
    have reached : angle2Position a = angle2Position (clampAngle a) :=
      (angle2Position_clampAngle a).symm
    exact getCurAngle_angle2Position small reached

end Clamp

/-! ## The position of an angle -/

/-- `Lx1 + Lx2`, for the cosine and the sine of the first bar. -/
noncomputable def reach (c s : ℝ) : ℝ := L1 * c + √(L2 * L2 - (L1 * s - L3) * (L1 * s - L3))

theorem angle2Position_eq_reach {a : ℝ} (small : |a| ≤ 0.279) :
    angle2Position a = (L0 - reach (cos (a + theta0)) (sin (a + theta0))) * Millimeter2Pulse := by
  rw [angle2Position_of_small small, reach]
  ring

section Reach

variable {c s c' h d : ℝ}

theorem le_reach (cosine : c' ≤ c) (height : |L1 * s - L3| ≤ h)
    (span : d * d ≤ L2 * L2 - h * h) : L1 * c' + d ≤ reach c s := by
  have bar : (0 : ℝ) ≤ L1 := by norm_num [L1]
  have square : (L1 * s - L3) * (L1 * s - L3) ≤ h * h := by
    rw [← abs_mul_abs_self]
    exact mul_self_le_mul_self (abs_nonneg _) height
  have long : d ≤ √(L2 * L2 - (L1 * s - L3) * (L1 * s - L3)) := by
    apply le_sqrt_of_sq_le
    linarith [sq d]
  exact add_le_add (mul_le_mul_of_nonneg_left cosine bar) long

theorem reach_le (cosine : c ≤ c') (positive : 0 ≤ h) (height : h ≤ L1 * s - L3) (far : 0 ≤ d)
    (span : L2 * L2 - h * h ≤ d * d) : reach c s ≤ L1 * c' + d := by
  have bar : (0 : ℝ) ≤ L1 := by norm_num [L1]
  have square : h * h ≤ (L1 * s - L3) * (L1 * s - L3) := mul_self_le_mul_self positive height
  have short : √(L2 * L2 - (L1 * s - L3) * (L1 * s - L3)) ≤ d := by
    apply (sqrt_le_left far).mpr
    linarith [sq d]
  exact add_le_add (mul_le_mul_of_nonneg_left cosine bar) short

end Reach

/-- At the lower end of the clamp. -/
theorem le_reach_lower : 140.8 ≤ reach (cos (-0.279 + theta0)) (sin (-0.279 + theta0)) := by
  have small : |(-0.279 : ℝ)| ≤ 0.279 := by rw [abs_of_neg (by norm_num)]; norm_num
  obtain ⟨lower, -, sine⟩ := steering_range small
  set φ : ℝ := -0.279 + theta0 with angle
  have value : φ ≤ 0.8138 := by rw [angle]; norm_num [theta0, PI]
  have cosine : 0.66 ≤ cos φ := by
    have series := one_sub_sq_div_two_le_cos (x := φ)
    nlinarith
  have sine_le : sin φ ≤ 0.8138 := (sin_lt (by linarith)).le.trans value
  have height : |L1 * sin φ - L3| ≤ 27.5 := by
    rw [abs_le]
    constructor <;> norm_num [L1, L3] <;> linarith
  have span : (58.8 : ℝ) * 58.8 ≤ L2 * L2 - 27.5 * 27.5 := by norm_num [L2]
  have far := le_reach cosine height span
  norm_num [L1] at far ⊢
  linarith

/-- The cosine at the upper end of the clamp, as the sine of the small angle left to a right
angle. -/
theorem cos_upper : 0.19 ≤ cos (0.279 + theta0) ∧ cos (0.279 + theta0) ≤ 0.21 := by
  set φ : ℝ := 0.279 + theta0 with angle
  have value : 1.37 ≤ φ ∧ φ ≤ 1.372 := by rw [angle]; constructor <;> norm_num [theta0, PI]
  have pi_lower := pi_gt_d2
  have pi_upper := pi_lt_d2
  have complement : cos φ = sin (π / 2 - φ) := (sin_pi_div_two_sub φ).symm
  rw [complement]
  constructor
  · have series := sin_gt_sub_cube (x := π / 2 - φ) (by linarith)
    have cube : (π / 2 - φ) ^ 3 ≤ 0.21 ^ 3 := pow_le_pow_left₀ (by linarith) (by linarith) 3
    norm_num at *
    linarith
  · exact (sin_lt (by linarith)).le.trans (by linarith)

/-- At the upper end of the clamp. -/
theorem reach_upper : 58.85 ≤ reach (cos (0.279 + theta0)) (sin (0.279 + theta0)) ∧
    reach (cos (0.279 + theta0)) (sin (0.279 + theta0)) ≤ 100 := by
  have small : |(0.279 : ℝ)| ≤ 0.279 := by rw [abs_of_pos (by norm_num)]
  obtain ⟨-, -, sine⟩ := steering_range small
  obtain ⟨cosine, cosine_le⟩ := cos_upper
  set φ : ℝ := 0.279 + theta0
  have sine_le := sin_le_one φ
  constructor
  · have height : |L1 * sin φ - L3| ≤ 51 := by
      rw [abs_le]
      constructor <;> norm_num [L1, L3] <;> linarith
    have span : (40 : ℝ) * 40 ≤ L2 * L2 - 51 * 51 := by norm_num [L2]
    have far := le_reach cosine height span
    norm_num [L1] at far ⊢
    linarith
  · have short : √(L2 * L2 - (L1 * sin φ - L3) * (L1 * sin φ - L3)) ≤ 65 := by
      apply (sqrt_le_left (by norm_num)).mpr
      have square := mul_self_nonneg (L1 * sin φ - L3)
      norm_num [L2]
      linarith
    have bar : (L1 : ℝ) * cos φ ≤ 35 := by
      norm_num [L1]
      linarith
    rw [reach]
    linarith

/-! ## The declared travel -/

def POS_MAX : Int := 450000
def POS_MIN : Int := -250000

/-- Between `POS_MIN` and `POS_MAX`. -/
def InTravel (pos : Int) : Prop := POS_MIN ≤ pos ∧ pos ≤ POS_MAX

/-- The angle one pulse beyond `POS_MIN`, where truncation begins to leave the travel. -/
noncomputable def steeringLimit : ℝ := getCurAngle ⟨(POS_MIN - 1 : Int), 0⟩

theorem inTravel_truncate_iff (x : ℝ) :
    InTravel (truncate x) ↔ (POS_MIN - 1 : Int) < x ∧ x < (POS_MAX + 1 : Int) := by
  rw [← lt_truncate_iff (by decide), ← truncate_lt_iff (by decide), Int.sub_one_lt_iff,
    Int.lt_add_one_iff]
  rfl

section Monotone

theorem continuous_angle2Position : Continuous angle2Position := by
  have formula : angle2Position = fun a => (L0 - L1 * cos (clampAngle a + theta0) -
      √(L2 * L2 - tempL a * tempL a)) * Millimeter2Pulse := funext angle2Position_eq
  rw [formula]
  unfold tempL clampAngle
  fun_prop

theorem injOn_angle2Position : InjOn angle2Position (Icc (-0.279) 0.279) := by
  intro a insideA b insideB same
  have angleA := getCurAngle_angle2Position (abs_le.mpr insideA)
    (s := ⟨angle2Position a, 0⟩) rfl
  have angleB := getCurAngle_angle2Position (abs_le.mpr insideB)
    (s := ⟨angle2Position a, 0⟩) same
  exact angleA.symm.trans angleB

theorem angle2Position_lower : angle2Position (-0.279) < (POS_MIN - 1 : Int) := by
  have far := le_reach_lower
  rw [angle2Position_eq_reach (by rw [abs_of_neg (by norm_num)]; norm_num)]
  norm_num [L0, Millimeter2Pulse, POS_MIN] at *
  linarith

theorem angle2Position_upper :
    (POS_MIN - 1 : Int) < angle2Position 0.279 ∧ angle2Position 0.279 < (POS_MAX + 1 : Int) := by
  obtain ⟨near, far⟩ := reach_upper
  rw [angle2Position_eq_reach (by rw [abs_of_pos (by norm_num)])]
  norm_num [L0, Millimeter2Pulse, POS_MIN, POS_MAX] at *
  constructor <;> linarith

/-- The position grows with the angle, since no two angles share one. -/
theorem strictMonoOn_angle2Position : StrictMonoOn angle2Position (Icc (-0.279) 0.279) :=
  continuous_angle2Position.continuousOn.strictMonoOn_of_injOn_Icc (by norm_num)
    (angle2Position_lower.trans angle2Position_upper.1).le injOn_angle2Position

/-- Between the positions at its ends the clamp leaves none out. -/
theorem angle2Position_getCurAngle {s : Drives}
    (between : s.position ∈ Icc (angle2Position (-0.279)) (angle2Position 0.279)) :
    getCurAngle s ∈ Icc (-0.279) 0.279 ∧ angle2Position (getCurAngle s) = s.position := by
  obtain ⟨a, inside, reached⟩ := intermediate_value_Icc (by norm_num)
    continuous_angle2Position.continuousOn between
  rw [getCurAngle_angle2Position (abs_le.mpr inside) reached.symm]
  exact ⟨inside, reached⟩

theorem steeringLimit_spec : steeringLimit ∈ Ioo (-0.279) 0.279 ∧
    angle2Position steeringLimit = (POS_MIN - 1 : Int) := by
  have between : ((POS_MIN - 1 : Int) : ℝ) ∈
      Icc (angle2Position (-0.279)) (angle2Position 0.279) :=
    ⟨angle2Position_lower.le, angle2Position_upper.1.le⟩
  obtain ⟨⟨lo, hi⟩, back⟩ :=
    angle2Position_getCurAngle (s := ⟨(POS_MIN - 1 : Int), 0⟩) between
  have reached : angle2Position steeringLimit = (POS_MIN - 1 : Int) := back
  refine ⟨⟨lt_of_le_of_ne lo ?_, lt_of_le_of_ne hi ?_⟩, reached⟩
  · intro same
    rw [← same] at reached
    exact angle2Position_lower.ne reached
  · intro same
    rw [same] at reached
    exact angle2Position_upper.1.ne' reached

end Monotone

/-- The position of an angle is beyond the lower end exactly up to the limit, and never beyond
the upper end. -/
theorem inTravel_angle2Position_iff (a : ℝ) :
    InTravel (truncate (angle2Position a)) ↔ steeringLimit < a := by
  obtain ⟨⟨lo, hi⟩, reached⟩ := steeringLimit_spec
  have inside : clampAngle a ∈ Icc (-0.279) 0.279 := abs_le.mp (abs_clampAngle_le a)
  have below : angle2Position a < (POS_MAX + 1 : Int) := by
    rw [← angle2Position_clampAngle]
    have ends := strictMonoOn_angle2Position.monotoneOn inside ⟨by norm_num, le_rfl⟩ inside.2
    exact ends.trans_lt angle2Position_upper.2
  rw [inTravel_truncate_iff, and_iff_left below, ← reached, ← angle2Position_clampAngle a,
    strictMonoOn_angle2Position.lt_iff_lt ⟨lo.le, hi.le⟩ inside, clampAngle, lt_max_iff,
    lt_min_iff]
  constructor
  · rintro (outside | ⟨above, -⟩)
    · exact absurd outside lo.not_gt
    · exact above
  · intro above
    exact .inr ⟨above, hi⟩

/-! ## The limit in steps of the raw angle -/

/-- Sine and cosine to three digits, about where half of the first bar's angle is there. -/
theorem abs_series_le {x : ℝ} (lo : 0.43 ≤ x) (hi : x ≤ 0.45) :
    |sin x - (x - x ^ 3 / 6)| ≤ 0.0002 ∧ |cos x - (1 - x ^ 2 / 2)| ≤ 0.0022 := by
  have size : |x| = x := abs_of_nonneg (by linarith)
  have one : |x| ≤ 1 := by rw [size]; linarith
  refine ⟨(sin_bound one).trans ?_, (cos_bound one).trans ?_⟩
  · have fifth : x ^ 5 ≤ 0.45 ^ 5 := pow_le_pow_left₀ (by linarith) hi 5
    rw [size]
    norm_num at *
    linarith
  · have fourth : x ^ 4 ≤ 0.45 ^ 4 := pow_le_pow_left₀ (by linarith) hi 4
    rw [size]
    norm_num at *
    linarith

theorem raw25_inside : (POS_MIN - 1 : Int) < angle2Position (-25 * aRatio) := by
  rw [angle2Position_eq_reach (by rw [abs_le]; norm_num [aRatio, PI])]
  set x : ℝ := (-25 * aRatio + theta0) / 2 with half
  have value : 0.4437 ≤ x ∧ x ≤ 0.44372 := by
    rw [half]
    constructor <;> norm_num [theta0, aRatio, PI]
  have whole : (-25 * aRatio + theta0 : ℝ) = 2 * x := by rw [half]; ring
  obtain ⟨nearSin, nearCos⟩ := abs_series_le (x := x) (by linarith) (by linarith)
  have square : x ^ 2 ≤ 0.44372 ^ 2 := pow_le_pow_left₀ (by linarith) value.2 2
  have cube : x ^ 3 ≤ 0.44372 ^ 3 := pow_le_pow_left₀ (by linarith) value.2 3
  have sine : 0.4289 ≤ sin x := by linarith [(abs_le.mp nearSin).1]
  have cosine : 0.8993 ≤ cos x := by linarith [(abs_le.mp nearCos).1]
  obtain ⟨cosTwice, sinTwice⟩ := double_of_le (by norm_num) sine (by norm_num) cosine
  have height : 22 ≤ L1 * sin (2 * x) - L3 := by
    norm_num [L1, L3] at *
    linarith
  have near := reach_le (d := 61.17) cosTwice (by norm_num) height (by norm_num)
    (by norm_num [L2])
  rw [whole]
  norm_num [L0, L1, Millimeter2Pulse, POS_MIN] at *
  linarith

theorem raw26_outside : angle2Position (-26 * aRatio) < (POS_MIN - 1 : Int) := by
  have small : |(-26 * aRatio : ℝ)| ≤ 0.279 := by rw [abs_le]; norm_num [aRatio, PI]
  have sine_lower := (steering_range small).2.2
  rw [angle2Position_eq_reach small]
  set x : ℝ := (-26 * aRatio + theta0) / 2 with half
  have value : 0.4396 ≤ x ∧ x ≤ 0.43961 := by
    rw [half]
    constructor <;> norm_num [theta0, aRatio, PI]
  have whole : (-26 * aRatio + theta0 : ℝ) = 2 * x := by rw [half]; ring
  obtain ⟨nearSin, nearCos⟩ := abs_series_le (x := x) (by linarith) (by linarith)
  have square : 0.4396 ^ 2 ≤ x ^ 2 := pow_le_pow_left₀ (by norm_num) value.1 2
  have cube : 0.4396 ^ 3 ≤ x ^ 3 := pow_le_pow_left₀ (by norm_num) value.1 3
  have sine : sin x ≤ 0.4257 := by linarith [(abs_le.mp nearSin).2]
  have cosine : cos x ≤ 0.9056 := by linarith [(abs_le.mp nearCos).2]
  have positive : 0 ≤ sin x := sin_nonneg_of_nonneg_of_le_pi (by linarith)
    (by linarith [pi_gt_three])
  have upright : 0 ≤ cos x := cos_nonneg_of_neg_pi_div_two_le_of_le
    (by linarith [pi_gt_three]) (by linarith [pi_gt_three])
  obtain ⟨cosTwice, sinTwice⟩ := double_of_ge positive sine upright cosine
  rw [whole] at sine_lower ⊢
  have height : |L1 * sin (2 * x) - L3| ≤ 22.2 := by
    rw [abs_le]
    constructor <;> norm_num [L1, L3] at * <;> linarith
  have far := le_reach (d := 61.09) cosTwice height (by norm_num [L2])
  norm_num [L0, L1, Millimeter2Pulse, POS_MIN] at *
  linarith

/-- Of the raw angles to the lower side, 25 are in the travel. -/
theorem steeringLimit_lt_iff (raw : Int) :
    steeringLimit < ((raw * aRatio : ℚ) : ℝ) ↔ -25 ≤ raw := by
  obtain ⟨⟨lo, hi⟩, reached⟩ := steeringLimit_spec
  have inside25 : (-25 * aRatio : ℝ) ∈ Icc (-0.279) 0.279 := by
    constructor <;> norm_num [aRatio, PI]
  have inside26 : (-26 * aRatio : ℝ) ∈ Icc (-0.279) 0.279 := by
    constructor <;> norm_num [aRatio, PI]
  have below25 : steeringLimit < -25 * aRatio :=
    (strictMonoOn_angle2Position.lt_iff_lt ⟨lo.le, hi.le⟩ inside25).mp (reached ▸ raw25_inside)
  have above26 : -26 * aRatio < steeringLimit :=
    (strictMonoOn_angle2Position.lt_iff_lt inside26 ⟨lo.le, hi.le⟩).mp (reached ▸ raw26_outside)
  have step : (0 : ℝ) < aRatio := by norm_num [aRatio, PI]
  push_cast
  constructor
  · intro above
    have product := above26.trans above
    have steps : (-26 : ℝ) < raw := lt_of_mul_lt_mul_right product step.le
    have whole : (-26 : Int) < raw := by exact_mod_cast steps
    omega
  · intro within
    have steps : (-25 : ℝ) ≤ raw := by exact_mod_cast within
    exact below25.trans_le (mul_le_mul_of_nonneg_right steps step.le)

/-! ## Accepted frames -/

/-- The target positions sent to the steering drive are in the travel. -/
def TargetsInTravel (frames : List SCM) : Prop :=
  ∀ m ∈ frames, m.id = FRONT_ID → m.isTargetPosition = true → InTravel (framMsg m.data)

/-- The angle `Angle2Position` is called with for a frame, if it is. -/
noncomputable def requestedAngle (isAuto : UInt8) (rxMsg : STM) : Option ℝ :=
  if rxMsg.len ≠ 0x4 then none
  else if rxMsg.cmd = 0x60 ∧ isAuto = 0 then
    some ((hexbyte2short rxMsg.data).toInt * aRatio : ℚ)
  else if rxMsg.cmd = 0x80 ∧ isAuto ≠ 0 ∧ motionSpeed rxMsg.data ≠ 0 then
    some (arcsin (motionAngleVel rxMsg.data * Length / motionSpeed rxMsg.data))
  else none

theorem targetsInTravel_append (before after : List SCM) :
    TargetsInTravel (before ++ after) ↔ TargetsInTravel before ∧ TargetsInTravel after :=
  List.forall_mem_append

theorem targetsInTravel_feedbackFrames : TargetsInTravel feedbackFrames := by
  intro m query _ target
  have still := isMotion_feedbackFrames m query
  simp [SCM.isMotion, target] at still

theorem targetsInTravel_motionFrames (ExpPos l r : Int) :
    TargetsInTravel (motionFrames ExpPos l r) ↔ InTravel (framMsg (setPositionFram ExpPos)) := by
  constructor
  · intro inside
    have first : (⟨FRONT_ID, setPositionFram ExpPos, 8⟩ : SCM) ∈ motionFrames ExpPos l r :=
      List.mem_cons_self
    have target := isTargetPosition_setPositionFram FRONT_ID ExpPos
    have sent := inside _ first rfl target
    exact sent
  · intro inside m mem _ target
    simp only [motionFrames, List.mem_cons, List.not_mem_nil, or_false] at mem
    rcases mem with rfl | rfl | rfl
    · exact inside
    · rw [isTargetPosition_setVelocityFram] at target
      cases target
    · rw [isTargetPosition_setVelocityFram] at target
      cases target

/-- A call sends the target of its motion, and no other. -/
theorem targetsInTravel_messageStep (k : Kinematics) (w : World) (f : AcceptedFrame) :
    TargetsInTravel (enqueued (messageStep k w f).2) ↔
      ∀ target ∈ motionOf k w.isAuto f.rxMsg, InTravel (framMsg (setPositionFram target.1)) := by
  rw [enqueued_messageStep, targetsInTravel_append,
    and_iff_right targetsInTravel_feedbackFrames]
  unfold dispatchEvents
  rw [Meanwhile.isAuto_apply]
  cases motionOf k w.isAuto f.rxMsg with
  | some target =>
      simp only [Option.mem_def, Option.some.injEq, forall_eq']
      exact targetsInTravel_motionFrames _ _ _
  | none =>
      simp only [Option.mem_def, reduceCtorEq, false_implies, implies_true, iff_true]
      split_ifs
      · exact fun m mem => nomatch mem
      · exact targetsInTravel_feedbackFrames
      · exact fun m mem => nomatch mem

/-- Every position fits the parameter of a frame. -/
theorem fitsInt_angle2Position (a : ℝ) : FitsInt (truncate (angle2Position a)) := by
  have inside : clampAngle a ∈ Icc (-0.279) 0.279 := abs_le.mp (abs_clampAngle_le a)
  have above : angle2Position a < (POS_MAX + 1 : Int) := by
    rw [← angle2Position_clampAngle]
    have ends := strictMonoOn_angle2Position.monotoneOn inside ⟨by norm_num, le_rfl⟩ inside.2
    exact ends.trans_lt angle2Position_upper.2
  have below : ((-1000000 : Int) : ℝ) < angle2Position a := by
    have short : √(L2 * L2 - tempL a * tempL a) ≤ (65 : ℝ) := by
      apply (sqrt_le_left (by norm_num)).mpr
      have square := mul_self_nonneg (tempL a)
      norm_num [L2]
      linarith
    have cosine := cos_le_one (clampAngle a + theta0)
    rw [angle2Position_eq]
    norm_num [L0, L1, Millimeter2Pulse] at *
    linarith
  have high := (truncate_lt_iff (by decide)).mpr above
  have low := (lt_truncate_iff (by decide)).mpr below
  constructor
  · omega
  · simp only [POS_MAX] at high
    omega

/-- The position `getExpPosition` answers a stopped robot with. -/
theorem inTravel_zero : InTravel (framMsg (setPositionFram 0)) := by
  unfold InTravel
  decide

theorem inTravel_setPositionFram_iff (a : ℝ) :
    InTravel (framMsg (setPositionFram (truncate (angle2Position a)))) ↔ steeringLimit < a := by
  rw [setPositionFram, framMsg_of_fits (fitsInt_angle2Position a), inTravel_angle2Position_iff]

/-- The target of a frame's motion is in the travel exactly when the angle asked for is above
the limit. -/
theorem inTravel_motionOf_iff (isAuto : UInt8) (rxMsg : STM) :
    (∀ target ∈ motionOf exact isAuto rxMsg, InTravel (framMsg (setPositionFram target.1))) ↔
      ∀ a ∈ requestedAngle isAuto rxMsg, steeringLimit < a := by
  unfold motionOf requestedAngle
  by_cases four : rxMsg.len = 0x4
  · rw [if_neg (not_not.mpr four), if_neg (not_not.mpr four)]
    by_cases angle : rxMsg.cmd = 0x60 ∧ isAuto = 0
    · rw [if_pos angle, if_pos angle]
      simp only [Option.mem_def, Option.some.injEq, forall_eq']
      exact inTravel_setPositionFram_iff _
    · rw [if_neg angle, if_neg angle]
      by_cases motion : rxMsg.cmd = 0x80 ∧ isAuto ≠ 0
      · rw [if_pos motion]
        by_cases moving : motionSpeed rxMsg.data = 0
        · have stopped : exact.getExpPosition (motionAngleVel rxMsg.data) (motionSpeed rxMsg.data)
              = 0 := by
            have guard : |((motionSpeed rxMsg.data : ℚ) : ℝ)| < 0.0001 := by
              rw [moving]
              norm_num
            simp [exact, getExpPosition, guard, truncate]
          simp only [moving, Option.mem_def, Option.some.injEq, forall_eq', ne_eq,
            not_true_eq_false, and_false, if_false, reduceCtorEq, false_implies, implies_true,
            iff_true]
          rw [← moving, stopped]
          exact inTravel_zero
        · rw [if_pos ⟨motion.1, motion.2, moving⟩]
          simp only [Option.mem_def, Option.some.injEq, forall_eq']
          rw [← inTravel_setPositionFram_iff, ← getExpPosition_of_moving rxMsg.data moving]
          rfl
      · rw [if_neg motion, if_neg fun both => motion ⟨both.1, both.2.1⟩]
        simp
  · simp [four]

/-- For every angle asked of `Angle2Position` the position is in the travel exactly when the
angle is above the limit, for a raw angle of the 0x60 payload when it is at least -25; and for
every accepted frame so are the targets sent, exactly when the angle asked for is. -/
theorem travel_iff (a : ℝ) (raw : Int) (w : World) (f : AcceptedFrame) :
    (InTravel (truncate (angle2Position a)) ↔ steeringLimit < a) ∧
      (steeringLimit < ((raw * aRatio : ℚ) : ℝ) ↔ -25 ≤ raw) ∧
        ((f.cmd = 0x80 → AsinDefined (motionAngleVel f.rxMsg.data) (motionSpeed f.rxMsg.data)) →
          (TargetsInTravel (enqueued (messageStep exact w f).2) ↔
            ∀ a ∈ requestedAngle w.isAuto f.rxMsg, steeringLimit < a)) := by
  refine ⟨inTravel_angle2Position_iff a, steeringLimit_lt_iff raw, fun _ => ?_⟩
  rw [targetsInTravel_messageStep]
  exact inTravel_motionOf_iff w.isAuto f.rxMsg

/-- A tenth of a radian a second at half a metre a second, to the upper side. -/
def gentleFrame : AcceptedFrame where
  msg := ofList [0xAA, 0, 0x80, 0, 4, 0x03, 0xE8, 0x01, 0xF4, 0x1E]
  len := 10
  framed := by decide
  fits := fastFrame.fits
  locals := .zero
  meanwhile := ⟨World.powerUp.dcq, World.powerUp.fmq, World.powerUp.cru, 0⟩

theorem travel_iff_gentleFrame :
    TargetsInTravel (enqueued (messageStep exact { World.powerUp with isAuto := 1 }
      gentleFrame).2) := by
  have turn : motionAngleVel gentleFrame.rxMsg.data = 1 / 10 := by decide +kernel
  have pace : motionSpeed gentleFrame.rxMsg.data = 500 := by decide +kernel
  have inDomain : AsinDefined (motionAngleVel gentleFrame.rxMsg.data)
      (motionSpeed gentleFrame.rxMsg.data) := by
    rw [turn, pace, asinDefined_iff_of_ne (by norm_num)]
    norm_num
  refine ((travel_iff 0 0 { World.powerUp with isAuto := 1 } gentleFrame).2.2
    fun _ => inDomain).mpr ?_
  have asked : requestedAngle 1 gentleFrame.rxMsg = some (arcsin
      (motionAngleVel gentleFrame.rxMsg.data * Length / motionSpeed gentleFrame.rxMsg.data)) := by
    rw [requestedAngle, if_neg (by decide), if_neg (by decide), if_pos]
    exact ⟨by decide, by decide, by rw [pace]; norm_num⟩
  intro a mem
  obtain rfl := Option.some.inj (asked.symm.trans mem)
  have centre := (steeringLimit_lt_iff 0).mpr (by decide)
  have upper : 0 ≤ arcsin
      (motionAngleVel gentleFrame.rxMsg.data * Length / motionSpeed gentleFrame.rxMsg.data) := by
    rw [turn, pace]
    exact arcsin_nonneg.mpr (by norm_num [Length])
  push_cast at centre
  linarith

/-- A manual command that asks for a raw angle of -26 and no speed. -/
def hardLeftFrame : AcceptedFrame where
  msg := ofList [0xAA, 0, 0x60, 0, 4, 0xFF, 0xE6, 0, 0, 0x19]
  len := 10
  framed := by decide
  fits := fastFrame.fits
  locals := .zero
  meanwhile := ⟨World.powerUp.dcq, World.powerUp.fmq, World.powerUp.cru, 0⟩

/-- Its target is more than 250000 pulses to the lower side. -/
theorem hardLeftFrame_leaves_travel :
    ¬ ∀ (w : World) (f : AcceptedFrame),
      (f.cmd = 0x80 → AsinDefined (motionAngleVel f.rxMsg.data) (motionSpeed f.rxMsg.data)) →
        TargetsInTravel (enqueued (messageStep exact w f).2) := by
  intro stated
  have inside := stated .powerUp hardLeftFrame fun motion => absurd motion (by decide)
  have asked : requestedAngle World.powerUp.isAuto hardLeftFrame.rxMsg =
      some (((-26 : Int) * aRatio : ℚ) : ℝ) := rfl
  rw [targetsInTravel_messageStep, inTravel_motionOf_iff, asked] at inside
  exact absurd ((steeringLimit_lt_iff _).mp (inside _ rfl)) (by decide)

end Stm32Robot.Motor.ExactKinematics
