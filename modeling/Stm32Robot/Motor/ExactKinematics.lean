/-
# Motor.ExactKinematics -- kinematics.c in exact arithmetic

The functions of kinematics.c over the real numbers, each under its own name and before the
cast to `int` of those that have one.  Outside their domains the real `arcsin`, `arccos` and
square root have values of their own where libm answers NaN: what is said below stays inside.

`getCurAngle_angle2Position` is the geometry: the position `Angle2Position` asks for is where
`getCurAngle` reads the angle back.  `exact` hands these functions to the message handlers,
casts included.
-/
import Mathlib.Analysis.Real.Pi.Bounds
import Mathlib.Analysis.SpecialFunctions.Trigonometric.Bounds
import Stm32Robot.Motor.Message
import Stm32Robot.Theory.Linkage

namespace Stm32Robot.Motor.ExactKinematics

open Real
open Stm32Robot.Theory.Linkage
open Stm32Robot.Motor.Driver
open Stm32Robot.Motor.Message (Kinematics PI wRatio)

set_option autoImplicit false

/-! ## Constants -/

def Length : ℚ := 556
def Width : ℚ := 610 / 2

def L0 : ℚ := 111.51
def L1 : ℚ := 125.858
def L2 : ℚ := 65
def L3 : ℚ := 75

def theta0 : ℚ := 62.61 * PI / 180
def Millimeter2Pulse : ℚ := 8545.175
def vRatioa : ℚ := 30 * 60 / 2 / PI / 150

/-! ## The functions -/

/-- What kinematics.c reads of the drives: `getPosition()` and `getVelocity()`. -/
structure Drives where
  position : ℝ
  velocity : ℝ

/-- The drive state of the program. -/
noncomputable def Drives.ofCru (c : Cru) : Drives := ⟨c.cruPosition, getVelocity c⟩

noncomputable def getCurAngle (s : Drives) : ℝ :=
  let Lx := L0 - s.position / Millimeter2Pulse
  let sL5 := Lx * Lx + L3 * L3
  let theta1 := arctan (L3 / Lx)
  let theta2 := arccos ((L1 * L1 + sL5 - L2 * L2) / (2 * L1 * √sL5))
  theta1 + theta2 - theta0

noncomputable def getCurVelocity (s : Drives) : ℝ := s.velocity / vRatioa

noncomputable def angle2Position (Angle : ℝ) : ℝ :=
  let Angle := if Angle > 0.279 then 0.279 else if Angle < -0.279 then -0.279 else Angle
  let Lx1 := L1 * cos (Angle + theta0)
  let tempL := L1 * sin (Angle + theta0) - L3
  let Lx2 := √(L2 * L2 - tempL * tempL)
  (L0 - Lx1 - Lx2) * Millimeter2Pulse

noncomputable def getExpPosition (w v : ℝ) : ℝ :=
  if |v| < 0.0001 then 0 else angle2Position (arcsin (w * Length / v))

noncomputable def getExpLeftVelocity (s : Drives) (v : ℝ) : ℝ :=
  v * vRatioa * (cos (getCurAngle s) - Width * sin (getCurAngle s) / Length)

noncomputable def getExpRightVelocity (s : Drives) (v : ℝ) : ℝ :=
  -v * vRatioa * (cos (getCurAngle s) + Width * sin (getCurAngle s) / Length)

noncomputable def getCurAngleVel (s : Drives) : ℝ :=
  getCurVelocity s * tan (getCurAngle s) / Length

/-- The cast of a C `float` to an integer type. -/
noncomputable def truncate (x : ℝ) : Int := if 0 ≤ x then ⌊x⌋ else ⌈x⌉

/-- The functions message.c calls, as it calls them. -/
noncomputable def exact : Kinematics where
  angle2Position Angle := truncate (angle2Position Angle)
  getExpPosition w v := truncate (getExpPosition w v)
  getExpLeftVelocity c v := truncate (getExpLeftVelocity (.ofCru c) v)
  getExpRightVelocity c v := truncate (getExpRightVelocity (.ofCru c) v)
  shortAngleVel c := BitVec.ofInt 16 (truncate (getCurAngleVel (.ofCru c) / wRatio))
  shortVelocity c := BitVec.ofInt 16 (truncate (getCurVelocity (.ofCru c)))

/-! ## Truncation -/

theorem abs_truncate_sub_le (x : ℝ) : |(truncate x : ℝ) - x| ≤ 1 := by
  unfold truncate
  split_ifs
  · rw [abs_le]
    constructor <;> linarith [Int.floor_le x, Int.lt_floor_add_one x]
  · rw [abs_le]
    constructor <;> linarith [Int.le_ceil x, Int.ceil_lt_add_one x]

/-- Below zero, truncation stays on its side of an integer. -/
theorem lt_truncate_iff {n : Int} (negative : n < 0) {x : ℝ} : n < truncate x ↔ (n : ℝ) < x := by
  unfold truncate
  split_ifs with sign
  · have below : (n : ℝ) < 0 := by exact_mod_cast negative
    exact iff_of_true (negative.trans_le (Int.floor_nonneg.mpr sign)) (below.trans_le sign)
  · exact Int.lt_ceil

/-- Above zero likewise. -/
theorem truncate_lt_iff {n : Int} (positive : 0 < n) {x : ℝ} : truncate x < n ↔ x < (n : ℝ) := by
  unfold truncate
  split_ifs with sign
  · exact Int.floor_lt
  · have above : (0 : ℝ) < n := by exact_mod_cast positive
    have below : x < 0 := not_le.mp sign
    exact iff_of_true ((Int.ceil_le.mpr (by exact_mod_cast below.le)).trans_lt positive)
      (below.trans above)

/-! ## The steering linkage -/

section Steering

variable {a : ℝ}

/-- Inside the clamp of `Angle2Position` the linkage stands well clear of its dead points. -/
theorem steering_range (small : |a| ≤ 0.279) :
    0.8 ≤ a + theta0 ∧ a + theta0 ≤ π / 2 ∧ 0.5 ≤ sin (a + theta0) := by
  obtain ⟨lo, hi⟩ := abs_le.mp small
  have pi_lower := pi_gt_three
  have pi_upper := pi_lt_d2
  have lower : 0.8 ≤ a + theta0 := by norm_num [theta0, PI] at *; linarith
  have upper : a + theta0 ≤ π / 2 := by norm_num [theta0, PI] at *; linarith
  refine ⟨lower, upper, ?_⟩
  have chord := mul_le_sin (by linarith) upper
  have slope : 0.625 ≤ 2 / π := by
    rw [le_div_iff₀ pi_pos]
    linarith
  nlinarith

/-- The second bar spans more than the height it has to bridge. -/
theorem bridge_pos (small : |a| ≤ 0.279) :
    40 ^ 2 ≤ L2 * L2 - (L1 * sin (a + theta0) - L3) * (L1 * sin (a + theta0) - L3) := by
  obtain ⟨-, -, sine⟩ := steering_range small
  have sine_le := sin_le_one (a + theta0)
  norm_num [L1, L2, L3]
  nlinarith

theorem angle2Position_of_small (small : |a| ≤ 0.279) :
    angle2Position a = (L0 - L1 * cos (a + theta0) -
      √(L2 * L2 - (L1 * sin (a + theta0) - L3) * (L1 * sin (a + theta0) - L3))) *
        Millimeter2Pulse := by
  obtain ⟨lo, hi⟩ := abs_le.mp small
  simp only [angle2Position, if_neg (not_lt.mpr hi), if_neg (not_lt.mpr lo)]

/-- At the position asked for an angle, the angle is read back. -/
theorem getCurAngle_angle2Position (small : |a| ≤ 0.279) {s : Drives}
    (reached : s.position = angle2Position a) : getCurAngle s = a := by
  obtain ⟨lower, upper, sine⟩ := steering_range small
  have bridge := bridge_pos small
  set φ : ℝ := a + theta0 with angle
  set t : ℝ := L1 * sin φ - L3 with height
  set d : ℝ := √(L2 * L2 - t * t) with span
  have long : 40 ≤ d := le_sqrt_of_sq_le bridge
  have square : d * d = L2 * L2 - t * t := mul_self_sqrt (by linarith)
  have cosine : 0 ≤ cos φ := cos_nonneg_of_neg_pi_div_two_le_of_le (by linarith [pi_pos]) upper
  have bar : (0 : ℝ) < L1 := by norm_num [L1]
  have foot : (L0 : ℝ) - s.position / Millimeter2Pulse = L1 * cos φ + d := by
    have scale : (Millimeter2Pulse : ℝ) ≠ 0 := by norm_num [Millimeter2Pulse]
    rw [reached, angle2Position_of_small small, mul_div_cancel_right₀ _ scale]
    ring
  have right : 0 < L1 * cos φ + d := by linarith [mul_nonneg bar.le cosine]
  have closes : ((L1 * cos φ + d) - L1 * cos φ) ^ 2 + (L3 - L1 * sin φ) ^ 2 = (L2 : ℝ) ^ 2 := by
    linear_combination square
  have below : L3 * cos φ ≤ (L1 * cos φ + d) * sin φ := by
    have cosine_le := cos_le_one φ
    have deep : -13 ≤ t := by
      rw [height]
      norm_num [L1, L3]
      linarith
    nlinarith
  have angles := linkage_angle right bar closes below (by linarith) upper
  simp only [getCurAngle, foot]
  rw [angles, angle, add_sub_cancel_right]

end Steering

end Stm32Robot.Motor.ExactKinematics
