/-
# Theory.Doubling -- bounds of sine, cosine and tangent by doubling

A series bounds the three functions well near zero.  At a larger angle they are bounded from
what is known at its half: the double angle formulas are monotone there.
-/
import Mathlib.Analysis.SpecialFunctions.Trigonometric.Bounds

namespace Stm32Robot.Theory.Doubling

open Real

set_option autoImplicit false

variable {x s c t u : ℝ}

theorem cos_two_mul_eq (x : ℝ) : cos (2 * x) = 1 - 2 * sin x ^ 2 := by
  rw [cos_two_mul, cos_sq']
  ring

/-- From lower bounds at the half angle. -/
theorem double_of_le (sPos : 0 ≤ s) (sine : s ≤ sin x) (cPos : 0 ≤ c) (cosine : c ≤ cos x) :
    cos (2 * x) ≤ 1 - 2 * s ^ 2 ∧ 2 * s * c ≤ sin (2 * x) := by
  have square : s ^ 2 ≤ sin x ^ 2 := pow_le_pow_left₀ sPos sine 2
  have product : s * c ≤ sin x * cos x := mul_le_mul sine cosine cPos (sPos.trans sine)
  rw [cos_two_mul_eq, sin_two_mul]
  constructor <;> linarith

/-- From upper bounds at the half angle. -/
theorem double_of_ge (positive : 0 ≤ sin x) (sine : sin x ≤ s) (upright : 0 ≤ cos x)
    (cosine : cos x ≤ c) : 1 - 2 * s ^ 2 ≤ cos (2 * x) ∧ sin (2 * x) ≤ 2 * s * c := by
  have square : sin x ^ 2 ≤ s ^ 2 := pow_le_pow_left₀ positive sine 2
  have product : sin x * cos x ≤ s * c := mul_le_mul sine cosine upright (positive.trans sine)
  rw [cos_two_mul_eq, sin_two_mul]
  constructor <;> linarith

/-- The tangent from a lower bound at the half angle. -/
theorem le_tan_two_mul (positive : 0 ≤ t) (bound : t ≤ tan x) (flat : tan x < 1)
    (next : u * (1 - t ^ 2) ≤ 2 * t) : u ≤ tan (2 * x) := by
  have square : t ^ 2 ≤ tan x ^ 2 := pow_le_pow_left₀ positive bound 2
  have room : 0 < 1 - tan x ^ 2 := by nlinarith
  rw [tan_two_mul, le_div_iff₀ room]
  rcases le_or_gt 0 u with sign | sign
  · have less : u * (1 - tan x ^ 2) ≤ u * (1 - t ^ 2) :=
      mul_le_mul_of_nonneg_left (by linarith) sign
    linarith
  · have negative : u * (1 - tan x ^ 2) < 0 := mul_neg_of_neg_of_pos sign room
    linarith

end Stm32Robot.Theory.Doubling
