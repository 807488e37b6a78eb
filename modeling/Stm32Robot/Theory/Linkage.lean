/-
# Theory.Linkage -- the angle of a two-bar linkage

A bar of length `a` turns about the origin; a second one of length `c` joins its end to the
point `(x, y)`.  `linkage_angle` gives the angle `φ` of the first bar back from the point: the
angle of the point itself, and on top of it the angle of the triangle by the law of cosines.
There is such a triangle only for points the bars reach (`abs_le_iff_triangle`).
-/
import Mathlib.Analysis.SpecialFunctions.Trigonometric.Arctan

namespace Stm32Robot.Theory.Linkage

open Real

set_option autoImplicit false

variable {x y : ℝ}

theorem square_pos (right : 0 < x) : 0 < x * x + y * y :=
  add_pos_of_pos_of_nonneg (mul_pos right right) (mul_self_nonneg y)

/-- The distance of a point right of the origin. -/
theorem sqrt_add_pos (right : 0 < x) : 0 < √(x * x + y * y) := sqrt_pos.mpr (square_pos right)

theorem sqrt_one_add_div (right : 0 < x) : √(1 + (y / x) ^ 2) = √(x * x + y * y) / x := by
  have square : 1 + (y / x) ^ 2 = (x * x + y * y) / x ^ 2 := by
    field_simp
  rw [square, sqrt_div (square_pos right).le, sqrt_sq right.le]

theorem cos_arctan_div (right : 0 < x) : cos (arctan (y / x)) = x / √(x * x + y * y) := by
  rw [cos_arctan, sqrt_one_add_div right, one_div_div]

theorem sin_arctan_div (right : 0 < x) : sin (arctan (y / x)) = y / √(x * x + y * y) := by
  rw [sin_arctan, sqrt_one_add_div right, div_div_div_cancel_right₀ right.ne']

section Triangle

variable {a c φ : ℝ}

/-- The law of cosines at the origin. -/
theorem cos_sub_arctan_div (right : 0 < x) (bar : 0 < a)
    (closes : (x - a * cos φ) ^ 2 + (y - a * sin φ) ^ 2 = c ^ 2) :
    (a * a + (x * x + y * y) - c * c) / (2 * a * √(x * x + y * y)) =
      cos (φ - arctan (y / x)) := by
  have distance := sqrt_add_pos (y := y) right
  have product : a * a + (x * x + y * y) - c * c = 2 * a * (cos φ * x + sin φ * y) := by
    have unit := sin_sq_add_cos_sq φ
    linear_combination closes - a ^ 2 * unit
  rw [cos_sub, cos_arctan_div right, sin_arctan_div right, product]
  field_simp

/-- The point is on the right of the bar, so the triangle opens upwards. -/
theorem sub_arctan_div_nonneg (right : 0 < x) (below : y * cos φ ≤ x * sin φ) (lo : 0 ≤ φ) :
    0 ≤ φ - arctan (y / x) := by
  by_contra negative
  have bound := arctan_lt_pi_div_two (y / x)
  have sine : sin (φ - arctan (y / x)) < 0 :=
    sin_neg_of_neg_of_neg_pi_lt (not_le.mp negative) (by linarith [pi_pos])
  have area : 0 ≤ sin φ * x - cos φ * y := by linarith
  rw [sin_sub, cos_arctan_div right, sin_arctan_div right, ← mul_div_assoc, ← mul_div_assoc,
    ← sub_div] at sine
  exact absurd (div_nonneg area (sqrt_nonneg _)) (not_le.mpr sine)

theorem linkage_angle (right : 0 < x) (bar : 0 < a)
    (closes : (x - a * cos φ) ^ 2 + (y - a * sin φ) ^ 2 = c ^ 2)
    (below : y * cos φ ≤ x * sin φ) (lo : 0 ≤ φ) (hi : φ ≤ π / 2) :
    arctan (y / x) + arccos ((a * a + (x * x + y * y) - c * c) / (2 * a * √(x * x + y * y))) =
      φ := by
  have bound := neg_pi_div_two_lt_arctan (y / x)
  rw [cos_sub_arctan_div right bar closes,
    arccos_cos (sub_arctan_div_nonneg right below lo) (by linarith), add_sub_cancel]

end Triangle

/-- The law of cosines has a solution exactly when the three sides close a triangle. -/
theorem abs_le_iff_triangle {a c s : ℝ} (first : 0 ≤ a) (second : 0 ≤ c) (third : 0 ≤ s) :
    |a * a + s * s - c * c| ≤ 2 * a * s ↔ |a - c| ≤ s ∧ s ≤ a + c := by
  have longest : a * a + s * s - c * c ≤ 2 * a * s ↔ |a - s| ≤ |c| := by
    rw [← sq_le_sq]
    constructor <;> intro h <;> linarith [sq (a - s), sq c, sub_mul a s (a - s)]
  have shortest : -(2 * a * s) ≤ a * a + s * s - c * c ↔ |c| ≤ |a + s| := by
    rw [← sq_le_sq]
    constructor <;> intro h <;> linarith [sq (a + s), sq c]
  rw [abs_le, longest, shortest, abs_of_nonneg second, abs_of_nonneg (add_nonneg first third),
    abs_le, abs_le]
  constructor
  · rintro ⟨reach, low, high⟩
    exact ⟨⟨by linarith, by linarith⟩, by linarith⟩
  · rintro ⟨⟨low, high⟩, reach⟩
    exact ⟨by linarith, by linarith, by linarith⟩

end Stm32Robot.Theory.Linkage
