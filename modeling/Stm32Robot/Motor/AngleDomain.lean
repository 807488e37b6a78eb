/-
# Motor.AngleDomain -- the positions getCurAngle has an angle for

`getCurAngle` divides by `Lx` and takes the arccosine of the law of cosines, and whatever
`FeedbackMessge` stores as the position goes into both.  The divisor is never zero: the foot
of the linkage is not on a whole pulse.  The arccosine has a value only while the two bars
reach the point, a range of positions that nothing in driver.c compares with.

`always_defined_iff` gives the range and says that the angle is defined all along a run
exactly when every position reply is in it.
-/
import Stm32Robot.Motor.AxisTracking
import Stm32Robot.Motor.ExactKinematics

namespace Stm32Robot.Motor.ExactKinematics

open Real
open Stm32Robot.Motor.Driver
open Stm32Robot.Theory.Linkage

set_option autoImplicit false

/-- `getCurAngle` does not divide by zero, and the argument of its arccosine is between -1
and 1. -/
def AngleDefined (s : Drives) : Prop :=
  let Lx := L0 - s.position / Millimeter2Pulse
  let sL5 := Lx * Lx + L3 * L3
  Lx ≠ 0 ∧ |L1 * L1 + sL5 - L2 * L2| ≤ (2 : ℚ) * L1 * √sL5

/-- The positions, in pulses, at which the two bars reach the foot of the third. -/
def InReach (p : Int) : Prop := -546842 ≤ p ∧ p ≤ 2452587

instance (p : Int) : Decidable (InReach p) := inferInstanceAs (Decidable (_ ∧ _))

section Domain

variable (p : Int)

/-- The distance of the foot, in pulses. -/
theorem foot_eq : (L0 - (p : ℝ) / Millimeter2Pulse : ℝ) =
    (952872.46425 - p) / Millimeter2Pulse := by
  norm_num [L0, Millimeter2Pulse]
  ring

theorem foot_ne_zero : (952872.46425 - p : ℝ) ≠ 0 := by
  intro zero
  have scaled : (p * 100000 : ℝ) = 95287246425 := by linarith
  have whole : p * 100000 = 95287246425 := by exact_mod_cast scaled
  omega

/-- The longest distance the bars reach, squared, in pulses. -/
theorem foot_square_le_iff :
    (952872.46425 - p : ℝ) ^ 2 ≤ 30801.776164 * Millimeter2Pulse ^ 2 ↔ InReach p := by
  norm_num [Millimeter2Pulse]
  constructor
  · intro near
    constructor
    · by_contra below
      have far : (p : ℝ) ≤ -546843 := by exact_mod_cast (show p ≤ -546843 by omega)
      nlinarith
    · by_contra above
      have far : (2452588 : ℝ) ≤ p := by exact_mod_cast (show 2452588 ≤ p by omega)
      nlinarith
  · rintro ⟨low, high⟩
    have lower : (-546842 : ℝ) ≤ p := by exact_mod_cast low
    have upper : (p : ℝ) ≤ 2452587 := by exact_mod_cast high
    nlinarith

/-- The reach of the bars, from the triangle. -/
theorem angleDefined_iff_inReach {s : Drives} (reported : s.position = p) :
    AngleDefined s ↔ InReach p := by
  have scale : (0 : ℝ) < Millimeter2Pulse := by norm_num [Millimeter2Pulse]
  have bar1 : (0 : ℝ) ≤ L1 := by norm_num [L1]
  have bar2 : (0 : ℝ) ≤ L2 := by norm_num [L2]
  simp only [AngleDefined, reported, foot_eq]
  set x : ℝ := (952872.46425 - p) / Millimeter2Pulse with foot
  have nonzero : x ≠ 0 := div_ne_zero (foot_ne_zero p) scale.ne'
  have square : √(x * x + L3 * L3) * √(x * x + L3 * L3) = x * x + L3 * L3 :=
    mul_self_sqrt (add_nonneg (mul_self_nonneg x) (mul_self_nonneg _))
  have triangle := abs_le_iff_triangle bar1 bar2 (sqrt_nonneg (x * x + L3 * L3))
  have inner : |(L1 : ℝ) - L2| ≤ √(x * x + L3 * L3) := by
    apply le_sqrt_of_sq_le
    have := mul_self_nonneg x
    norm_num [L1, L2, L3]
    linarith
  have outer : √(x * x + L3 * L3) ≤ L1 + L2 ↔ x ^ 2 ≤ 30801.776164 := by
    rw [sqrt_le_left (add_nonneg bar1 bar2)]
    norm_num [L1, L2, L3]
    constructor <;> intro h <;> linarith [sq x]
  have pulses : x ^ 2 ≤ 30801.776164 ↔
      (952872.46425 - p : ℝ) ^ 2 ≤ 30801.776164 * Millimeter2Pulse ^ 2 := by
    rw [foot, div_pow, div_le_iff₀ (pow_pos scale 2)]
  rw [square] at triangle
  push_cast
  rw [triangle, and_iff_right nonzero, and_iff_right inner, outer, pulses, foot_square_le_iff]

end Domain

/-! ## Runs -/

/-- The position is a value reported, or 0. -/
theorem cruPosition_cruAfter {P : Int → Prop} (start : P 0) {past : List CanRxMsg}
    (replies : ∀ m ∈ past, m.Reads .getCruPos → P (framMsg m.data)) :
    P (cruAfter past).cruPosition := by
  induction past using List.reverseRecOn with
  | nil => exact start
  | append_singleton past m ih =>
      rw [cruAfter_concat, feedbackMessge_eq]
      show P (if m.Reads .getCruPos then framMsg m.data else (cruAfter past).cruPosition)
      split_ifs with reads
      · exact replies m (List.mem_append_right past List.mem_cons_self) reads
      · exact ih fun m mem => replies m (List.mem_append_left _ mem)

/-- From reset, the angle is defined after every frame exactly when every position reported is
within the reach of the bars. -/
theorem always_defined_iff (frames : List CanRxMsg) :
    (∀ past, past <+: frames → AngleDefined (.ofCru (cruAfter past))) ↔
      ∀ m ∈ frames, m.Reads .getCruPos →
        -546842 ≤ framMsg m.data ∧ framMsg m.data ≤ 2452587 := by
  constructor
  · intro always m mem reads
    obtain ⟨before, after, rfl⟩ := List.append_of_mem mem
    have inside : before ++ [m] <+: before ++ m :: after := ⟨after, by simp⟩
    have position : (cruAfter (before ++ [m])).cruPosition = framMsg m.data := by
      rw [cruAfter_concat, feedbackMessge_of_position _ reads]
    exact (angleDefined_iff_inReach _ (congrArg Int.cast position)).mp (always _ inside)
  · intro replies past inside
    have stored : InReach (cruAfter past).cruPosition :=
      cruPosition_cruAfter (by constructor <;> decide) fun m mem reads =>
        replies m (inside.subset mem) reads
    exact (angleDefined_iff_inReach _ rfl).mpr stored

/-- A position of 3000000 pulses. -/
def farReply : CanRxMsg := ⟨ID_FRONT, #v[RBYTE4, 0x63, 0x60, 0, 0xC0, 0xC6, 0x2D, 0]⟩

/-- There is no angle for it. -/
theorem farReply_undefined :
    ¬ ∀ frames past : List CanRxMsg, past <+: frames →
      AngleDefined (.ofCru (cruAfter past)) := by
  intro stated
  have defined := stated [farReply] [farReply] (List.prefix_refl _)
  have position : (cruAfter [farReply]).cruPosition = 3000000 := by decide
  have reach := (angleDefined_iff_inReach _ (congrArg Int.cast position)).mp defined
  exact absurd reach.2 (by decide)

end Stm32Robot.Motor.ExactKinematics
