/-
# Motor.VelocityEcho -- a wheel speed on its way to a drive and back

`setVelocityFram` multiplies a wheel speed by `DEC` and writes it into a frame; a drive that
turns as it was told sends the same four bytes back; `getVelocity` takes the difference of the
two wheels and divides by 2 and by `DEC`.  Nothing is lost on the way: for speeds up to 193900
the products and the difference stay inside a C `int`, and the result is the half difference
of the two speeds, truncated (`velocity_echo`).

The wheel speeds of all commands are in that range, at every position `getCurAngle` has an angle
for.  kinematics.c computes them in `float`, so what is asked of it there is to come within 1000 of
the exact value; it stays well inside that even at the ends of the reach, where a rounding of the
argument of `acos` moves the angle most.  Elsewhere it casts a NaN to `int`, of which nothing is
said here.
-/
import Mathlib.Tactic.IntervalCases
import Stm32Robot.Motor.AngleDomain
import Stm32Robot.Motor.ClosedLoop
import Stm32Robot.Motor.SpeedLimit

namespace Stm32Robot.Motor.ExactKinematics

open Real
open Stm32Robot.Motor.ConvertData
open Stm32Robot.Motor.Driver
open Stm32Robot.Motor.Message (Kinematics PI vRatio motionSpeed angleMotionSpeed)

set_option autoImplicit false

/-! ## The echo -/

/-- A read reply of `GetVelocity` with the last four bytes of the frame that set the speed. -/
structure Echoes (m : CanRxMsg) (ID v : Int) : Prop where
  sender : m.stdId = ID
  reads : m.Reads .getVelocity
  bytes : ∀ i, 4 ≤ i → m.data[i]? = (setVelocityFram v)[i]?

section Echo

variable {v vL vR : Int} {left right : CanRxMsg}

theorem fitsInt_mul_DEC (slow : |v| ≤ 193900) : FitsInt (v * DEC) := by
  have := abs_le.mp slow
  constructor <;> simp only [DEC] <;> omega

theorem fitsInt_difference (slowL : |vL| ≤ 193900) (slowR : |vR| ≤ 193900) :
    FitsInt (vL * DEC - vR * DEC) := by
  have := abs_le.mp slowL
  have := abs_le.mp slowR
  constructor <;> simp only [DEC] <;> omega

theorem framMsg_of_echoes {m : CanRxMsg} {ID : Int} (echo : Echoes m ID v)
    (slow : |v| ≤ 193900) : framMsg m.data = v * DEC := by
  rw [framMsg_congr echo.bytes]
  exact framMsg_of_fits (fitsInt_mul_DEC slow)

theorem feedbackMessge_of_echoes {m : CanRxMsg} {ID : Int} (echo : Echoes m ID v)
    (slow : |v| ≤ 193900) (c : Cru) :
    feedbackMessge m.stdId m.data c = setCruVelocity (v * DEC) ID c := by
  rw [feedbackMessge_of_velocity c echo.reads, framMsg_of_echoes echo slow, echo.sender]

/-- Both wheels have answered, in either order. -/
theorem feedbackMessge_echoes (fromLeft : Echoes left ID_LEFT vL)
    (fromRight : Echoes right ID_RIGHT vR) (slowL : |vL| ≤ 193900) (slowR : |vR| ≤ 193900)
    {answers : List CanRxMsg} (both : answers = [left, right] ∨ answers = [right, left]) (c : Cru) :
    answers.foldl (fun c m => feedbackMessge m.stdId m.data c) c =
      { c with cruLeftVelocity := vL * DEC, cruRightVelocity := vR * DEC } := by
  have ofLeft := feedbackMessge_of_echoes fromLeft slowL
  have ofRight := feedbackMessge_of_echoes fromRight slowR
  rcases both with rfl | rfl
  · simp [ofLeft, ofRight, setCruVelocity, ID_LEFT, ID_RIGHT]
  · simp [ofLeft, ofRight, setCruVelocity, ID_LEFT, ID_RIGHT]

/-- Truncation towards zero divides by one divisor after the other. -/
theorem tdiv_tdiv_natCast (x : Int) (m n : Nat) :
    (x.tdiv m).tdiv n = x.tdiv (m * n : Nat) := by
  have natural (a : Nat) : ((a : Int).tdiv m).tdiv n = (a : Int).tdiv (m * n : Nat) := by
    show ((a / m / n : Nat) : Int) = (a / (m * n) : Nat)
    rw [Nat.div_div_eq_div_mul]
  obtain ⟨a, rfl | rfl⟩ := x.eq_nat_or_neg
  · exact natural a
  · simp only [Int.neg_tdiv, natural]

theorem getVelocity_of_multiples (pos : Int) :
    getVelocity ⟨pos, vL * DEC, vR * DEC⟩ = (vL - vR).tdiv 2 := by
  simp only [getVelocity, DEC, ← Int.sub_mul]
  have divisors := tdiv_tdiv_natCast ((vL - vR) * 2731) 2 2731
  rw [Nat.cast_mul] at divisors
  exact divisors.trans (Int.mul_tdiv_mul_of_pos_left _ _ (by decide))

end Echo

/-! ## The range of the wheel speeds -/

/-- For the speeds a payload can encode and the positions within the reach of the bars, rounding
moves a wheel speed by at most 1000. -/
def Approximates (k : Kinematics) : Prop :=
  ∀ (c : Cru) (v : ℚ), InReach c.cruPosition → |v| ≤ 65536 →
    |(k.getExpLeftVelocity c v : ℝ) - getExpLeftVelocity (.ofCru c) v| ≤ 1000 ∧
      |(k.getExpRightVelocity c v : ℝ) - getExpRightVelocity (.ofCru c) v| ≤ 1000

section Range

variable {v : ℝ}

/-- A sine and a cosine, the sine weighted by the geometry of the axle. -/
theorem abs_axle_le (d : ℝ) :
    |cos d - Width * sin d / Length| ≤ 1.1406 ∧ |cos d + Width * sin d / Length| ≤ 1.1406 := by
  have circle := sin_sq_add_cos_sq d
  have weight : (Width : ℝ) / Length ≤ 0.5486 := by norm_num [Width, Length]
  have positive : (0 : ℝ) ≤ Width / Length := by norm_num [Width, Length]
  -- the other projection of the same two is what is left of the square
  have square {t : ℝ} (bound : t ^ 2 ≤ 0.5486 ^ 2) : |cos d + t * sin d| ≤ 1.1406 := by
    apply abs_le_of_sq_le_sq _ (by norm_num)
    have other := sq_nonneg (sin d - t * cos d)
    nlinarith
  have side : ((Width : ℝ) / Length) ^ 2 ≤ 0.5486 ^ 2 := pow_le_pow_left₀ positive weight 2
  constructor
  · have left := square (t := -(Width / Length)) (by rwa [neg_sq])
    rwa [neg_mul, ← sub_eq_add_neg, ← mul_div_right_comm] at left
  · have right := square side
    rwa [← mul_div_right_comm] at right

theorem abs_wheel_le {axle : ℝ} (slow : |v| ≤ 65536) (bound : |axle| ≤ 1.1406) :
    |v * vRatioa * axle| ≤ 142800 := by
  have ratio : |(vRatioa : ℝ)| ≤ 1.90986 := by
    rw [abs_of_pos vRatioa_pos]
    norm_num [vRatioa, PI]
  rw [abs_mul, abs_mul]
  calc |v| * |(vRatioa : ℝ)| * |axle| ≤ 65536 * 1.90986 * 1.1406 := by gcongr
    _ ≤ 142800 := by norm_num

theorem abs_wheels_le (c : Cru) (slow : |v| ≤ 65536) :
    |getExpLeftVelocity (.ofCru c) v| ≤ 142800 ∧ |getExpRightVelocity (.ofCru c) v| ≤ 142800 := by
  obtain ⟨left, right⟩ := abs_axle_le (getCurAngle (.ofCru c))
  exact ⟨abs_wheel_le slow left, abs_wheel_le (by rwa [abs_neg]) right⟩

end Range

/-- The wheel speeds of a speed a payload can encode. -/
theorem abs_wheelSpeeds_le {k : Kinematics} (near : Approximates k) {c : Cru}
    (reach : InReach c.cruPosition) {v : ℚ} (slow : |v| ≤ 65536) :
    |k.getExpLeftVelocity c v| ≤ 193900 ∧ |k.getExpRightVelocity c v| ≤ 193900 := by
  have slowReal : |(v : ℝ)| ≤ 65536 := by exact_mod_cast slow
  obtain ⟨left, right⟩ := abs_wheels_le c slowReal
  obtain ⟨nearLeft, nearRight⟩ := near c v reach slow
  have triangle {x : Int} {y : ℝ} (close : |(x : ℝ) - y| ≤ 1000) (bound : |y| ≤ 142800) :
      |x| ≤ 193900 := by
    have whole : |(x : ℝ)| ≤ 193900 := by
      have := abs_sub_abs_le_abs_sub (x : ℝ) y
      linarith
    exact_mod_cast whole
  exact ⟨triangle nearLeft left, triangle nearRight right⟩

/-- A signed 16-bit field. -/
theorem abs_short_le (x : BitVec 16) : |(x.toInt : ℚ)| ≤ 32768 := by
  have lower := BitVec.le_toInt x
  have upper := BitVec.toInt_lt (x := x)
  rw [abs_le]
  constructor
  · norm_cast
  · norm_cast
    omega

theorem abs_encoded_le (data : Nat → UInt8) :
    |angleMotionSpeed data| ≤ 65536 ∧ |motionSpeed data| ≤ 65536 := by
  constructor
  · have raw := abs_short_le (hexbyte2short fun i => data (2 + i))
    have ratio : vRatio = 2 := by decide +kernel
    rw [angleMotionSpeed, ratio, abs_mul, abs_two]
    linarith
  · exact (Message.abs_motionSpeed_le data).trans (by norm_num)

/-- Rounding towards zero comes close enough. -/
theorem approximates_exact : Approximates exact := by
  intro c v _ _
  exact ⟨(abs_truncate_sub_le _).trans (by norm_num), (abs_truncate_sub_le _).trans (by norm_num)⟩

/-- For wheel speeds up to 193900 nothing overflows and the feedback is the half difference of
the two, whichever wheel answers first; and the wheel speeds of every command are in that
range, at every position within the reach of the bars. -/
theorem velocity_echo :
    (∀ vL vR : Int, |vL| ≤ 193900 → |vR| ≤ 193900 →
      FitsInt (vL * DEC) ∧ FitsInt (vR * DEC) ∧
        ∀ (left right : CanRxMsg), Echoes left ID_LEFT vL → Echoes right ID_RIGHT vR →
          ∀ (answers : List CanRxMsg), answers = [left, right] ∨ answers = [right, left] →
            ∀ c : Cru, let after := answers.foldl (fun c m => feedbackMessge m.stdId m.data c) c
              FitsInt (after.cruLeftVelocity - after.cruRightVelocity) ∧
                getVelocity after = (vL - vR).tdiv 2) ∧
    ∀ (k : Kinematics), Approximates k →
      ∀ (c : Cru), InReach c.cruPosition → ∀ (data : Nat → UInt8),
        ∀ v ∈ [angleMotionSpeed data, motionSpeed data],
          |k.getExpLeftVelocity c v| ≤ 193900 ∧ |k.getExpRightVelocity c v| ≤ 193900 := by
  refine ⟨?_, ?_⟩
  · intro vL vR slowL slowR
    refine ⟨fitsInt_mul_DEC slowL, fitsInt_mul_DEC slowR, ?_⟩
    intro left right fromLeft fromRight answers both c
    simp only [feedbackMessge_echoes fromLeft fromRight slowL slowR both c]
    exact ⟨fitsInt_difference slowL slowR, getVelocity_of_multiples c.cruPosition⟩
  · intro k near c reach data v encoded
    obtain ⟨angle, motion⟩ := abs_encoded_le data
    simp only [List.mem_cons, List.not_mem_nil, or_false] at encoded
    rcases encoded with rfl | rfl
    · exact abs_wheelSpeeds_le near reach angle
    · exact abs_wheelSpeeds_le near reach motion

/-- The reply of a drive that turns as it was told. -/
theorem echoes_reply (ID v : Int) :
    Echoes ⟨ID, setSendFramData RBYTE4 KincoCmd.getVelocity.code (v * DEC)⟩ ID v := by
  obtain ⟨header, object⟩ := setSendFramData_header RBYTE4 .getVelocity (v * DEC)
  refine ⟨rfl, ⟨.inr (.inr header), object⟩, ?_⟩
  intro i lower
  rcases lt_or_ge i 8 with inside | outside
  · interval_cases i <;> rfl
  · rw [Vector.getElem?_eq_none outside, Vector.getElem?_eq_none outside]

/-- An odd difference close to the bound, and the wheel speed of a motion command. -/
theorem velocity_echo_odd :
    let left : CanRxMsg :=
      ⟨ID_LEFT, setSendFramData RBYTE4 KincoCmd.getVelocity.code (193900 * DEC)⟩
    let right : CanRxMsg :=
      ⟨ID_RIGHT, setSendFramData RBYTE4 KincoCmd.getVelocity.code (-193899 * DEC)⟩
    getVelocity ([right, left].foldl (fun c m => feedbackMessge m.stdId m.data c) ⟨0, 0, 0⟩) =
        193899 ∧
      |exact.getExpLeftVelocity ⟨0, 0, 0⟩ (motionSpeed gentleTurn)| ≤ 193900 := by
  obtain ⟨-, -, echo⟩ := velocity_echo.1 193900 (-193899) (by decide) (by decide)
  have range := velocity_echo.2 exact approximates_exact ⟨0, 0, 0⟩ (by decide) gentleTurn
  refine ⟨?_, (range _ (List.mem_cons_of_mem _ List.mem_cons_self)).1⟩
  exact (echo _ _ (echoes_reply _ _) (echoes_reply _ _) _ (.inr rfl) ⟨0, 0, 0⟩).2

end Stm32Robot.Motor.ExactKinematics
