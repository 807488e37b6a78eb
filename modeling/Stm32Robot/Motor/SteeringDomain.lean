/-
# Motor.SteeringDomain -- the argument of asin

`getExpPosition` steers by `asin(w*Length/v)`, which is a number only while the turn asked
for is no tighter than the robot is long.  `MotionCmdHandle` clamps the rate of turn and the
speed one by one, `getExpPosition` keeps clear of a speed of zero and `Angle2Position` clamps
the angle afterwards; nothing clamps the quotient.  `asinDefined_iff` gives the payloads that
keep it in the domain, in the two raw fields.
-/
import Stm32Robot.Motor.ExactKinematics
import Stm32Robot.Motor.SpeedLimit

namespace Stm32Robot.Motor.Message

open Stm32Robot.Theory.Bytes
open Stm32Robot.Motor.ConvertData
open Stm32Robot.Motor.ExactKinematics (Length)

set_option autoImplicit false

/-- An accepted motion command of automatic mode with a four-byte payload. -/
structure MotionFrame extends AcceptedFrame where
  command : toAcceptedFrame.cmd = 0x80
  four : len = 10

/-- The quotient in `getExpPosition` is in the domain of `asin` wherever it is computed. -/
def AsinDefined (w v : ℚ) : Prop := 0.0001 ≤ |v| → |w * Length / v| ≤ 1

/-! ## The two fields after the clamps -/

theorem abs_clamp {x bound : ℚ} (sign : 0 ≤ bound) :
    |if x > bound then bound else if x < -bound then -bound else x| = min |x| bound := by
  split_ifs with above below
  · rw [abs_of_nonneg sign, min_eq_right ((le_of_lt above).trans (le_abs_self x))]
  · rw [abs_neg, abs_of_nonneg sign, min_eq_right]
    exact le_abs.mpr (.inr (le_neg_of_le_neg below.le))
  · exact (min_eq_left (abs_le.mpr ⟨not_lt.mp below, not_lt.mp above⟩)).symm

section Fields

variable (data : Nat → UInt8)

theorem abs_motionSpeed :
    |motionSpeed data| = (min |(hexbyte2short fun i => data (2 + i)).toInt| 1000 : Int) := by
  rw [motionSpeed, abs_clamp (by norm_num)]
  push_cast
  rfl

theorem abs_motionAngleVel :
    |motionAngleVel data| = (min |(hexbyte2short data).toInt| 5000 : Int) / 10000 := by
  have half : (1 / 2 : ℚ) = 5000 / 10000 := by norm_num
  have scale : (0 : ℚ) < 10000 := by norm_num
  rw [motionAngleVel, abs_clamp (by norm_num), wRatio, half, mul_one_div, abs_div,
    abs_of_pos scale, min_div_div_right scale.le]
  push_cast
  rfl

end Fields

/-- With a speed, the domain is a wedge. -/
theorem asinDefined_iff_of_ne {w v : ℚ} (fast : 0.0001 ≤ |v|) :
    AsinDefined w v ↔ 556 * |w| ≤ |v| := by
  have moving : 0 < |v| := lt_of_lt_of_le (by norm_num) fast
  have length : |Length| = 556 := by decide +kernel
  rw [AsinDefined, abs_div, abs_mul, length, div_le_one moving, mul_comm]
  exact ⟨fun wedge => wedge fast, fun wedge _ => wedge⟩

/-! ## Motion frames -/

namespace MotionFrame

variable (f : MotionFrame)

/-- The rate of turn field, bytes 0 and 1 of the payload. -/
def rawAngleVel : Int := (hexbyte2short fun i => f.msg (5 + i)).toInt

/-- `w` and `v` of the handler. -/
def angleVel : ℚ := motionAngleVel f.rxMsg.data
def speed : ℚ := motionSpeed f.rxMsg.data

/-- They are what `getExpPosition` is called with. -/
theorem motionOf_eq (k : Kinematics) {isAuto : UInt8} (auto : isAuto ≠ 0) :
    motionOf k isAuto f.rxMsg = some (k.getExpPosition f.angleVel f.speed, f.speed) := by
  have length := len_rxMsg_of_four f.four
  have other : ¬ f.rxMsg.cmd = 0x60 := by rw [f.cmd_rxMsg, f.command]; decide
  rw [motionOf, if_neg (not_not.mpr length), if_neg fun both => other both.1,
    if_pos ⟨f.cmd_rxMsg.trans f.command, auto⟩]
  rfl

theorem rawAngleVel_eq : (hexbyte2short f.rxMsg.data).toInt = f.rawAngleVel := by
  have four := f.four
  have high : f.rxMsg.data 0 = f.msg 5 := data_loadRxMsg _ (by omega) (by omega)
  have low : f.rxMsg.data 1 = f.msg 6 := data_loadRxMsg _ (by omega) (by omega)
  have same : hexbyte2short f.rxMsg.data = hexbyte2short fun i => f.msg (5 + i) :=
    hexbyte2short_congr high low
  rw [rawAngleVel, same]

theorem abs_speed : |f.speed| = (min |f.rawSpeed| 1000 : Int) := by
  rw [speed, abs_motionSpeed, AcceptedFrame.rawSpeed_eq f.four]

theorem abs_angleVel : |f.angleVel| = (min |f.rawAngleVel| 5000 : Int) / 10000 := by
  rw [angleVel, abs_motionAngleVel, rawAngleVel_eq]

/-- The argument of `asin` is in its domain exactly when the speed field is zero or the rate
of turn, clamped, is within the wedge of the speed, clamped. -/
theorem asinDefined_iff :
    AsinDefined f.angleVel f.speed ↔
      f.rawSpeed = 0 ∨ 139 * min |f.rawAngleVel| 5000 ≤ 2500 * min |f.rawSpeed| 1000 := by
  by_cases stopped : f.rawSpeed = 0
  · have still : |f.speed| = 0 := by rw [abs_speed, stopped]; rfl
    refine iff_of_true ?_ (.inl stopped)
    intro fast
    rw [still] at fast
    norm_num at fast
  · have raw : 1 ≤ min |f.rawSpeed| 1000 := le_min (Int.one_le_abs stopped) (by norm_num)
    have moving : 1 ≤ |f.speed| := by
      rw [abs_speed]
      exact_mod_cast raw
    rw [asinDefined_iff_of_ne (by linarith), abs_speed, abs_angleVel, or_iff_right stopped,
      ← mul_div_assoc, div_le_iff₀ (by norm_num)]
    generalize min |f.rawAngleVel| 5000 = turn
    generalize min |f.rawSpeed| 1000 = pace
    have whole : ((556 * turn : Int) : ℚ) ≤ (pace * 10000 : Int) ↔ _ := Int.cast_le
    push_cast at whole
    rw [whole]
    omega

end MotionFrame

/-- Half a radian a second at a crawl: a raw rate of 5000 and a raw speed of 100. -/
def tightFrame : MotionFrame where
  msg := ofList [0xAA, 0, 0x80, 0, 4, 0x13, 0x88, 0x00, 0x64, 0xFF]
  len := 10
  framed := by decide
  fits := fastFrame.fits
  locals := .zero
  meanwhile := ⟨World.powerUp.dcq, World.powerUp.fmq, World.powerUp.cru, 0⟩
  command := by decide
  four := rfl

theorem tightFrame_outside : ¬ ∀ f : MotionFrame, AsinDefined f.angleVel f.speed := by
  intro stated
  have turn : tightFrame.angleVel = 1 / 2 := by decide +kernel
  have pace : tightFrame.speed = 100 := by decide +kernel
  have inside := stated tightFrame
  rw [turn, pace, asinDefined_iff_of_ne (by norm_num)] at inside
  norm_num at inside

end Stm32Robot.Motor.Message
