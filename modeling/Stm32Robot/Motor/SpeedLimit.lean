/-
# Motor.SpeedLimit -- the speed handed to the wheel speed functions

`MotionCmdHandle` clamps the speed of a 0x80 frame to one metre per second.
`AngleMotionCmdHandle` scales that of a 0x60 frame by `vRatio`, which is 2 because
`1000*1/340` divides integers, and clamps nothing: the limit then depends on the peer
sending no raw value beyond 500 (`speedLimit_iff`).
-/
import Mathlib.Algebra.Order.Ring.Abs
import Mathlib.Tactic.Linarith
import Stm32Robot.Motor.ControlMode

namespace Stm32Robot.Motor.Message

open Stm32Robot.Theory.Bytes
open Stm32Robot.Motor.ConvertData

set_option autoImplicit false

/-! ## The speed of each handler -/

theorem hexbyte2short_congr {p q : Nat → UInt8} (high : p 0 = q 0) (low : p 1 = q 1) :
    hexbyte2short p = hexbyte2short q := by
  rw [hexbyte2short, hexbyte2short, high, low]

theorem abs_motionSpeed_le (data : Nat → UInt8) : |motionSpeed data| ≤ 1000 := by
  rw [motionSpeed, abs_le]
  split_ifs with above below
  · norm_num
  · norm_num
  · exact ⟨not_lt.mp below, not_lt.mp above⟩

/-- The scaled speed is in bounds exactly when the raw value is within 500. -/
theorem abs_angleMotionSpeed_le_iff (data : Nat → UInt8) :
    |angleMotionSpeed data| ≤ 1000 ↔ |(hexbyte2short fun i => data (2 + i)).toInt| ≤ 500 := by
  have ratio : vRatio = 2 := by decide
  rw [angleMotionSpeed, ratio, abs_mul]
  constructor
  · intro bounded
    have half : |((hexbyte2short fun i => data (2 + i)).toInt : ℚ)| ≤ 500 := by
      rw [abs_of_pos (by norm_num : (0 : ℚ) < 2)] at bounded
      linarith
    exact_mod_cast half
  · intro bounded
    have cast : |((hexbyte2short fun i => data (2 + i)).toInt : ℚ)| ≤ 500 := by
      exact_mod_cast bounded
    rw [abs_of_pos (by norm_num : (0 : ℚ) < 2)]
    linarith

/-! ## An accepted motion command -/

section Frame

variable (k : Kinematics) (w : World) (f : AcceptedFrame)

/-- The speed field of a motion command, bytes 2 and 3 of the payload. -/
def AcceptedFrame.rawSpeed (f : AcceptedFrame) : Int :=
  (hexbyte2short fun i => f.msg (7 + i)).toInt

theorem AcceptedFrame.rawSpeed_eq {f : AcceptedFrame} (four : f.len = 10) :
    (hexbyte2short fun i => f.rxMsg.data (2 + i)).toInt = f.rawSpeed := by
  have high : f.rxMsg.data 2 = f.msg 7 := data_loadRxMsg _ (by omega) (by omega)
  have low : f.rxMsg.data 3 = f.msg 8 := data_loadRxMsg _ (by omega) (by omega)
  have same : (hexbyte2short fun i => f.rxMsg.data (2 + i)) =
      hexbyte2short fun i => f.msg (7 + i) := hexbyte2short_congr high low
  rw [AcceptedFrame.rawSpeed, same]

/-- A call hands the speed of its motion to both wheel speed functions, and no other. -/
theorem speeds_messageStep :
    speeds (messageStep k w f).2 = wheelSpeeds (motionOf k w.isAuto f.rxMsg) := by
  obtain ⟨reply, log⟩ := log_accept k f.locals f.rxMsg (f.meanwhile.apply w)
  have dispatched := speeds_dispatchEvents k f.locals.feedBackMsg' f.rxMsg (f.meanwhile.apply w)
  rw [messageStep_eq, log, Meanwhile.log_apply, List.nil_append]
  simp only [speeds_append, speeds_parityEvents, speeds_feedbackEvents, dispatched,
    List.nil_append, Meanwhile.isAuto_apply]

theorem len_rxMsg_of_four {f : AcceptedFrame} (four : f.len = 10) : f.rxMsg.len = 0x4 := by
  obtain ⟨long, -, total⟩ := f.framed
  have stored : f.rxMsg.len = f.msg 4 := len_loadRxMsg _ long
  rw [stored, ← UInt8.toNat_inj]
  show (f.msg 4).toNat = 4
  omega

/-- For a motion command with a four-byte payload, in whatever mode, every speed passed on is
within 1000 mm/s exactly when the frame is a 0x80 frame, or is ignored, or asks for a raw
speed within 500. -/
theorem speedLimit_iff (command : f.cmd = 0x60 ∨ f.cmd = 0x80) (four : f.len = 10) :
    (∀ v ∈ speeds (messageStep k w f).2, |v| ≤ 1000) ↔
      (f.cmd = 0x80 ∨ w.isAuto ≠ 0 ∨ |f.rawSpeed| ≤ 500) := by
  have length := len_rxMsg_of_four four
  rw [speeds_messageStep, motionOf, if_neg (not_not.mpr length), f.cmd_rxMsg]
  rcases command with angle | motion
  · have other : ¬ f.cmd = 0x80 := by rw [angle]; decide
    by_cases manual : w.isAuto = 0
    · rw [if_pos ⟨angle, manual⟩, ← AcceptedFrame.rawSpeed_eq four]
      simp only [wheelSpeeds, List.mem_cons, List.not_mem_nil, or_false, or_self, forall_eq, other,
        manual, ne_eq, not_true_eq_false, false_or]
      exact abs_angleMotionSpeed_le_iff f.rxMsg.data
    · simp [wheelSpeeds, other, manual]
  · have other : ¬ f.cmd = 0x60 := by rw [motion]; decide
    by_cases auto : w.isAuto ≠ 0
    · rw [if_neg fun both => other both.1, if_pos ⟨motion, auto⟩]
      simp only [wheelSpeeds, List.mem_cons, List.not_mem_nil, or_false, or_self, forall_eq, motion,
        true_or, iff_true]
      exact abs_motionSpeed_le f.rxMsg.data
    · rw [if_neg fun both => other both.1, if_neg fun both => auto both.2]
      simp [wheelSpeeds, motion]

end Frame

/-- A manual command that asks for a raw speed of 501. -/
def fastFrame : AcceptedFrame where
  msg := ofList [0xAA, 0, 0x60, 0, 4, 0, 0, 0x01, 0xF5, 0xF4]
  len := 10
  framed := by decide
  fits := by decide
  locals := .zero
  meanwhile := ⟨World.powerUp.dcq, World.powerUp.fmq, World.powerUp.cru, 0⟩

/-- In automatic mode it is ignored and the limit is kept. -/
theorem speedLimit_iff_ignored :
    500 < |fastFrame.rawSpeed| ∧
      ∀ v ∈ speeds (messageStep .still { World.powerUp with isAuto := 1 } fastFrame).2,
        |v| ≤ 1000 :=
  ⟨by decide,
    (speedLimit_iff .still { World.powerUp with isAuto := 1 } fastFrame (Or.inl rfl) rfl).mpr
      (Or.inr (Or.inl (by decide)))⟩

/-- In manual mode it drives the wheels at 1002 mm/s. -/
theorem fastFrame_exceeds_limit :
    ¬ ∀ (k : Kinematics) (w : World) (f : AcceptedFrame), f.cmd = 0x60 ∨ f.cmd = 0x80 →
      f.len = 10 → ∀ v ∈ speeds (messageStep k w f).2, |v| ≤ 1000 := by
  intro stated
  have limit := stated .still .powerUp fastFrame (Or.inl rfl) rfl
    (angleMotionSpeed fastFrame.rxMsg.data)
  have driven : angleMotionSpeed fastFrame.rxMsg.data ∈
      speeds (messageStep .still .powerUp fastFrame).2 := by
    rw [speeds_messageStep]
    exact List.mem_cons_self
  have bounded := (abs_angleMotionSpeed_le_iff _).mp (limit driven)
  exact absurd bounded (by decide)

end Stm32Robot.Motor.Message
