/-
# Sensor.ImuReceiver -- receiving the inertial sensor on USART6

`UsartRcvIMUDataHandle` waits for a 0x55 byte, takes 33 bytes from it on and sets bit 15 of the
status word; further bytes are dropped until `MPU6050_thread` has looked at the buffer and
cleared the word.  The thread takes the buffer for three records and computes `Yaw` from bytes
28 and 29 if byte 23 is the type of the third.  Its other results are locals that nothing reads.

The receiver looks at nothing of a byte but its value.  It is therefore written for bytes that
carry anything beside the value, `val` being the value: over plain bytes it is the program,
over bytes that carry their place in a stream it tells where a `Yaw` comes from, and
`imuRun_relabel` says that the two do the same.
-/
import Mathlib.Logic.Function.Basic
import Stm32Robot.Serial.FrameReceiver

namespace Stm32Robot.Sensor

open Stm32Robot.Theory.Transducer
open Stm32Robot.Serial (complete_clear)

set_option autoImplicit false

/-- `USART6_MAX_SEND_LEN`. -/
def USART6_MAX_SEND_LEN : Nat := 400

section Receiver

variable {α : Type}

/-- `USART6_RX_STA` and `USART6_RX_BUF`. -/
structure ImuPort (α : Type) where
  rxSta : BitVec 16
  rxBuf : Nat → α

/-- The two bytes a new `Yaw` is computed from, the low one first. -/
structure YawBytes (α : Type) where
  low : α
  high : α
deriving DecidableEq

/-- A byte arrives, or the thread looks. -/
inductive ImuInput (α : Type) where
  | byte (res : α)
  | poll

variable (val : α → UInt8)

def usartRcvIMUDataHandle (p : ImuPort α) (res : α) : ImuPort α :=
  if p.rxSta &&& 0x8000 = 0 then
    if p.rxSta.toNat < USART6_MAX_SEND_LEN then
      let p :=
        if val res = 0x55 ∨ p.rxSta.toNat > 0 then
          { rxBuf := Function.update p.rxBuf p.rxSta.toNat res, rxSta := p.rxSta + 1 }
        else p
      if p.rxSta.toNat > 32 then { p with rxSta := p.rxSta ||| 0x8000 } else p
    else { p with rxSta := p.rxSta ||| 0x8000 }
  else p

/-- One turn of the loop of `MPU6050_thread`. -/
def mpu6050Turn (p : ImuPort α) : ImuPort α × List (YawBytes α) :=
  if p.rxSta &&& 0x8000 ≠ 0 then
    let yaw := if val (p.rxBuf 23) = 0x53 then [⟨p.rxBuf (6 + 22), p.rxBuf (7 + 22)⟩] else []
    ({ p with rxSta := 0 }, yaw)
  else (p, [])

def imuStep (p : ImuPort α) : ImuInput α → ImuPort α × List (YawBytes α)
  | .byte res => (usartRcvIMUDataHandle val p res, [])
  | .poll => mpu6050Turn val p

/-- `Yaw=(short)(Angle[2]*100)` for the angle `(short)(high<<8|low)/32768.0*180`; `rounded` is
what the `float` arithmetic makes of the integer. -/
def YawBytes.yaw (rounded : BitVec 16 → BitVec 16) (y : YawBytes α) : BitVec 16 :=
  rounded ((val y.high).toBitVec ++ (val y.low).toBitVec)

end Receiver

/-! ## Relabelled bytes -/

section Relabel

variable {α β : Type} (f : α → β)

def ImuPort.map (p : ImuPort α) : ImuPort β := ⟨p.rxSta, fun i => f (p.rxBuf i)⟩

def YawBytes.map (y : YawBytes α) : YawBytes β := ⟨f y.low, f y.high⟩

def ImuInput.map : ImuInput α → ImuInput β
  | .byte res => .byte (f res)
  | .poll => .poll

variable {val : α → UInt8} {val' : β → UInt8}

theorem map_usartRcvIMUDataHandle (same : ∀ a, val' (f a) = val a) (p : ImuPort α) (res : α) :
    (usartRcvIMUDataHandle val p res).map f = usartRcvIMUDataHandle val' (p.map f) (f res) := by
  have stored : (fun i => f (Function.update p.rxBuf p.rxSta.toNat res i)) =
      Function.update (fun i => f (p.rxBuf i)) p.rxSta.toNat (f res) :=
    Function.comp_update f p.rxBuf p.rxSta.toNat res
  unfold usartRcvIMUDataHandle
  simp only [ImuPort.map, same]
  split_ifs <;> simp [stored]

theorem map_mpu6050Turn (same : ∀ a, val' (f a) = val a) (p : ImuPort α) :
    mpu6050Turn val' (p.map f) = ((mpu6050Turn val p).1.map f,
      (mpu6050Turn val p).2.map (YawBytes.map f)) := by
  unfold mpu6050Turn
  simp only [ImuPort.map, same]
  split_ifs <;> rfl

/-- The receiver and the thread do not depend on what a byte carries beside its value. -/
theorem imuRun_relabel (same : ∀ a, val' (f a) = val a) (p : ImuPort α)
    (is : List (ImuInput α)) :
    emitted (imuStep val') (p.map f) (is.map (ImuInput.map f)) =
      (emitted (imuStep val) p is).map (YawBytes.map f) := by
  induction is generalizing p with
  | nil => rfl
  | cons i is ih =>
      rw [List.map_cons, emitted_cons, emitted_cons, List.map_append]
      cases i with
      | byte res =>
          have next := ih (usartRcvIMUDataHandle val p res)
          rw [map_usartRcvIMUDataHandle f same] at next
          exact next
      | poll =>
          have next := ih (mpu6050Turn val p).1
          simp only [ImuInput.map, imuStep, map_mpu6050Turn f same]
          rw [next]

end Relabel

/-! ## The status word -/

/-- The status word after `n` accepted bytes: their number, and bit 15 from the 33rd on. -/
def imuStatus (n : Nat) : Nat := if n < 33 then n else 0x8021

section Steps

variable {α : Type} {val : α → UInt8} {p : ImuPort α} {res : α}

/-- The next byte of a buffer is accepted. -/
theorem usartRcvIMUDataHandle_accept {n : Nat} (count : p.rxSta.toNat = n) (few : n < 33)
    (accepted : val res = 0x55 ∨ 0 < n) :
    (usartRcvIMUDataHandle val p res).rxSta.toNat = imuStatus (n + 1) ∧
      (usartRcvIMUDataHandle val p res).rxBuf = Function.update p.rxBuf n res := by
  subst count
  have clear : p.rxSta &&& 0x8000 = 0 := complete_clear (by omega)
  have room : p.rxSta.toNat < USART6_MAX_SEND_LEN := by rw [USART6_MAX_SEND_LEN]; omega
  have next : (p.rxSta + 1).toNat = p.rxSta.toNat + 1 := by
    rw [BitVec.toNat_add]
    show (p.rxSta.toNat + 1) % 65536 = _
    omega
  simp only [usartRcvIMUDataHandle, if_pos clear, if_pos room, gt_iff_lt, if_pos accepted, next]
  by_cases last : p.rxSta.toNat = 32
  · have full : p.rxSta = 32 := BitVec.eq_of_toNat_eq last
    rw [if_pos (by omega), full]
    exact ⟨rfl, rfl⟩
  · rw [if_neg (by omega), imuStatus, if_pos (by omega)]
    exact ⟨next, rfl⟩

/-- A byte before the first 0x55 is dropped. -/
theorem usartRcvIMUDataHandle_skip (empty : p.rxSta.toNat = 0) (other : val res ≠ 0x55) :
    usartRcvIMUDataHandle val p res = p := by
  have zero : p.rxSta = 0 := BitVec.eq_of_toNat_eq empty
  have rejected : ¬ (val res = 0x55 ∨ p.rxSta.toNat > 0) := by
    rintro (head | some)
    · exact other head
    · omega
  have few : ¬ p.rxSta.toNat > 32 := by omega
  have clear : p.rxSta &&& 0x8000 = 0 := by rw [zero]; decide
  have room : p.rxSta.toNat < USART6_MAX_SEND_LEN := by rw [empty]; decide
  simp only [usartRcvIMUDataHandle, if_pos clear, if_pos room, if_neg rejected, if_neg few]

/-- A full buffer keeps. -/
theorem usartRcvIMUDataHandle_full (full : p.rxSta.toNat = 0x8021) :
    usartRcvIMUDataHandle val p res = p := by
  have status : p.rxSta = 0x8021 := BitVec.eq_of_toNat_eq full
  exact if_neg (by rw [status]; decide)

theorem mpu6050Turn_full (full : p.rxSta.toNat = 0x8021) :
    mpu6050Turn val p = ({ p with rxSta := 0 },
      if val (p.rxBuf 23) = 0x53 then [⟨p.rxBuf 28, p.rxBuf 29⟩] else []) := by
  have status : p.rxSta = 0x8021 := BitVec.eq_of_toNat_eq full
  exact if_pos (by rw [status]; decide)

theorem mpu6050Turn_waiting (few : p.rxSta.toNat < 33) : mpu6050Turn val p = (p, []) :=
  if_neg (not_not.mpr (complete_clear (by omega)))

end Steps

end Stm32Robot.Sensor
