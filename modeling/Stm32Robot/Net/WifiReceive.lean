/-
# Net.WifiReceive -- the receive step of the WiFi thread

`atk_8266_wifiap_test` looks at a burst in `USART3_RX_BUF` as at a C string: it terminates the
burst, searches it for `IPD` and then for a head byte, and calls `MessageHandle` with a pointer
to the head byte and the length the fifth byte from there tells, wherever that byte lies.
-/
import Mathlib.Data.List.Infix
import Mathlib.Tactic.SplitIfs
import Stm32Robot.Serial.FrameReceiver

namespace Stm32Robot.Net

open Stm32Robot.Theory.Bytes
open Stm32Robot.Motor.Message
open Stm32Robot.Serial (store)

set_option autoImplicit false

/-- `USART3_MAX_RECV_LEN`. -/
def USART3_MAX_RECV_LEN : Nat := 200

/-- The bytes of a C string, up to its terminator at `n` at the latest. -/
def cString (mem : Nat → UInt8) (n : Nat) : List UInt8 := (taken mem n).takeWhile (· ≠ 0)

/-- `strstr` as a test. -/
def strstr (text word : List UInt8) : Bool := decide (word <:+: text)

/-- `strchr` as an offset. -/
def strchr (text : List UInt8) (c : UInt8) : Option Nat := text.findIdx? (· = c)

/-- The string `"IPD"`. -/
def IPD : List UInt8 := [0x49, 0x50, 0x44]

/-- The memory from `USART3_RX_BUF` on, the 200 bytes of the buffer and what lies behind
them, and the length of the burst. -/
structure Burst where
  mem : Nat → UInt8
  rlen : Nat

namespace Burst

variable (b : Burst)

/-- The memory with the burst terminated. -/
def terminated : Nat → UInt8 := store b.mem b.rlen 0

/-- The burst as a C string. -/
def text : List UInt8 := cString b.terminated b.rlen

/-- The call the step makes, with the offset of its pointer in the buffer. -/
def receive : Option (Nat × Call) :=
  if strstr b.text IPD then
    match strchr b.text 0xAA with
    | some p =>
        some (p, ⟨fun i => b.terminated (p + i), (b.terminated (p + 4)).toNat + EXTERN_BUFSIZE⟩)
    | none => none
  else none

/-- It calls `MessageHandle` exactly for a burst with `IPD` and a head byte in it. -/
theorem receive_eq_some_iff {p : Nat} {c : Call} :
    b.receive = some (p, c) ↔ strstr b.text IPD = true ∧ strchr b.text 0xAA = some p ∧
      c = ⟨fun i => b.terminated (p + i), (b.terminated (p + 4)).toNat + EXTERN_BUFSIZE⟩ := by
  unfold receive
  split_ifs with packet
  · cases strchr b.text 0xAA with
    | none => simp
    | some q =>
        simp only [Option.some.injEq, Prod.mk.injEq, packet, true_and]
        constructor
        · rintro ⟨rfl, rfl⟩
          exact ⟨rfl, rfl⟩
        · rintro ⟨rfl, rfl⟩
          exact ⟨rfl, rfl⟩
  · simp [packet]

end Burst

end Stm32Robot.Net
