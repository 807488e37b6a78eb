/-
# Motor.Frame -- a message on the wire

A frame is `0xAA, Seq, Cmd, state, len`, a payload of `len` bytes and a check byte.  The
length byte is not a field: it is the length of the payload, at most the 126 bytes an `STM`
has room for.
-/
import Mathlib.Data.List.Forall2
import Stm32Robot.Theory.Bytes

namespace Stm32Robot.Motor.Message

open Stm32Robot.Theory.Bytes

set_option autoImplicit false

/-- The bytes of a frame around its payload. -/
def EXTERN_BUFSIZE : Nat := 6

structure Frame where
  seq : UInt8
  cmd : UInt8
  state : UInt8
  payload : List UInt8
  check : UInt8
  fits : payload.length ≤ 126

namespace Frame

def len (f : Frame) : UInt8 := UInt8.ofNat f.payload.length

def bytes (f : Frame) : List UInt8 :=
  [0xAA, f.seq, f.cmd, f.state, f.len] ++ f.payload ++ [f.check]

/-- The check byte is the parity of the payload. -/
def Sealed (f : Frame) : Prop := xorOf (ofList f.payload) f.payload.length = f.check

variable (f : Frame)

@[simp] theorem length_bytes : f.bytes.length = f.payload.length + 6 := by
  simp [bytes]

theorem toNat_len : f.len.toNat = f.payload.length := by
  have := f.fits
  rw [len, UInt8.toNat_ofNat']
  omega

theorem bytes_eq_cons : ∃ rest, f.bytes = 0xAA :: rest := ⟨_, rfl⟩

/-- A request for feedback, which has no payload. -/
def feedbackRequest : Frame := ⟨0, 0x81, 0, [], 0, by decide⟩

theorem getElem_four (h : 4 < f.bytes.length) : f.bytes[4] = f.len := rfl

end Frame

/-! ## Calls that hand over a frame -/

/-- A call `MessageHandle(msg, len)`. -/
structure Call where
  msg : Nat → UInt8
  len : Nat

def Call.bytes (c : Call) : List UInt8 := taken c.msg c.len

/-- The call hands over the frame: its length is right and its buffer begins with it. -/
def Call.Delivers (c : Call) (f : Frame) : Prop :=
  c.len = f.payload.length + 6 ∧ ∀ i (h : i < f.bytes.length), c.msg i = f.bytes[i]

theorem Call.bytes_eq_iff {c : Call} {f : Frame} : c.bytes = f.bytes ↔ c.Delivers f := by
  constructor
  · intro same
    have length : c.len = f.bytes.length := by rw [← same, Call.bytes, length_taken]
    rw [Call.bytes, length] at same
    exact ⟨by rw [length, Frame.length_bytes], taken_eq_iff.mp same⟩
  · rintro ⟨length, same⟩
    rw [Call.bytes, length, ← Frame.length_bytes]
    exact taken_eq_iff.mpr same

/-- The calls hand over the frames, one each, in order. -/
theorem delivers_iff {calls : List Call} {fs : List Frame} :
    List.Forall₂ Call.Delivers calls fs ↔ calls.map Call.bytes = fs.map Frame.bytes := by
  have pointwise : Call.Delivers = fun c f => c.bytes = f.bytes := by
    funext c f
    exact propext Call.bytes_eq_iff.symm
  calc List.Forall₂ Call.Delivers calls fs
      ↔ List.Forall₂ (· = ·) (calls.map Call.bytes) (fs.map Frame.bytes) := by
        rw [pointwise, List.forall₂_map_left_iff, List.forall₂_map_right_iff]
    _ ↔ calls.map Call.bytes = fs.map Frame.bytes := by rw [List.forall₂_eq_eq_eq]

end Stm32Robot.Motor.Message
