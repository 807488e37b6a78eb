/-
# Motor.Codec -- the frame fields and the wire integers, there and back

`setSendFramData` writes a command, an object and a parameter byte by byte through pointers;
`FeedbackMessge` shifts the object together and stores the parameter.  The two are inverse:
`frame_codec`.

`hexbyte2short` and `hexbyte2int` shift bytes together, the high one first.  `short2hexbyte`
writes them in that order.  `int2hexbyte` does not, and its parameter is a `short`: it writes
the two bytes of that, the low one first, and two more from behind it.
-/
import Mathlib.Tactic.IntervalCases
import Stm32Robot.Motor.ConvertData
import Stm32Robot.Motor.Driver

namespace Stm32Robot.Motor

open Stm32Robot.Theory.Bytes
open Stm32Robot.Motor.ConvertData
open Stm32Robot.Motor.Driver

set_option autoImplicit false

/-! ## Words from bytes -/

/-- Four bytes, the highest first. -/
def word (a b c d : UInt8) : BitVec 32 :=
  a.toBitVec ++ b.toBitVec ++ c.toBitVec ++ d.toBitVec

section Words

variable (a b c d : UInt8)

theorem toNat_word :
    (word a b c d).toNat = ((a.toNat * 256 + b.toNat) * 256 + c.toNat) * 256 + d.toNat := by
  have small (e : UInt8) : e.toBitVec.toNat < 2 ^ 8 := e.toBitVec.isLt
  rw [word, BitVec.toNat_append, BitVec.toNat_append, BitVec.toNat_append,
    ← Nat.shiftLeft_add_eq_or_of_lt (small b), ← Nat.shiftLeft_add_eq_or_of_lt (small c),
    ← Nat.shiftLeft_add_eq_or_of_lt (small d), Nat.shiftLeft_eq, Nat.shiftLeft_eq,
    Nat.shiftLeft_eq]
  rfl

/-- The bytes of a word are those it was made of. -/
theorem byteOf_word : byteOf (word a b c d) 0 = d ∧ byteOf (word a b c d) 1 = c ∧
    byteOf (word a b c d) 2 = b ∧ byteOf (word a b c d) 3 = a := by
  refine ⟨?_, ?_, ?_, ?_⟩
  · exact congrArg UInt8.ofBitVec BitVec.extractLsb'_append_eq_right
  · rw [byteOf, word, BitVec.extractLsb'_append_eq_of_le (by decide)]
    exact congrArg UInt8.ofBitVec BitVec.extractLsb'_append_eq_right
  · rw [byteOf, word, BitVec.extractLsb'_append_eq_of_le (by decide),
      BitVec.extractLsb'_append_eq_of_le (by decide)]
    exact congrArg UInt8.ofBitVec BitVec.extractLsb'_append_eq_right
  · rw [byteOf, word, BitVec.extractLsb'_append_eq_of_le (by decide),
      BitVec.extractLsb'_append_eq_of_le (by decide),
      BitVec.extractLsb'_append_eq_of_le (by decide)]
    exact congrArg UInt8.ofBitVec BitVec.extractLsb'_eq_self

/-- A word made of its bytes. -/
theorem word_byteOf (x : BitVec 32) :
    word (byteOf x 3) (byteOf x 2) (byteOf x 1) (byteOf x 0) = x := append_bytes x

/-- Words are equal byte by byte. -/
theorem word_eq_iff {x : BitVec 32} : word a b c d = x ↔
    byteOf x 3 = a ∧ byteOf x 2 = b ∧ byteOf x 1 = c ∧ byteOf x 0 = d := by
  constructor
  · rintro rfl
    obtain ⟨zero, one, two, three⟩ := byteOf_word a b c d
    exact ⟨three, two, one, zero⟩
  · rintro ⟨rfl, rfl, rfl, rfl⟩
    exact word_byteOf x

end Words

/-- Shifting a byte in from the right. -/
theorem shift_in {W n : Nat} (x : BitVec n) (b : BitVec 8) :
    (x.setWidth W <<< 8) + b.setWidth W = (x ++ b).setWidth W := by
  have apart : (x.setWidth W <<< 8) &&& b.setWidth W = 0#W := by
    ext i inside
    simp only [BitVec.getElem_and, BitVec.getElem_shiftLeft, BitVec.getElem_setWidth,
      BitVec.getElem_zero]
    rcases lt_or_ge i 8 with low | high
    · simp [low]
    · simp [BitVec.getLsbD_of_ge b i high]
  rw [BitVec.setWidth_append_eq_shiftLeft_setWidth_or, BitVec.add_eq_or_of_and_eq_zero _ _ apart]

/-! ## CAN frames -/

theorem framCmd_of_object (cmd : UInt8) (object : BitVec 24) (param : Int) :
    framCmd (setSendFramData cmd (object.setWidth 32) param) = object.toNat := by
  have top : byteOf (object.setWidth 32) 3 = 0 := by
    have small := object.isLt
    apply UInt8.toNat_inj.mp
    show (object.setWidth 32).toNat >>> 24 % 2 ^ 8 = 0
    rw [BitVec.toNat_setWidth_of_le (by decide), Nat.shiftRight_eq_div_pow,
      Nat.div_eq_of_lt small]
  have bytes : framCmd (setSendFramData cmd (object.setWidth 32) param) =
      (word 0 (byteOf (object.setWidth 32) 2) (byteOf (object.setWidth 32) 1)
        (byteOf (object.setWidth 32) 0)).toNat := by
    simp [framCmd, setSendFramData, toNat_word]
  have whole := word_byteOf (object.setWidth 32)
  rw [top] at whole
  rw [bytes, whole, BitVec.toNat_setWidth_of_le (by decide)]

/-- The frame made of the fields of a frame. -/
theorem setSendFramData_fields (data : Vector UInt8 8) :
    setSendFramData (framSize data) (BitVec.ofNat 32 (framCmd data)) (framMsg data) = data := by
  have object : BitVec.ofNat 32 (framCmd data) = word 0 data[2] data[1] data[3] := by
    have bytes : framCmd data = (word 0 data[2] data[1] data[3]).toNat := by
      simp [framCmd, toNat_word]
    rw [bytes, BitVec.ofNat_toNat, BitVec.setWidth_eq]
  have param : BitVec.ofInt 32 (framMsg data) = word data[7] data[6] data[5] data[4] :=
    BitVec.ofInt_toInt
  obtain ⟨lowest, low, high, -⟩ := byteOf_word 0 data[2] data[1] data[3]
  obtain ⟨zero, one, two, three⟩ := byteOf_word data[7] data[6] data[5] data[4]
  simp only [setSendFramData, object, param, lowest, low, high, zero, one, two, three, framSize]
  refine Vector.ext fun i inside => ?_
  interval_cases i <;> rfl

/-- The fields of a frame are those it was made of, and the frame made of its fields is the
frame. -/
theorem frame_codec :
    (∀ (cmd : UInt8) (object : BitVec 24) (param : BitVec 32),
      let data := setSendFramData cmd (object.setWidth 32) param.toInt
      framSize data = cmd ∧ framCmd data = object.toNat ∧ framMsg data = param.toInt) ∧
    ∀ data : Vector UInt8 8,
      setSendFramData (framSize data) (BitVec.ofNat 32 (framCmd data)) (framMsg data) = data := by
  refine ⟨fun cmd object param => ⟨rfl, framCmd_of_object cmd object _, ?_⟩,
    setSendFramData_fields⟩
  rw [framMsg_setSendFramData, BitVec.ofInt_toInt]

/-! ## Wire integers -/

section Wire

variable (hex behind : Nat → UInt8)

theorem hexbyte2short_eq : hexbyte2short hex = (hex 0).toBitVec ++ (hex 1).toBitVec := by
  show (0#16 + (hex 0).toBitVec.setWidth 16) <<< 8 + (hex 1).toBitVec.setWidth 16 = _
  rw [BitVec.zero_add, shift_in]
  exact BitVec.setWidth_eq _

theorem hexbyte2int_eq : hexbyte2int hex = word (hex 0) (hex 1) (hex 2) (hex 3) := by
  show (((0#32 + (hex 0).toBitVec.setWidth 32) <<< 8 + (hex 1).toBitVec.setWidth 32) <<< 8 +
    (hex 2).toBitVec.setWidth 32) <<< 8 + (hex 3).toBitVec.setWidth 32 = _
  rw [BitVec.zero_add, shift_in, shift_in, shift_in]
  exact BitVec.setWidth_eq _

theorem hexbyte2short_short2hexbyte (data : BitVec 16) :
    hexbyte2short (ofList (short2hexbyte data)) = data := by
  rw [hexbyte2short_eq]
  show data.extractLsb' 8 8 ++ data.extractLsb' 0 8 = data
  rw [BitVec.extractLsb'_append_extractLsb'_eq_extractLsb' (show 8 = 0 + 8 from rfl)]
  exact BitVec.extractLsb'_eq_self

theorem short2hexbyte_hexbyte2short : short2hexbyte (hexbyte2short hex) = [hex 0, hex 1] := by
  rw [hexbyte2short_eq, short2hexbyte, BitVec.extractLsb'_append_eq_left,
    BitVec.extractLsb'_append_eq_right]

/-- The bytes of an `int` passed as a `short`. -/
theorem int2hexbyte_eq (x : BitVec 32) : (int2hexbyte (x.setWidth 16) behind).1 =
    [byteOf x 0, byteOf x 1, behind 0, behind 1] := by
  have byte (k : Nat) (inside : 8 * k + 8 ≤ 16) :
      UInt8.ofBitVec ((x.setWidth 16).extractLsb' (8 * k) 8) = byteOf x k :=
    congrArg UInt8.ofBitVec (BitVec.extractLsb'_setWidth_of_le inside)
  show [UInt8.ofBitVec ((x.setWidth 16).extractLsb' (8 * 0) 8),
    UInt8.ofBitVec ((x.setWidth 16).extractLsb' (8 * 1) 8), behind 0, behind 1] = _
  rw [byte 0 (by decide), byte 1 (by decide)]

/-- An `int` comes back when its bytes read the same both ways and the memory behind the
argument happens to hold the other two. -/
theorem hexbyte2int_int2hexbyte_iff (x : BitVec 32) :
    hexbyte2int (ofList (int2hexbyte (x.setWidth 16) behind).1) = x ↔
      (byteOf x 3 = byteOf x 0 ∧ byteOf x 2 = byteOf x 1) ∧
        behind 0 = byteOf x 1 ∧ behind 1 = byteOf x 0 := by
  rw [int2hexbyte_eq, hexbyte2int_eq]
  show word (byteOf x 0) (byteOf x 1) (behind 0) (behind 1) = x ↔ _
  rw [word_eq_iff, and_assoc, eq_comm (b := behind 0), eq_comm (b := behind 1)]

theorem int2hexbyte_hexbyte2int_iff :
    (int2hexbyte ((hexbyte2int hex).setWidth 16) behind).1 = taken hex 4 ↔
      (hex 3 = hex 0 ∧ hex 2 = hex 1) ∧ behind 0 = hex 2 ∧ behind 1 = hex 3 := by
  obtain ⟨zero, one, -, -⟩ := byteOf_word (hex 0) (hex 1) (hex 2) (hex 3)
  rw [int2hexbyte_eq, hexbyte2int_eq, zero, one]
  show [hex 3, hex 2, behind 0, behind 1] = [hex 0, hex 1, hex 2, hex 3] ↔ _
  simp [and_assoc]

theorem int2hexbyte_leaves_argument (data : BitVec 16) :
    ¬ ∀ i ∈ (int2hexbyte data behind).2, i < 2 :=
  fun inside => absurd (inside 3 (by simp [int2hexbyte])) (by decide)

end Wire

/-- The `short` codec is an inverse pair.  `int2hexbyte` reads beyond its argument for every
value, and is inverse to `hexbyte2int` only where the bytes read the same both ways. -/
theorem wire_codecs (x : BitVec 32) (data : BitVec 16) (hex behind : Nat → UInt8) :
    (hexbyte2short (ofList (short2hexbyte data)) = data ∧
        short2hexbyte (hexbyte2short hex) = taken hex 2) ∧
      (¬ ∀ i ∈ (int2hexbyte (x.setWidth 16) behind).2, i < 2) ∧
        (hexbyte2int (ofList (int2hexbyte (x.setWidth 16) behind).1) = x ↔
          (byteOf x 3 = byteOf x 0 ∧ byteOf x 2 = byteOf x 1) ∧
            behind 0 = byteOf x 1 ∧ behind 1 = byteOf x 0) ∧
          ((int2hexbyte ((hexbyte2int hex).setWidth 16) behind).1 = taken hex 4 ↔
            (hex 3 = hex 0 ∧ hex 2 = hex 1) ∧ behind 0 = hex 2 ∧ behind 1 = hex 3) :=
  ⟨⟨hexbyte2short_short2hexbyte data, short2hexbyte_hexbyte2short hex⟩,
    int2hexbyte_leaves_argument behind _, hexbyte2int_int2hexbyte_iff behind x,
    int2hexbyte_hexbyte2int_iff hex behind⟩

/-- The `int` 1 with zeros behind the argument. -/
theorem one_not_returned :
    ¬ ∀ (x : BitVec 32) (behind : Nat → UInt8),
      hexbyte2int (ofList (int2hexbyte (x.setWidth 16) behind).1) = x ∧
        ∀ i ∈ (int2hexbyte (x.setWidth 16) behind).2, i < 2 := by
  intro stated
  have back := (hexbyte2int_int2hexbyte_iff (fun _ => 0) 1).mp (stated 1 fun _ => 0).1
  exact absurd back.1.1 (by decide)

end Stm32Robot.Motor
