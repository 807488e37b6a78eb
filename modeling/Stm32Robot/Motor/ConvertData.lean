/-
# Motor.ConvertData -- the wire integers and the check byte of ConvertData.c

A pointer argument is the memory it points at.  A C `short` is a `BitVec 16`, read as a
signed number by `BitVec.toInt`.
-/
import Stm32Robot.Theory.Bytes

namespace Stm32Robot.Motor.ConvertData

open Stm32Robot.Theory.Bytes

set_option autoImplicit false

/-- The loop `for(i=0;i<len;i++) Bcc^=data[i]`. -/
def getXorCheck (data : Nat → UInt8) (len : UInt8) : UInt8 := xorOf data len.toNat

/-- Two bytes, the high one first, shifted into a signed accumulator. -/
def hexbyte2short (hex : Nat → UInt8) : BitVec 16 :=
  let d : BitVec 16 := 0
  let d := d + (hex 0).toBitVec.setWidth 16
  let d := d <<< 8
  let d := d + (hex 1).toBitVec.setWidth 16
  d

/-- The two memory bytes of a `short`, the high one first. -/
def short2hexbyte (data : BitVec 16) : List UInt8 :=
  [UInt8.ofBitVec (data.extractLsb' 8 8), UInt8.ofBitVec (data.extractLsb' 0 8)]

/-- Four bytes, the high one first. -/
def hexbyte2int (hex : Nat → UInt8) : BitVec 32 :=
  let d : BitVec 32 := 0
  let d := d + (hex 0).toBitVec.setWidth 32
  let d := d <<< 8
  let d := d + (hex 1).toBitVec.setWidth 32
  let d := d <<< 8
  let d := d + (hex 2).toBitVec.setWidth 32
  let d := d <<< 8
  let d := d + (hex 3).toBitVec.setWidth 32
  d

/-- The memory from a `short` argument on: its two bytes, the low one first, and what lies
behind it. -/
def shortArgument (data : BitVec 16) (behind : Nat → UInt8) : Nat → UInt8
  | 0 => UInt8.ofBitVec (data.extractLsb' 0 8)
  | 1 => UInt8.ofBitVec (data.extractLsb' 8 8)
  | i + 2 => behind i

/-- What is written, and the offsets in the argument it is read from. -/
def int2hexbyte (data : BitVec 16) (behind : Nat → UInt8) : List UInt8 × List Nat :=
  let p := shortArgument data behind
  let offsets := [0, 1, 2, 3]
  (offsets.map p, offsets)

end Stm32Robot.Motor.ConvertData
