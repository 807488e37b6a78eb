/-
# Motor.Driver -- CAN object frames of driver.c

A frame is eight bytes: a command byte, a 24-bit object index stored in the order low
middle, high, lowest, and a 32-bit parameter with its lowest byte first.  `setSendFramData`
writes one and every `...Fram` function is that call at its own command, object and
parameter.  `FeedbackMessge` reads the same fields back from a reply and keeps the last
position and the last velocity of each wheel, the three variables of `Cru`.

A C `int` is an `Int`; where it is stored in a frame it is taken modulo `2 ^ 32`.
-/
import Mathlib.Data.Vector.Basic

namespace Stm32Robot.Motor.Driver

set_option autoImplicit false

/-! ## Identifiers and constants of driver.h -/

def LEFT_ID : Int := 0x01
def RIGHT_ID : Int := 0x02
def FRONT_ID : Int := 0x03
def DRIVER_ID : Int := 0x0600

def ID_LEFT : Int := 0x581
def ID_RIGHT : Int := 0x582

/-- `enum KINCOCMD`, the objects this development's frames and replies name. -/
inductive KincoCmd where
  | getCruPos
  | getVelocity
  | getStauts
  | setPSW
  | setVelocity
  | dTargetPostion
  | dTrapezoidvelocity
deriving DecidableEq

def KincoCmd.code : KincoCmd → BitVec 32
  | .getCruPos => 0x606300
  | .getVelocity => 0x606c00
  | .getStauts => 0x604100
  | .setPSW => 0x604000
  | .setVelocity => 0x60fF00
  | .dTargetPostion => 0x607A00
  | .dTrapezoidvelocity => 0x608100

/-- `enum WRITE_CMD` and `enum READ_CMD`: the command bytes. -/
def WBYTE2 : UInt8 := 0x2b
def WBYTE4 : UInt8 := 0x23
def GETKEY : UInt8 := 0x40
def RBYTE1 : UInt8 := 0x4f
def RBYTE2 : UInt8 := 0x4b
def RBYTE4 : UInt8 := 0x43

def POS_MAX_SPEED : Int := 6000
def EnSMD : Int := 0x00103F
def DEC : Int := 2731

/-! ## Frames -/

/-- Byte `i` of a 32-bit word in memory, lowest first. -/
def byteOf (x : BitVec 32) (i : Nat) : UInt8 := UInt8.ofBitVec (x.extractLsb' (8 * i) 8)

def setSendFramData (cmd : UInt8) (data : BitVec 32) (param : Int) : Vector UInt8 8 :=
  let p := byteOf data
  let pa := byteOf (BitVec.ofInt 32 param)
  #v[cmd, p 1, p 2, p 0, pa 0, pa 1, pa 2, pa 3]

def enableFram : Vector UInt8 8 := setSendFramData WBYTE2 KincoCmd.setPSW.code EnSMD

def getStautsFram : Vector UInt8 8 := setSendFramData GETKEY KincoCmd.getStauts.code 0

def getVelocityFram : Vector UInt8 8 := setSendFramData GETKEY KincoCmd.getVelocity.code 0

def getPositionFram : Vector UInt8 8 := setSendFramData GETKEY KincoCmd.getCruPos.code 0

def setVelocityFram (v : Int) : Vector UInt8 8 :=
  setSendFramData WBYTE4 KincoCmd.setVelocity.code (v * DEC)

def setPositionFram (pos : Int) : Vector UInt8 8 :=
  setSendFramData WBYTE4 KincoCmd.dTargetPostion.code pos

def setTVelocityFram (acc : Int) : Vector UInt8 8 :=
  setSendFramData WBYTE4 KincoCmd.dTrapezoidvelocity.code (acc * 2731)

/-! ## Fields of a received frame -/

/-- The command byte. -/
def framSize (data : Vector UInt8 8) : UInt8 := data[0]

/-- The object index: bytes 2, 1 and 3, shifted in one after the other. -/
def framCmd (data : Vector UInt8 8) : Nat :=
  (data[2].toNat * 256 + data[1].toNat) * 256 + data[3].toNat

/-- The parameter: bytes 4 to 7 stored into an `int`. -/
def framMsg (data : Vector UInt8 8) : Int :=
  (data[7].toBitVec ++ data[6].toBitVec ++ data[5].toBitVec ++ data[4].toBitVec).toInt

theorem framCmd_setSendFramData (cmd : UInt8) (data : BitVec 32) (param : Int) :
    framCmd (setSendFramData cmd data param) =
      ((byteOf data 2).toNat * 256 + (byteOf data 1).toNat) * 256 + (byteOf data 0).toNat := rfl

/-- A frame carries its command and its object, whatever the parameter. -/
theorem setSendFramData_header (cmd : UInt8) (object : KincoCmd) (param : Int) :
    framSize (setSendFramData cmd object.code param) = cmd ∧
      framCmd (setSendFramData cmd object.code param) = object.code.toNat := by
  refine ⟨rfl, ?_⟩
  rw [framCmd_setSendFramData]
  cases object <;> decide

/-- The four bytes of a word, put together again. -/
theorem append_bytes (x : BitVec 32) :
    x.extractLsb' 24 8 ++ x.extractLsb' 16 8 ++ x.extractLsb' 8 8 ++ x.extractLsb' 0 8 = x := by
  rw [BitVec.extractLsb'_append_extractLsb'_eq_extractLsb' (show 24 = 16 + 8 from rfl),
    BitVec.extractLsb'_append_extractLsb'_eq_extractLsb' (show 16 = 8 + 8 from rfl),
    BitVec.extractLsb'_append_extractLsb'_eq_extractLsb' (show 8 = 0 + 8 from rfl)]
  exact BitVec.extractLsb'_eq_self

theorem framMsg_setSendFramData (cmd : UInt8) (data : BitVec 32) (param : Int) :
    framMsg (setSendFramData cmd data param) = (BitVec.ofInt 32 param).toInt :=
  congrArg BitVec.toInt (append_bytes (BitVec.ofInt 32 param))

/-- The parameter is read from the last four bytes. -/
theorem framMsg_congr {f g : Vector UInt8 8} (same : ∀ i, 4 ≤ i → f[i]? = g[i]?) :
    framMsg f = framMsg g := by
  have byte (i : Nat) (lower : 4 ≤ i) (inside : i < 8) : f[i] = g[i] := by
    have equal := same i lower
    rwa [Vector.getElem?_eq_getElem inside, Vector.getElem?_eq_getElem inside,
      Option.some.injEq] at equal
  simp only [framMsg, byte 4 (by omega) (by omega), byte 5 (by omega) (by omega),
    byte 6 (by omega) (by omega), byte 7 (by omega) (by omega)]

/-- A value in the range of a C `int`. -/
def FitsInt (x : Int) : Prop := -2 ^ 31 ≤ x ∧ x < 2 ^ 31

/-- A frame carries its parameter. -/
theorem framMsg_of_fits {cmd : UInt8} {data : BitVec 32} {param : Int} (fits : FitsInt param) :
    framMsg (setSendFramData cmd data param) = param := by
  rw [framMsg_setSendFramData]
  exact BitVec.toInt_ofInt_eq_self (by omega) fits.1 fits.2

/-! ## The state of the drives -/

/-- `CruPosition`, `CruLeftVelocity` and `CruRightVelocity`. -/
structure Cru where
  cruPosition : Int
  cruLeftVelocity : Int
  cruRightVelocity : Int

def setCruPosition (pos : Int) (c : Cru) : Cru := { c with cruPosition := pos }

def setCruVelocity (vel ID : Int) (c : Cru) : Cru :=
  if ID = ID_LEFT then { c with cruLeftVelocity := vel }
  else if ID = ID_RIGHT then { c with cruRightVelocity := vel }
  else c

/-- `getVelocity`: both divisions are of integers. -/
def getVelocity (c : Cru) : Int := ((c.cruLeftVelocity - c.cruRightVelocity).tdiv 2).tdiv DEC

/-- `FeedbackMessge`; the cases that only print are the last branches. -/
def feedbackMessge (ID : Int) (data : Vector UInt8 8) (c : Cru) : Cru :=
  let size := framSize data
  let cmd := framCmd data
  let msg := framMsg data
  if size = 0x60 then c
  else if size = RBYTE1 ∨ size = RBYTE2 ∨ size = RBYTE4 then
    if cmd = KincoCmd.getCruPos.code.toNat then setCruPosition msg c
    else if cmd = KincoCmd.getVelocity.code.toNat then setCruVelocity msg ID c
    else c
  else c

end Stm32Robot.Motor.Driver
