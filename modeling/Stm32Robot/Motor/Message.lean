/-
# Motor.Message -- the message handlers and the two queues of message.c

A received frame is copied into an `STM` and checked; an accepted one is answered with a
feedback message and then dispatched on its command byte: 0x01 selects the mode, 0x60 and
0x80 are the motion commands of the two modes, 0x81 asks for a second feedback message.
Drive frames go to DCQ, feedback messages to FMQ and to UART6.

An `STM` is its memory, 132 bytes without padding, so that what is sent of it and what an
uninitialised local holds can be told.  A speed or an angle, a C `float`, is a rational
number; every value a speed takes here is exact in a `float`.  kinematics.c computes with
`float` and libm: its functions are the fields of `Kinematics`, given the drive state they
read, and everything below holds whatever they compute.

`World.log` is not a variable of the program.  It records the calls by which a handler acts
on the rest of the system, in order; the messages the source prints on an error are among
them, its other debug output is left out.
-/
import Mathlib.Algebra.Order.Field.Rat
import Mathlib.Tactic.NormNum
import Stm32Robot.Motor.ConvertData
import Stm32Robot.Motor.Driver
import Stm32Robot.Motor.Frame
import Stm32Robot.Motor.Queue

namespace Stm32Robot.Motor.Message

open Stm32Robot.Theory.Bytes
open Stm32Robot.Motor.ConvertData
open Stm32Robot.Motor.Driver
open Stm32Robot.Motor.Queue

set_option autoImplicit false

/-! ## message.h -/

def QUEUEMAXCOUNT : Int := 40

/-- `SCM`, a frame on its way to the CAN bus. -/
structure SCM where
  id : Int
  data : Vector UInt8 8
  len : UInt8
deriving DecidableEq

def SCM.zero : SCM := ⟨0, Vector.replicate 8 0, 0⟩

/-- `STM`, a message on the wire: `Head`, `Seq`, `Cmd`, `state`, `len` at offsets 0 to 4,
`data[126]` from offset 5 and `Bcc` at offset 131. -/
structure STM where
  bytes : Vector UInt8 132
deriving DecidableEq

namespace STM

def head (m : STM) : UInt8 := m.bytes[0]
def seq (m : STM) : UInt8 := m.bytes[1]
def cmd (m : STM) : UInt8 := m.bytes[2]
def state (m : STM) : UInt8 := m.bytes[3]
def len (m : STM) : UInt8 := m.bytes[4]
def data (m : STM) : Nat → UInt8 := fun i => view m.bytes (5 + i)
def bcc (m : STM) : UInt8 := m.bytes[131]

def setHead (m : STM) (b : UInt8) : STM := ⟨m.bytes.set 0 b⟩
def setSeq (m : STM) (b : UInt8) : STM := ⟨m.bytes.set 1 b⟩
def setCmd (m : STM) (b : UInt8) : STM := ⟨m.bytes.set 2 b⟩
def setState (m : STM) (b : UInt8) : STM := ⟨m.bytes.set 3 b⟩
def setLen (m : STM) (b : UInt8) : STM := ⟨m.bytes.set 4 b⟩
def setBcc (m : STM) (b : UInt8) : STM := ⟨m.bytes.set 131 b⟩

/-- `memcpy(m.data, data, n)`. -/
def setData (m : STM) (data : Nat → UInt8) (n : Nat) : STM := ⟨memcpy m.bytes 5 data n⟩

def zero : STM := ⟨Vector.replicate 132 0⟩

end STM

/-! ## Kinematics and constants -/

/-- What message.c calls of kinematics.c.  The last two are the casts
`(short)(getCurAngleVel()/wRatio)` and `(short)(getCurVelocity())`. -/
structure Kinematics where
  angle2Position : ℚ → Int
  getExpPosition : ℚ → ℚ → Int
  getExpLeftVelocity : Cru → ℚ → Int
  getExpRightVelocity : Cru → ℚ → Int
  shortAngleVel : Cru → BitVec 16
  shortVelocity : Cru → BitVec 16

def PI : ℚ := 31415926 / 10000000
def aRatio : ℚ := PI * 16 / 34 / 180
def wRatio : ℚ := 1 / 10000

/-- `1000*1/340` is an integer division. -/
def vRatio : ℚ := ((1000 * 1 / 340 : Int) : ℚ)

/-! ## The state -/

/-- A call by which a handler acts on the rest of the system. -/
inductive Event where
  | printf (text : String)
  | expLeftVelocity (v : ℚ)
  | expRightVelocity (v : ℚ)
  | enDCQ (m : SCM)
  | enFMQ (m : STM)
  | u6Send (bytes : List UInt8)
  | u3WifiSend (bytes : List UInt8)
  | netconnWrite (bytes : List UInt8)
  | canTransmit (StdId : Int) (Data : Vector UInt8 8) (DLC : UInt8)
deriving DecidableEq

structure World where
  isAuto : UInt8
  dcq : InterQueue (Int → SCM)
  fmq : InterQueue (Int → STM)
  cru : Cru
  yaw : BitVec 16
  log : List Event

/-- The contents of the uninitialised locals during one call of `MessageHandle`: its
`RxMsg`, and the `feedBackMsg` of the two feedback messages it may send. -/
structure Locals where
  rxMsg : STM
  feedBackMsg : STM
  feedBackMsg' : STM

/-- Every variable zero, as at reset. -/
def World.powerUp : World where
  isAuto := 0
  dcq := ⟨0, 0, 0, fun _ => SCM.zero, 0⟩
  fmq := ⟨0, 0, 0, fun _ => STM.zero, 0⟩
  cru := ⟨0, 0, 0⟩
  yaw := 0
  log := []

def Locals.zero : Locals := ⟨STM.zero, STM.zero, STM.zero⟩

/-- A robot that stands still and is told to stay so. -/
def Kinematics.still : Kinematics :=
  ⟨fun _ => 0, fun _ _ => 0, fun _ _ => 0, fun _ _ => 0, fun _ => 0, fun _ => 0⟩

def World.record (w : World) (e : Event) : World := { w with log := w.log ++ [e] }

/-! ## Enqueueing -/

/-- Every caller passes the length 8, so the loop copies the whole frame. -/
def enDriverCmdQueue (ID : Int) (sendFramData : Vector UInt8 8) (len : UInt8) (w : World) :
    Int × World :=
  let sendCanmsg : SCM := { id := ID, data := sendFramData, len := len }
  let w := { w with dcq := (enQueueinter sendCanmsg w.dcq).2 }
  (0, w.record (.enDCQ sendCanmsg))

/-- `u6_Send`: the bytes go out from the pointer on. -/
def u6Send (buf : Nat → UInt8) (len : Nat) (w : World) : World :=
  w.record (.u6Send (taken buf len))

/-- The feedback message as it is built in the local, field by field. -/
def fillFeedBackMsg (feedBackMsg : STM) (Cmd state Seq len : UInt8) (data : Nat → UInt8) : STM :=
  let m := feedBackMsg.setHead 0xCC
  let m := m.setCmd Cmd
  let m := m.setSeq Seq
  let m := m.setState state
  let m := m.setLen len
  let m := m.setData data len.toNat
  m.setBcc (getXorCheck data len)

def enFeedBackMsgQueue (feedBackMsg : STM) (Cmd state Seq len : UInt8) (data : Nat → UInt8)
    (w : World) : Int × World :=
  let feedBackMsg := fillFeedBackMsg feedBackMsg Cmd state Seq len data
  let w := { w with fmq := (enQueueinter feedBackMsg w.fmq).2 }
  let w := w.record (.enFMQ feedBackMsg)
  (0, u6Send (view feedBackMsg.bytes) (len.toNat + EXTERN_BUFSIZE) w)

/-! ## The handlers -/

section Handlers

variable (k : Kinematics)

def motionFeedbackHandle (feedBackMsg : STM) (Seq : UInt8) (w : World) : Int × World :=
  let w := (enDriverCmdQueue FRONT_ID getPositionFram 0x8 w).2
  let w := (enDriverCmdQueue LEFT_ID getVelocityFram 0x8 w).2
  let w := (enDriverCmdQueue RIGHT_ID getVelocityFram 0x8 w).2
  let sendData := short2hexbyte (k.shortAngleVel w.cru) ++ short2hexbyte (k.shortVelocity w.cru)
    ++ short2hexbyte w.yaw
  (0, (enFeedBackMsgQueue feedBackMsg 0x81 0x00 Seq 0x06 (ofList sendData) w).2)

def getExpLeftVelocity (v : ℚ) (w : World) : Int × World :=
  (k.getExpLeftVelocity w.cru v, w.record (.expLeftVelocity v))

def getExpRightVelocity (v : ℚ) (w : World) : Int × World :=
  (k.getExpRightVelocity w.cru v, w.record (.expRightVelocity v))

/-- The common end of the two motion handlers: the wheel speeds for `v`, then the three
drive frames. -/
def enMotion (ExpPos : Int) (v : ℚ) (w : World) : World :=
  let (ExpLeftV, w) := getExpLeftVelocity k v w
  let (ExpRightV, w) := getExpRightVelocity k v w
  let w := (enDriverCmdQueue FRONT_ID (setPositionFram ExpPos) 0x8 w).2
  let w := (enDriverCmdQueue LEFT_ID (setVelocityFram ExpLeftV) 0x8 w).2
  (enDriverCmdQueue RIGHT_ID (setVelocityFram ExpRightV) 0x8 w).2

def motionCmdHandle (data : Nat → UInt8) (len : UInt8) (w : World) : Int × World :=
  if len ≠ 0x4 then (-1, w.record (.printf "message.c: MotionCmdHandle check error")) else
  let ω : ℚ := (hexbyte2short data).toInt * wRatio
  let ω := if ω > 1 / 2 then 1 / 2 else if ω < -(1 / 2) then -(1 / 2) else ω
  let v : ℚ := (hexbyte2short fun i => data (2 + i)).toInt
  let v := if v > 1000 then 1000 else if v < -1000 then -1000 else v
  (0, enMotion k (k.getExpPosition ω v) v w)

def angleMotionCmdHandle (data : Nat → UInt8) (len : UInt8) (w : World) : Int × World :=
  if len ≠ 0x4 then (-1, w.record (.printf "message.c: MotionCmdHandle check error")) else
  let Angle : ℚ := (hexbyte2short data).toInt * aRatio
  let v : ℚ := (hexbyte2short fun i => data (2 + i)).toInt * vRatio
  (0, enMotion k (k.angle2Position Angle) v w)

/-! ## MessageHandle -/

/-- The local `RxMsg` after `memcpy(&RxMsg,msg,len-1)` and `RxMsg.Bcc=msg[len-1]`. -/
def loadRxMsg (rxMsg : STM) (msg : Nat → UInt8) (len : Nat) : STM :=
  STM.setBcc ⟨memcpy rxMsg.bytes 0 msg (len - 1)⟩ (msg (len - 1))

/-- The `switch` on the command byte. -/
def dispatch (feedBackMsg : STM) (rxMsg : STM) (w : World) : World :=
  if rxMsg.cmd = 0x01 then { w with isAuto := rxMsg.data 0 }
  else if rxMsg.cmd = 0x60 then
    if w.isAuto = 0 then (angleMotionCmdHandle k rxMsg.data rxMsg.len w).2 else w
  else if rxMsg.cmd = 0x80 then
    if w.isAuto ≠ 0 then (motionCmdHandle k rxMsg.data rxMsg.len w).2 else w
  else if rxMsg.cmd = 0x81 then (motionFeedbackHandle k feedBackMsg rxMsg.seq w).2
  else w

/-- `MessageHandle` from the frame test on: the parity test, the feedback message and the
`switch`. -/
def accept (l : Locals) (rxMsg : STM) (w : World) : World :=
  let w :=
    if getXorCheck rxMsg.data rxMsg.len ≠ rxMsg.bcc then
      -- the `return -1` after this message is commented out in the source
      w.record (.printf "message.c:  XOR check error")
    else w
  let w := (motionFeedbackHandle k l.feedBackMsg rxMsg.seq w).2
  dispatch k l.feedBackMsg' rxMsg w

/-- `none` where the `memcpy` leaves the `STM`, which has no defined result. -/
def messageHandle (l : Locals) (msg : Nat → UInt8) (len : Nat) (w : World) :
    Option (Int × World) :=
  if len < 1 ∨ 132 < len - 1 then none else
  let rxMsg := loadRxMsg l.rxMsg msg len
  if rxMsg.head ≠ 0xAA ∨ rxMsg.len.toNat + EXTERN_BUFSIZE ≠ len then
    some (-1, w.record (.printf "message.c:  msg is not available"))
  else some (0, accept k l rxMsg w)

end Handlers

/-! ## Initialisation -/

def initDriverCmdQueue (w : World) : World :=
  let w := { w with
    fmq := { w.fmq with qNode := fun _ => STM.zero, maxCount := QUEUEMAXCOUNT } }
  let w := { w with
    dcq := { w.dcq with qNode := fun _ => SCM.zero, maxCount := QUEUEMAXCOUNT } }
  let w := { w with dcq := (initQueueinter w.dcq).2 }
  let w := (enDriverCmdQueue FRONT_ID (setTVelocityFram POS_MAX_SPEED) 0x8 w).2
  let w := (enDriverCmdQueue LEFT_ID (setTVelocityFram POS_MAX_SPEED) 0x8 w).2
  let w := (enDriverCmdQueue RIGHT_ID (setTVelocityFram POS_MAX_SPEED) 0x8 w).2
  let w := (enDriverCmdQueue FRONT_ID enableFram 0x8 w).2
  let w := (enDriverCmdQueue LEFT_ID enableFram 0x8 w).2
  (enDriverCmdQueue RIGHT_ID enableFram 0x8 w).2

/-- One turn of the loop of `InitDriver`. -/
def initDriverTurn (w : World) (i : Int) : World :=
  let w := (enDriverCmdQueue (i + 0x604) (setTVelocityFram POS_MAX_SPEED) 0x8 w).2
  let w := (enDriverCmdQueue (i + 0x604) enableFram 0x8 w).2
  (enDriverCmdQueue (i + 0x604) getStautsFram 0x8 w).2

def initDriver (w : World) : World := [0, 1, 2].foldl initDriverTurn w

end Stm32Robot.Motor.Message
