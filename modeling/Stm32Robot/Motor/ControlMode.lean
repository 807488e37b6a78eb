/-
# Motor.ControlMode -- control authority over a sequence of frames

`isAuto` belongs to message.c and only an accepted 0x01 frame writes it; the queues, the
drive state and the heading are shared, so between two calls of `MessageHandle` the rest of
the system may leave anything in them (`Meanwhile`).

`lastMode` reads the mode off the frames received so far.  The mode of the program is that
one as long as a mode frame brings its byte along: a 0x01 frame without payload makes
`MessageHandle` read a byte of its uninitialised local, and the mode is then that byte
(`isAuto_messageStep_bare`).  `authority_iff` says that this is the only way to lose it.
-/
import Stm32Robot.Motor.MessageAccept
import Stm32Robot.Theory.History
import Stm32Robot.Theory.Transducer

namespace Stm32Robot.Motor.Message

open Stm32Robot.Theory.Bytes
open Stm32Robot.Theory.History
open Stm32Robot.Theory.Transducer
open Stm32Robot.Motor.Queue
open Stm32Robot.Motor.Driver

set_option autoImplicit false

/-! ## Sequences of accepted frames -/

/-- What the rest of the system has made of the shared variables when a call begins. -/
structure Meanwhile where
  dcq : InterQueue (Int → SCM)
  fmq : InterQueue (Int → STM)
  cru : Cru
  yaw : BitVec 16

/-- A frame `MessageHandle` accepts, with the surroundings of the call. -/
structure AcceptedFrame where
  msg : Nat → UInt8
  len : Nat
  framed : Framed msg len
  fits : len ≤ 133
  locals : Locals
  meanwhile : Meanwhile

namespace AcceptedFrame

def cmd (f : AcceptedFrame) : UInt8 := f.msg 2

/-- The local `RxMsg` of the call. -/
def rxMsg (f : AcceptedFrame) : STM := loadRxMsg f.locals.rxMsg f.msg f.len

/-- A mode frame that brings no payload. -/
def BareMode (f : AcceptedFrame) : Prop := f.cmd = 0x01 ∧ f.len = 6

/-- The byte a 0x01 frame with payload selects the mode by. -/
def modeByte (f : AcceptedFrame) : Option UInt8 :=
  if f.cmd = 0x01 ∧ f.len ≠ 6 then some (f.msg 5) else none

theorem cmd_rxMsg (f : AcceptedFrame) : f.rxMsg.cmd = f.cmd := cmd_loadRxMsg _ f.framed.1

theorem data_rxMsg_of_payload (f : AcceptedFrame) (payload : f.len ≠ 6) :
    f.rxMsg.data 0 = f.msg 5 := by
  have := f.framed.1
  exact view_loadRxMsg _ (by omega) (by omega)

theorem data_rxMsg_of_bare (f : AcceptedFrame) (bare : f.len = 6) :
    f.rxMsg.data 0 = f.locals.rxMsg.data 0 := data_loadRxMsg_empty _ bare

end AcceptedFrame

def Meanwhile.apply (o : Meanwhile) (w : World) : World :=
  { w with dcq := o.dcq, fmq := o.fmq, cru := o.cru, yaw := o.yaw, log := [] }

@[simp] theorem Meanwhile.isAuto_apply (o : Meanwhile) (w : World) :
    (o.apply w).isAuto = w.isAuto := rfl

@[simp] theorem Meanwhile.log_apply (o : Meanwhile) (w : World) : (o.apply w).log = [] := rfl

/-- The last mode byte received; 0, manual control, before the first. -/
def lastMode (past : List AcceptedFrame) : UInt8 :=
  (past.filterMap AcceptedFrame.modeByte).getLast?.getD 0

theorem lastMode_append_none {past : List AcceptedFrame} {f : AcceptedFrame}
    (none : f.modeByte = none) : lastMode (past ++ [f]) = lastMode past := by
  simp [lastMode, List.filterMap_append, none]

theorem lastMode_append_some {past : List AcceptedFrame} {f : AcceptedFrame} {b : UInt8}
    (some : f.modeByte = some b) : lastMode (past ++ [f]) = b := by
  simp [lastMode, List.filterMap_append, some]

section Runs

variable (k : Kinematics)

/-- One call of `MessageHandle`, with the events it records. -/
def messageStep (w : World) (f : AcceptedFrame) : World × List Event :=
  match messageHandle k f.locals f.msg f.len (f.meanwhile.apply w) with
  | some (_, w') => (w', w'.log)
  | none => (w, [])

theorem messageStep_eq (w : World) (f : AcceptedFrame) :
    messageStep k w f = (accept k f.locals f.rxMsg (f.meanwhile.apply w),
      (accept k f.locals f.rxMsg (f.meanwhile.apply w)).log) := by
  simp only [messageStep, messageHandle_of_framed k _ _ f.framed f.fits]
  rfl

theorem isAuto_messageStep (w : World) (f : AcceptedFrame) :
    (messageStep k w f).1.isAuto = if f.cmd = 0x01 then f.rxMsg.data 0 else w.isAuto := by
  rw [messageStep_eq, isAuto_accept, f.cmd_rxMsg, Meanwhile.isAuto_apply]

/-- A mode frame without payload stores the stale byte of the local. -/
theorem isAuto_messageStep_bare (w : World) {f : AcceptedFrame} (bare : f.BareMode) :
    (messageStep k w f).1.isAuto = f.locals.rxMsg.data 0 := by
  rw [isAuto_messageStep, if_pos bare.1, f.data_rxMsg_of_bare bare.2]

/-- The call enqueues the queries and what the `switch` enqueues. -/
theorem enqueued_messageStep (w : World) (f : AcceptedFrame) :
    enqueued (messageStep k w f).2 = feedbackFrames ++
      enqueued (dispatchEvents k f.locals.feedBackMsg' f.rxMsg (f.meanwhile.apply w)) := by
  obtain ⟨reply, log⟩ := log_accept k f.locals f.rxMsg (f.meanwhile.apply w)
  rw [messageStep_eq, log, Meanwhile.log_apply, List.nil_append]
  simp only [enqueued_append, enqueued_parityEvents, enqueued_feedbackEvents, List.nil_append]

/-- The call enqueues motion frames exactly when the frame is carried out. -/
theorem motion_messageStep (w : World) (f : AcceptedFrame) :
    (∃ m ∈ enqueued (messageStep k w f).2, m.isMotion = true) ↔
      (motionOf k w.isAuto f.rxMsg).isSome := by
  have dispatched := motion_dispatchEvents k f.locals.feedBackMsg' f.rxMsg (f.meanwhile.apply w)
  rw [enqueued_messageStep]
  refine Iff.trans ?_ dispatched
  constructor
  · rintro ⟨m, mem, motion⟩
    simp only [List.mem_append] at mem
    rcases mem with query | sent
    · rw [isMotion_feedbackFrames m query] at motion
      cases motion
    · exact ⟨m, sent, motion⟩
  · rintro ⟨m, mem, motion⟩
    exact ⟨m, List.mem_append_right _ mem, motion⟩

/-! ## The rule -/

/-- The state after the frames `past`, from reset. -/
def worldAfter (past : List AcceptedFrame) : World := runState (messageStep k) .powerUp past

/-- The rule for one frame after the frames `past`: a 0x60 frame moves the robot only in
manual mode, a 0x80 frame only in automatic mode, and a mode frame without payload leaves
the mode as it was. -/
def AuthorityAt (past : List AcceptedFrame) (f : AcceptedFrame) : Prop :=
  let w := worldAfter k past
  (f.cmd = 0x60 → (∃ m ∈ enqueued (messageStep k w f).2, m.isMotion = true) →
    lastMode past = 0) ∧
  (f.cmd = 0x80 → (∃ m ∈ enqueued (messageStep k w f).2, m.isMotion = true) →
    lastMode past ≠ 0) ∧
  (f.BareMode → (messageStep k w f).1.isAuto = w.isAuto)

/-- A mode frame without payload finds, in the uninitialised local, the byte of the last mode
frame that had one. -/
def StaleAgrees (past : List AcceptedFrame) (f : AcceptedFrame) : Prop :=
  f.BareMode → f.locals.rxMsg.data 0 = lastMode past

variable {k} {past : List AcceptedFrame} {f : AcceptedFrame}

/-- In a state whose mode is the last one received, the rule for a frame is the condition. -/
theorem authorityAt_iff (mode : (worldAfter k past).isAuto = lastMode past) :
    AuthorityAt k past f ↔ StaleAgrees past f := by
  constructor
  · rintro ⟨-, -, unchanged⟩ bare
    rw [← isAuto_messageStep_bare k (worldAfter k past) bare, unchanged bare, mode]
  · intro agrees
    refine ⟨?_, ?_, ?_⟩
    · intro angle moved
      rw [motion_messageStep, motionOf, f.cmd_rxMsg, angle] at moved
      rw [← mode]
      by_contra auto
      simp [auto] at moved
    · intro motion moved
      rw [motion_messageStep, motionOf, f.cmd_rxMsg, motion] at moved
      rw [← mode]
      intro manual
      simp [manual] at moved
    · intro bare
      rw [isAuto_messageStep_bare k _ bare, agrees bare, mode]

/-- One frame keeps the mode equal to the last one received. -/
theorem mode_messageStep (mode : (worldAfter k past).isAuto = lastMode past)
    (agrees : StaleAgrees past f) :
    (worldAfter k (past ++ [f])).isAuto = lastMode (past ++ [f]) := by
  have stepped : worldAfter k (past ++ [f]) = (messageStep k (worldAfter k past) f).1 :=
    runState_append (messageStep k) .powerUp past [f]
  rw [stepped, isAuto_messageStep]
  by_cases command : f.cmd = 0x01
  · rw [if_pos command]
    by_cases bare : f.len = 6
    · rw [f.data_rxMsg_of_bare bare, agrees ⟨command, bare⟩, lastMode_append_none]
      simp [AcceptedFrame.modeByte, bare]
    · rw [f.data_rxMsg_of_payload bare, lastMode_append_some]
      exact if_pos ⟨command, bare⟩
  · rw [if_neg command, mode, lastMode_append_none]
    simp [AcceptedFrame.modeByte, command]

end Runs

/-- From reset, control authority follows the last mode command over a whole sequence of
accepted frames exactly when no mode frame without payload meets a stale byte that differs
from it. -/
theorem authority_iff (k : Kinematics) (fs : List AcceptedFrame) :
    (∀ before f after, fs = before ++ f :: after → AuthorityAt k before f) ↔
      ∀ before f after, fs = before ++ f :: after → StaleAgrees before f := by
  have agree : Along (AuthorityAt k) [] fs ↔ Along StaleAgrees [] fs :=
    along_congr (fun _ _ => authorityAt_iff) (fun _ _ => mode_messageStep) rfl fs
  rw [along_iff, along_iff] at agree
  exact agree

/-- A frame without payload, received into a local full of fives. -/
def bareModeFrame : AcceptedFrame where
  msg := ofList [0xAA, 0, 0x01, 0, 0, 0]
  len := 6
  framed := by decide
  fits := by decide
  locals := ⟨⟨Vector.replicate 132 5⟩, STM.zero, STM.zero⟩
  meanwhile := ⟨World.powerUp.dcq, World.powerUp.fmq, World.powerUp.cru, 0⟩

/-- It puts the robot in automatic mode, although no mode byte was ever sent. -/
theorem bareModeFrame_takes_control :
    ¬ ∀ (k : Kinematics) (fs : List AcceptedFrame),
      ∀ before f after, fs = before ++ f :: after → AuthorityAt k before f := by
  intro stated
  obtain ⟨-, -, unchanged⟩ := stated .still [bareModeFrame] [] bareModeFrame [] rfl
  have mode := unchanged ⟨rfl, rfl⟩
  rw [isAuto_messageStep_bare _ _ ⟨rfl, rfl⟩] at mode
  exact absurd mode (by decide)

end Stm32Robot.Motor.Message
