/-
# Motor.MessageEffect -- what each handler of message.c does

One equation for each handler: the frames it puts on DCQ, in order, the feedback message it
puts on FMQ and sends, and the events it records, with every other variable as it was.
`motionOf` is the motion, if any, that an accepted frame makes the robot do: a steering
target and a speed.
-/
import Stm32Robot.Motor.Message

namespace Stm32Robot.Motor.Message

open Stm32Robot.Theory.Bytes
open Stm32Robot.Motor.ConvertData
open Stm32Robot.Motor.Driver
open Stm32Robot.Motor.Queue

set_option autoImplicit false

/-! ## The feedback message in memory -/

section Fill

variable (feedBackMsg : STM) (Cmd state Seq len : UInt8) (data : Nat → UInt8)

theorem view_fillFeedBackMsg {i : Nat} (inside : i < 132) :
    view (fillFeedBackMsg feedBackMsg Cmd state Seq len data).bytes i =
      if i = 131 then getXorCheck data len
      else if 5 ≤ i ∧ i < 5 + len.toNat then data (i - 5)
      else if i = 4 then len
      else if i = 3 then state
      else if i = 1 then Seq
      else if i = 2 then Cmd
      else if i = 0 then 0xCC
      else view feedBackMsg.bytes i := by
  simp only [fillFeedBackMsg, STM.setHead, STM.setCmd, STM.setSeq, STM.setState, STM.setLen,
    STM.setData, STM.setBcc, view_set, view_memcpy _ _ _ _ inside]

theorem seq_fillFeedBackMsg : (fillFeedBackMsg feedBackMsg Cmd state Seq len data).seq = Seq := by
  show view (fillFeedBackMsg feedBackMsg Cmd state Seq len data).bytes 1 = Seq
  rw [view_fillFeedBackMsg _ _ _ _ _ _ (by omega), if_neg (by omega), if_neg (by omega),
    if_neg (by omega), if_neg (by omega), if_pos rfl]

theorem cmd_fillFeedBackMsg : (fillFeedBackMsg feedBackMsg Cmd state Seq len data).cmd = Cmd := by
  show view (fillFeedBackMsg feedBackMsg Cmd state Seq len data).bytes 2 = Cmd
  rw [view_fillFeedBackMsg _ _ _ _ _ _ (by omega), if_neg (by omega), if_neg (by omega),
    if_neg (by omega), if_neg (by omega), if_neg (by omega), if_pos rfl]

end Fill

/-! ## The frames of a handler -/

/-- The queries of `MotionFeedbackHandle`. -/
def feedbackFrames : List SCM :=
  [⟨FRONT_ID, getPositionFram, 8⟩, ⟨LEFT_ID, getVelocityFram, 8⟩, ⟨RIGHT_ID, getVelocityFram, 8⟩]

/-- The frames of a motion command, from the steering target and the two wheel speeds. -/
def motionFrames (ExpPos ExpLeftV ExpRightV : Int) : List SCM :=
  [⟨FRONT_ID, setPositionFram ExpPos, 8⟩, ⟨LEFT_ID, setVelocityFram ExpLeftV, 8⟩,
    ⟨RIGHT_ID, setVelocityFram ExpRightV, 8⟩]

section Handlers

variable (k : Kinematics)

/-- The feedback message of `MotionFeedbackHandle`. -/
def feedbackReply (feedBackMsg : STM) (Seq : UInt8) (w : World) : STM :=
  fillFeedBackMsg feedBackMsg 0x81 0x00 Seq 0x06
    (ofList (short2hexbyte (k.shortAngleVel w.cru) ++ short2hexbyte (k.shortVelocity w.cru)
      ++ short2hexbyte w.yaw))

def feedbackEvents (reply : STM) : List Event :=
  feedbackFrames.map .enDCQ ++ [.enFMQ reply, .u6Send (taken (view reply.bytes) 12)]

def motionEvents (cru : Cru) (ExpPos : Int) (v : ℚ) : List Event :=
  [.expLeftVelocity v, .expRightVelocity v] ++
    (motionFrames ExpPos (k.getExpLeftVelocity cru v) (k.getExpRightVelocity cru v)).map .enDCQ

theorem motionFeedbackHandle_eq (feedBackMsg : STM) (Seq : UInt8) (w : World) :
    motionFeedbackHandle k feedBackMsg Seq w = (0, { w with
      dcq := enAll w.dcq feedbackFrames
      fmq := (enQueueinter (feedbackReply k feedBackMsg Seq w) w.fmq).2
      log := w.log ++ feedbackEvents (feedbackReply k feedBackMsg Seq w) }) := by
  simp only [motionFeedbackHandle, enDriverCmdQueue, enFeedBackMsgQueue, u6Send, World.record,
    feedbackEvents, feedbackFrames, List.append_assoc]
  rfl

theorem enMotion_eq (ExpPos : Int) (v : ℚ) (w : World) :
    enMotion k ExpPos v w = { w with
      dcq := enAll w.dcq
        (motionFrames ExpPos (k.getExpLeftVelocity w.cru v) (k.getExpRightVelocity w.cru v))
      log := w.log ++ motionEvents k w.cru ExpPos v } := by
  simp only [enMotion, getExpLeftVelocity, getExpRightVelocity, enDriverCmdQueue, World.record,
    motionEvents, motionFrames, List.append_assoc]
  rfl

/-! ## Decoding a motion command -/

/-- `v` of `MotionCmdHandle`, clamped to one metre per second. -/
def motionSpeed (data : Nat → UInt8) : ℚ :=
  let v : ℚ := (hexbyte2short fun i => data (2 + i)).toInt
  if v > 1000 then 1000 else if v < -1000 then -1000 else v

/-- `w` of `MotionCmdHandle`. -/
def motionAngleVel (data : Nat → UInt8) : ℚ :=
  let ω : ℚ := (hexbyte2short data).toInt * wRatio
  if ω > 1 / 2 then 1 / 2 else if ω < -(1 / 2) then -(1 / 2) else ω

/-- `v` of `AngleMotionCmdHandle`. -/
def angleMotionSpeed (data : Nat → UInt8) : ℚ :=
  (hexbyte2short fun i => data (2 + i)).toInt * vRatio

/-- The steering target and the speed of an accepted frame that is carried out in the mode
`isAuto`. -/
def motionOf (isAuto : UInt8) (rxMsg : STM) : Option (Int × ℚ) :=
  if rxMsg.len ≠ 0x4 then none
  else if rxMsg.cmd = 0x60 ∧ isAuto = 0 then
    some (k.angle2Position ((hexbyte2short rxMsg.data).toInt * aRatio), angleMotionSpeed rxMsg.data)
  else if rxMsg.cmd = 0x80 ∧ isAuto ≠ 0 then
    some (k.getExpPosition (motionAngleVel rxMsg.data) (motionSpeed rxMsg.data),
      motionSpeed rxMsg.data)
  else none

/-- The message of both motion handlers for a payload that is not four bytes long. -/
def checkError : Event := .printf "message.c: MotionCmdHandle check error"

theorem motionCmdHandle_of_length {data : Nat → UInt8} {len : UInt8} (four : len = 0x4)
    (w : World) : motionCmdHandle k data len w =
      (0, enMotion k (k.getExpPosition (motionAngleVel data) (motionSpeed data))
        (motionSpeed data) w) :=
  if_neg (not_not.mpr four)

theorem motionCmdHandle_of_other {data : Nat → UInt8} {len : UInt8} (other : len ≠ 0x4)
    (w : World) : motionCmdHandle k data len w = (-1, w.record checkError) := if_pos other

theorem angleMotionCmdHandle_of_length {data : Nat → UInt8} {len : UInt8} (four : len = 0x4)
    (w : World) : angleMotionCmdHandle k data len w =
      (0, enMotion k (k.angle2Position ((hexbyte2short data).toInt * aRatio))
        (angleMotionSpeed data) w) :=
  if_neg (not_not.mpr four)

theorem angleMotionCmdHandle_of_other {data : Nat → UInt8} {len : UInt8} (other : len ≠ 0x4)
    (w : World) : angleMotionCmdHandle k data len w = (-1, w.record checkError) := if_pos other

/-! ## An accepted frame -/

/-- What the `switch` records for a frame, in the mode and drive state of `w`. -/
def dispatchEvents (feedBackMsg : STM) (rxMsg : STM) (w : World) : List Event :=
  match motionOf k w.isAuto rxMsg with
  | some (ExpPos, v) => motionEvents k w.cru ExpPos v
  | none =>
      if (rxMsg.cmd = 0x60 ∧ w.isAuto = 0) ∨ (rxMsg.cmd = 0x80 ∧ w.isAuto ≠ 0) then [checkError]
      else if rxMsg.cmd = 0x81 then feedbackEvents (feedbackReply k feedBackMsg rxMsg.seq w)
      else []

/-- What the `switch` does: it sets the mode, or else it carries a motion out, rejects its
payload, answers a request or does nothing. -/
theorem dispatch_cases (feedBackMsg rxMsg : STM) (w : World) :
    (rxMsg.cmd = 0x01 ∧ dispatch k feedBackMsg rxMsg w = { w with isAuto := rxMsg.data 0 } ∧
        dispatchEvents k feedBackMsg rxMsg w = []) ∨
      rxMsg.cmd ≠ 0x01 ∧
        ((∃ ExpPos v, dispatch k feedBackMsg rxMsg w = enMotion k ExpPos v w ∧
            dispatchEvents k feedBackMsg rxMsg w = motionEvents k w.cru ExpPos v) ∨
          (dispatch k feedBackMsg rxMsg w = w.record checkError ∧
            dispatchEvents k feedBackMsg rxMsg w = [checkError]) ∨
          (dispatch k feedBackMsg rxMsg w = (motionFeedbackHandle k feedBackMsg rxMsg.seq w).2 ∧
            dispatchEvents k feedBackMsg rxMsg w =
              feedbackEvents (feedbackReply k feedBackMsg rxMsg.seq w)) ∨
          (dispatch k feedBackMsg rxMsg w = w ∧ dispatchEvents k feedBackMsg rxMsg w = [])) := by
  unfold dispatch dispatchEvents motionOf
  by_cases mode : rxMsg.cmd = 0x01
  · exact .inl ⟨mode, by simp [mode], by simp [mode]⟩
  refine .inr ⟨mode, ?_⟩
  by_cases angle : rxMsg.cmd = 0x60
  · by_cases manual : w.isAuto = 0
    · by_cases four : rxMsg.len = 0x4
      · refine .inl ⟨k.angle2Position ((hexbyte2short rxMsg.data).toInt * aRatio),
          angleMotionSpeed rxMsg.data, ?_⟩
        simp [angle, manual, four, angleMotionCmdHandle_of_length]
      · refine .inr (.inl ?_)
        simp [angle, manual, four, angleMotionCmdHandle_of_other]
    · exact .inr (.inr (.inr (by simp [angle, manual])))
  by_cases motion : rxMsg.cmd = 0x80
  · by_cases auto : w.isAuto = 0
    · exact .inr (.inr (.inr (by simp [motion, auto])))
    · by_cases four : rxMsg.len = 0x4
      · refine .inl ⟨k.getExpPosition (motionAngleVel rxMsg.data) (motionSpeed rxMsg.data),
          motionSpeed rxMsg.data, ?_⟩
        simp [motion, auto, four, motionCmdHandle_of_length]
      · refine .inr (.inl ?_)
        simp [motion, auto, four, motionCmdHandle_of_other]
  by_cases request : rxMsg.cmd = 0x81
  · exact .inr (.inr (.inl (by simp [request])))
  · exact .inr (.inr (.inr (by simp [mode, angle, motion, request])))

theorem log_dispatch (feedBackMsg rxMsg : STM) (w : World) :
    (dispatch k feedBackMsg rxMsg w).log = w.log ++ dispatchEvents k feedBackMsg rxMsg w := by
  rcases dispatch_cases k feedBackMsg rxMsg w with ⟨-, after, events⟩ |
    ⟨-, ⟨ExpPos, v, after, events⟩ | ⟨after, events⟩ | ⟨after, events⟩ | ⟨after, events⟩⟩
  · rw [after, events, List.append_nil]
  · rw [after, events, enMotion_eq]
  · rw [after, events, World.record]
  · rw [after, events, motionFeedbackHandle_eq]
  · rw [after, events, List.append_nil]

/-- The mode after the `switch`. -/
theorem isAuto_dispatch (feedBackMsg rxMsg : STM) (w : World) :
    (dispatch k feedBackMsg rxMsg w).isAuto =
      if rxMsg.cmd = 0x01 then rxMsg.data 0 else w.isAuto := by
  rcases dispatch_cases k feedBackMsg rxMsg w with ⟨mode, after, -⟩ |
    ⟨other, ⟨ExpPos, v, after, -⟩ | ⟨after, -⟩ | ⟨after, -⟩ | ⟨after, -⟩⟩
  · rw [after, if_pos mode]
  · rw [after, if_neg other, enMotion_eq]
  · rw [after, if_neg other, World.record]
  · rw [after, if_neg other, motionFeedbackHandle_eq]
  · rw [after, if_neg other]

/-- The parity message, where the check byte does not match. -/
def parityEvents (rxMsg : STM) : List Event :=
  if getXorCheck rxMsg.data rxMsg.len ≠ rxMsg.bcc then [.printf "message.c:  XOR check error"]
  else []

theorem isAuto_accept (l : Locals) (rxMsg : STM) (w : World) :
    (accept k l rxMsg w).isAuto = if rxMsg.cmd = 0x01 then rxMsg.data 0 else w.isAuto := by
  unfold accept
  rw [isAuto_dispatch]
  simp only [motionFeedbackHandle_eq, World.record]
  split_ifs <;> rfl

/-- An accepted frame is answered, and then dispatched. -/
theorem log_accept_eq (l : Locals) (rxMsg : STM) (w : World) :
    (accept k l rxMsg w).log = w.log ++ parityEvents rxMsg ++
      feedbackEvents (feedbackReply k l.feedBackMsg rxMsg.seq w) ++
      dispatchEvents k l.feedBackMsg' rxMsg w := by
  unfold accept parityEvents
  rw [log_dispatch]
  simp only [motionFeedbackHandle_eq, World.record]
  split_ifs
  · rfl
  · simp only [List.append_nil]
    rfl

theorem log_accept (l : Locals) (rxMsg : STM) (w : World) :
    ∃ reply, (accept k l rxMsg w).log = w.log ++ parityEvents rxMsg ++ feedbackEvents reply ++
      dispatchEvents k l.feedBackMsg' rxMsg w := ⟨_, log_accept_eq k l rxMsg w⟩

end Handlers

/-! ## Reading the events -/

/-- The frames a list of events puts on DCQ. -/
def enqueued (es : List Event) : List SCM :=
  es.filterMap fun
    | .enDCQ m => some m
    | _ => none

/-- The arguments of the wheel speed functions. -/
def speeds (es : List Event) : List ℚ :=
  es.filterMap fun
    | .expLeftVelocity v => some v
    | .expRightVelocity v => some v
    | _ => none

/-- A `DTargetPostion` write. -/
def SCM.isTargetPosition (m : SCM) : Bool :=
  framSize m.data = WBYTE4 ∧ framCmd m.data = KincoCmd.dTargetPostion.code.toNat

/-- A `SetVelocity` write. -/
def SCM.isSetVelocity (m : SCM) : Bool :=
  framSize m.data = WBYTE4 ∧ framCmd m.data = KincoCmd.setVelocity.code.toNat

/-- A frame that moves the robot. -/
def SCM.isMotion (m : SCM) : Bool := m.isTargetPosition || m.isSetVelocity

theorem isTargetPosition_setPositionFram (id pos : Int) :
    SCM.isTargetPosition ⟨id, setPositionFram pos, 8⟩ = true := by
  obtain ⟨first, object⟩ := setSendFramData_header WBYTE4 .dTargetPostion pos
  exact decide_eq_true ⟨first, object⟩

theorem isSetVelocity_setVelocityFram (id v : Int) :
    SCM.isSetVelocity ⟨id, setVelocityFram v, 8⟩ = true := by
  obtain ⟨first, object⟩ := setSendFramData_header WBYTE4 .setVelocity (v * DEC)
  exact decide_eq_true ⟨first, object⟩

theorem isSetVelocity_setPositionFram (id pos : Int) :
    SCM.isSetVelocity ⟨id, setPositionFram pos, 8⟩ = false := by
  obtain ⟨-, object⟩ := setSendFramData_header WBYTE4 .dTargetPostion pos
  apply decide_eq_false
  rintro ⟨-, same⟩
  rw [setPositionFram, object] at same
  exact absurd same (by decide)

theorem isTargetPosition_setVelocityFram (id v : Int) :
    SCM.isTargetPosition ⟨id, setVelocityFram v, 8⟩ = false := by
  obtain ⟨-, object⟩ := setSendFramData_header WBYTE4 .setVelocity (v * DEC)
  apply decide_eq_false
  rintro ⟨-, same⟩
  rw [setVelocityFram, object] at same
  exact absurd same (by decide)

/-- The queries of `MotionFeedbackHandle` move nothing. -/
theorem isMotion_feedbackFrames : ∀ m ∈ feedbackFrames, m.isMotion = false := by decide

theorem isMotion_motionFrames (ExpPos l r : Int) :
    ∀ m ∈ motionFrames ExpPos l r, m.isMotion = true := by
  intro m mem
  simp only [motionFrames, List.mem_cons, List.not_mem_nil, or_false] at mem
  rcases mem with rfl | rfl | rfl
  · simp [SCM.isMotion, isTargetPosition_setPositionFram]
  · simp [SCM.isMotion, isSetVelocity_setVelocityFram]
  · simp [SCM.isMotion, isSetVelocity_setVelocityFram]

@[simp] theorem enqueued_append (es fs : List Event) :
    enqueued (es ++ fs) = enqueued es ++ enqueued fs := List.filterMap_append

@[simp] theorem speeds_append (es fs : List Event) :
    speeds (es ++ fs) = speeds es ++ speeds fs := List.filterMap_append

/-! ## What an accepted frame leaves in DCQ -/

theorem dcq_dispatch (k : Kinematics) (feedBackMsg rxMsg : STM) (w : World) :
    (dispatch k feedBackMsg rxMsg w).dcq =
      enAll w.dcq (enqueued (dispatchEvents k feedBackMsg rxMsg w)) := by
  rcases dispatch_cases k feedBackMsg rxMsg w with ⟨-, after, events⟩ |
    ⟨-, ⟨ExpPos, v, after, events⟩ | ⟨after, events⟩ | ⟨after, events⟩ | ⟨after, events⟩⟩
  · rw [after, events]
    rfl
  · rw [after, events, enMotion_eq]
    rfl
  · rw [after, events]
    rfl
  · rw [after, events, motionFeedbackHandle_eq]
    rfl
  · rw [after, events]
    rfl

/-- An accepted frame enqueues the queries and what the `switch` enqueues. -/
theorem dcq_accept (k : Kinematics) (l : Locals) (rxMsg : STM) (w : World) :
    (accept k l rxMsg w).dcq =
      enAll w.dcq (feedbackFrames ++ enqueued (dispatchEvents k l.feedBackMsg' rxMsg w)) := by
  unfold accept
  rw [dcq_dispatch, enAll_append]
  simp only [motionFeedbackHandle_eq, World.record]
  split_ifs <;> rfl

/-- The `switch` enqueues the frames of a motion, queries, or nothing. -/
theorem forall_mem_enqueued_dispatchEvents (k : Kinematics) (feedBackMsg rxMsg : STM) (w : World)
    {P : SCM → Prop} (motion : ∀ ExpPos l r, ∀ m ∈ motionFrames ExpPos l r, P m)
    (feedback : ∀ m ∈ feedbackFrames, P m) :
    ∀ m ∈ enqueued (dispatchEvents k feedBackMsg rxMsg w), P m := by
  unfold dispatchEvents
  cases motionOf k w.isAuto rxMsg with
  | some target => exact motion target.1 _ _
  | none =>
      intro m mem
      simp only at mem
      split_ifs at mem
      · cases mem
      · exact feedback m mem
      · cases mem

theorem enqueued_parityEvents (rxMsg : STM) : enqueued (parityEvents rxMsg) = [] := by
  unfold parityEvents
  split <;> rfl

theorem speeds_parityEvents (rxMsg : STM) : speeds (parityEvents rxMsg) = [] := by
  unfold parityEvents
  split <;> rfl

theorem enqueued_feedbackEvents (reply : STM) :
    enqueued (feedbackEvents reply) = feedbackFrames := rfl

theorem speeds_feedbackEvents (reply : STM) : speeds (feedbackEvents reply) = [] := rfl

section Motion

variable (k : Kinematics)

/-- The speeds handed on for a motion: once for each wheel. -/
def wheelSpeeds : Option (Int × ℚ) → List ℚ
  | some (_, v) => [v, v]
  | none => []

/-- The wheel speed functions are called for the motion of the frame, and for nothing else. -/
theorem speeds_dispatchEvents (feedBackMsg rxMsg : STM) (w : World) :
    speeds (dispatchEvents k feedBackMsg rxMsg w) = wheelSpeeds (motionOf k w.isAuto rxMsg) := by
  unfold dispatchEvents
  cases motionOf k w.isAuto rxMsg with
  | some motion => rfl
  | none =>
      show speeds (if _ then _ else if _ then _ else _) = []
      split_ifs <;> rfl

/-- The motion frames of the `switch`: three of the frame's motion, none without one. -/
theorem motion_dispatchEvents (feedBackMsg rxMsg : STM) (w : World) :
    (∃ m ∈ enqueued (dispatchEvents k feedBackMsg rxMsg w), m.isMotion = true) ↔
      (motionOf k w.isAuto rxMsg).isSome := by
  unfold dispatchEvents
  cases motionOf k w.isAuto rxMsg with
  | some motion =>
      refine ⟨fun _ => rfl, fun _ => ?_⟩
      exact ⟨_, List.mem_cons_self, isMotion_motionFrames motion.1 0 0 _ List.mem_cons_self⟩
  | none =>
      simp only [Option.isSome_none, Bool.false_eq_true, iff_false, not_exists, not_and]
      intro m mem
      split_ifs at mem
      · cases mem
      · rw [enqueued_feedbackEvents] at mem
        rw [isMotion_feedbackFrames m mem]
        decide
      · cases mem

end Motion

end Stm32Robot.Motor.Message
