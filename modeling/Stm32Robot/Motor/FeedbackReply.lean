/-
# Motor.FeedbackReply -- how often an accepted frame is answered

`MessageHandle` answers every accepted frame with a feedback message that carries the frame's
sequence number, and the 0x81 branch of its `switch` answers once more.  `replies` reads the
sequence numbers of the answers off the recorded events; over a sequence of frames they are
those of the frames exactly when no frame is a 0x81 request (`answeredOnce_iff`).
-/
import Stm32Robot.Motor.ControlMode

namespace Stm32Robot.Motor.Message

open Stm32Robot.Theory.Bytes
open Stm32Robot.Theory.Transducer

set_option autoImplicit false

/-! ## Reading the answers off the events -/

/-- The sequence numbers of the 0x81 feedback messages `EnFeedBackMsgQueue` emits. -/
def replies (es : List Event) : List UInt8 :=
  es.filterMap fun
    | .enFMQ m => if m.cmd = 0x81 then some m.seq else none
    | _ => none

@[simp] theorem replies_append (es fs : List Event) :
    replies (es ++ fs) = replies es ++ replies fs := List.filterMap_append

theorem replies_parityEvents (rxMsg : STM) : replies (parityEvents rxMsg) = [] := by
  unfold parityEvents
  split <;> rfl

section Replies

variable (k : Kinematics)

theorem replies_feedbackEvents (feedBackMsg : STM) (Seq : UInt8) (w : World) :
    replies (feedbackEvents (feedbackReply k feedBackMsg Seq w)) = [Seq] := by
  have cmd : (feedbackReply k feedBackMsg Seq w).cmd = 0x81 := cmd_fillFeedBackMsg _ _ _ _ _ _
  have seq : (feedbackReply k feedBackMsg Seq w).seq = Seq := seq_fillFeedBackMsg _ _ _ _ _ _
  simp [replies, feedbackEvents, feedbackFrames, cmd, seq]

theorem motionOf_feedback (isAuto : UInt8) {rxMsg : STM} (request : rxMsg.cmd = 0x81) :
    motionOf k isAuto rxMsg = none := by
  unfold motionOf
  rw [request]
  split_ifs with four manual auto
  · rfl
  · exact absurd manual.1 (by decide)
  · exact absurd auto.1 (by decide)
  · rfl

/-- The `switch` answers a 0x81 request, and no other frame. -/
theorem replies_dispatchEvents (feedBackMsg rxMsg : STM) (w : World) :
    replies (dispatchEvents k feedBackMsg rxMsg w) =
      if rxMsg.cmd = 0x81 then [rxMsg.seq] else [] := by
  by_cases request : rxMsg.cmd = 0x81
  · have other : ¬ ((rxMsg.cmd = 0x60 ∧ w.isAuto = 0) ∨ (rxMsg.cmd = 0x80 ∧ w.isAuto ≠ 0)) := by
      rw [request]
      rintro (manual | auto)
      · exact absurd manual.1 (by decide)
      · exact absurd auto.1 (by decide)
    rw [if_pos request]
    unfold dispatchEvents
    rw [motionOf_feedback k w.isAuto request]
    show replies (if _ then _ else if _ then _ else _) = _
    rw [if_neg other, if_pos request, replies_feedbackEvents]
  · rw [if_neg request]
    unfold dispatchEvents
    cases motionOf k w.isAuto rxMsg with
    | some motion => rfl
    | none =>
        show replies (if _ then _ else if _ then _ else _) = _
        rw [if_neg request]
        split_ifs <;> rfl

end Replies

/-! ## Sequences of accepted frames -/

/-- The sequence number of a frame. -/
def AcceptedFrame.seq (f : AcceptedFrame) : UInt8 := f.msg 1

/-- The answers to a frame. -/
def AcceptedFrame.answers (f : AcceptedFrame) : List UInt8 :=
  if f.cmd = 0x81 then [f.seq, f.seq] else [f.seq]

section Runs

variable (k : Kinematics)

/-- What one call answers. -/
theorem replies_messageStep (w : World) (f : AcceptedFrame) :
    replies (messageStep k w f).2 = f.answers := by
  have seq : f.rxMsg.seq = f.seq := seq_loadRxMsg _ f.framed.1
  rw [messageStep_eq, log_accept_eq, Meanwhile.log_apply, List.nil_append]
  simp only [replies_append, replies_parityEvents, replies_feedbackEvents,
    replies_dispatchEvents, f.cmd_rxMsg, seq, List.nil_append, AcceptedFrame.answers]
  split <;> rfl

/-- What a sequence of calls answers, from any state. -/
theorem replies_run (w : World) (fs : List AcceptedFrame) :
    replies (emitted (messageStep k) w fs) = fs.flatMap AcceptedFrame.answers := by
  induction fs generalizing w with
  | nil => rfl
  | cons f fs ih =>
      rw [emitted_cons, replies_append, replies_messageStep, ih, List.flatMap_cons]

theorem length_le_answers (fs : List AcceptedFrame) :
    fs.length ≤ (fs.flatMap AcceptedFrame.answers).length := by
  induction fs with
  | nil => exact Nat.zero_le _
  | cons f fs ih =>
      have one : 1 ≤ f.answers.length := by
        unfold AcceptedFrame.answers
        split
        · exact Nat.le_succ 1
        · exact Nat.le_refl 1
      rw [List.flatMap_cons, List.length_append, List.length_cons]
      omega

theorem answers_eq_iff (fs : List AcceptedFrame) :
    fs.flatMap AcceptedFrame.answers = fs.map AcceptedFrame.seq ↔ ∀ f ∈ fs, f.cmd ≠ 0x81 := by
  induction fs with
  | nil => simp
  | cons f fs ih =>
      rw [List.flatMap_cons, List.map_cons, List.forall_mem_cons]
      by_cases request : f.cmd = 0x81
      · -- two answers and at least one for each later frame are too many
        refine iff_of_false (fun same => ?_) fun none => none.1 request
        have lengths := congrArg List.length same
        have later := length_le_answers fs
        simp only [AcceptedFrame.answers, if_pos request, List.length_append, List.length_cons,
          List.length_nil, List.length_map] at lengths
        omega
      · rw [AcceptedFrame.answers, if_neg request, List.singleton_append, List.cons.injEq, ih]
        exact ⟨fun later => ⟨request, later.2⟩, fun both => ⟨rfl, both.2⟩⟩

/-- The answers to a sequence of accepted frames are those asked for, one each and in order,
exactly when none of the frames is a 0x81 request. -/
theorem answeredOnce_iff (w : World) (fs : List AcceptedFrame) :
    replies (emitted (messageStep k) w fs) = fs.map AcceptedFrame.seq ↔
      ∀ f ∈ fs, f.cmd ≠ 0x81 := by
  rw [replies_run, answers_eq_iff]

end Runs

/-- A feedback request with sequence number 7. -/
def feedbackRequestFrame : AcceptedFrame where
  msg := ofList [0xAA, 7, 0x81, 0, 0, 0]
  len := 6
  framed := by decide
  fits := bareModeFrame.fits
  locals := .zero
  meanwhile := ⟨World.powerUp.dcq, World.powerUp.fmq, World.powerUp.cru, 0⟩

/-- It is answered twice. -/
theorem feedbackRequest_answered_twice :
    ¬ ∀ (k : Kinematics) (fs : List AcceptedFrame),
      replies (emitted (messageStep k) .powerUp fs) = fs.map AcceptedFrame.seq := by
  intro stated
  have once := stated .still [feedbackRequestFrame]
  rw [replies_run] at once
  exact absurd once (by decide)

end Stm32Robot.Motor.Message
