/-
# Serial.RobotPort -- USART2 delivers every frame

The stream is a list of frames, each followed by a run of filler bytes.  From power-up
`UsartRcvRobotDataHandle` calls `MessageHandle` once for each frame, in order, with the bytes
of that frame, and at no other time.
-/
import Stm32Robot.Serial.FrameReceiver

namespace Stm32Robot.Serial

open Stm32Robot.Theory.Transducer
open Stm32Robot.Motor.Message

set_option autoImplicit false

/-- A frame on the wire with the filler bytes that follow it. -/
structure SpacedFrame where
  frame : Frame
  filler : List UInt8
  silent : ∀ b ∈ filler, b ≠ 0xAA

def SpacedFrame.stream (s : SpacedFrame) : List UInt8 := s.frame.bytes ++ s.filler

/-- On a complete port a run of filler bytes changes nothing. -/
theorem robotPort_fillers {p : Port} (complete : Complete p) {bs : List UInt8}
    (silent : ∀ b ∈ bs, b ≠ 0xAA) :
    runState usartRcvRobotDataHandle p bs = p ∧ emitted usartRcvRobotDataHandle p bs = [] := by
  induction bs with
  | nil => exact ⟨rfl, rfl⟩
  | cons b bs ih =>
      have dropped : usartRcvRobotDataHandle p b = (p, []) :=
        rcvDataHandle_filler complete (silent b List.mem_cons_self)
      rw [runState_cons, emitted_cons, dropped]
      exact ih fun c mem => silent c (List.mem_cons_of_mem b mem)

theorem robotPort_frame {p : Port} (idle : Idle p) (f : Frame) :
    Complete (runState usartRcvRobotDataHandle p f.bytes) ∧
      (emitted usartRcvRobotDataHandle p f.bytes).map Call.bytes = [f.bytes] := by
  have whole : f.bytes.map id = f.bytes := List.map_id _
  apply emitted_frame _ _ idle f.bytes whole
  · intro p i idle head
    rw [show i = 0xAA from head]
    exact rcvDataHandle_head idle
  · intro p bs i _ _
    rfl

/-- From any idle port the calls are the frames of the stream. -/
theorem robotPort_stream {p : Port} (idle : Idle p) (sent : List SpacedFrame) :
    (emitted usartRcvRobotDataHandle p (sent.flatMap SpacedFrame.stream)).map Call.bytes =
      (sent.map SpacedFrame.frame).map Frame.bytes := by
  induction sent generalizing p with
  | nil => rfl
  | cons s sent ih =>
      obtain ⟨complete, handed⟩ := robotPort_frame idle s.frame
      obtain ⟨still, nothing⟩ := robotPort_fillers complete s.silent
      rw [List.flatMap_cons, SpacedFrame.stream, List.append_assoc, emitted_append,
        emitted_append, still, nothing, List.nil_append, List.map_append, handed,
        ih (Or.inl complete)]
      rfl

/-- USART2 framing round trip, from power-up. -/
theorem robotPort_round_trip (sent : List SpacedFrame) :
    List.Forall₂ Call.Delivers
      (emitted usartRcvRobotDataHandle .powerUp (sent.flatMap SpacedFrame.stream))
      (sent.map SpacedFrame.frame) :=
  delivers_iff.mpr (robotPort_stream (Or.inr rfl) sent)

end Stm32Robot.Serial
