/-
# Motor.MessageAccept -- which frames MessageHandle accepts

`MessageHandle` tests the head byte and the length byte of a frame (`Framed`) and then the
parity of the payload (`ParityOk`), but the `return -1` after the parity message is commented
out: a framed message is accepted whatever its check byte (`messageHandle_of_framed`).

`HandledAsStated` says of one call that it accepts exactly the well-formed frames and leaves
the mode and both queues alone on every other.  `handledAsStated_iff` says when it holds.
-/
import Stm32Robot.Motor.MessageEffect

namespace Stm32Robot.Motor.Message

open Stm32Robot.Theory.Bytes
open Stm32Robot.Motor.ConvertData
open Stm32Robot.Motor.Driver
open Stm32Robot.Motor.Queue

set_option autoImplicit false

/-! ## Frames -/

/-- The frame test: the head byte, and the length byte against the length. -/
def Framed (msg : Nat → UInt8) (len : Nat) : Prop :=
  6 ≤ len ∧ msg 0 = 0xAA ∧ (msg 4).toNat + 6 = len

/-- The last byte is the parity of the payload. -/
def ParityOk (msg : Nat → UInt8) (len : Nat) : Prop :=
  xorOf (fun i => msg (5 + i)) (len - 6) = msg (len - 1)

def WellFormed (msg : Nat → UInt8) (len : Nat) : Prop := Framed msg len ∧ ParityOk msg len

instance (msg : Nat → UInt8) (len : Nat) : Decidable (Framed msg len) :=
  inferInstanceAs (Decidable (_ ∧ _ ∧ _))

instance (msg : Nat → UInt8) (len : Nat) : Decidable (ParityOk msg len) :=
  inferInstanceAs (Decidable (_ = _))

instance (msg : Nat → UInt8) (len : Nat) : Decidable (WellFormed msg len) :=
  inferInstanceAs (Decidable (_ ∧ _))

/-- What hands over a frame is framed. -/
theorem Call.Delivers.framed {c : Call} {f : Frame} (delivers : c.Delivers f) :
    Framed c.msg c.len := by
  obtain ⟨length, bytes⟩ := delivers
  have long : 4 < f.bytes.length := by rw [Frame.length_bytes]; omega
  have head : c.msg 0 = 0xAA := bytes 0 (by omega)
  have stored : c.msg 4 = f.len := (bytes 4 long).trans (f.getElem_four long)
  refine ⟨by omega, head, ?_⟩
  rw [stored, f.toNat_len, length]

/-! ## The local RxMsg -/

section Load

variable (rxMsg : STM) {msg : Nat → UInt8} {len : Nat}

theorem view_loadRxMsg {i : Nat} (copied : i < len - 1) (notBcc : i < 131) :
    view (loadRxMsg rxMsg msg len).bytes i = msg i := by
  show view ((memcpy rxMsg.bytes 0 msg (len - 1)).set 131 (msg (len - 1))) i = msg i
  rw [view_set _ (by omega), if_neg (by omega), view_memcpy _ _ _ _ (by omega),
    if_pos (by omega), Nat.sub_zero]

theorem bcc_loadRxMsg : (loadRxMsg rxMsg msg len).bcc = msg (len - 1) :=
  Vector.getElem_set_self _

theorem head_loadRxMsg (long : 6 ≤ len) : (loadRxMsg rxMsg msg len).head = msg 0 :=
  view_loadRxMsg rxMsg (i := 0) (by omega) (by omega)

theorem seq_loadRxMsg (long : 6 ≤ len) : (loadRxMsg rxMsg msg len).seq = msg 1 :=
  view_loadRxMsg rxMsg (i := 1) (by omega) (by omega)

theorem cmd_loadRxMsg (long : 6 ≤ len) : (loadRxMsg rxMsg msg len).cmd = msg 2 :=
  view_loadRxMsg rxMsg (i := 2) (by omega) (by omega)

theorem len_loadRxMsg (long : 6 ≤ len) : (loadRxMsg rxMsg msg len).len = msg 4 :=
  view_loadRxMsg rxMsg (i := 4) (by omega) (by omega)

theorem data_loadRxMsg {i : Nat} (payload : i < len - 6) (fits : len ≤ 132) :
    (loadRxMsg rxMsg msg len).data i = msg (5 + i) :=
  view_loadRxMsg rxMsg (by omega) (by omega)

/-- Past the payload the local keeps what it held. -/
theorem data_loadRxMsg_empty (empty : len = 6) :
    (loadRxMsg rxMsg msg len).data 0 = rxMsg.data 0 := by
  subst empty
  show view ((memcpy rxMsg.bytes 0 msg 5).set 131 (msg 5)) 5 = view rxMsg.bytes 5
  rw [view_set _ (by omega), if_neg (by omega), view_memcpy _ _ _ _ (by omega),
    if_neg (by omega)]

end Load

/-! ## Accepted and rejected calls -/

section Calls

variable (k : Kinematics) (l : Locals) {msg : Nat → UInt8} {len : Nat} (w : World)

theorem parity_loadRxMsg (framed : Framed msg len) (fits : len ≤ 132) :
    getXorCheck (loadRxMsg l.rxMsg msg len).data (loadRxMsg l.rxMsg msg len).len =
      (loadRxMsg l.rxMsg msg len).bcc ↔ ParityOk msg len := by
  obtain ⟨long, -, total⟩ := framed
  have payload : (msg 4).toNat = len - 6 := by omega
  have same : xorOf (loadRxMsg l.rxMsg msg len).data (len - 6) =
      xorOf (fun i => msg (5 + i)) (len - 6) :=
    xorOf_congr fun i hi => data_loadRxMsg l.rxMsg hi fits
  rw [getXorCheck, len_loadRxMsg l.rxMsg long, payload, same, bcc_loadRxMsg, ParityOk]

/-- Where the check byte does not match, the mismatch is printed. -/
theorem parityEvents_of_mismatch (framed : Framed msg len) (mismatch : ¬ ParityOk msg len)
    (fits : len ≤ 132) : parityEvents (loadRxMsg l.rxMsg msg len) =
      [.printf "message.c:  XOR check error"] :=
  if_pos fun same => mismatch ((parity_loadRxMsg l framed fits).mp same)

/-- A framed message is accepted, whatever its check byte. -/
theorem messageHandle_of_framed (framed : Framed msg len) (fits : len ≤ 133) :
    messageHandle k l msg len w = some (0, accept k l (loadRxMsg l.rxMsg msg len) w) := by
  obtain ⟨long, head, total⟩ := framed
  unfold messageHandle
  rw [if_neg (by omega), if_neg]
  rw [head_loadRxMsg l.rxMsg long, len_loadRxMsg l.rxMsg long]
  simp only [head, ne_eq, not_true_eq_false, false_or, not_not]
  exact total

/-- Every other message is reported and has no effect. -/
theorem messageHandle_of_not_framed (other : ¬ Framed msg len) (one : 1 ≤ len)
    (fits : len ≤ 133) :
    messageHandle k l msg len w =
      some (-1, w.record (.printf "message.c:  msg is not available")) := by
  unfold messageHandle
  rw [if_neg (by omega), if_pos]
  by_cases long : 6 ≤ len
  · rw [head_loadRxMsg l.rxMsg long, len_loadRxMsg l.rxMsg long]
    by_contra passed
    rw [not_or, not_not, not_not] at passed
    exact other ⟨long, passed.1, passed.2⟩
  · right
    unfold EXTERN_BUFSIZE
    omega

/-- A call that has a result answers 0 for the framed messages alone. -/
theorem messageHandle_total (one : 1 ≤ len) (fits : len ≤ 133) :
    ∃ ret w', messageHandle k l msg len w = some (ret, w') ∧ (ret = 0 ↔ Framed msg len) := by
  by_cases framed : Framed msg len
  · exact ⟨0, _, messageHandle_of_framed k l w framed fits, iff_of_true rfl framed⟩
  · exact ⟨-1, _, messageHandle_of_not_framed k l w framed one fits,
      iff_of_false (by decide) framed⟩

/-- A longer message overruns the local. -/
theorem messageHandle_of_long (long : 133 < len) : messageHandle k l msg len w = none :=
  if_pos (Or.inr (by omega))

/-! ## The rule and its exact condition -/

/-- One call answers 0 for the well-formed frames alone, and on every other it answers -1
and leaves `isAuto`, DCQ and FMQ as they were. -/
def HandledAsStated (msg : Nat → UInt8) (len : Nat) : Prop :=
  ∃ ret w', messageHandle k l msg len w = some (ret, w') ∧ (ret = 0 ↔ WellFormed msg len) ∧
    (¬ WellFormed msg len →
      ret = -1 ∧ w'.isAuto = w.isAuto ∧ w'.dcq = w.dcq ∧ w'.fmq = w.fmq)

theorem handledAsStated_of_not_framed (other : ¬ Framed msg len) (one : 1 ≤ len)
    (fits : len ≤ 132) : HandledAsStated k l w msg len := by
  refine ⟨-1, _, messageHandle_of_not_framed k l w other one (by omega), ?_, ?_⟩
  · constructor
    · intro zero
      cases zero
    · intro wellFormed
      exact absurd wellFormed.1 other
  · intro _
    exact ⟨rfl, rfl, rfl, rfl⟩

theorem handledAsStated_of_wellFormed (wellFormed : WellFormed msg len) (fits : len ≤ 132) :
    HandledAsStated k l w msg len := by
  refine ⟨0, _, messageHandle_of_framed k l w wellFormed.1 (by omega), ?_, ?_⟩
  · exact ⟨fun _ => wellFormed, fun _ => rfl⟩
  · intro malformed
    exact absurd wellFormed malformed

/-- The rule fails on exactly the framed messages whose check byte does not match. -/
theorem handledAsStated_iff (one : 1 ≤ len) (fits : len ≤ 132) :
    HandledAsStated k l w msg len ↔ ¬ (Framed msg len ∧ ¬ ParityOk msg len) := by
  constructor
  · rintro ⟨ret, w', handled, zero_iff, -⟩ ⟨framed, mismatch⟩
    rw [messageHandle_of_framed k l w framed (by omega)] at handled
    cases handled
    exact mismatch (zero_iff.mp rfl).2
  · intro clear
    by_cases framed : Framed msg len
    · have parity : ParityOk msg len := by
        by_contra mismatch
        exact clear ⟨framed, mismatch⟩
      exact handledAsStated_of_wellFormed k l w ⟨framed, parity⟩ fits
    · exact handledAsStated_of_not_framed k l w framed one fits

/-- A mode frame with its check byte intact. -/
theorem handledAsStated_iff_modeFrame :
    HandledAsStated .still .zero .powerUp (ofList [0xAA, 0, 0x01, 0, 1, 5, 5]) 7 :=
  (handledAsStated_iff .still .zero .powerUp (by decide) (by decide)).mpr (by decide)

/-- The same frame with a check byte that does not match is accepted too. -/
theorem handledAsStated_fails :
    ¬ ∀ (k : Kinematics) (l : Locals) (w : World) (msg : Nat → UInt8) (len : Nat),
      1 ≤ len → len ≤ 132 → HandledAsStated k l w msg len := by
  intro stated
  have mode := stated .still .zero .powerUp (ofList [0xAA, 0, 0x01, 0, 1, 5, 0]) 7
    (by decide) (by decide)
  obtain ⟨ret, w', handled, zero_iff, -⟩ := mode
  rw [messageHandle_of_framed _ _ _ (by decide) (by decide)] at handled
  cases handled
  exact absurd (zero_iff.mp rfl) (by decide)

/-! ## Corruption of one byte -/

/-- A change of a payload byte or of the check byte of a well-formed frame breaks the parity
and passes the frame test: it is always reported and always accepted. -/
theorem corrupted_accepted {msg' : Nat → UInt8} {j : Nat} (wellFormed : WellFormed msg len)
    (fits : len ≤ 132) (payload : 5 ≤ j) (inside : j < len)
    (same : ∀ i, i < len → i ≠ j → msg' i = msg i) (corrupt : msg' j ≠ msg j) :
    parityEvents (loadRxMsg l.rxMsg msg' len) = [.printf "message.c:  XOR check error"] ∧
      messageHandle k l msg' len w = some (0, accept k l (loadRxMsg l.rxMsg msg' len) w) := by
  obtain ⟨⟨long, head, total⟩, parity⟩ := wellFormed
  have framed : Framed msg' len :=
    ⟨long, by rw [same 0 (by omega) (by omega), head], by rwa [same 4 (by omega) (by omega)]⟩
  refine ⟨parityEvents_of_mismatch l framed (fun parity' => ?_) fits,
    messageHandle_of_framed k l w framed (by omega)⟩
  rw [ParityOk] at parity parity'
  by_cases check : j = len - 1
  · subst check
    have agree : xorOf (fun i => msg' (5 + i)) (len - 6) = xorOf (fun i => msg (5 + i)) (len - 6) :=
      xorOf_congr fun i hi => same (5 + i) (by omega) (by omega)
    exact corrupt (by rw [← parity', ← parity, agree])
  · have differ : xorOf (fun i => msg' (5 + i)) (len - 6) ≠
        xorOf (fun i => msg (5 + i)) (len - 6) := by
      apply xorOf_ne_of_differ (i := j - 5) (by omega)
      · intro i hi ne
        exact same (5 + i) (by omega) (by omega)
      · have back : 5 + (j - 5) = j := by omega
        rwa [back]
    exact differ (by rw [parity', parity, same (len - 1) (by omega) (by omega)])

end Calls

end Stm32Robot.Motor.Message
