/-
# Serial.Progress -- the receiver always comes to the end of a frame

The end of a frame is an equality: the count is compared with the fifth byte of the buffer and
six.  A count that jumped over it would go on into the flag bits.  It cannot: a port that
counts holds the beginning of a piece and not all of it (`Open`), so every byte brings it one
nearer to an end that is at most 261 bytes from the first.
-/
import Mathlib.Data.List.Induction
import Stm32Robot.Serial.BufferBound

namespace Stm32Robot.Serial

open Stm32Robot.Theory.Transducer
open Stm32Robot.Motor.Message

set_option autoImplicit false

/-! ## Open pieces -/

/-- The beginning of a piece, with at least one byte missing. -/
structure Open (bs : List UInt8) : Prop where
  within : Within bs
  more : ¬ Whole bs

namespace Open

variable {bs : List UInt8}

theorem nil : Open [] := ⟨nofun, nofun⟩

theorem length_lt (piece : Open bs) : bs.length < 261 := by
  refine lt_of_le_of_ne piece.within.length_le fun full => piece.more ?_
  have known : 4 < bs.length := by omega
  have ends : pieceEnd bs = some (bs[4].toNat + 6) := by
    rw [pieceEnd, List.getElem?_eq_getElem known]
    rfl
  have reached := piece.within _ ends
  have := bs[4].toNat_lt
  rw [Whole, ends]
  congr 1
  omega

/-- One more byte is still within the piece. -/
theorem within_concat (piece : Open bs) (b : UInt8) : Within (bs ++ [b]) := by
  intro n ends
  rw [List.length_append, List.length_singleton]
  rcases lt_or_ge 4 bs.length with known | short
  · rw [pieceEnd_append known] at ends
    have reached := piece.within n ends
    have missing : bs.length ≠ n := by
      rintro rfl
      exact piece.more ends
    omega
  · have := six_le_of_pieceEnd ends
    omega

theorem concat (piece : Open bs) {b : UInt8} (more : ¬ Whole (bs ++ [b])) : Open (bs ++ [b]) :=
  ⟨piece.within_concat b, more⟩

end Open

/-! ## One byte -/

/-- The byte ends a frame: the frame is handed over and the port is complete. -/
def Ends (p : Port) (b : UInt8) : Prop :=
  Complete (rcvDataHandle p b).1 ∧ ∃ c : Call, (rcvDataHandle p b).2 = [c]

/-- A port at whatever point of a stream: it counts an open piece, or it is complete after a
piece of at most 261 bytes. -/
inductive Receiving (p : Port) : Prop where
  | counting {bs : List UInt8} (counting : Counting p bs) (piece : Open bs)
  | complete (complete : Complete p) (count : (p.rxSta &&& 0x7FFF).toNat ≤ 261)

section Step

variable {p : Port} {bs : List UInt8}

/-- A byte of an open piece ends the frame or leaves the piece open. -/
theorem ends_or_open (counting : Counting p bs) (piece : Open bs) (b : UInt8) :
    (Ends p b ∧ ((rcvDataHandle p b).1.rxSta &&& 0x7FFF).toNat = bs.length + 1) ∨
      Counting (rcvDataHandle p b).1 (bs ++ [b]) ∧ Open (bs ++ [b]) := by
  have small := piece.length_lt
  obtain ⟨next, count, stepped⟩ := rcvDataHandle_counting (b := b) counting (by omega)
  by_cases whole : Whole (bs ++ [b])
  · rw [if_pos whole] at stepped
    rw [Ends, stepped]
    refine .inl ⟨⟨complete_set, _, rfl⟩, ?_⟩
    rw [count_set, count_of_small (by omega), count]
  · rw [if_neg whole] at stepped
    rw [stepped]
    exact .inr ⟨next, piece.concat whole⟩

theorem Receiving.step (receiving : Receiving p) (b : UInt8) :
    Receiving (rcvDataHandle p b).1 := by
  cases receiving with
  | counting counting piece =>
      rcases ends_or_open counting piece b with ⟨ends, count⟩ | ⟨next, more⟩
      · have := piece.length_lt
        exact .complete ends.1 (by omega)
      · exact .counting next more
  | complete complete count =>
      by_cases head : b = 0xAA
      · subst head
        obtain ⟨q, stepped, counting⟩ := rcvDataHandle_head (.inl complete)
        have piece : Open [0xAA] := Open.nil.concat (by decide)
        rw [stepped]
        exact .counting counting piece
      · rw [rcvDataHandle_filler complete head]
        exact .complete complete count

/-- Enough bytes for the longest piece contain the one that ends it. -/
theorem exists_ends (counting : Counting p bs) (piece : Open bs) {next : List UInt8}
    (enough : 261 ≤ bs.length + next.length) :
    ∃ before b after, next = before ++ b :: after ∧
      Ends (runState rcvDataHandle p before) b := by
  induction next generalizing p bs with
  | nil =>
      have := piece.length_lt
      rw [List.length_nil] at enough
      omega
  | cons b next ih =>
      rcases ends_or_open counting piece b with ⟨ends, -⟩ | ⟨counting', more⟩
      · exact ⟨[], b, next, rfl, ends⟩
      · rw [List.length_cons] at enough
        obtain ⟨before, c, after, rfl, ends⟩ :=
          ih counting' more (by rw [List.length_append, List.length_singleton]; omega)
        exact ⟨b :: before, c, after, rfl, ends⟩

end Step

/-! ## Whole streams -/

theorem receiving_runState (past : List UInt8) :
    Receiving (runState rcvDataHandle .powerUp past) := by
  induction past using List.reverseRecOn with
  | nil => exact .counting ⟨rfl, rfl, by decide⟩ Open.nil
  | append_singleton past b ih =>
      rw [runState_append]
      exact ih.step b

namespace Usart

theorem receive_eq (u : Usart) : u.receive = rcvDataHandle := by cases u <;> rfl

/-- After any stream the count is at most 261; and while bit 15 is clear the masked index is
the count, and any 261 bytes contain one that ends a frame. -/
theorem receiver_progresses (u : Usart) (past : List UInt8) :
    ((runState u.receive .powerUp past).rxSta &&& 0x7FFF).toNat ≤ 261 ∧
      (¬ Complete (runState u.receive .powerUp past) →
        (runState u.receive .powerUp past).rxSta.toNat ≤ 261 ∧
          (runState u.receive .powerUp past).rxSta &&& 0x3FFF =
            (runState u.receive .powerUp past).rxSta ∧
          ∀ next : Vector UInt8 261, ∃ before b after, next.toList = before ++ b :: after ∧
            Complete (u.receive (runState u.receive .powerUp (past ++ before)) b).1 ∧
            ∃ c : Call, (u.receive (runState u.receive .powerUp (past ++ before)) b).2 = [c]) := by
  rw [receive_eq]
  cases receiving_runState past with
  | counting counting piece =>
      have small := piece.length_lt
      have count := counting.count
      refine ⟨?_, fun _ => ⟨by omega, ?_, fun next => ?_⟩⟩
      · rw [count_of_small (by omega)]
        omega
      · exact BitVec.eq_of_toNat_eq (count_masked (by omega))
      · have enough (n : Nat) : 261 ≤ n + next.toList.length := by
          rw [Vector.length_toList]
          omega
        obtain ⟨before, b, after, split, ends⟩ := exists_ends counting piece (enough _)
        refine ⟨before, b, after, split, ?_⟩
        rw [runState_append]
        exact ends
  | complete complete count => exact ⟨count, fun more => absurd complete more⟩

/-- 261 zeros after power up. -/
theorem receiver_progresses_zeros :
    ¬ Complete (runState Usart.usart2.receive .powerUp []) ∧
      ∃ before b after, (Vector.replicate 261 (0 : UInt8)).toList = before ++ b :: after ∧
        Complete (Usart.usart2.receive (runState Usart.usart2.receive .powerUp before) b).1 := by
  have waiting : ¬ Complete (runState Usart.usart2.receive .powerUp []) :=
    fun complete => complete rfl
  obtain ⟨before, b, after, split, complete, -⟩ :=
    ((receiver_progresses .usart2 []).2 waiting).2.2 (Vector.replicate 261 0)
  exact ⟨waiting, before, b, after, split, complete⟩

end Usart

end Stm32Robot.Serial
