/-
# Net.WifiFresh -- bursts and what an earlier one has left behind

`USART3_RX_BUF` is not cleared between bursts: behind the bytes of a burst lie those of longer
ones before it.  The searches for `IPD` and for the head byte stop at the terminator.  The
length byte, four behind the head, and the bytes it counts are taken wherever they lie.

`fresh_iff`: what is handed to `MessageHandle` is made of the burst alone exactly when the
burst, if it has a packet with a head byte in it, also has the whole frame.
-/
import Stm32Robot.Net.WifiReceive

namespace Stm32Robot.Net

open Stm32Robot.Theory.Bytes
open Stm32Robot.Motor.Message
open Stm32Robot.Serial (store)

set_option autoImplicit false

/-- The bytes of a completed burst, with room for the terminator. -/
structure CompletedBurst where
  bytes : List UInt8
  fits : bytes.length ≤ 199

/-- The offset and the bytes `MessageHandle` is called with. -/
def Burst.handed (b : Burst) : Option (Nat × List UInt8) :=
  b.receive.map fun (p, c) => (p, c.bytes)

namespace CompletedBurst

variable (b : CompletedBurst)

/-- The burst in a buffer that held `stale` before; `behind` is the memory after the buffer. -/
def onto (stale : Vector UInt8 200) (behind : Nat → UInt8) : Burst where
  mem i := if i < b.bytes.length then ofList b.bytes i else if i < 200 then view stale i
    else behind i
  rlen := b.bytes.length

/-- What the searches see. -/
def text : List UInt8 := b.bytes.takeWhile (· ≠ 0)

/-- The step does the same whatever was in the buffer, and a call gets bytes of the burst
only. -/
def Fresh : Prop :=
  ∀ (behind : Nat → UInt8) (stale stale' : Vector UInt8 200),
    (b.onto stale behind).handed = (b.onto stale' behind).handed ∧
      ∀ p c, (b.onto stale behind).receive = some (p, c) → p + c.len ≤ b.bytes.length

/-- A frame the searches find is in the burst, from its head to the end its length byte tells,
and the length byte too. -/
def HasWholeFrame : Prop :=
  strstr b.text IPD = true → ∀ p, strchr b.text 0xAA = some p →
    ∃ n ∈ b.bytes[p + 4]?, p + n.toNat + EXTERN_BUFSIZE ≤ b.bytes.length

section Onto

variable {b} (stale : Vector UInt8 200) (behind : Nat → UInt8)

theorem terminated_onto {i : Nat} (inside : i < b.bytes.length) :
    (b.onto stale behind).terminated i = b.bytes[i] := by
  have before : i ≠ b.bytes.length := inside.ne
  simp only [Burst.terminated, onto, store, if_neg before, if_pos inside]
  exact ofList_of_lt inside

theorem text_onto : (b.onto stale behind).text = b.text := by
  have bytes : taken (b.onto stale behind).terminated b.bytes.length = b.bytes :=
    taken_eq_iff.mpr fun i inside => terminated_onto stale behind inside
  show (taken (b.onto stale behind).terminated b.bytes.length).takeWhile (· ≠ 0) = b.text
  rw [bytes]
  rfl

theorem receive_onto_iff {p : Nat} {c : Call} :
    (b.onto stale behind).receive = some (p, c) ↔
      strstr b.text IPD = true ∧ strchr b.text 0xAA = some p ∧
        c = ⟨fun i => (b.onto stale behind).terminated (p + i),
          ((b.onto stale behind).terminated (p + 4)).toNat + EXTERN_BUFSIZE⟩ := by
  rw [Burst.receive_eq_some_iff, text_onto]

/-- A call with a whole frame of the burst gets the bytes of the burst. -/
theorem handed_onto {p : Nat} {n : UInt8} (packet : strstr b.text IPD = true)
    (head : strchr b.text 0xAA = some p) (length : b.bytes[p + 4]? = some n)
    (whole : p + n.toNat + EXTERN_BUFSIZE ≤ b.bytes.length) :
    (b.onto stale behind).handed =
      some (p, taken (fun i => ofList b.bytes (p + i)) (n.toNat + EXTERN_BUFSIZE)) := by
  obtain ⟨inside, rfl⟩ := List.getElem?_eq_some_iff.mp length
  have call := (receive_onto_iff stale behind).mpr ⟨packet, head, rfl⟩
  rw [Burst.handed, call, Option.map_some, terminated_onto stale behind inside]
  refine congrArg (fun bytes => some (p, bytes)) (taken_congr fun i before => ?_)
  have counted : i < b.bytes[p + 4].toNat + EXTERN_BUFSIZE := before
  have within : p + i < b.bytes.length := by omega
  rw [ofList_of_lt within]
  exact terminated_onto stale behind within

/-- Without a packet or a head byte there is no call. -/
theorem receive_onto_none (silent : ¬ (strstr b.text IPD = true ∧ (strchr b.text 0xAA).isSome)) :
    (b.onto stale behind).receive = none := by
  cases received : (b.onto stale behind).receive with
  | none => rfl
  | some call =>
      obtain ⟨packet, head, -⟩ := (receive_onto_iff stale behind).mp received
      exact absurd ⟨packet, Option.isSome_of_eq_some head⟩ silent

end Onto

theorem hasWholeFrame_of_fresh (fresh : b.Fresh) : b.HasWholeFrame := by
  intro packet p head
  let clean : Vector UInt8 200 := Vector.replicate 200 0
  have inside : p + (((b.onto clean fun _ => 0).terminated (p + 4)).toNat + EXTERN_BUFSIZE) ≤
      b.bytes.length :=
    (fresh (fun _ => 0) clean clean).2 p _ ((receive_onto_iff clean _).mpr ⟨packet, head, rfl⟩)
  have short : p + 4 < b.bytes.length := by
    simp only [EXTERN_BUFSIZE] at inside
    omega
  refine ⟨b.bytes[p + 4], List.getElem?_eq_getElem short, ?_⟩
  rw [terminated_onto clean _ short] at inside
  omega

theorem fresh_of_hasWholeFrame (whole : b.HasWholeFrame) : b.Fresh := by
  intro behind stale stale'
  by_cases called : strstr b.text IPD = true ∧ (strchr b.text 0xAA).isSome
  · obtain ⟨packet, some⟩ := called
    obtain ⟨p, head⟩ := Option.isSome_iff_exists.mp some
    obtain ⟨n, length, ends⟩ := whole packet p head
    refine ⟨?_, ?_⟩
    · rw [handed_onto stale behind packet head length ends,
        handed_onto stale' behind packet head length ends]
    · intro q c received
      obtain ⟨-, same, rfl⟩ := (receive_onto_iff stale behind).mp received
      obtain rfl : p = q := Option.some.inj (head.symm.trans same)
      obtain ⟨inside, rfl⟩ := List.getElem?_eq_some_iff.mp length
      show p + (((b.onto stale behind).terminated (p + 4)).toNat + EXTERN_BUFSIZE) ≤ _
      rw [terminated_onto stale behind inside]
      omega
  · refine ⟨?_, ?_⟩
    · rw [Burst.handed, Burst.handed, receive_onto_none stale behind called,
        receive_onto_none stale' behind called]
    · intro p c received
      rw [receive_onto_none stale behind called] at received
      cases received

/-- For every burst the step uses its bytes alone, whatever the buffer held before, exactly
when there is no packet with a head byte in it, or the frame from there on is whole. -/
theorem fresh_iff : b.Fresh ↔ b.HasWholeFrame :=
  ⟨b.hasWholeFrame_of_fresh, b.fresh_of_hasWholeFrame⟩

end CompletedBurst

/-- `+IPD,0,6:` and the first half of a six-byte frame. -/
def halfFrame : CompletedBurst where
  bytes := [0x2B, 0x49, 0x50, 0x44, 0x2C, 0x30, 0x2C, 0x36, 0x3A, 0xAA, 0x00, 0x81]
  fits := by decide

/-- It is completed with what an earlier burst has left there. -/
theorem halfFrame_completed : ¬ ∀ b : CompletedBurst, b.Fresh := by
  intro stated
  have whole := halfFrame.hasWholeFrame_of_fresh (stated halfFrame) (by decide) 9 (by decide)
  exact absurd whole (by decide)

end Stm32Robot.Net
