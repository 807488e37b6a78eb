/-
# Sensor.ImuBuffer -- what the buffer of the inertial sensor holds

Bytes and looks at the buffer come in any order.  Between two clears the port holds the bytes
from the first 0x55 on, 33 at most (`Filled`); further bytes are dropped.  So a complete buffer
is a piece of the stream, and it begins at the first 0x55 since the clear before.
-/
import Mathlib.Data.List.TakeWhile
import Stm32Robot.Sensor.ImuReceiver

namespace Stm32Robot.Sensor

open Stm32Robot.Theory.Bytes
open Stm32Robot.Theory.Transducer
open Stm32Robot.Serial (complete_clear)

set_option autoImplicit false

/-- The indices `usartRcvIMUDataHandle` stores to. -/
def imuStores (p : ImuPort UInt8) (res : UInt8) : List Nat :=
  if p.rxSta &&& 0x8000 = 0 ∧ p.rxSta.toNat < USART6_MAX_SEND_LEN ∧
      (res = 0x55 ∨ p.rxSta.toNat > 0) then [p.rxSta.toNat] else []

/-- The buffer changes nowhere else. -/
theorem rxBuf_usartRcvIMUDataHandle (p : ImuPort UInt8) (res : UInt8) {j : Nat}
    (other : j ∉ imuStores p res) :
    (usartRcvIMUDataHandle id p res).rxBuf j = p.rxBuf j := by
  unfold imuStores at other
  unfold usartRcvIMUDataHandle
  by_cases clear : p.rxSta &&& 0x8000 = 0
  · by_cases room : p.rxSta.toNat < USART6_MAX_SEND_LEN
    · by_cases accepted : res = 0x55 ∨ p.rxSta.toNat > 0
      · have ne : j ≠ p.rxSta.toNat := by
          rintro rfl
          exact other (by rw [if_pos ⟨clear, room, accepted⟩]; exact List.mem_singleton_self _)
        simp only [if_pos clear, if_pos room, id_eq, if_pos accepted]
        split_ifs
        · exact Function.update_of_ne ne _ _
        · exact Function.update_of_ne ne _ _
      · simp only [if_pos clear, if_pos room, id_eq, if_neg accepted]
        split_ifs <;> rfl
    · simp only [if_pos clear, if_neg room]
  · simp only [if_neg clear]

/-! ## The bytes since a clear -/

/-- All bytes of a run. -/
def received : List (ImuInput UInt8) → List UInt8
  | [] => []
  | .byte res :: is => res :: received is
  | .poll :: is => received is

/-- Those since the last clear of a run from `p`, `fresh` having come since the one before. -/
def sinceClear (p : ImuPort UInt8) (fresh : List UInt8) : List (ImuInput UInt8) → List UInt8
  | [] => fresh
  | .byte res :: is => sinceClear (usartRcvIMUDataHandle id p res) (fresh ++ [res]) is
  | .poll :: is =>
      if p.rxSta &&& 0x8000 ≠ 0 then sinceClear (mpu6050Turn id p).1 [] is
      else sinceClear p fresh is

/-- From the first 0x55 on. -/
def fromHead (bs : List UInt8) : List UInt8 := bs.dropWhile (· ≠ 0x55)

theorem fromHead_concat (bs : List UInt8) (b : UInt8) : fromHead (bs ++ [b]) =
    if fromHead bs = [] then (if b = 0x55 then [b] else []) else fromHead bs ++ [b] := by
  by_cases none : fromHead bs = []
  · have empty : (bs.dropWhile (· ≠ 0x55)).isEmpty = true := List.isEmpty_iff.mpr none
    rw [if_pos none, fromHead, List.dropWhile_append, if_pos empty]
    by_cases head : b = 0x55 <;> simp [head]
  · have some : ¬ (bs.dropWhile (· ≠ 0x55)).isEmpty = true := mt List.isEmpty_iff.mp none
    rw [if_neg none, fromHead, List.dropWhile_append, if_neg some]
    rfl

theorem head_fromHead {bs : List UInt8} {b : UInt8} (first : (fromHead bs).head? = some b) :
    b = 0x55 := by
  have stopped := List.head?_dropWhile_not (· ≠ 0x55) bs
  rw [← fromHead, first] at stopped
  simpa using stopped

/-! ## The port between two events -/

/-- The port holds the bytes `tail`, 33 of them at most. -/
structure Filled (p : ImuPort UInt8) (tail : List UInt8) : Prop where
  status : p.rxSta.toNat = imuStatus tail.length
  held : taken p.rxBuf (min tail.length 33) = tail.take 33

section Steps

variable {p : ImuPort UInt8} {tail fresh : List UInt8} {b : UInt8}

theorem filled_nil {buf : Nat → UInt8} : Filled ⟨0, buf⟩ [] := ⟨rfl, rfl⟩

/-- The next byte is stored while there is room. -/
theorem Filled.accept (filled : Filled p tail) (accepted : b = 0x55 ∨ tail ≠ []) :
    Filled (usartRcvIMUDataHandle id p b) (tail ++ [b]) := by
  have status := filled.status
  have held := filled.held
  rcases lt_or_ge tail.length 33 with room | full
  · rw [imuStatus, if_pos room] at status
    rw [min_eq_left room.le, List.take_of_length_le room.le] at held
    have first : id b = 0x55 ∨ 0 < tail.length := accepted.imp_right List.length_pos_iff.mpr
    obtain ⟨count, stored⟩ := usartRcvIMUDataHandle_accept status room first
    refine ⟨by rw [count, List.length_append, List.length_singleton], ?_⟩
    have kept : taken (Function.update p.rxBuf tail.length b) tail.length =
        taken p.rxBuf tail.length :=
      taken_congr fun i before => Function.update_of_ne before.ne _ _
    rw [stored, List.length_append, List.length_singleton, min_eq_left room,
      List.take_of_length_le (by rw [List.length_append, List.length_singleton]; exact room),
      taken_succ, kept, held, Function.update_self]
  · rw [imuStatus, if_neg (by omega)] at status
    rw [min_eq_right full] at held
    rw [usartRcvIMUDataHandle_full status]
    refine ⟨?_, ?_⟩
    · rw [status, List.length_append, imuStatus, if_neg (by omega)]
    · rw [List.length_append, min_eq_right (by omega), held, List.take_append_of_le_length full]

theorem Filled.byte (filled : Filled p (fromHead fresh)) (b : UInt8) :
    Filled (usartRcvIMUDataHandle id p b) (fromHead (fresh ++ [b])) := by
  rw [fromHead_concat]
  by_cases none : fromHead fresh = []
  · rw [if_pos none]
    rw [none] at filled
    split_ifs with head
    · exact filled.accept (.inl head)
    · rw [usartRcvIMUDataHandle_skip filled.status head]
      exact filled
  · rw [if_neg none]
    exact filled.accept (.inr none)

/-- Bit 15 says that there are 33 bytes. -/
theorem Filled.complete_iff (filled : Filled p tail) :
    p.rxSta &&& 0x8000 ≠ 0 ↔ 33 ≤ tail.length := by
  have status := filled.status
  unfold imuStatus at status
  split_ifs at status with few
  · exact iff_of_false (not_not.mpr (complete_clear (by omega))) (by omega)
  · have full : p.rxSta = 0x8021 := BitVec.eq_of_toNat_eq status
    exact iff_of_true (by rw [full]; decide) (by omega)

end Steps

/-- After a run the port holds what has come since the last clear, which is the end of what
has come at all. -/
theorem filled_runState {p : ImuPort UInt8} {fresh : List UInt8}
    (filled : Filled p (fromHead fresh)) (past : List UInt8) (is : List (ImuInput UInt8)) :
    Filled (runState (imuStep id) p is) (fromHead (sinceClear p fresh is)) ∧
      ∃ earlier, past ++ fresh ++ received is = earlier ++ sinceClear p fresh is := by
  induction is generalizing p past fresh with
  | nil => exact ⟨filled, past, by rw [received, sinceClear, List.append_nil]⟩
  | cons i is ih =>
      cases i with
      | byte res =>
          obtain ⟨after, earlier, split⟩ := ih (filled.byte res) past
          refine ⟨after, earlier, ?_⟩
          rw [sinceClear, ← split, received]
          simp
      | poll =>
          rw [runState_cons, sinceClear, received]
          by_cases complete : p.rxSta &&& 0x8000 ≠ 0
          · have cleared : mpu6050Turn id p = ({ p with rxSta := 0 }, _) := if_pos complete
            have empty : Filled (mpu6050Turn id p).1 (fromHead []) := by
              rw [cleared]
              exact filled_nil
            obtain ⟨after, earlier, split⟩ := ih empty (past ++ fresh)
            rw [if_pos complete]
            refine ⟨after, earlier, ?_⟩
            rw [← split, List.append_nil]
          · have waiting : mpu6050Turn id p = (p, []) := if_neg complete
            rw [if_neg complete]
            have next := ih filled past
            rw [imuStep, waiting]
            exact next

/-- In every state of a run from reset a complete buffer holds 33 bytes of the stream, from the
first 0x55 since the last clear on, and an incomplete one has room for the next byte at an index
below 33. -/
theorem buffer_invariant (buf : Nat → UInt8) (is : List (ImuInput UInt8)) :
    let p := runState (imuStep id) ⟨0, buf⟩ is
    (p.rxSta &&& 0x8000 ≠ 0 →
        p.rxSta &&& 0x7FFF = 33 ∧ p.rxBuf 0 = 0x55 ∧
          ∃ earlier skipped rest,
            sinceClear ⟨0, buf⟩ [] is = skipped ++ taken p.rxBuf 33 ++ rest ∧
              received is = earlier ++ sinceClear ⟨0, buf⟩ [] is ∧ ∀ b ∈ skipped, b ≠ 0x55) ∧
      (p.rxSta &&& 0x8000 = 0 → p.rxSta.toNat ≤ 32) ∧
        ∀ res, ∀ i ∈ imuStores p res, i ≤ 32 := by
  intro p
  have reset : Filled ⟨0, buf⟩ (fromHead []) := filled_nil
  obtain ⟨filled, earlier, split⟩ := filled_runState reset [] is
  have few : p.rxSta &&& 0x8000 = 0 → p.rxSta.toNat ≤ 32 := by
    intro clear
    have short : ¬ 33 ≤ (fromHead (sinceClear ⟨0, buf⟩ [] is)).length :=
      fun long => filled.complete_iff.mpr long clear
    have status := filled.status
    rw [imuStatus, if_pos (by omega)] at status
    show (runState (imuStep id) ⟨0, buf⟩ is).rxSta.toNat ≤ 32
    omega
  refine ⟨?_, few, ?_⟩
  · intro complete
    have long := filled.complete_iff.mp complete
    have status := filled.status
    have held := filled.held
    rw [imuStatus, if_neg (by omega)] at status
    rw [min_eq_right long] at held
    have word : p.rxSta = 0x8021 := BitVec.eq_of_toNat_eq status
    refine ⟨by rw [word]; decide, ?_, earlier,
      (sinceClear ⟨0, buf⟩ [] is).takeWhile (· ≠ 0x55),
      (fromHead (sinceClear ⟨0, buf⟩ [] is)).drop 33, ?_, split, ?_⟩
    · have first := congrArg List.head? held
      rw [List.head?_take, if_neg (by decide)] at first
      exact head_fromHead first.symm
    · rw [held, List.append_assoc, List.take_append_drop]
      exact List.takeWhile_append_dropWhile.symm
    · intro b mem
      simpa using List.mem_takeWhile_imp mem
  · intro res i mem
    unfold imuStores at mem
    split_ifs at mem with stored
    · rw [List.mem_singleton.mp mem]
      exact few stored.1
    · cases mem

/-- 33 bytes fill it. -/
theorem buffer_invariant_full :
    let p := runState (imuStep id) ⟨0, fun _ => 0⟩ (List.replicate 33 (.byte 0x55))
    p.rxSta &&& 0x8000 ≠ 0 ∧ p.rxSta &&& 0x7FFF = 33 ∧ p.rxBuf 0 = 0x55 := by
  have complete : (runState (imuStep id) ⟨0, fun _ => 0⟩
      (List.replicate 33 (.byte 0x55))).rxSta &&& 0x8000 ≠ 0 := by
    decide +kernel
  have held := (buffer_invariant (fun _ => 0) (List.replicate 33 (.byte 0x55))).1 complete
  exact ⟨complete, held.1, held.2.1⟩

end Stm32Robot.Sensor
