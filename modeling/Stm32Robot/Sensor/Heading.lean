/-
# Sensor.Heading -- where a heading comes from

The sensor sends records of eleven bytes, 0x55 and a type first, the types 0x51, 0x52 and 0x53
in turn; the angle is in the third kind.  The port may be switched on at any byte, and the
thread may look at any moment.  The bytes carry their place in the stream, so that the source
of a heading can be told.

A buffer is the 33 bytes from the first 0x55 after the last clear (`Held`).  That byte need not
be the head of a record: payload and check bytes may be 0x55 as well, and bytes are dropped
while a full buffer waits.  Every heading comes from bytes 6 and 7 of an angle record exactly
when the buffers that pass the test of byte 23 begin at a 0x51 record (`headings_iff`).
-/
import Mathlib.Data.Nat.Find
import Stm32Robot.Sensor.ImuReceiver

namespace Stm32Robot.Sensor

open Stm32Robot.Theory.Transducer

set_option autoImplicit false

/-! ## The stream -/

/-- The type of record `n`. -/
def recordType (n : Nat) : UInt8 :=
  if n % 3 = 0 then 0x51 else if n % 3 = 1 then 0x52 else 0x53

/-- The records one after the other; payload and check bytes are arbitrary. -/
structure ImuStream where
  byte : Nat → UInt8
  head : ∀ n, byte (11 * n) = 0x55
  type : ∀ n, byte (11 * n + 1) = recordType n

/-- A byte arrives, or the thread looks. -/
inductive Tick where
  | byte
  | poll

namespace ImuStream

variable (S : ImuStream)

/-- A byte of the stream with its place. -/
def placed (i : Nat) : UInt8 × Nat := (S.byte i, i)

theorem exists_head (c : Nat) : ∃ s, c ≤ s ∧ S.byte s = 0x55 :=
  ⟨11 * c, by omega, S.head c⟩

/-- The first 0x55 from place `c` on. -/
def firstHead (c : Nat) : Nat := Nat.find (S.exists_head c)

theorem le_firstHead (c : Nat) : c ≤ S.firstHead c := (Nat.find_spec (S.exists_head c)).1

theorem byte_firstHead (c : Nat) : S.byte (S.firstHead c) = 0x55 :=
  (Nat.find_spec (S.exists_head c)).2

theorem byte_of_lt_firstHead {c i : Nat} (from' : c ≤ i) (before : i < S.firstHead c) :
    S.byte i ≠ 0x55 := fun head => Nat.find_min (S.exists_head c) before ⟨from', head⟩

/-- What arrives at the port, from place `q` on. -/
def feed (q : Nat) : List Tick → List (ImuInput (UInt8 × Nat))
  | [] => []
  | .byte :: ts => .byte (S.placed q) :: feed (q + 1) ts
  | .poll :: ts => .poll :: feed q ts

/-- Where the buffers begin that the thread finds full: each at the first 0x55 since the last
clear, at `c`, with 33 bytes from there before the byte that comes next, at `q`. -/
def buffers (c q : Nat) : List Tick → List Nat
  | [] => []
  | .byte :: ts => buffers c (q + 1) ts
  | .poll :: ts =>
      if S.firstHead c + 33 ≤ q then S.firstHead c :: buffers q q ts else buffers c q ts

/-- The two bytes are bytes 6 and 7 of an angle record. -/
def FromAngleRecord (y : YawBytes (UInt8 × Nat)) : Prop :=
  ∃ r, recordType r = 0x53 ∧ y = ⟨S.placed (11 * r + 6), S.placed (11 * r + 7)⟩

/-! ## The port between two events -/

/-- The port holds the bytes from the first 0x55 after the clear at `c`, 33 at most; the next
byte is at `q`. -/
structure Held (p : ImuPort (UInt8 × Nat)) (c q : Nat) : Prop where
  cleared : c ≤ q
  status : p.rxSta.toNat = imuStatus (q - S.firstHead c)
  held : ∀ i, i < q - S.firstHead c → i < 33 → p.rxBuf i = S.placed (S.firstHead c + i)

section Steps

variable {S} {p : ImuPort (UInt8 × Nat)} {c q : Nat}

theorem Held.byte (held : Held S p c q) :
    Held S (usartRcvIMUDataHandle Prod.fst p (S.placed q)) c (q + 1) := by
  have cleared := held.cleared
  have status := held.status
  rcases lt_or_ge q (S.firstHead c) with waiting | started
  · -- no 0x55 yet
    have none : q - S.firstHead c = 0 := by omega
    rw [none] at status
    rw [usartRcvIMUDataHandle_skip status (S.byte_of_lt_firstHead cleared waiting)]
    refine ⟨by omega, by rw [show q + 1 - S.firstHead c = 0 by omega]; exact status, ?_⟩
    intro i inside
    omega
  · obtain ⟨n, rfl⟩ := Nat.exists_eq_add_of_le started
    have length : S.firstHead c + n - S.firstHead c = n := by omega
    have next : S.firstHead c + n + 1 - S.firstHead c = n + 1 := by omega
    have bytes := held.held
    rw [length] at status bytes
    rcases lt_or_ge n 33 with room | full
    · rw [imuStatus, if_pos room] at status
      have accepted : Prod.fst (S.placed (S.firstHead c + n)) = 0x55 ∨ 0 < n := by
        rcases Nat.eq_zero_or_pos n with rfl | some
        · exact .inl (S.byte_firstHead c)
        · exact .inr some
      obtain ⟨count, stored⟩ := usartRcvIMUDataHandle_accept status room accepted
      refine ⟨by omega, by rw [next, count], ?_⟩
      intro i inside _
      rw [next] at inside
      rw [stored]
      rcases Nat.lt_succ_iff_lt_or_eq.mp inside with before | rfl
      · rw [Function.update_of_ne (by omega)]
        exact bytes i before (by omega)
      · exact Function.update_self ..
    · rw [imuStatus, if_neg (by omega)] at status
      rw [usartRcvIMUDataHandle_full status]
      refine ⟨by omega, by rw [next, imuStatus, if_neg (by omega)]; exact status, ?_⟩
      intro i _ few
      exact bytes i (by omega) few

/-- The thread finds the buffer full exactly when 33 bytes have come since the first 0x55. -/
theorem Held.poll_full (held : Held S p c q) (full : S.firstHead c + 33 ≤ q) :
    Held S (mpu6050Turn Prod.fst p).1 q q ∧
      (mpu6050Turn Prod.fst p).2 = if S.byte (S.firstHead c + 23) = 0x53 then
        [⟨S.placed (S.firstHead c + 28), S.placed (S.firstHead c + 29)⟩] else [] := by
  have status := held.status
  rw [imuStatus, if_neg (by omega)] at status
  have byte (i : Nat) (few : i < 33) : p.rxBuf i = S.placed (S.firstHead c + i) :=
    held.held i (by omega) few
  have later := S.le_firstHead q
  rw [mpu6050Turn_full status, byte 23 (by omega), byte 28 (by omega), byte 29 (by omega)]
  refine ⟨⟨le_refl q, ?_, ?_⟩, rfl⟩
  · rw [Nat.sub_eq_zero_of_le later]
    rfl
  · intro i inside
    omega

theorem Held.poll_waiting (held : Held S p c q) (more : q < S.firstHead c + 33) :
    mpu6050Turn Prod.fst p = (p, []) := by
  have status := held.status
  rw [imuStatus, if_pos (by omega)] at status
  exact mpu6050Turn_waiting (by omega)

/-- The headings of a run are read from the buffers that pass the test of byte 23. -/
theorem Held.emitted (held : Held S p c q) (ts : List Tick) :
    emitted (imuStep Prod.fst) p (S.feed q ts) =
      ((S.buffers c q ts).filter fun s => S.byte (s + 23) = 0x53).map
        fun s => ⟨S.placed (s + 28), S.placed (s + 29)⟩ := by
  induction ts generalizing p c q with
  | nil => rfl
  | cons t ts ih =>
      cases t with
      | byte => exact ih held.byte
      | poll =>
          rw [feed, emitted_cons, buffers]
          rcases le_or_gt (S.firstHead c + 33) q with full | more
          · obtain ⟨cleared, read⟩ := held.poll_full full
            rw [if_pos full, imuStep, read, ih cleared, List.filter_cons]
            simp only [decide_eq_true_eq]
            split_ifs
            · rfl
            · rfl
          · rw [if_neg (by omega), imuStep, held.poll_waiting more]
            exact ih held

end Steps

/-! ## The rule -/

/-- Bytes 28 and 29 of a buffer are bytes 6 and 7 of an angle record exactly when it begins at
a 0x51 record. -/
theorem fromAngleRecord_iff (s : Nat) :
    S.FromAngleRecord ⟨S.placed (s + 28), S.placed (s + 29)⟩ ↔ s % 33 = 0 := by
  have angle (r : Nat) : recordType r = 0x53 ↔ r % 3 = 2 := by
    unfold recordType
    split_ifs <;> simp <;> omega
  constructor
  · rintro ⟨r, type, same⟩
    have place : s + 28 = 11 * r + 6 := congrArg (fun y => y.low.2) same
    have := (angle r).mp type
    omega
  · intro whole
    refine ⟨s / 11 + 2, (angle _).mpr (by omega), ?_⟩
    rw [show 11 * (s / 11 + 2) + 6 = s + 28 by omega, show 11 * (s / 11 + 2) + 7 = s + 29 by omega]

/-- For every stream, entered at any byte, and every schedule: each heading comes from bytes 6
and 7 of an angle record exactly when each buffer the thread finds full begins at a 0x51 record
or fails the test of byte 23. -/
theorem headings_iff (buf : Nat → UInt8 × Nat) (offset : Nat) (ts : List Tick) :
    (∀ y ∈ emitted (imuStep Prod.fst) ⟨0, buf⟩ (S.feed offset ts), S.FromAngleRecord y) ↔
      ∀ s ∈ S.buffers offset offset ts, s % 33 = 0 ∨ S.byte (s + 23) ≠ 0x53 := by
  have start : Held S ⟨0, buf⟩ offset offset := by
    refine ⟨le_refl _, ?_, ?_⟩
    · rw [Nat.sub_eq_zero_of_le (S.le_firstHead offset)]
      rfl
    · intro i inside
      have := S.le_firstHead offset
      omega
  rw [start.emitted, List.forall_mem_map]
  simp only [List.mem_filter, decide_eq_true_eq, fromAngleRecord_iff, and_imp]
  refine forall₂_congr fun s _ => ?_
  rw [or_comm, ne_eq, ← imp_iff_not_or]

/-- Records of zeros, but for a payload byte 0x55 in the first and 0x53 in the third. -/
def stray : ImuStream where
  byte i :=
    if i % 11 = 0 then 0x55 else if i % 11 = 1 then recordType (i / 11)
    else if i = 2 then 0x55 else if i = 25 then 0x53 else 0
  head n := if_pos (by omega)
  type n := by
    rw [if_neg (by omega), if_pos (by omega), show (11 * n + 1) / 11 = n by omega]

/-- Entered at the payload byte, the first buffer gives a heading from places 30 and 31. -/
theorem stray_heading :
    ¬ ∀ (S : ImuStream) (buf : Nat → UInt8 × Nat) (offset : Nat) (ts : List Tick),
      ∀ y ∈ emitted (imuStep Prod.fst) ⟨0, buf⟩ (S.feed offset ts), S.FromAngleRecord y := by
  intro stated
  have read : emitted (imuStep Prod.fst) ⟨0, fun _ => (0, 0)⟩
      (stray.feed 2 (List.replicate 33 .byte ++ [.poll])) =
        [⟨stray.placed 30, stray.placed 31⟩] := by
    decide +kernel
  obtain ⟨r, -, same⟩ := stated stray (fun _ => (0, 0)) 2 _ _ (read ▸ List.mem_cons_self)
  have place : 30 = 11 * r + 6 := congrArg (fun y => y.low.2) same
  omega

end ImuStream

end Stm32Robot.Sensor
