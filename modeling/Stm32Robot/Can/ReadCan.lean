/-
# Can.ReadCan -- short replies and the buffer of the CAN thread

`ReadCan` copies as many bytes as the DLC of a frame says into `readData`, a local of
`can_thread` that nothing clears.  `FeedbackMessge` is given the number and reads all eight
bytes.  So a short frame is completed with what an earlier reply has left, and a DLC beyond 8
leaves both arrays.

`independent_iff` says for which frames the drive state depends on the received bytes only: for
those of eight bytes, and for shorter ones that are not the beginning of a reply which counts.
-/
import Stm32Robot.Can.CanThread
import Stm32Robot.Motor.AxisTracking
import Stm32Robot.Theory.PartialRun

namespace Stm32Robot.Can

open Stm32Robot.Motor.Driver
open Stm32Robot.Motor.Queue
open Stm32Robot.Motor.Message
open Stm32Robot.Theory.PartialRun

set_option autoImplicit false

/-- What `RxMessage` holds after `CAN_Receive`, which stores all eight bytes of the mailbox and the
DLC field of four bits.  It stores no `StdId` for a frame with a 29-bit identifier: the one here is
then what was there before, so nothing is assumed of it. -/
structure RxMessage extends CanRxMsg where
  dlc : Nat
  range : 1 ≤ dlc ∧ dlc ≤ 15

/-- `buf[i]=RxMessage.Data[i]`; an index outside of either array has no result. -/
def copyByte (data : Vector UInt8 8) (buf : Vector UInt8 8) (i : Nat) : Option (Vector UInt8 8) :=
  if h : i < 8 then some (buf.set i data[i]) else none

/-- `ReadCan` with a message pending: the buffer, the identifier and the length. -/
def readCan (buf : Vector UInt8 8) (m : RxMessage) : Option (Vector UInt8 8 × Int × Nat) :=
  (runPartial (copyByte m.data) buf (List.range m.dlc)).map fun buf => (buf, m.stdId, m.dlc)

/-- `can_thread` after it has sent: it reads the message and hands it to `FeedbackMessge`. -/
def feedback (readData : Vector UInt8 8) (m : RxMessage) (c : Cru) : Option Cru :=
  (readCan readData m).map fun (readData, readID, readLen) =>
    if readLen ≠ 0 then feedbackMessge readID readData c else c

namespace RxMessage

variable (m : RxMessage)

/-- The buffer with the first bytes of the message over what it held. -/
def merged (buf : Vector UInt8 8) : Vector UInt8 8 :=
  Vector.ofFn fun i => if i.val < m.dlc then m.data[i] else buf[i]

/-- The bytes received are those a read reply for the object begins with. -/
def Begins (object : KincoCmd) : Prop :=
  ∃ size ∈ [RBYTE1, RBYTE2, RBYTE4], ∀ i (h : i < 4), i < m.dlc →
    m.data[i] = (setSendFramData size object.code 0)[i]

/-- A message that some bytes complete to a reply which counts. -/
def MayCount : Prop :=
  m.Begins .getCruPos ∨ ((m.stdId = ID_LEFT ∨ m.stdId = ID_RIGHT) ∧ m.Begins .getVelocity)

/-- No index leaves its array, and the drive state after the message is the same whatever the
buffer held before; a message shorter than the eight bytes `FeedbackMessge` reads changes
nothing. -/
def Independent : Prop :=
  ∀ (buf buf' : Vector UInt8 8) (c : Cru), ∃ c',
    feedback buf m c = some c' ∧ feedback buf' m c = some c' ∧ (m.dlc < 8 → c' = c)

end RxMessage

/-- It is what a turn of the thread does to the drive state. -/
theorem cru_canThread (sendCanMsg : SCM) {w : World} (some : 0 < w.dcq.queueCount)
    {readData readData' : Vector UInt8 8} {readID : Int} {readLen : Nat} {m : RxMessage}
    (read : readCan readData m = Option.some (readData', readID, readLen)) :
    Option.some (canThread sendCanMsg (Option.some (readID, readData')) w).2.cru =
      feedback readData m w.cru := by
  have pending : readLen ≠ 0 := by
    obtain ⟨buf, -, same⟩ := Option.map_eq_some_iff.mp read
    have length : m.dlc = readLen := (Prod.mk.inj (Prod.mk.inj same).2).2
    have := m.range
    omega
  have handed : feedback readData m w.cru =
      Option.some (feedbackMessge readID readData' w.cru) := by
    rw [feedback, read]
    exact congrArg Option.some (if_pos pending)
  rw [handed, canThread, if_pos some]
  rfl

/-! ## The copy loop -/

section Copy

variable (data buf : Vector UInt8 8)

theorem copyLoop_of_le {n : Nat} (inside : n ≤ 8) :
    runPartial (copyByte data) buf (List.range n) =
      some (Vector.ofFn fun i => if i.val < n then data[i] else buf[i]) := by
  induction n with
  | zero =>
      refine congrArg some (Vector.ext fun i i_lt => ?_)
      rw [Vector.getElem_ofFn, if_neg (Nat.not_lt_zero i)]
      rfl
  | succ n ih =>
      have here : n < 8 := inside
      rw [List.range_succ, runPartial_concat, ih (by omega), Option.bind_some, copyByte,
        dif_pos here]
      refine congrArg some (Vector.ext fun i i_lt => ?_)
      rw [Vector.getElem_set, Vector.getElem_ofFn, Vector.getElem_ofFn]
      rcases lt_trichotomy i n with before | rfl | behind
      · rw [if_neg before.ne', if_pos before, if_pos (Nat.lt_succ_of_lt before)]
      · rw [if_pos rfl, if_pos (Nat.lt_succ_self i)]
        rfl
      · have after : n + 1 ≤ i := behind
        rw [if_neg behind.ne, if_neg behind.not_gt, if_neg (not_lt.mpr after)]

theorem copyLoop_of_gt (n : Nat) : runPartial (copyByte data) buf (List.range (9 + n)) = none := by
  induction n with
  | zero =>
      rw [List.range_succ, runPartial_concat, copyLoop_of_le data buf le_rfl, Option.bind_some]
      rfl
  | succ n ih =>
      rw [← Nat.add_assoc, List.range_succ, runPartial_concat, ih]
      rfl

end Copy

section Feedback

variable {m : RxMessage} (buf : Vector UInt8 8) (c : Cru)

theorem feedback_of_le (short : m.dlc ≤ 8) :
    feedback buf m c = some (feedbackMessge m.stdId (m.merged buf) c) := by
  have pending : m.dlc ≠ 0 := Nat.pos_iff_ne_zero.mp m.range.1
  rw [feedback, readCan, copyLoop_of_le _ _ short, Option.map_some]
  exact congrArg some (if_pos pending)

theorem feedback_of_gt (long : 8 < m.dlc) : feedback buf m c = none := by
  obtain ⟨n, total⟩ := Nat.exists_eq_add_of_le long
  have more : m.dlc = 9 + n := total
  rw [feedback, readCan, more, copyLoop_of_gt]
  rfl

theorem merged_of_full (full : m.dlc = 8) : m.merged buf = m.data := by
  refine Vector.ext fun i i_lt => ?_
  rw [RxMessage.merged, Vector.getElem_ofFn, if_pos (by omega)]
  rfl

end Feedback

/-! ## Replies -/

/-- The object is told by bytes 1 to 3. -/
theorem framCmd_eq_iff {f g : Vector UInt8 8} :
    framCmd f = framCmd g ↔ ∀ i (h : i < 8), 1 ≤ i → i ≤ 3 → f[i] = g[i] := by
  constructor
  · intro same i h
    simp only [framCmd] at same
    have := UInt8.toNat_lt f[1]
    have := UInt8.toNat_lt f[2]
    have := UInt8.toNat_lt f[3]
    have := UInt8.toNat_lt g[1]
    have := UInt8.toNat_lt g[2]
    have := UInt8.toNat_lt g[3]
    intro least most
    rw [← UInt8.toNat_inj]
    obtain rfl | rfl | rfl : i = 1 ∨ i = 2 ∨ i = 3 := by omega
    · omega
    · omega
    · omega
  · intro bytes
    rw [framCmd, framCmd, bytes 1, bytes 2, bytes 3] <;> decide

/-- A read reply begins as the frame of its size and its object. -/
theorem reads_iff_header {m : CanRxMsg} {object : KincoCmd} :
    m.Reads object ↔ ∃ size ∈ [RBYTE1, RBYTE2, RBYTE4], ∀ i (h : i < 4),
      m.data[i] = (setSendFramData size object.code 0)[i] := by
  simp only [CanRxMsg.Reads, List.mem_cons, List.not_mem_nil, or_false]
  constructor
  · rintro ⟨header, command⟩
    refine ⟨framSize m.data, header, ?_⟩
    rw [← (setSendFramData_header (framSize m.data) object 0).2, framCmd_eq_iff] at command
    intro i h
    rcases Nat.eq_zero_or_pos i with rfl | positive
    · rfl
    · exact command i (by omega) positive (by omega)
  · rintro ⟨size, member, bytes⟩
    have first : framSize m.data = size := bytes 0 (by omega)
    refine ⟨first ▸ member, ?_⟩
    rw [← (setSendFramData_header size object 0).2, framCmd_eq_iff]
    exact fun i _ _ most => bytes i (by omega)

section Completion

variable {m : RxMessage} {object : KincoCmd}

/-- What the merged buffer reads, the received bytes begin. -/
theorem begins_of_reads {buf : Vector UInt8 8}
    (reads : (⟨m.stdId, m.merged buf⟩ : CanRxMsg).Reads object) : m.Begins object := by
  obtain ⟨size, member, bytes⟩ := reads_iff_header.mp reads
  refine ⟨size, member, fun i h before => ?_⟩
  have byte := bytes i h
  simp only [RxMessage.merged, Vector.getElem_ofFn, before, if_true] at byte
  exact byte

/-- What they begin, the rest of a reply left in the buffer completes. -/
theorem exists_reads (begins : m.Begins object) :
    ∃ buf, (⟨m.stdId, m.merged buf⟩ : CanRxMsg).Reads object := by
  obtain ⟨size, member, bytes⟩ := begins
  refine ⟨setSendFramData size object.code 0, reads_iff_header.mpr ⟨size, member, ?_⟩⟩
  intro i h
  simp only [RxMessage.merged, Vector.getElem_ofFn]
  split_ifs with before
  · exact bytes i h before
  · rfl

end Completion

/-! ## The rule -/

section Rule

variable {m : RxMessage}

/-- A message that may not count leaves the state alone. -/
theorem feedbackMessge_of_not_mayCount (silent : ¬ m.MayCount) (buf : Vector UInt8 8) (c : Cru) :
    feedbackMessge m.stdId (m.merged buf) c = c := by
  have position : ¬ (⟨m.stdId, m.merged buf⟩ : CanRxMsg).Reads .getCruPos := fun reads =>
    silent (.inl (begins_of_reads reads))
  have velocity : (m.stdId = ID_LEFT ∨ m.stdId = ID_RIGHT) →
      ¬ (⟨m.stdId, m.merged buf⟩ : CanRxMsg).Reads .getVelocity := fun wheel reads =>
    silent (.inr ⟨wheel, begins_of_reads reads⟩)
  have left : ¬ (m.stdId = ID_LEFT ∧
      (⟨m.stdId, m.merged buf⟩ : CanRxMsg).Reads .getVelocity) := fun both =>
    velocity (.inl both.1) both.2
  have right : ¬ (m.stdId = ID_RIGHT ∧
      (⟨m.stdId, m.merged buf⟩ : CanRxMsg).Reads .getVelocity) := fun both =>
    velocity (.inr both.1) both.2
  have effect := feedbackMessge_eq ⟨m.stdId, m.merged buf⟩ c
  rwa [if_neg position, if_neg left, if_neg right] at effect

/-- One that may does not: some buffer makes it store a value, whatever that is. -/
theorem exists_change (counts : m.MayCount) :
    ∃ buf c, feedbackMessge m.stdId (m.merged buf) c ≠ c := by
  rcases counts with begins | ⟨wheel, begins⟩
  · obtain ⟨buf, reads⟩ := exists_reads begins
    refine ⟨buf, ⟨framMsg (m.merged buf) + 1, 0, 0⟩, fun same => ?_⟩
    have stored := feedbackMessge_of_position ⟨framMsg (m.merged buf) + 1, 0, 0⟩ reads
    have position := congrArg Cru.cruPosition (stored.symm.trans same)
    exact absurd position (by simp)
  · obtain ⟨buf, reads⟩ := exists_reads begins
    refine ⟨buf, ⟨0, framMsg (m.merged buf) + 1, framMsg (m.merged buf) + 1⟩, fun same => ?_⟩
    have stored := feedbackMessge_of_velocity
      ⟨0, framMsg (m.merged buf) + 1, framMsg (m.merged buf) + 1⟩ reads
    have unchanged := stored.symm.trans same
    rcases wheel with left | right
    · have velocity := congrArg Cru.cruLeftVelocity unchanged
      simp [setCruVelocity, left] at velocity
    · have velocity := congrArg Cru.cruRightVelocity unchanged
      simp [setCruVelocity, right, ID_LEFT, ID_RIGHT] at velocity

theorem independent_of_full (full : m.dlc = 8) : m.Independent := by
  intro buf buf' c
  refine ⟨feedbackMessge m.stdId m.data c, ?_, ?_, fun short => absurd full short.ne⟩
  · rw [feedback_of_le buf c full.le, merged_of_full buf full]
  · rw [feedback_of_le buf' c full.le, merged_of_full buf' full]

theorem independent_of_silent (short : m.dlc < 8) (silent : ¬ m.MayCount) : m.Independent := by
  intro buf buf' c
  refine ⟨c, ?_, ?_, fun _ => rfl⟩
  · rw [feedback_of_le buf c short.le, feedbackMessge_of_not_mayCount silent]
  · rw [feedback_of_le buf' c short.le, feedbackMessge_of_not_mayCount silent]

theorem not_independent_of_mayCount (short : m.dlc < 8) (counts : m.MayCount) :
    ¬ m.Independent := by
  intro independent
  obtain ⟨buf, c, changed⟩ := exists_change counts
  obtain ⟨c', ran, -, unchanged⟩ := independent buf buf c
  rw [feedback_of_le buf c short.le, Option.some.injEq] at ran
  exact changed (ran.trans (unchanged short))

theorem not_independent_of_long (long : 8 < m.dlc) : ¬ m.Independent := by
  intro independent
  obtain ⟨c', ran, -⟩ := independent m.data m.data ⟨0, 0, 0⟩
  rw [feedback_of_gt _ _ long] at ran
  cases ran

end Rule

/-- For every message, of any identifier, DLC and data, all indices are inside and the drive
state depends on the received bytes alone, exactly when it has eight of them, or fewer which no
bytes complete to a reply that counts. -/
theorem independent_iff (m : RxMessage) :
    m.Independent ↔ m.dlc = 8 ∨ (m.dlc < 8 ∧ ¬ m.MayCount) := by
  constructor
  · intro independent
    rcases lt_trichotomy m.dlc 8 with short | full | long
    · exact .inr ⟨short, fun counts => not_independent_of_mayCount short counts independent⟩
    · exact .inl full
    · exact absurd independent (not_independent_of_long long)
  · rintro (full | ⟨short, silent⟩)
    · exact independent_of_full full
    · exact independent_of_silent short silent

/-- The four header bytes of a position reply, and no position. -/
def headerOnly : RxMessage := ⟨⟨ID_FRONT, #v[RBYTE4, 0x63, 0x60, 0, 0, 0, 0, 0]⟩, 4, by decide⟩

/-- The position is then the one left in the buffer. -/
theorem headerOnly_stale : ¬ ∀ m : RxMessage, m.Independent := by
  intro stated
  have begins : headerOnly.Begins .getCruPos := by
    refine ⟨RBYTE4, by decide, ?_⟩
    decide
  exact not_independent_of_mayCount (by decide) (.inl begins) (stated headerOnly)

end Stm32Robot.Can
