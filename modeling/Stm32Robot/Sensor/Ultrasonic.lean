/-
# Sensor.Ultrasonic -- the median filter of the four distance sensors

`ultrasonic_thread` asks the sensors in turn.  A reply is stored in the sensor's ring of ten
slots in `d`, the ring is sorted where it stands, and its median goes to `Dis_ultrasonic`.
There is one cursor `j` for the four rings, and a timeout does not move it.

`Dis_ultrasonic` is always the median of the ring (`dis_eq_median`).  It is the median of the
last ten readings in the runs in which each reply to a filled ring takes the place of the
oldest reading (`filtered_of_windowKept`); after a sort the cursor stands on any of the ten.
-/
import Mathlib.Data.List.DropRight
import Mathlib.Data.List.Induction
import Stm32Robot.Motor.ConvertData
import Stm32Robot.Motor.Median
import Stm32Robot.Theory.History

namespace Stm32Robot.Sensor

open Function
open Stm32Robot.Motor.ConvertData Stm32Robot.Theory.BubbleSort Stm32Robot.Theory.History

set_option autoImplicit false

def ULQUEUECOUNT : Nat := 10

/-- How the wait for a reply ends. -/
inductive Poll where
  | timeout
  | reply (USART6_RX_BUF : Nat → UInt8)

/-! ## What the sensors said -/

/-- The reading in a reply. -/
def Poll.reading : Poll → Option (BitVec 16)
  | .timeout => none
  | .reply USART6_RX_BUF => some (hexbyte2short USART6_RX_BUF)

/-- The sensor asked in poll `n`. -/
def sensor (n : Nat) : Fin 4 := Fin.ofNat 4 n

theorem sensor_succ (n : Nat) : sensor (n + 1) = sensor n + 1 := by
  refine Fin.ext ?_
  rw [Fin.val_add]
  show (n + 1) % 4 = (n % 4 + 1) % 4
  omega

/-- What a sensor has read, the oldest first. -/
def readings (i : Fin 4) (past : List Poll) : List (BitVec 16) :=
  past.zipIdx.filterMap fun (p, n) => if sensor n = i then p.reading else none

theorem readings_concat (i : Fin 4) (past : List Poll) (p : Poll) :
    readings i (past ++ [p]) =
      readings i past ++ if sensor past.length = i then p.reading.toList else [] := by
  unfold readings
  rw [List.zipIdx_append, List.filterMap_append]
  split_ifs with asked
  · cases p <;> simp [asked, Poll.reading]
  · simp [asked]

/-! ## The thread -/

/-- The variables of the thread; `i` is the sensor that is asked next. -/
structure Ultrasonic where
  i : Fin 4
  j : UInt8
  d : Nat → BitVec 16
  Dis_ultrasonic : Fin 4 → BitVec 16

namespace Ultrasonic

/-- The slot of the ring the next reply is stored in. -/
def slot (s : Ultrasonic) : UInt8 := if s.j.toNat > ULQUEUECOUNT - 1 then 0 else s.j

/-- One turn of the loop over the sensors. -/
def turn (s : Ultrasonic) : Poll → Ultrasonic
  | .timeout => { s with i := s.i + 1 }
  | .reply USART6_RX_BUF =>
      let j := s.slot
      let d := update s.d (j.toNat + s.i * ULQUEUECOUNT) (hexbyte2short USART6_RX_BUF)
      -- the pointer `d+i*ULQUEUECOUNT`
      let (median, sorted) := getMedianNum (fun k => d (s.i * ULQUEUECOUNT + k)) ULQUEUECOUNT
      { i := s.i + 1
        j := j + 1
        d := fun k => if k < s.i * ULQUEUECOUNT then d k else sorted (k - s.i * ULQUEUECOUNT)
        Dis_ultrasonic := update s.Dis_ultrasonic s.i median }

/-- The ten slots of a sensor. -/
def ring (s : Ultrasonic) (i : Fin 4) : Nat → BitVec 16 := fun k => s.d (i * ULQUEUECOUNT + k)

/-- The thread after a schedule of polls; `d` is not initialised. -/
def after (d : Nat → BitVec 16) (past : List Poll) : Ultrasonic :=
  past.foldl turn ⟨0, 0, d, fun _ => 0⟩

/-! ## One turn -/

section Turn

variable (s : Ultrasonic) (buf : Nat → UInt8)

theorem slot_lt : s.slot.toNat < ULQUEUECOUNT := by
  unfold slot ULQUEUECOUNT
  split_ifs
  · decide
  · omega

/-- The sensor's ring with the reply in its slot. -/
def stored : Nat → BitVec 16 := update (s.ring s.i) s.slot.toNat (hexbyte2short buf)

theorem stored_eq :
    (fun k => update s.d (s.slot.toNat + s.i * ULQUEUECOUNT) (hexbyte2short buf)
      (s.i * ULQUEUECOUNT + k)) = s.stored buf := by
  funext k
  rcases eq_or_ne k s.slot.toNat with rfl | other
  · rw [stored, update_self, Nat.add_comm, update_self]
  · rw [stored, update_of_ne other, update_of_ne (by omega), ring]

theorem ring_reply :
    (s.turn (.reply buf)).ring s.i = bubbleSort BitVec.toInt (s.stored buf) ULQUEUECOUNT := by
  funext k
  simp only [turn, ring, stored_eq, getMedianNum]
  rw [if_neg (by omega), Nat.add_sub_cancel_left]

theorem content_ring_reply :
    content ((s.turn (.reply buf)).ring s.i) ULQUEUECOUNT =
      {hexbyte2short buf} + contentBut (s.ring s.i) ULQUEUECOUNT s.slot.toNat := by
  rw [ring_reply, content_bubbleSort, stored, content_update _ s.slot_lt]

/-- The other rings stay as they are. -/
theorem ring_reply_of_ne {i : Fin 4} (other : i ≠ s.i) {k : Nat} (inside : k < ULQUEUECOUNT) :
    (s.turn (.reply buf)).ring i k = s.ring i k := by
  have slot := s.slot_lt
  have apart : i.val ≠ s.i.val := fun same => other (Fin.ext same)
  simp only [turn, ring, stored_eq, getMedianNum]
  unfold ULQUEUECOUNT at *
  rcases lt_or_ge i.val s.i.val with before | behind
  · rw [if_pos (by omega), update_of_ne (by omega)]
  · rw [if_neg (by omega), bubbleSort_of_le _ _ (by omega) (by omega), stored,
      update_of_ne (by omega)]
    refine congrArg s.d ?_
    unfold ULQUEUECOUNT
    omega

@[simp] theorem ring_timeout (i : Fin 4) : (s.turn .timeout).ring i = s.ring i := rfl

theorem Dis_reply :
    (s.turn (.reply buf)).Dis_ultrasonic =
      update s.Dis_ultrasonic s.i (getMedianNum (s.stored buf) ULQUEUECOUNT).1 := by
  simp only [turn, stored_eq]

end Turn

/-! ## The filter -/

section Filter

variable (d : Nat → BitVec 16)

theorem after_concat (past : List Poll) (p : Poll) :
    after d (past ++ [p]) = (after d past).turn p := by
  rw [after, List.foldl_concat]
  rfl

theorem after_i (past : List Poll) : (after d past).i = sensor past.length := by
  induction past using List.reverseRecOn with
  | nil => rfl
  | append_singleton past p ih =>
      rw [after_concat, List.length_append, List.length_singleton, sensor_succ, ← ih]
      cases p <;> rfl

/-- What a poll adds to the readings. -/
theorem readings_after_concat (i : Fin 4) (past : List Poll) (p : Poll) :
    readings i (past ++ [p]) =
      readings i past ++ if i = (after d past).i then p.reading.toList else [] := by
  rw [readings_concat, after_i]
  simp only [eq_comm]

/-- `Dis_ultrasonic` is the median of the ring, in any order, as soon as the sensor has
answered. -/
theorem dis_eq_median (past : List Poll) (i : Fin 4) (answered : readings i past ≠ [])
    {ws : List (BitVec 16)} (held : content ((after d past).ring i) ULQUEUECOUNT = ws) :
    ((after d past).Dis_ultrasonic i).toInt = median (ws.map BitVec.toInt) := by
  induction past using List.reverseRecOn generalizing ws with
  | nil => exact absurd rfl answered
  | append_singleton past p ih =>
      rw [readings_after_concat d] at answered
      rw [after_concat] at held ⊢
      cases p with
      | timeout =>
          refine ih ?_ held
          simpa [Poll.reading] using answered
      | reply buf =>
          by_cases asked : i = (after d past).i
          · subst asked
            rw [ring_reply, content_bubbleSort] at held
            rw [Dis_reply, update_self]
            exact getMedianNum_eq (by decide) held
          · rw [if_neg asked, List.append_nil] at answered
            rw [content_congr _ fun k => ring_reply_of_ne _ buf asked] at held
            rw [Dis_reply, update_of_ne asked]
            exact ih answered held

/-- A reply to a sensor with ten readings leaves the last nine of them in the other slots. -/
def WindowKept (past : List Poll) : Poll → Prop
  | .timeout => True
  | .reply _ =>
      let s := after d past
      ULQUEUECOUNT ≤ (readings s.i past).length →
        contentBut (s.ring s.i) ULQUEUECOUNT s.slot.toNat =
          (readings s.i past).rtake (ULQUEUECOUNT - 1)

instance (past : List Poll) : ∀ p, Decidable (WindowKept d past p)
  | .timeout => inferInstanceAs (Decidable True)
  | .reply _ => inferInstanceAs (Decidable (_ → _))

/-- The ring of each sensor with a reading after its tenth holds the last ten. -/
def Windowed (past : List Poll) : Prop :=
  ∀ i, ULQUEUECOUNT < (readings i past).length →
    content ((after d past).ring i) ULQUEUECOUNT = (readings i past).rtake ULQUEUECOUNT

/-- The output of each sensor with a reading after its tenth is the median of the last ten. -/
def Filtered (past : List Poll) : Prop :=
  ∀ i, ULQUEUECOUNT < (readings i past).length →
    ((after d past).Dis_ultrasonic i).toInt =
      median (((readings i past).rtake ULQUEUECOUNT).map BitVec.toInt)

variable {d}

theorem Windowed.filtered {past : List Poll} (windowed : Windowed d past) : Filtered d past := by
  intro i many
  have answered : readings i past ≠ [] := List.ne_nil_of_length_pos (by omega)
  exact dis_eq_median d past i answered (windowed i many)

/-- A reply completes the last readings exactly when the other slots hold those before it. -/
theorem add_eq_rtake_iff (xs : List (BitVec 16)) (r : BitVec 16) (n : Nat)
    (others : Multiset (BitVec 16)) :
    {r} + others = ((xs ++ [r]).rtake (n + 1) : Multiset (BitVec 16)) ↔
      others = (xs.rtake n : Multiset (BitVec 16)) := by
  rw [List.rtake_concat_succ, ← Multiset.coe_add, Multiset.coe_singleton, add_comm]
  exact add_left_inj ({r} : Multiset (BitVec 16))

/-- The rings outlive a poll exactly when it keeps the window. -/
theorem windowKept_iff {past : List Poll} (windowed : Windowed d past) (p : Poll) :
    WindowKept d past p ↔ Windowed d (past ++ [p]) := by
  unfold Windowed
  simp only [readings_after_concat d, after_concat]
  cases p with
  | timeout => simpa [WindowKept, Poll.reading, Windowed] using windowed
  | reply buf =>
      have complete := add_eq_rtake_iff (readings (after d past).i past) (hexbyte2short buf) 9
        (contentBut ((after d past).ring (after d past).i) ULQUEUECOUNT (after d past).slot.toNat)
      constructor
      · intro kept i many
        by_cases asked : i = (after d past).i
        · subst asked
          rw [if_pos rfl] at many ⊢
          rw [content_ring_reply]
          exact complete.mpr (kept (by simpa [Poll.reading, Nat.lt_succ_iff] using many))
        · rw [if_neg asked, List.append_nil] at many ⊢
          rw [content_congr _ fun k => ring_reply_of_ne _ buf asked]
          exact windowed i many
      · intro later many
        have held := later (after d past).i (by simpa [Poll.reading, Nat.lt_succ_iff] using many)
        rw [if_pos rfl, content_ring_reply] at held
        exact complete.mp held

/-- The rings hold the last readings throughout exactly when every poll keeps the window. -/
theorem windowed_iff (polls : List Poll) :
    Along (WindowKept d) [] polls ↔ ∀ past, past <+: polls → Windowed d past := by
  refine along_iff_throughout ?_ (fun past p windowed => windowKept_iff windowed p) polls
  intro i many
  exact absurd many (by simp [readings])

/-- For every initial `d` and every schedule: if each reply to a sensor with ten readings leaves
the last nine of them in the slots it does not take, then at every moment the output of every
sensor with a reading after its tenth is the median of the last ten. -/
theorem filtered_of_windowKept (polls : List Poll) (kept : Along (WindowKept d) [] polls) :
    ∀ past, past <+: polls → Filtered d past := by
  intro past inside
  exact ((windowed_iff polls).mp kept past inside).filtered

/-- Sensor 0 reads 1, 2 and so on; the others do not answer. -/
def rising (count : Nat) : List Poll :=
  (List.range count).flatMap fun n =>
    [.reply fun k => if k = 1 then UInt8.ofNat (n + 1) else 0, .timeout, .timeout, .timeout]

/-- From a ring of large values the readings 1 to 11 keep the window. -/
theorem filtered_rising : Filtered (fun _ => 0x7FFF) (rising 11) :=
  filtered_of_windowKept (rising 11) (by decide +kernel) (rising 11) (List.prefix_refl _)

/-- From a ring of zeros they do not: the median is 3 and not 6. -/
theorem rising_loses_window :
    ¬ ∀ (d : Nat → BitVec 16) (polls : List Poll), Filtered d polls := by
  intro stated
  have output : ((after (fun _ => 0) (rising 11)).Dis_ultrasonic 0).toInt = 3 := by decide +kernel
  have filtered := stated (fun _ => 0) (rising 11) 0 (by decide)
  rw [output] at filtered
  exact absurd filtered (by decide)

end Filter

end Ultrasonic

end Stm32Robot.Sensor
