/-
# Net.Usart3Burst -- the end of a burst from the WiFi module

`USART3_IRQHandler` counts the bytes of a burst in `USART3_RX_STA`.  Bit 15 says that the burst
is complete: `TIM7_IRQHandler` sets it when the line has been idle, the receive interrupt when
a byte finds the buffer full.  A consumer stores a terminator behind the burst and clears the
word.

A full buffer of 200 bytes leaves no place for the terminator.  The count reaches 200 without
bit 15, and whichever interrupt sets it then completes a burst of 200 bytes: `burst_bound_iff`.
-/
import Stm32Robot.Net.WifiReceive
import Stm32Robot.Theory.PartialRun

namespace Stm32Robot.Net

open Stm32Robot.Serial (complete_clear count_succ count_of_small count_set)
open Stm32Robot.Theory.PartialRun

set_option autoImplicit false

/-! ## The interrupts and the consumers -/

/-- `USART3_RX_STA`, `USART3_RX_BUF`, and whether TIM7 is enabled. -/
structure Usart3 where
  rxSta : BitVec 16
  rxBuf : Vector UInt8 200
  timer : Bool

namespace Usart3

def powerUp : Usart3 := ⟨0, Vector.replicate 200 0, false⟩

/-- Bit 15 is set. -/
def Complete (u : Usart3) : Prop := u.rxSta &&& 0x8000 ≠ 0

instance (u : Usart3) : Decidable u.Complete := inferInstanceAs (Decidable (_ ≠ _))

/-- The consumers' `USART3_RX_STA&0X7FFF`. -/
def count (u : Usart3) : Nat := (u.rxSta &&& 0x7FFF).toNat

def irqHandler (u : Usart3) (res : UInt8) : Usart3 :=
  if u.rxSta &&& 0x8000 = 0 then
    if u.rxSta.toNat < USART3_MAX_RECV_LEN then
      { rxSta := u.rxSta + 1
        rxBuf := u.rxBuf.setIfInBounds u.rxSta.toNat res
        timer := if u.rxSta = 0 then true else u.timer }
    else { u with rxSta := u.rxSta ||| 0x8000 }
  else u

/-- TIM7 expires only while it is enabled. -/
def tim7IrqHandler (u : Usart3) : Option Usart3 :=
  if u.timer then some { u with rxSta := u.rxSta ||| 0x8000, timer := false } else none

/-- `atk_8266_at_response`; with `mode` clear also what `atk_8266_check_cmd` does, and with
`mode` set what the receive step does.  A store outside of the buffer has no result. -/
def atResponse (u : Usart3) (mode : Bool) : Option Usart3 :=
  if u.Complete then
    if h : u.count < 200 then
      some { u with rxBuf := u.rxBuf.set u.count 0, rxSta := if mode then 0 else u.rxSta }
    else none
  else some u

end Usart3

/-- What can happen next: a byte, an expiry, a consumer that stores its terminator, a consumer
that only clears the word. -/
inductive Usart3Event where
  | byte (res : UInt8)
  | tim7
  | atResponse (mode : Bool)
  | clear

/-- The interrupts that may set bit 15. -/
def Usart3Event.interrupts : Usart3Event → Bool
  | .byte _ | .tim7 => true
  | .atResponse _ | .clear => false

def usart3Step (u : Usart3) : Usart3Event → Option Usart3
  | .byte res => some (u.irqHandler res)
  | .tim7 => u.tim7IrqHandler
  | .atResponse mode => u.atResponse mode
  | .clear => some { u with rxSta := 0 }

/-! ## One step -/

/-- As long as bit 15 is clear the count is at most the size of the buffer. -/
def Counts (u : Usart3) : Prop := ¬ u.Complete → u.rxSta.toNat ≤ 200

/-- The terminator of a complete burst is inside the buffer. -/
def Bounded (u : Usart3) : Prop := u.Complete → u.count < 200

/-- An interrupt that finds the buffer exactly full. -/
def CompletesFull (u : Usart3) (e : Usart3Event) : Prop := u.rxSta = 200 ∧ e.interrupts = true

section Step

variable {u u' : Usart3} {e : Usart3Event}

/-- What a step can do to the word: clear it, leave it, count a byte in, or set bit 15. -/
theorem usart3Step_cases (stepped : usart3Step u e = some u') :
    (u'.rxSta = 0 ∨ u'.rxSta = u.rxSta) ∨
      (¬ u.Complete ∧ u.rxSta.toNat < 200 ∧ u'.rxSta = u.rxSta + 1) ∨
      (e.interrupts = true ∧ u'.rxSta = u.rxSta ||| 0x8000) := by
  cases e with
  | byte res =>
      obtain rfl := Option.some.inj stepped
      by_cases clear : u.rxSta &&& 0x8000 = 0
      · by_cases room : u.rxSta.toNat < USART3_MAX_RECV_LEN
        · refine .inr (.inl ⟨not_not.mpr clear, room, ?_⟩)
          rw [Usart3.irqHandler, if_pos clear, if_pos room]
        · refine .inr (.inr ⟨rfl, ?_⟩)
          rw [Usart3.irqHandler, if_pos clear, if_neg room]
      · refine .inl (.inr ?_)
        rw [Usart3.irqHandler, if_neg clear]
  | tim7 =>
      simp only [usart3Step, Usart3.tim7IrqHandler] at stepped
      split_ifs at stepped
      obtain rfl := Option.some.inj stepped
      exact .inr (.inr ⟨rfl, rfl⟩)
  | atResponse mode =>
      simp only [usart3Step, Usart3.atResponse] at stepped
      split_ifs at stepped
      all_goals obtain rfl := Option.some.inj stepped
      · exact .inl (.inl rfl)
      · exact .inl (.inr rfl)
      · exact .inl (.inr rfl)
  | clear =>
      obtain rfl := Option.some.inj stepped
      exact .inl (.inl rfl)

theorem complete_congr (same : u'.rxSta = u.rxSta) : u'.Complete ↔ u.Complete := by
  rw [Usart3.Complete, same]
  rfl

theorem not_complete_of_small (small : u.rxSta.toNat < 0x8000) : ¬ u.Complete :=
  not_not.mpr (complete_clear small)

theorem counts_step (counts : Counts u) (stepped : usart3Step u e = some u') : Counts u' := by
  intro open'
  rcases usart3Step_cases stepped with (zero | same) | ⟨-, room, next⟩ | ⟨-, set⟩
  · simp [zero]
  · rw [same]
    exact counts fun complete => open' ((complete_congr same).mpr complete)
  · rw [next, count_succ (by omega)]
    omega
  · rw [Usart3.Complete, set] at open'
    exact absurd Serial.complete_set open'

theorem bounded_step (counts : Counts u) (bounded : Bounded u) (spared : ¬ CompletesFull u e)
    (stepped : usart3Step u e = some u') : Bounded u' := by
  intro complete'
  rcases usart3Step_cases stepped with (zero | same) | ⟨-, room, next⟩ | ⟨interrupt, set⟩
  · exact absurd complete' (not_complete_of_small (by simp [zero]))
  · rw [Usart3.count, same]
    exact bounded ((complete_congr same).mp complete')
  · refine absurd complete' (not_complete_of_small ?_)
    rw [next, count_succ (by omega)]
    omega
  · rw [Usart3.count, set, count_set]
    by_cases complete : u.Complete
    · exact bounded complete
    · have room := counts complete
      have notFull : u.rxSta.toNat ≠ 200 := fun full =>
        spared ⟨BitVec.eq_of_toNat_eq full, interrupt⟩
      rw [count_of_small (by omega)]
      omega

/-- An interrupt that finds the buffer full completes a burst of 200 bytes. -/
theorem unbounded_step (full : CompletesFull u e) (stepped : usart3Step u e = some u') :
    ¬ Bounded u' := by
  obtain ⟨count, interrupt⟩ := full
  have set : u'.rxSta = u.rxSta ||| 0x8000 := by
    cases e with
    | byte res =>
        obtain rfl := Option.some.inj stepped
        simp [Usart3.irqHandler, count, USART3_MAX_RECV_LEN]
    | tim7 =>
        simp only [usart3Step, Usart3.tim7IrqHandler] at stepped
        split_ifs at stepped
        obtain rfl := Option.some.inj stepped
        rfl
    | atResponse mode => cases interrupt
    | clear => cases interrupt
  intro bounded
  have inside := bounded (by rw [Usart3.Complete, set]; exact Serial.complete_set)
  rw [Usart3.count, set, count_set, count] at inside
  exact absurd inside (by decide)

end Step

/-! ## From power-up -/

/-- In every state of a run every complete burst leaves room for its terminator exactly when no
byte and no expiry comes while `USART3_RX_STA` is 200. -/
theorem burst_bound_iff (events : List Usart3Event) :
    (∀ before u, before <+: events → runPartial usart3Step .powerUp before = some u →
        u.Complete → u.count < 200) ↔
      ∀ before e u u', before ++ [e] <+: events →
        runPartial usart3Step .powerUp before = some u → usart3Step u e = some u' →
          ¬ (u.rxSta = 200 ∧ e.interrupts = true) := by
  have kept : ∀ u e u', Counts u → Bounded u → ¬ CompletesFull u e → usart3Step u e = some u' →
      Bounded u' := fun _ _ _ => bounded_step
  have broken : ∀ u e u', Counts u → CompletesFull u e → usart3Step u e = some u' →
      ¬ Bounded u' := fun _ _ _ _ => unbounded_step
  have counts : Counts .powerUp := fun _ => Nat.zero_le 200
  have bounded : Bounded .powerUp := fun complete => absurd rfl complete
  exact throughout_iff_step (fun _ _ _ => counts_step) kept broken counts bounded events

/-- A burst of exactly 200 bytes, and then an idle line. -/
def fullBurst : List Usart3Event := List.replicate 200 (.byte 0x20) ++ [.tim7]

/-- The count while the bytes of one burst come in. -/
theorem runPartial_bytes (n : Nat) (room : n ≤ 200) :
    ∃ u, runPartial usart3Step .powerUp (List.replicate n (.byte 0x20)) = some u ∧
      u.rxSta.toNat = n ∧ (0 < n → u.timer = true) := by
  induction n with
  | zero => exact ⟨.powerUp, rfl, rfl, fun positive => absurd positive (lt_irrefl 0)⟩
  | succ n ih =>
      obtain ⟨u, ran, count, enabled⟩ := ih (by omega)
      have small : u.rxSta.toNat < 0x4000 := by omega
      have clear : u.rxSta &&& 0x8000 = 0 := complete_clear (by omega)
      have inside : u.rxSta.toNat < USART3_MAX_RECV_LEN := by
        rw [USART3_MAX_RECV_LEN]
        omega
      rw [List.replicate_succ', runPartial_concat, ran, Option.bind_some]
      refine ⟨_, rfl, ?_, ?_⟩
      · simp only [Usart3.irqHandler, clear, inside, if_true]
        rw [count_succ small, count]
      · intro _
        simp only [Usart3.irqHandler, clear, inside, if_true]
        split_ifs with first
        · rfl
        · refine enabled (Nat.pos_of_ne_zero fun zero => first ?_)
          exact BitVec.eq_of_toNat_eq (count.trans zero)

/-- Its terminator is stored behind the buffer. -/
theorem fullBurst_overruns :
    ¬ ∀ events before u, before <+: events → runPartial usart3Step .powerUp before = some u →
      u.Complete → u.count < 200 := by
  intro stated
  obtain ⟨u, ran, count, enabled⟩ := runPartial_bytes 200 le_rfl
  have full : CompletesFull u .tim7 := ⟨BitVec.eq_of_toNat_eq count, rfl⟩
  have expired : usart3Step u .tim7 =
      some { u with rxSta := u.rxSta ||| 0x8000, timer := false } := by
    simp [usart3Step, Usart3.tim7IrqHandler, enabled]
  have after := runPartial_concat_iff.mpr ⟨u, ran, expired⟩
  exact unbounded_step full expired (stated fullBurst _ _ (List.prefix_refl _) after)

end Stm32Robot.Net
