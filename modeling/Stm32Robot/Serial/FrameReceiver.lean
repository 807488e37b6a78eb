/-
# Serial.FrameReceiver -- the byte-at-a-time frame receiver of USART1 and USART2

`UsartRcvDataHandle` and `UsartRcvRobotDataHandle` are one function on two ports: a 16-bit
status word, whose bit 15 says that a frame is complete and whose low bits count the bytes
received, and a buffer.  The buffer is as long as every index used.

A port is `Counting` while it has received the first bytes of a frame, and `Complete` after
a frame.  A step of the receiver is described in these terms: the head byte starts a frame
(`rcvDataHandle_head`), a byte in the middle is stored (`rcvDataHandle_middle`), the last one
hands the frame to `MessageHandle` (`rcvDataHandle_last`), and on a complete port a filler
byte is dropped (`rcvDataHandle_filler`).
-/
import Mathlib.Data.Nat.Bitwise
import Stm32Robot.Motor.Frame
import Stm32Robot.Theory.Transducer

namespace Stm32Robot.Serial

open Stm32Robot.Theory.Bytes
open Stm32Robot.Theory.Transducer
open Stm32Robot.Motor.Message

set_option autoImplicit false

/-! ## The receiver -/

structure Port where
  rxSta : BitVec 16
  rxBuf : Nat → UInt8

/-- The status word and the buffer are static: zero at power-up. -/
def Port.powerUp : Port := ⟨0, fun _ => 0⟩

/-- `buf[i]=b`. -/
def store (buf : Nat → UInt8) (i : Nat) (b : UInt8) : Nat → UInt8 :=
  fun j => if j = i then b else buf j

def rcvDataHandle (p : Port) (Res : UInt8) : Port × List Call :=
  if p.rxSta &&& 0x8000 = 0 then
    let p := { p with rxBuf := store p.rxBuf (p.rxSta &&& 0x3FFF).toNat Res }
    let p := { p with rxSta := p.rxSta + 1 }
    if p.rxSta.toNat > EXTERN_BUFSIZE - 2 ∧
        (p.rxBuf (EXTERN_BUFSIZE - 2)).toNat + EXTERN_BUFSIZE = p.rxSta.toNat then
      ({ p with rxSta := p.rxSta ||| 0x8000 }, [⟨p.rxBuf, p.rxSta.toNat⟩])
    else (p, [])
  else if Res = 0xAA then
    let p := { p with rxSta := 0 }
    let p := { p with rxBuf := store p.rxBuf (p.rxSta &&& 0x3FFF).toNat Res }
    ({ p with rxSta := p.rxSta + 1 }, [])
  else (p, [])

/-- USART1. -/
def usartRcvDataHandle (p : Port) (Res : UInt8) : Port × List Call := rcvDataHandle p Res

/-- USART2. -/
def usartRcvRobotDataHandle (p : Port) (Res : UInt8) : Port × List Call := rcvDataHandle p Res

/-! ## The status word -/

section Status

variable {sta : BitVec 16}

theorem complete_clear (small : sta.toNat < 0x8000) : sta &&& 0x8000 = 0 := by
  apply BitVec.eq_of_toNat_eq
  show sta.toNat &&& 2 ^ 15 = 0
  rw [Nat.and_two_pow, Nat.testBit_lt_two_pow small]
  rfl

theorem complete_set : (sta ||| 0x8000) &&& 0x8000 ≠ 0 := by
  intro clear
  have bit := congrArg (BitVec.getLsbD · 15) clear
  simp at bit

theorem count_masked (small : sta.toNat < 0x4000) : (sta &&& 0x3FFF).toNat = sta.toNat := by
  show sta.toNat &&& (2 ^ 14 - 1) = sta.toNat
  rw [Nat.and_two_pow_sub_one_eq_mod]
  exact Nat.mod_eq_of_lt small

theorem count_succ (small : sta.toNat < 0x4000) : (sta + 1).toNat = sta.toNat + 1 := by
  rw [BitVec.toNat_add]
  show (sta.toNat + 1) % 65536 = _
  omega

theorem count_of_small (small : sta.toNat < 0x8000) : (sta &&& 0x7FFF).toNat = sta.toNat := by
  show sta.toNat &&& (2 ^ 15 - 1) = sta.toNat
  rw [Nat.and_two_pow_sub_one_eq_mod]
  exact Nat.mod_eq_of_lt small

/-- Setting bit 15 leaves the count alone. -/
theorem count_set : (sta ||| 0x8000) &&& 0x7FFF = sta &&& 0x7FFF := by
  have apart : (0x8000 : BitVec 16) &&& 0x7FFF = 0 := by decide
  rw [BitVec.and_or_distrib_right, apart]
  exact BitVec.or_zero

end Status

/-! ## Ports in the middle of a frame -/

/-- The port has received the bytes `bs` of a frame. -/
structure Counting (p : Port) (bs : List UInt8) : Prop where
  count : p.rxSta.toNat = bs.length
  held : taken p.rxBuf bs.length = bs
  small : bs.length < 0x4000

/-- The port holds a frame that was handed on. -/
def Complete (p : Port) : Prop := p.rxSta &&& 0x8000 ≠ 0

/-- The port is at the start of a frame: after one, or with nothing received. -/
def Idle (p : Port) : Prop := Complete p ∨ p.rxSta = 0

/-- The port after a byte is stored and counted. -/
def Port.stored (p : Port) (b : UInt8) : Port :=
  ⟨p.rxSta + 1, store p.rxBuf (p.rxSta &&& 0x3FFF).toNat b⟩

/-- The end-of-frame test, on a port that has just stored a byte. -/
def Done (p : Port) : Prop := 4 < p.rxSta.toNat ∧ (p.rxBuf 4).toNat + 6 = p.rxSta.toNat

instance (p : Port) : Decidable (Done p) := inferInstanceAs (Decidable (_ ∧ _))

section Steps

variable {p : Port} {bs : List UInt8} {b : UInt8}

theorem Counting.clear (counting : Counting p bs) : p.rxSta &&& 0x8000 = 0 := by
  have := counting.count
  have := counting.small
  exact complete_clear (by omega)

theorem Counting.rxBuf_eq (counting : Counting p bs) {i : Nat} (h : i < bs.length) :
    p.rxBuf i = bs[i] :=
  taken_eq_iff.mp counting.held i h

theorem Counting.stored (counting : Counting p bs) (small : bs.length + 1 < 0x4000) :
    Counting (p.stored b) (bs ++ [b]) := by
  have count := counting.count
  have below : p.rxSta.toNat < 0x4000 := by omega
  have index : (p.rxSta &&& 0x3FFF).toNat = bs.length := by rw [count_masked below, count]
  refine ⟨?_, ?_, by simpa using small⟩
  · simp only [Port.stored, count_succ below, count, List.length_append, List.length_singleton]
  · have before : taken (store p.rxBuf bs.length b) bs.length = taken p.rxBuf bs.length :=
      taken_congr fun i hi => if_neg (by omega)
    have last : store p.rxBuf bs.length b bs.length = b := if_pos rfl
    rw [List.length_append, List.length_singleton, taken_succ]
    simp only [Port.stored, index, before, last, counting.held]

/-- In the middle of a frame a byte is stored, and ends the frame if the test says so. -/
theorem rcvDataHandle_of_clear (clear : p.rxSta &&& 0x8000 = 0) :
    rcvDataHandle p b =
      if Done (p.stored b) then
        ({ p.stored b with rxSta := (p.stored b).rxSta ||| 0x8000 },
          [⟨(p.stored b).rxBuf, (p.stored b).rxSta.toNat⟩])
      else (p.stored b, []) := if_pos clear

/-- A head byte starts a frame on an idle port. -/
theorem rcvDataHandle_head (idle : Idle p) :
    ∃ q, rcvDataHandle p 0xAA = (q, []) ∧ Counting q [0xAA] := by
  have nothing (buf : Nat → UInt8) : Counting ⟨0, buf⟩ [] := ⟨rfl, rfl, by decide⟩
  have fresh (buf : Nat → UInt8) : Counting (Port.stored ⟨0, buf⟩ 0xAA) [0xAA] :=
    (nothing buf).stored (by decide)
  rcases idle with complete | zero
  · exact ⟨_, (if_neg complete).trans (if_pos rfl), fresh p.rxBuf⟩
  · obtain ⟨sta, buf⟩ := p
    subst zero
    have more : ¬ Done (Port.stored ⟨0, buf⟩ 0xAA) := by
      rintro ⟨counted, -⟩
      have one : (Port.stored ⟨0, buf⟩ 0xAA).rxSta.toNat = 1 := rfl
      omega
    exact ⟨_, (rcvDataHandle_of_clear (nothing buf).clear).trans (if_neg more), fresh buf⟩

/-- Between frames a filler byte is dropped. -/
theorem rcvDataHandle_filler (complete : Complete p) (filler : b ≠ 0xAA) :
    rcvDataHandle p b = (p, []) := (if_neg complete).trans (if_neg filler)

variable {f : Frame} {rest : List UInt8}

/-- Once counted, the fifth byte of a frame is its length byte. -/
theorem Counting.lengthByte (counting : Counting p bs) (whole : bs ++ rest = f.bytes)
    (long : 4 < bs.length) : p.rxBuf 4 = f.len := by
  have inside : 4 < f.bytes.length := by rw [Frame.length_bytes]; omega
  rw [counting.rxBuf_eq long, ← f.getElem_four inside]
  simp only [← whole, List.getElem_append_left long]

/-- A byte in the middle of a frame does not end it, whatever the buffer held before. -/
theorem rcvDataHandle_middle (counting : Counting p bs) (whole : bs ++ b :: rest = f.bytes)
    (more : rest ≠ []) :
    rcvDataHandle p b = (p.stored b, []) ∧ Counting (p.stored b) (bs ++ [b]) := by
  have total := congrArg List.length whole
  have rests : 0 < rest.length := List.length_pos_iff.mpr more
  have := f.fits
  rw [List.length_append, List.length_cons, Frame.length_bytes] at total
  have next : Counting (p.stored b) (bs ++ [b]) := counting.stored (by omega)
  refine ⟨(rcvDataHandle_of_clear counting.clear).trans (if_neg ?_), next⟩
  rintro ⟨counted, ended⟩
  have count := next.count
  rw [List.length_append, List.length_singleton] at count
  have split : bs ++ [b] ++ rest = f.bytes := by simpa using whole
  have byte : (p.stored b).rxBuf 4 = f.len := next.lengthByte split (by simp; omega)
  rw [byte, f.toNat_len] at ended
  omega

/-- The last byte of a frame hands the frame over. -/
theorem rcvDataHandle_last (counting : Counting p bs) (whole : bs ++ [b] = f.bytes) :
    Complete (rcvDataHandle p b).1 ∧ (rcvDataHandle p b).2.map Call.bytes = [f.bytes] := by
  have total := congrArg List.length whole
  have := f.fits
  rw [List.length_append, List.length_singleton, Frame.length_bytes] at total
  have next : Counting (p.stored b) (bs ++ [b]) := counting.stored (by omega)
  have count := next.count
  have done : Done (p.stored b) := by
    have split : bs ++ [b] ++ [] = f.bytes := by simpa using whole
    have byte : (p.stored b).rxBuf 4 = f.len := next.lengthByte split (by simp; omega)
    rw [List.length_append, List.length_singleton] at count
    refine ⟨by omega, ?_⟩
    rw [byte, f.toNat_len]
    omega
  rw [rcvDataHandle_of_clear counting.clear, if_pos done]
  refine ⟨complete_set, ?_⟩
  rw [List.map_singleton, Call.bytes, count, next.held, whole]

end Steps

/-! ## A whole frame -/

section Frames

variable {ι : Type} {step : Port → ι → Port × List Call} {byte : ι → UInt8} {f : Frame}

/-- Inputs that bring the rest of a frame to a counting port hand over that frame, once.
The step may do more than receive, as long as it only receives in the middle of a frame. -/
theorem emitted_rest
    (receives : ∀ p bs i, Counting p bs → bs ≠ [] → step p i = rcvDataHandle p (byte i))
    {p : Port} {bs : List UInt8} (counting : Counting p bs) (started : bs ≠ []) (is : List ι)
    (whole : bs ++ is.map byte = f.bytes) (more : is ≠ []) :
    Complete (runState step p is) ∧ (emitted step p is).map Call.bytes = [f.bytes] := by
  induction is generalizing p bs with
  | nil => exact absurd rfl more
  | cons i is ih =>
      have stepped := receives p bs i counting started
      rw [runState_cons, emitted_cons, stepped]
      by_cases last : is = []
      · subst last
        obtain ⟨complete, handed⟩ := rcvDataHandle_last counting whole
        refine ⟨complete, ?_⟩
        rw [emitted_nil, List.append_nil]
        exact handed
      · obtain ⟨middle, next⟩ := rcvDataHandle_middle counting whole (by simpa using last)
        rw [middle]
        exact ih next (by simp) (by simpa using whole) last

/-- Inputs that bring a frame to an idle port hand over that frame, once. -/
theorem emitted_frame
    (starts : ∀ p i, Idle p → byte i = 0xAA → ∃ q, step p i = (q, []) ∧ Counting q [0xAA])
    (receives : ∀ p bs i, Counting p bs → bs ≠ [] → step p i = rcvDataHandle p (byte i))
    {p : Port} (idle : Idle p) (is : List ι) (whole : is.map byte = f.bytes) :
    Complete (runState step p is) ∧ (emitted step p is).map Call.bytes = [f.bytes] := by
  cases is with
  | nil =>
      obtain ⟨rest, split⟩ := f.bytes_eq_cons
      rw [split] at whole
      cases whole
  | cons i is =>
      obtain ⟨rest, split⟩ := f.bytes_eq_cons
      have head : byte i = 0xAA ∧ is.map byte = rest := by
        rw [split] at whole
        exact List.cons.inj whole
      obtain ⟨q, stepped, counting⟩ := starts p i idle head.1
      have more : is ≠ [] := by
        rintro rfl
        have total := congrArg List.length whole
        rw [Frame.length_bytes] at total
        simp at total
      rw [runState_cons, emitted_cons, stepped]
      exact emitted_rest receives counting (by simp) is (by rw [split, head.2]; rfl) more

end Frames

end Stm32Robot.Serial
