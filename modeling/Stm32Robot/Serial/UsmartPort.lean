/-
# Serial.UsmartPort -- USART1 under the USMART scanner

TIM4 runs `usmart_scan` between received bytes.  On a complete port the scanner takes the
buffer for a command line and then clears the status word, so the next byte is received as
the first of a frame.  When that byte is the head of the next frame nothing is lost; when it
is filler, the port counts from the filler byte on (`Lost`) and the next thing handed over, if
any, does not begin with a head byte.  USART2 has no scanner and drops such filler.

A scan may do anything to the buffer, by its terminator and by the command it runs, and
writes the status word only where the source does.
-/
import Stm32Robot.Serial.FrameReceiver

namespace Stm32Robot.Serial

open Stm32Robot.Theory.Bytes
open Stm32Robot.Theory.Transducer
open Stm32Robot.Motor.Message

set_option autoImplicit false

/-! ## The scanner -/

/-- `usmart_scan`; `exec` is what the command does to the buffer. -/
def usmartScan (p : Port) (exec : (Nat → UInt8) → Nat → UInt8) : Port :=
  if p.rxSta &&& 0x8000 ≠ 0 then
    let len := UInt8.ofNat (p.rxSta &&& 0x3fff).toNat
    let p := { p with rxBuf := store p.rxBuf len.toNat 0 }
    let p := { p with rxBuf := exec p.rxBuf }
    { p with rxSta := 0 }
  else p

/-- A received byte and the scans that ran since the byte before it. -/
structure Arrival where
  scans : List ((Nat → UInt8) → Nat → UInt8)
  byte : UInt8

def usmartStep (p : Port) (a : Arrival) : Port × List Call :=
  usartRcvDataHandle (a.scans.foldl usmartScan p) a.byte

section Scans

variable {p : Port} (scans : List ((Nat → UInt8) → Nat → UInt8))

/-- In the middle of a frame, and at its start, a scan does nothing. -/
theorem scans_of_clear (clear : p.rxSta &&& 0x8000 = 0) : scans.foldl usmartScan p = p := by
  induction scans with
  | nil => rfl
  | cons exec scans ih =>
      have same : usmartScan p exec = p := if_neg (not_not.mpr clear)
      rw [List.foldl_cons, same]
      exact ih

/-- The first scan of a complete port clears the status word for good. -/
theorem scans_of_complete (complete : Complete p) (some : scans ≠ []) :
    (scans.foldl usmartScan p).rxSta = 0 := by
  cases scans with
  | nil => exact absurd rfl some
  | cons exec scans =>
      have cleared : (usmartScan p exec).rxSta = 0 := congrArg Port.rxSta (if_pos complete)
      have clear : (usmartScan p exec).rxSta &&& 0x8000 = 0 := by rw [cleared]; rfl
      rw [List.foldl_cons, scans_of_clear scans clear, cleared]

theorem scans_idle (idle : Idle p) : Idle (scans.foldl usmartScan p) := by
  rcases idle with complete | zero
  · by_cases none : scans = []
    · rw [none]
      exact Or.inl complete
    · exact Or.inr (scans_of_complete scans complete none)
  · have clear : p.rxSta &&& 0x8000 = 0 := by rw [zero]; rfl
    rw [scans_of_clear scans clear]
    exact Or.inr zero

end Scans

/-! ## Frames and quiet gaps -/

section Steps

variable {p : Port}

theorem usmartStep_frame (idle : Idle p) {f : Frame} (arrivals : List Arrival)
    (brings : arrivals.map Arrival.byte = f.bytes) :
    Complete (runState usmartStep p arrivals) ∧
      (emitted usmartStep p arrivals).map Call.bytes = [f.bytes] := by
  apply emitted_frame _ _ idle arrivals brings
  · intro p a idle head
    rw [usmartStep, head]
    exact rcvDataHandle_head (scans_idle a.scans idle)
  · intro p bs a counting _
    rw [usmartStep, scans_of_clear a.scans counting.clear]
    rfl

/-- Without a scan before it a filler byte is dropped. -/
theorem usmartStep_filler (complete : Complete p) {a : Arrival} (filler : a.byte ≠ 0xAA)
    (quiet : a.scans = []) : usmartStep p a = (p, []) := by
  rw [usmartStep, quiet]
  exact rcvDataHandle_filler complete filler

/-- A gap without scans leaves a complete port as it is. -/
theorem usmartStep_quiet (complete : Complete p) {gap : List Arrival}
    (filler : ∀ a ∈ gap, a.byte ≠ 0xAA) (quiet : ∀ a ∈ gap, a.scans = []) :
    runState usmartStep p gap = p ∧ emitted usmartStep p gap = [] := by
  induction gap with
  | nil => exact ⟨rfl, rfl⟩
  | cons a gap ih =>
      have dropped : usmartStep p a = (p, []) :=
        usmartStep_filler complete (filler a List.mem_cons_self) (quiet a List.mem_cons_self)
      rw [runState_cons, emitted_cons, dropped]
      exact ih (fun b mem => filler b (List.mem_cons_of_mem a mem))
        fun b mem => quiet b (List.mem_cons_of_mem a mem)

/-! ## A port that has lost the frame boundary -/

/-- The port counts a frame that began with a filler byte. -/
structure Lost (p : Port) : Prop where
  counted : 1 ≤ p.rxSta.toNat
  short : p.rxSta.toNat < 5 ∨ p.rxSta.toNat < (p.rxBuf 4).toNat + 6
  filler : p.rxBuf 0 ≠ 0xAA

/-- Nothing is handed over, or first something that does not begin with a head byte. -/
def Misframed (calls : List Call) : Prop :=
  calls = [] ∨ ∃ c cs, calls = c :: cs ∧ c.msg 0 ≠ 0xAA

theorem Lost.clear (lost : Lost p) : p.rxSta &&& 0x8000 = 0 := by
  have := lost.short
  have := (p.rxBuf 4).toNat_lt
  exact complete_clear (by omega)

/-- A filler byte received into a cleared port loses the boundary. -/
theorem lost_of_filler (zero : p.rxSta = 0) {b : UInt8} (filler : b ≠ 0xAA) :
    usartRcvDataHandle p b = (p.stored b, []) ∧ Lost (p.stored b) := by
  obtain ⟨sta, buf⟩ := p
  subst zero
  have one : (Port.stored ⟨0, buf⟩ b).rxSta.toNat = 1 := rfl
  have held : (Port.stored ⟨0, buf⟩ b).rxBuf 0 = b := by
    have first : 0 = ((0 : BitVec 16) &&& 0x3FFF).toNat := by decide
    exact if_pos first
  have more : ¬ Done (Port.stored ⟨0, buf⟩ b) := by
    rintro ⟨counted, -⟩
    omega
  have clear : (0 : BitVec 16) &&& 0x8000 = 0 := by decide
  exact ⟨(rcvDataHandle_of_clear clear).trans (if_neg more),
    by omega, Or.inl (by omega), by rwa [held]⟩

/-- A lost port stays lost or hands over bytes that do not begin with a head byte. -/
theorem lost_step (lost : Lost p) (b : UInt8) :
    (Lost (rcvDataHandle p b).1 ∧ (rcvDataHandle p b).2 = []) ∨
      ∃ c, (rcvDataHandle p b).2 = [c] ∧ c.msg 0 ≠ 0xAA := by
  have counted := lost.counted
  have short := lost.short
  have byte := (p.rxBuf 4).toNat_lt
  have below : p.rxSta.toNat < 0x4000 := by omega
  have count : (p.stored b).rxSta.toNat = p.rxSta.toNat + 1 := count_succ below
  have other (i : Nat) (ne : i ≠ p.rxSta.toNat) : (p.stored b).rxBuf i = p.rxBuf i := by
    rw [Port.stored, count_masked below]
    exact if_neg ne
  have first : (p.stored b).rxBuf 0 ≠ 0xAA := by
    rw [other 0 (by omega)]
    exact lost.filler
  rw [rcvDataHandle_of_clear lost.clear]
  by_cases done : Done (p.stored b)
  · rw [if_pos done]
    exact Or.inr ⟨_, rfl, first⟩
  · have still : Lost (p.stored b) := by
      rw [Done, count] at done
      refine ⟨by omega, ?_, first⟩
      rw [count]
      by_cases early : p.rxSta.toNat = 4
      · omega
      · rw [other 4 (by omega)] at done ⊢
        omega
    rw [if_neg done]
    exact Or.inl ⟨still, rfl⟩

theorem lost_emitted (lost : Lost p) (is : List Arrival) :
    Misframed (emitted usmartStep p is) := by
  induction is generalizing p with
  | nil => exact Or.inl rfl
  | cons a is ih =>
      have stepped : usmartStep p a = rcvDataHandle p a.byte := by
        rw [usmartStep, scans_of_clear a.scans lost.clear]
        rfl
      rw [emitted_cons, stepped]
      rcases lost_step lost a.byte with ⟨still, none⟩ | ⟨c, some, first⟩
      · rw [none, List.nil_append]
        exact ih still
      · rw [some]
        exact Or.inr ⟨c, _, rfl, first⟩

/-- A scan in a gap, before one of its filler bytes, loses the boundary. -/
theorem scanned_gap (complete : Complete p) {gap : List Arrival}
    (filler : ∀ a ∈ gap, a.byte ≠ 0xAA) (scanned : ∃ a ∈ gap, a.scans ≠ []) (is : List Arrival) :
    Misframed (emitted usmartStep p (gap ++ is)) := by
  induction gap with
  | nil =>
      obtain ⟨a, mem, -⟩ := scanned
      cases mem
  | cons a gap ih =>
      have silent := filler a List.mem_cons_self
      rw [List.cons_append, emitted_cons]
      by_cases quiet : a.scans = []
      · rw [usmartStep_filler complete silent quiet, List.nil_append]
        apply ih fun b mem => filler b (List.mem_cons_of_mem a mem)
        obtain ⟨b, mem, some⟩ := scanned
        rcases List.mem_cons.mp mem with rfl | later
        · exact absurd quiet some
        · exact ⟨b, later, some⟩
      · obtain ⟨stepped, lost⟩ := lost_of_filler (scans_of_complete a.scans complete quiet) silent
        rw [usmartStep, stepped, List.nil_append]
        exact lost_emitted lost (gap ++ is)

theorem Misframed.ne {calls : List Call} (misframed : Misframed calls) (f : Frame)
    (fs : List (List UInt8)) : calls.map Call.bytes ≠ f.bytes :: fs := by
  rcases misframed with rfl | ⟨c, cs, rfl, first⟩
  · simp
  · intro same
    rw [List.map_cons, List.cons.injEq] at same
    obtain ⟨-, heads⟩ := Call.bytes_eq_iff.mp same.1
    exact first (heads 0 (by rw [Frame.length_bytes]; omega))

end Steps

/-! ## The stream -/

/-- A frame as it arrives. -/
structure SentFrame where
  frame : Frame
  arrivals : List Arrival
  brings : arrivals.map Arrival.byte = frame.bytes

/-- A later frame, with the filler bytes that arrive before it. -/
structure LaterFrame extends SentFrame where
  gap : List Arrival
  filler : ∀ a ∈ gap, a.byte ≠ 0xAA

def LaterFrame.stream (s : LaterFrame) : List Arrival := s.gap ++ s.arrivals

theorem usmart_stream_iff {p : Port} (complete : Complete p) (rest : List LaterFrame) :
    (emitted usmartStep p (rest.flatMap LaterFrame.stream)).map Call.bytes =
        (rest.map fun s => s.frame).map Frame.bytes ↔
      ∀ s ∈ rest, ∀ a ∈ s.gap, a.scans = [] := by
  induction rest generalizing p with
  | nil => simp
  | cons s rest ih =>
      rw [List.flatMap_cons, LaterFrame.stream, List.append_assoc, List.forall_mem_cons]
      by_cases quiet : ∀ a ∈ s.gap, a.scans = []
      · obtain ⟨still, nothing⟩ := usmartStep_quiet complete s.filler quiet
        obtain ⟨next, handed⟩ := usmartStep_frame (Or.inl complete) s.arrivals s.brings
        rw [emitted_append, still, nothing, List.nil_append, emitted_append, List.map_append,
          handed, List.map_cons, List.map_cons, List.singleton_append, List.cons.injEq]
        simp only [true_and]
        rw [ih next]
        exact ⟨fun later => ⟨quiet, later⟩, fun both => both.2⟩
      · have scanned : ∃ a ∈ s.gap, a.scans ≠ [] := by
          by_contra none
          exact quiet fun a mem => by_contra fun some => none ⟨a, mem, some⟩
        have misframed := scanned_gap complete s.filler scanned
          (s.arrivals ++ rest.flatMap LaterFrame.stream)
        constructor
        · intro same
          exact absurd same (misframed.ne s.frame _)
        · intro both
          exact absurd both.1 quiet

/-- USART1 hands over every frame, once and in order, exactly when no scan runs between the
end of a frame and a filler byte that follows it. -/
theorem usmart_framing_iff (first : SentFrame) (rest : List LaterFrame) :
    List.Forall₂ Call.Delivers
        (emitted usmartStep .powerUp (first.arrivals ++ rest.flatMap LaterFrame.stream))
        (first.frame :: rest.map fun s => s.frame) ↔
      ∀ s ∈ rest, ∀ a ∈ s.gap, a.scans = [] := by
  obtain ⟨complete, handed⟩ := usmartStep_frame (p := .powerUp) (Or.inr rfl) _ first.brings
  rw [delivers_iff, emitted_append, List.map_append, handed, List.map_cons,
    List.singleton_append, List.cons.injEq]
  simp only [true_and]
  exact usmart_stream_iff complete rest

/-- Two feedback requests, one zero byte between them, one scan before that byte. -/
theorem usmart_scan_loses_frame :
    ¬ ∀ (first : SentFrame) (rest : List LaterFrame),
      List.Forall₂ Call.Delivers
        (emitted usmartStep .powerUp (first.arrivals ++ rest.flatMap LaterFrame.stream))
        (first.frame :: rest.map fun s => s.frame) := by
  intro stated
  let request : SentFrame :=
    ⟨.feedbackRequest, Frame.feedbackRequest.bytes.map (Arrival.mk []), by decide⟩
  let late : LaterFrame := ⟨request, [⟨[id], 0⟩], by decide⟩
  have handed := delivers_iff.mp (stated request [late])
  exact absurd handed (by decide)

end Stm32Robot.Serial
