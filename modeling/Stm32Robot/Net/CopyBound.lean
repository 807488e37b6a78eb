/-
# Net.CopyBound -- the lengths MessageHandle is called with

`MessageHandle` copies `len-1` bytes into a local of 132 before it looks at them, so every
receiver has to hand it a length that fits.  The serial ports hand over the length of a piece,
the WiFi thread six more than whatever byte lies four behind the head byte, the TCP threads the
length of the delivery.  None of them compares it with the local.  `copyable_iff` says, receiver
by receiver, which inputs fit all the same.
-/
import Stm32Robot.Net.TcpThread
import Stm32Robot.Net.WifiReceive
import Stm32Robot.Serial.BufferBound

namespace Stm32Robot.Net

open Stm32Robot.Theory.Bytes
open Stm32Robot.Theory.Transducer
open Stm32Robot.Motor.Message
open Stm32Robot.Serial

set_option autoImplicit false

/-- The call copies at most the 132 bytes of an `STM`, at least one byte, and none from
beyond the `room` bytes its pointer has left in the receive buffer. -/
def Copyable (room : Nat) (c : Call) : Prop := 1 ≤ c.len ∧ c.len - 1 ≤ 132 ∧ c.len ≤ room

/-! ## USART1 between scans -/

/-- The receiver of USART1 with its accesses, after the scans before a byte. -/
def scannedAccess (p : Port) (a : Arrival) : Port × List Access :=
  Usart.access .usart1 (a.scans.foldl usmartScan p) a.byte

/-- A head byte or any byte that follows a scan. -/
def Arrival.starts (a : Arrival) : Bool := a.byte = 0xAA ∨ a.scans ≠ []

theorem scannedAccess_portStep : PortStep scannedAccess Arrival.byte Arrival.starts := by
  refine ⟨?_, ?_, ?_⟩
  · intro p a clear
    rw [scannedAccess, scans_of_clear a.scans clear, Usart.access_eq]
  · intro p a complete started
    rw [scannedAccess, Usart.access_eq]
    by_cases quiet : a.scans = []
    · have head : a.byte = 0xAA := by simpa [Arrival.starts, quiet] using started
      rw [quiet, head]
      exact ⟨p.rxBuf, Usart.rcvAccess_head complete⟩
    · refine ⟨(a.scans.foldl usmartScan p).rxBuf, ?_⟩
      rw [← scans_of_complete a.scans complete quiet]
  · intro p a complete other
    have silent : a.byte ≠ 0xAA ∧ a.scans = [] := by simpa [Arrival.starts] using other
    rw [scannedAccess, silent.2]
    exact (Usart.portStep .usart1).drops p a.byte complete (by simpa using silent.1)

theorem begins_scanned (arrivals : List Arrival) :
    Begins scannedAccess Arrival.byte .powerUp arrivals := by
  intro a _ _
  exact ⟨fun _ => 0, scannedAccess_portStep.counts _ a (by decide)⟩

/-! ## The receivers -/

/-- The call of a delivery. -/
def Delivery.call (d : Delivery) : Call :=
  ⟨view (copyLoop (Vector.replicate 200 0) 0 d.chain).1,
    (copyLoop (Vector.replicate 200 0) 0 d.chain).2⟩

theorem deliver_eq_call (k : Kinematics) (d : Delivery) (w : World) :
    deliver k d w = (messageHandle k d.locals d.call.msg d.call.len w).map fun (ret, w) =>
      (w, [⟨d.call, ret⟩]) := rfl

/-- What arrives at one of the receivers: at a serial port everything since power-up. -/
inductive Reception where
  | usart1 (arrivals : List Arrival)
  | usart2 (stream : List UInt8)
  | wifi (burst : Burst)
  | tcp (delivery : Delivery)

/-- The calls of `MessageHandle`, each with the bytes from its pointer to the end of the
receive buffer. -/
def Reception.handed : Reception → List (Nat × Call)
  | .usart1 arrivals => (emitted usmartStep .powerUp arrivals).map fun c => (200, c)
  | .usart2 stream => (emitted usartRcvRobotDataHandle .powerUp stream).map fun c => (200, c)
  | .wifi burst => burst.receive.toList.map fun (p, c) => (USART3_MAX_RECV_LEN - p, c)
  | .tcp delivery => [(RX_BUFSIZE, delivery.call)]

/-- No piece that is completed has more than 133 bytes. -/
def ShortPieces {ι : Type} (byte : ι → UInt8) (pieces : List (List ι)) : Prop :=
  ∀ piece ∈ pieces, Whole (piece.map byte) → piece.length ≤ 133

/-- The inputs whose calls fit. -/
def Reception.Fits : Reception → Prop
  | .usart1 arrivals => ShortPieces Arrival.byte (cut Arrival.byte Arrival.starts arrivals)
  | .usart2 stream => ShortPieces id (bytePieces stream)
  | .wifi burst => strstr burst.text IPD = true → ∀ p, strchr burst.text 0xAA = some p →
      (burst.terminated (p + 4)).toNat ≤ 127 ∧ p + (burst.terminated (p + 4)).toNat + 6 ≤ 200
  | .tcp delivery => 1 ≤ delivery.piece.length ∧ delivery.piece.length ≤ 133

section Serial

variable {ι : Type} {byte : ι → UInt8} {cs : List Call} {pieces : List (List ι)}

/-- Calls with the lengths of the completed pieces. -/
theorem copyable_pieces
    (lengths : cs.map Call.len =
      (pieces.filter fun piece => Whole (piece.map byte)).map List.length) :
    (∀ x ∈ cs.map (fun c => (200, c)), Copyable x.1 x.2) ↔ ShortPieces byte pieces := by
  have each (P : Nat → Prop) : (∀ c ∈ cs, P c.len) ↔
      ∀ piece ∈ pieces, Whole (piece.map byte) → P piece.length := by
    rw [← List.forall_mem_map (f := Call.len), lengths]
    constructor
    · intro all piece mem whole
      have kept : piece ∈ pieces.filter fun piece => Whole (piece.map byte) :=
        List.mem_filter.mpr ⟨mem, decide_eq_true whole⟩
      exact all piece.length (List.mem_map_of_mem kept)
    · intro all n mem
      obtain ⟨piece, kept, rfl⟩ := List.mem_map.mp mem
      obtain ⟨cutOff, whole⟩ := List.mem_filter.mp kept
      exact all piece cutOff (of_decide_eq_true whole)
  have six (piece : List ι) (whole : Whole (piece.map byte)) : 6 ≤ piece.length := by
    have := six_le_of_pieceEnd whole
    rwa [List.length_map] at this
  simp only [List.forall_mem_map, Copyable]
  rw [each fun n => 1 ≤ n ∧ n - 1 ≤ 132 ∧ n ≤ 200, ShortPieces]
  refine forall₂_congr fun piece _ => forall_congr' fun whole => ?_
  have := six piece whole
  omega

/-- A serial port hands over the completed pieces of its stream. -/
theorem copyable_serial {step : Port → ι → Port × List Call}
    {access : Port → ι → Port × List Access}
    {starts : ι → Bool} (ports : PortStep access byte starts)
    (same : ∀ p i, (access p i).1 = (step p i).1 ∧ calls (access p i).2 = (step p i).2)
    {is : List ι} (begins : Begins access byte .powerUp is) :
    (∀ x ∈ (emitted step .powerUp is).map (fun c => (200, c)), Copyable x.1 x.2) ↔
      ShortPieces byte (cut byte starts is) := by
  rw [← calls_emitted same]
  exact copyable_pieces (trace_cut ports is begins).2

end Serial

/-! ## TCP -/

/-- The copy loop counts a delivery that fits, and of a longer one more than the buffer
holds. -/
theorem copyLoop_count (chain : List Pbuf) (recvbuf : Vector UInt8 200) {n : Nat}
    (room : n ≤ 200) :
    (copyLoop recvbuf n chain).2 = n + (chain.flatMap Pbuf.payload).length ∨
      200 < (copyLoop recvbuf n chain).2 ∧ 200 < n + (chain.flatMap Pbuf.payload).length := by
  induction chain generalizing recvbuf n with
  | nil => exact .inl rfl
  | cons q qs ih =>
      have short := q.fits
      have sum : (n + q.payload.length) % 2 ^ 32 = n + q.payload.length := by omega
      rw [copyLoop, List.flatMap_cons, List.length_append]
      simp only [sum]
      by_cases full : n + q.payload.length > RX_BUFSIZE
      · rw [if_pos full]
        exact .inr ⟨full, by rw [RX_BUFSIZE] at full; omega⟩
      · rw [if_neg full, ← Nat.add_assoc]
        exact ih _ (not_lt.mp full)

/-! ## The rule -/

/-- Every call that comes of an input has a length `MessageHandle` can copy exactly when the
input fits. -/
theorem copyable_iff (r : Reception) : (∀ x ∈ r.handed, Copyable x.1 x.2) ↔ r.Fits := by
  cases r with
  | usart1 arrivals =>
      have same (p : Port) (a : Arrival) : (scannedAccess p a).1 = (usmartStep p a).1 ∧
          calls (scannedAccess p a).2 = (usmartStep p a).2 := ⟨rfl, calls_rcvAccess _ _⟩
      exact copyable_serial scannedAccess_portStep same (begins_scanned arrivals)
  | usart2 stream =>
      have same (p : Port) (b : UInt8) :
          (Usart.access .usart2 p b).1 = (usartRcvRobotDataHandle p b).1 ∧
            calls (Usart.access .usart2 p b).2 = (usartRcvRobotDataHandle p b).2 :=
        ⟨rfl, calls_rcvAccess _ _⟩
      exact copyable_serial (Usart.portStep .usart2) same (Usart.begins_powerUp _ _)
  | wifi burst =>
      simp only [Reception.handed, Reception.Fits, List.forall_mem_map, Option.mem_toList]
      constructor
      · intro fit packet p head
        have handed := (burst.receive_eq_some_iff).mpr ⟨packet, head, rfl⟩
        have := fit _ handed
        simp only [Copyable, EXTERN_BUFSIZE, USART3_MAX_RECV_LEN] at this
        omega
      · rintro fits ⟨p, c⟩ handed
        obtain ⟨packet, head, rfl⟩ := (burst.receive_eq_some_iff).mp handed
        have := fits packet p head
        simp only [Copyable, EXTERN_BUFSIZE, USART3_MAX_RECV_LEN]
        omega
  | tcp delivery =>
      have count := copyLoop_count delivery.chain (Vector.replicate 200 0) (Nat.zero_le _)
      rw [Nat.zero_add] at count
      simp only [Reception.handed, Reception.Fits, List.mem_singleton, forall_eq, Copyable,
        Delivery.call, Delivery.piece, RX_BUFSIZE]
      omega

/-- One TCP segment of 134 bytes. -/
def longDelivery : Delivery := ⟨[⟨0xAA :: List.replicate 133 0, by simp⟩], .zero, id⟩

/-- It is copied beyond the end of the local. -/
theorem longDelivery_overruns :
    ¬ ∀ r : Reception, ∀ x ∈ r.handed, Copyable x.1 x.2 := by
  intro stated
  obtain ⟨-, copied, -⟩ := stated (.tcp longDelivery) _ List.mem_cons_self
  have count := copyLoop_count longDelivery.chain (Vector.replicate 200 0) (Nat.zero_le _)
  have total : (longDelivery.chain.flatMap Pbuf.payload).length = 134 := by
    simp [longDelivery]
  rw [total] at count
  simp only [Delivery.call] at copied
  omega

end Stm32Robot.Net
