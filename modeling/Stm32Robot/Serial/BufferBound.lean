/-
# Serial.BufferBound -- stores into the receive buffers

`USART_RX_BUF` and `USART2_RX_BUF` have 200 bytes.  The receiver of either port compares its
index with nothing: it goes on until a piece has the length its fifth byte says, which may be
up to 261.  A stream stays inside the buffer exactly when no piece of it grows past 200 bytes.
-/
import Stm32Robot.Serial.StreamPieces

namespace Stm32Robot.Serial

open Stm32Robot.Theory.Transducer
open Stm32Robot.Motor.Message

set_option autoImplicit false

/-- The two ports that take commands byte by byte. -/
inductive Usart where
  | usart1
  | usart2

def Usart.receive : Usart → Port → UInt8 → Port × List Call
  | .usart1 => usartRcvDataHandle
  | .usart2 => usartRcvRobotDataHandle

/-- `USART_REC_LEN` and `USART2_MAX_RECV_LEN`. -/
def Usart.bufferSize : Usart → Nat
  | .usart1 => 200
  | .usart2 => 200

/-- The receiver of a port with its accesses. -/
def Usart.access (u : Usart) (p : Port) (Res : UInt8) : Port × List Access :=
  ((u.receive p Res).1, (rcvStores p Res).map .store ++ (u.receive p Res).2.map .call)

/-- The pieces of a stream of bytes: the first begins at once, every later one at a head
byte. -/
def bytePieces (stream : List UInt8) : List (List UInt8) := cut id (fun b => b = 0xAA) stream

namespace Usart

variable (u : Usart)

theorem access_eq : u.access = rcvAccess := by cases u <;> rfl

theorem bufferSize_eq : u.bufferSize = 200 := by cases u <;> rfl

/-- After a piece a head byte is received as after a reset. -/
theorem rcvAccess_head {p : Port} (complete : Complete p) :
    rcvAccess p 0xAA = rcvAccess ⟨0, p.rxBuf⟩ 0xAA := by
  have more : ¬ Done (Port.stored ⟨0, p.rxBuf⟩ 0xAA) := by
    rintro ⟨counted, -⟩
    have one : (Port.stored ⟨0, p.rxBuf⟩ 0xAA).rxSta.toNat = 1 := rfl
    omega
  have zero : (0 : BitVec 16) &&& 0x8000 = 0 := by decide
  have stepped : rcvDataHandle p 0xAA = (Port.stored ⟨0, p.rxBuf⟩ 0xAA, []) :=
    (if_neg complete).trans (if_pos rfl)
  have fresh : rcvDataHandle ⟨0, p.rxBuf⟩ 0xAA = (Port.stored ⟨0, p.rxBuf⟩ 0xAA, []) :=
    (rcvDataHandle_of_clear zero).trans (if_neg more)
  have stored : rcvStores p 0xAA = rcvStores ⟨0, p.rxBuf⟩ 0xAA :=
    ((if_neg complete).trans (if_pos rfl)).trans (if_pos zero).symm
  rw [rcvAccess, rcvAccess, stepped, fresh, stored]

theorem portStep : PortStep u.access id fun b => b = 0xAA := by
  rw [access_eq]
  refine ⟨fun p b _ => rfl, ?_, ?_⟩
  · intro p b complete head
    rw [of_decide_eq_true head]
    exact ⟨p.rxBuf, rcvAccess_head complete⟩
  · intro p b complete filler
    have other : b ≠ 0xAA := of_decide_eq_false filler
    have silent : rcvStores p b = [] := (if_neg complete).trans (if_neg other)
    rw [rcvAccess, rcvDataHandle_filler complete other, silent]
    rfl

/-- At power-up the first byte begins a piece. -/
theorem begins_powerUp (stream : List UInt8) : Begins u.access id .powerUp stream := by
  intro b bs _
  exact ⟨fun _ => 0, by rw [access_eq]; rfl⟩

/-- From power-up every store is inside the buffer exactly when no piece of the stream has
more than 200 bytes. -/
theorem stores_inside_iff (stream : List UInt8) :
    (∀ i ∈ indices (emitted u.access .powerUp stream), i < u.bufferSize) ↔
      ∀ piece ∈ bytePieces stream, piece.length ≤ 200 := by
  obtain ⟨stored, -⟩ := trace_cut u.portStep stream (u.begins_powerUp stream)
  rw [stored, bufferSize_eq]
  simp only [List.mem_flatMap, List.mem_range, bytePieces]
  constructor
  · intro inside piece mem
    by_contra long
    exact absurd (inside 200 ⟨piece, mem, by omega⟩) (lt_irrefl _)
  · rintro short i ⟨piece, mem, index⟩
    have := short piece mem
    omega

end Usart

/-- A head, a length byte of 195 and as many bytes as it takes. -/
def longStream : List UInt8 := [0xAA, 0, 0, 0, 195] ++ List.replicate 196 0

theorem longStream_piece : longStream ∈ bytePieces longStream := by
  have all : (pieceEnd (longStream.map id)).getD longStream.length = longStream.length := by
    decide +kernel
  have shape : longStream = 0xAA :: longStream.tail := rfl
  rw [bytePieces, shape, cut, ← shape, pieceLength, all, List.take_length]
  exact List.mem_cons_self

/-- It is stored beyond the end of either buffer. -/
theorem longStream_overruns :
    ¬ ∀ (u : Usart) (stream : List UInt8),
      ∀ i ∈ indices (emitted u.access .powerUp stream), i < u.bufferSize := by
  intro stated
  have inside := stated .usart2 longStream 200
  rw [(trace_cut (Usart.portStep .usart2) longStream (Usart.begins_powerUp .usart2 _)).1] at inside
  have stored : 200 < longStream.length := by decide +kernel
  exact absurd (inside (List.mem_flatMap.mpr ⟨_, longStream_piece, List.mem_range.mpr stored⟩))
    (by decide)

end Stm32Robot.Serial
