/-
# Net.FeedbackEncoders -- a feedback message on its three transports

`EnFeedBackMsgQueue` fills a local `STM`, puts it on FMQ and sends it on UART6; the TCP client
and the WiFi access point send what they take out of FMQ.  A message with a payload of `len`
bytes is `len + 6` bytes on the wire, but in memory its check byte is at offset 131, behind
the whole payload array.  UART6 and the TCP client send the first `len + 6` bytes of memory,
whose last is the uninitialised byte behind the payload (`taken_fillFeedBackMsg`); the WiFi
path puts the check byte there first (`taken_wifiBuf`), but before it does so it clears 255
bytes from `sendBuf` on, which has 125.  What of the message that overrun clears depends on
the stack frame of `atk_8266_wifiap_test`, a parameter here.

`sentAs_iff` compares the three with the frame the decoder of `MessageHandle` undoes.
-/
import Stm32Robot.Motor.MessageAccept
import Stm32Robot.Motor.QueueRefinement
import Stm32Robot.Net.TcpThread

namespace Stm32Robot.Net

open Stm32Robot.Theory.BoundedFifo
open Stm32Robot.Theory.Bytes
open Stm32Robot.Motor.ConvertData
open Stm32Robot.Motor.Queue
open Stm32Robot.Motor.Message

set_option autoImplicit false

/-! ## The WiFi path -/

def MAX_RX_BUFSIZE : Int := 255

/-- Where the compiler puts `sendMsg` in the stack frame of `atk_8266_wifiap_test`: `gap` is
the distance from the end of the 125 bytes of `sendBuf`, and the two do not overlap. -/
structure StackLayout where
  gap : Int
  apart : 0 ≤ gap ∨ gap ≤ -(125 + 132)

/-- Byte `i` of `sendMsg` is cleared by `memset(sendBuf,0,MAX_RX_BUFSIZE)`. -/
def StackLayout.Clears (layout : StackLayout) (i : Int) : Prop :=
  0 ≤ 125 + layout.gap + i ∧ 125 + layout.gap + i < MAX_RX_BUFSIZE

instance (layout : StackLayout) (i : Int) : Decidable (layout.Clears i) :=
  inferInstanceAs (Decidable (_ ∧ _))

/-- `sendMsg` after the `memset`, which clears 130 bytes behind `sendBuf`. -/
def StackLayout.memset (layout : StackLayout) (sendMsg : STM) : STM :=
  ⟨Vector.ofFn fun i => if layout.Clears i then 0 else sendMsg.bytes[i]⟩

/-- `sendBuf` after the `memset`, the `memcpy` and the check byte. -/
def wifiBuf (sendMsg : STM) : Vector UInt8 125 :=
  let sendBuf := Vector.replicate 125 0
  let sendBuf := memcpy sendBuf 0 (view sendMsg.bytes) (sendMsg.len.toNat + EXTERN_BUFSIZE - 1)
  sendBuf.setIfInBounds (sendMsg.len.toNat + EXTERN_BUFSIZE - 1) sendMsg.bcc

/-- The sending step of `atk_8266_wifiap_test`; the connection state is `'+'` when up. -/
def wifiSend (layout : StackLayout) (constate : UInt8) (sendMsg : STM) (w : World) : World :=
  if w.fmq.queueCount > 10 ∧ constate = 0x2B then
    let (_, sendMsg, fmq) := getAndDelQueueinter sendMsg w.fmq
    let sendMsg := layout.memset sendMsg
    World.record { w with fmq := fmq }
      (.u3WifiSend (taken (view (wifiBuf sendMsg)) (sendMsg.len.toNat + EXTERN_BUFSIZE)))
  else w

section Overrun

variable (layout : StackLayout)

/-- The `memset` overruns `sendBuf` into the message. -/
def StackLayout.Overruns : Prop := 0 ≤ layout.gap ∧ layout.gap < 130

instance : Decidable layout.Overruns := inferInstanceAs (Decidable (_ ∧ _))

theorem view_memset (m : STM) {i : Nat} (inside : i < 132) :
    view (layout.memset m).bytes i = if layout.Clears i then 0 else view m.bytes i := by
  rw [view_of_lt _ inside, view_of_lt _ inside]
  simp only [StackLayout.memset, Vector.getElem_ofFn]
  rfl

/-- A message out of the way of the `memset` is left as it is. -/
theorem memset_of_clear (clear : ¬ layout.Overruns) (m : STM) : layout.memset m = m := by
  have apart := layout.apart
  have kept (i : Fin 132) : ¬ layout.Clears i := by
    unfold StackLayout.Clears MAX_RX_BUFSIZE
    unfold StackLayout.Overruns at clear
    omega
  obtain ⟨bytes⟩ := m
  unfold StackLayout.memset
  refine congrArg STM.mk (Vector.ext fun i hi => ?_)
  rw [Vector.getElem_ofFn, if_neg (kept ⟨i, hi⟩)]
  rfl

/-- Any other loses its head byte. -/
theorem wifiBuf_memset_head (overruns : layout.Overruns) (m : STM) :
    view (wifiBuf (layout.memset m)) 0 = 0 := by
  have first : layout.Clears (0 : Nat) := by
    unfold StackLayout.Overruns at overruns
    unfold StackLayout.Clears MAX_RX_BUFSIZE
    omega
  have behind : ¬ (0 = (layout.memset m).len.toNat + EXTERN_BUFSIZE - 1 ∧
      (layout.memset m).len.toNat + EXTERN_BUFSIZE - 1 < 125) := by
    unfold EXTERN_BUFSIZE
    omega
  have copied : 0 ≤ 0 ∧ 0 < 0 + ((layout.memset m).len.toNat + EXTERN_BUFSIZE - 1) := by
    unfold EXTERN_BUFSIZE
    omega
  rw [wifiBuf, view_setIfInBounds, if_neg behind, view_memcpy _ _ _ _ (by omega), if_pos copied,
    view_memset _ _ (by omega), if_pos first]

end Overrun

/-! ## The message in memory -/

section Memory

variable (feedBackMsg : STM) (Cmd state Seq : UInt8) {payload : List UInt8}

/-- The length byte of a payload. -/
def lenByte (payload : List UInt8) : UInt8 := UInt8.ofNat payload.length

/-- The message `EnFeedBackMsgQueue` builds for a payload, in a local that held
`feedBackMsg`. -/
def feedbackMessage (payload : List UInt8) : STM :=
  fillFeedBackMsg feedBackMsg Cmd state Seq (lenByte payload) (ofList payload)

/-- The frame the peers expect. -/
def feedbackFrame (payload : List UInt8) : List UInt8 :=
  [0xCC, Seq, Cmd, state, lenByte payload] ++ payload ++ [xorOf (ofList payload) payload.length]

theorem toNat_lenByte (short : payload.length ≤ 119) :
    (lenByte payload).toNat = payload.length := by
  rw [lenByte, UInt8.toNat_ofNat']
  omega

theorem len_feedbackMessage : (feedbackMessage feedBackMsg Cmd state Seq payload).len =
    lenByte payload := by
  show view (feedbackMessage feedBackMsg Cmd state Seq payload).bytes 4 = _
  rw [feedbackMessage, view_fillFeedBackMsg _ _ _ _ _ _ (by omega), if_neg (by omega),
    if_neg (by omega), if_pos rfl]

theorem bcc_feedbackMessage (short : payload.length ≤ 119) :
    (feedbackMessage feedBackMsg Cmd state Seq payload).bcc =
      xorOf (ofList payload) payload.length := by
  have stored := view_fillFeedBackMsg feedBackMsg Cmd state Seq (lenByte payload) (ofList payload)
    (i := 131) (by omega)
  rw [if_pos rfl, getXorCheck, toNat_lenByte short] at stored
  exact stored

/-- Header and payload lie in memory as they go on the wire. -/
theorem taken_feedbackMessage (short : payload.length ≤ 119) :
    taken (view (feedbackMessage feedBackMsg Cmd state Seq payload).bytes) (payload.length + 5) =
      [0xCC, Seq, Cmd, state, lenByte payload] ++ payload := by
  have byte (i : Nat) (inside : i < 132) := view_fillFeedBackMsg feedBackMsg Cmd state Seq
    (lenByte payload) (ofList payload) inside
  have length := toNat_lenByte short
  have header : taken (view (feedbackMessage feedBackMsg Cmd state Seq payload).bytes) 5 =
      [0xCC, Seq, Cmd, state, lenByte payload] := by
    simp only [taken, feedbackMessage, List.range, List.range.loop, List.map_cons, List.map_nil,
      byte 0 (by omega), byte 1 (by omega), byte 2 (by omega), byte 3 (by omega),
      byte 4 (by omega)]
    simp
  have body : taken
      (fun i => view (feedbackMessage feedBackMsg Cmd state Seq payload).bytes (5 + i))
      payload.length = payload := by
    rw [taken_eq_iff]
    intro i hi
    rw [feedbackMessage, byte (5 + i) (by omega), if_neg (by omega), if_pos (by omega),
      Nat.add_sub_cancel_left, ofList_of_lt hi]
  rw [Nat.add_comm, taken_add, header, body]

/-- The byte behind the payload is the one the local held before. -/
theorem taken_fillFeedBackMsg (short : payload.length ≤ 119) :
    taken (view (feedbackMessage feedBackMsg Cmd state Seq payload).bytes) (payload.length + 6) =
      [0xCC, Seq, Cmd, state, lenByte payload] ++ payload ++ [feedBackMsg.data payload.length] := by
  have length := toNat_lenByte short
  have last : view (feedbackMessage feedBackMsg Cmd state Seq payload).bytes (payload.length + 5) =
      feedBackMsg.data payload.length := by
    rw [feedbackMessage, view_fillFeedBackMsg _ _ _ _ _ _ (by omega), if_neg (by omega),
      if_neg (by omega), if_neg (by omega), if_neg (by omega), if_neg (by omega),
      if_neg (by omega), if_neg (by omega), STM.data, Nat.add_comm]
  rw [taken_succ, taken_feedbackMessage feedBackMsg Cmd state Seq short, last]

end Memory

/-! ## The three transports -/

section Transports

variable (layout : StackLayout) (feedBackMsg : STM) (Cmd state Seq : UInt8)
  (payload : List UInt8)

/-- On each transport the message goes out as `frame`: on UART6 when it is built, over TCP and
WiFi whenever it is the oldest message of FMQ and the thread sends. -/
structure SentAs (frame : List UInt8) : Prop where
  uart6 : ∀ w, (enFeedBackMsgQueue feedBackMsg Cmd state Seq (lenByte payload) (ofList payload)
      w).2.log = w.log ++
    [.enFMQ (feedbackMessage feedBackMsg Cmd state Seq payload), .u6Send frame]
  tcp : ∀ w sendMsg rest, w.fmq.WellFormed →
    w.fmq.contents = feedbackMessage feedBackMsg Cmd state Seq payload :: rest →
    (tcpClientSend sendMsg w).log = w.log ++ [.netconnWrite frame]
  wifi : ∀ w sendMsg rest, w.fmq.WellFormed →
    w.fmq.contents = feedbackMessage feedBackMsg Cmd state Seq payload :: rest →
    10 ≤ rest.length → (wifiSend layout 0x2B sendMsg w).log = w.log ++ [.u3WifiSend frame]

/-- `MessageHandle` reads from `frame` the fields of the message, with a matching check. -/
structure Decodes (rxMsg : STM) (frame : List UInt8) : Prop where
  length_eq : (ofList frame 4).toNat + 6 = frame.length
  head_eq : (loadRxMsg rxMsg (ofList frame) frame.length).head = 0xCC
  seq_eq : (loadRxMsg rxMsg (ofList frame) frame.length).seq = Seq
  cmd_eq : (loadRxMsg rxMsg (ofList frame) frame.length).cmd = Cmd
  state_eq : (loadRxMsg rxMsg (ofList frame) frame.length).state = state
  len_eq : (loadRxMsg rxMsg (ofList frame) frame.length).len = lenByte payload
  data_eq : ∀ i (h : i < payload.length),
    (loadRxMsg rxMsg (ofList frame) frame.length).data i = payload[i]
  bcc_eq : (loadRxMsg rxMsg (ofList frame) frame.length).bcc =
    (feedbackMessage feedBackMsg Cmd state Seq payload).bcc
  parity : getXorCheck (loadRxMsg rxMsg (ofList frame) frame.length).data
      (loadRxMsg rxMsg (ofList frame) frame.length).len =
    (loadRxMsg rxMsg (ofList frame) frame.length).bcc

end Transports

section Sending

variable (feedBackMsg : STM) (Cmd state Seq : UInt8) {payload : List UInt8}

/-- The WiFi buffer holds the frame. -/
theorem taken_wifiBuf (short : payload.length ≤ 119) :
    taken (view (wifiBuf (feedbackMessage feedBackMsg Cmd state Seq payload)))
      (payload.length + 6) = feedbackFrame Cmd state Seq payload := by
  have length := toNat_lenByte short
  have size : (lenByte payload).toNat + EXTERN_BUFSIZE - 1 = payload.length + 5 := by
    rw [length, EXTERN_BUFSIZE]
    omega
  have inside : payload.length + 5 < 125 := by omega
  have copied : taken (view (wifiBuf (feedbackMessage feedBackMsg Cmd state Seq payload)))
      (payload.length + 5) = [0xCC, Seq, Cmd, state, lenByte payload] ++ payload := by
    rw [← taken_feedbackMessage feedBackMsg Cmd state Seq short]
    apply taken_congr
    intro i hi
    rw [wifiBuf, len_feedbackMessage, size, view_setIfInBounds,
      if_neg (by omega), view_memcpy _ _ _ _ (by omega), if_pos (by omega), Nat.sub_zero]
  have check : view (wifiBuf (feedbackMessage feedBackMsg Cmd state Seq payload))
      (payload.length + 5) = xorOf (ofList payload) payload.length := by
    rw [wifiBuf, len_feedbackMessage, size, view_setIfInBounds, if_pos ⟨rfl, inside⟩,
      bcc_feedbackMessage _ _ _ _ short]
  rw [taken_succ, copied, check]
  rfl

/-- What the TCP client and the WiFi step send of the oldest message. -/
theorem tcpClientSend_of_cons {w : World} (wf : w.fmq.WellFormed) {m : STM} {rest : List STM}
    (oldest : w.fmq.contents = m :: rest) (sendMsg : STM) :
    (tcpClientSend sendMsg w).log =
      w.log ++ [.netconnWrite (taken (view m.bytes) (m.len.toNat + 6))] := by
  obtain ⟨-, taken, -⟩ := InterQueue.getAndDelQueueinter_of_cons wf sendMsg oldest
  have some : w.fmq.queueCount > 0 := by
    have length := congrArg List.length oldest
    rw [InterQueue.length_contents, List.length_cons] at length
    omega
  rw [tcpClientSend, if_pos some, ← taken]
  rfl

theorem wifiSend_of_cons (layout : StackLayout) {w : World} (wf : w.fmq.WellFormed) {m : STM}
    {rest : List STM} (oldest : w.fmq.contents = m :: rest) (more : 10 ≤ rest.length)
    (sendMsg : STM) :
    (wifiSend layout 0x2B sendMsg w).log =
      w.log ++ [.u3WifiSend (taken (view (wifiBuf (layout.memset m)))
        ((layout.memset m).len.toNat + EXTERN_BUFSIZE))] := by
  obtain ⟨-, taken, -⟩ := InterQueue.getAndDelQueueinter_of_cons wf sendMsg oldest
  have many : w.fmq.queueCount > 10 := by
    have length := congrArg List.length oldest
    rw [InterQueue.length_contents, List.length_cons] at length
    omega
  rw [wifiSend, if_pos ⟨many, rfl⟩, ← taken]
  rfl

/-- The frame is decoded to the message, whatever the receiver's local held. -/
theorem decodes_feedbackFrame (short : payload.length ≤ 119) (rxMsg : STM) :
    Decodes feedBackMsg Cmd state Seq payload rxMsg (feedbackFrame Cmd state Seq payload) := by
  have total : (feedbackFrame Cmd state Seq payload).length = payload.length + 6 := by
    simp [feedbackFrame]
  have length := toNat_lenByte short
  have long : 6 ≤ (feedbackFrame Cmd state Seq payload).length := by omega
  have body (i : Nat) (h : i < payload.length) :
      ofList (feedbackFrame Cmd state Seq payload) (5 + i) = payload[i] := by
    rw [ofList_of_lt (by omega)]
    simp [feedbackFrame, h, Nat.add_comm 5 i]
  have last : ofList (feedbackFrame Cmd state Seq payload)
      ((feedbackFrame Cmd state Seq payload).length - 1) =
      xorOf (ofList payload) payload.length := by
    rw [ofList_of_lt (by omega), ← List.getLast_eq_getElem (by simp [feedbackFrame])]
    simp [feedbackFrame]
  have loaded (i : Nat) (h : i < payload.length) :
      (loadRxMsg rxMsg (ofList (feedbackFrame Cmd state Seq payload))
        (feedbackFrame Cmd state Seq payload).length).data i = payload[i] := by
    rw [data_loadRxMsg rxMsg (by omega) (by omega), body i h]
  constructor
  · show (lenByte payload).toNat + 6 = _
    omega
  · exact head_loadRxMsg rxMsg long
  · exact seq_loadRxMsg rxMsg long
  · exact cmd_loadRxMsg rxMsg long
  · exact view_loadRxMsg rxMsg (i := 3) (by omega) (by omega)
  · exact len_loadRxMsg rxMsg long
  · exact loaded
  · rw [bcc_loadRxMsg, last, bcc_feedbackMessage _ _ _ _ short]
  · rw [bcc_loadRxMsg, last, len_loadRxMsg rxMsg long]
    show xorOf _ (lenByte payload).toNat = _
    rw [length]
    apply xorOf_congr
    intro i hi
    rw [loaded i hi, ofList_of_lt hi]

/-- `EnFeedBackMsgQueue` records the message, then the bytes it sends of the local. -/
theorem enFeedBackMsgQueue_log (short : payload.length ≤ 119) (w : World) :
    (enFeedBackMsgQueue feedBackMsg Cmd state Seq (lenByte payload) (ofList payload) w).2.log =
      w.log ++ [.enFMQ (feedbackMessage feedBackMsg Cmd state Seq payload),
        .u6Send ([0xCC, Seq, Cmd, state, lenByte payload] ++ payload ++
          [feedBackMsg.data payload.length])] := by
  rw [← taken_fillFeedBackMsg feedBackMsg Cmd state Seq short, ← toNat_lenByte short]
  exact List.append_assoc _ _ _

/-- A frame goes out on UART6 only if the byte behind the payload is the parity. -/
theorem SentAs.data_eq {layout : StackLayout} (short : payload.length ≤ 119)
    (sentAs : SentAs layout feedBackMsg Cmd state Seq payload
      (feedbackFrame Cmd state Seq payload)) :
    feedBackMsg.data payload.length = xorOf (ofList payload) payload.length := by
  have sent := sentAs.uart6 .powerUp
  rw [enFeedBackMsgQueue_log feedBackMsg Cmd state Seq short] at sent
  simpa [feedbackFrame] using sent

/-- Eleven copies of a message can be waiting in FMQ. -/
theorem exists_waiting (m : STM) : ∃ w : World, w.fmq.WellFormed ∧
    w.fmq.contents = m :: List.replicate 10 m := by
  let ring : InterQueue (Int → STM) := (initQueueinter ⟨0, 0, 0, fun _ => STM.zero, 40⟩).2
  have wf : ring.WellFormed := InterQueue.wellFormed_initQueueinter (by decide)
  have nothing : ring.contents = [] := InterQueue.contents_initQueueinter
  refine ⟨{ World.powerUp with fmq := enAll ring (List.replicate 11 m) }, wf.enAll _, ?_⟩
  show (enAll ring (List.replicate 11 m)).contents = m :: List.replicate 10 m
  rw [InterQueue.contents_enAll wf, nothing, pushAll_of_room]
  · rfl
  · rw [List.length_replicate]
    decide

/-- A frame goes out on WiFi only if the `memset` leaves the message alone. -/
theorem SentAs.not_overruns {layout : StackLayout}
    (sentAs : SentAs layout feedBackMsg Cmd state Seq payload
      (feedbackFrame Cmd state Seq payload)) : ¬ layout.Overruns := by
  intro overruns
  obtain ⟨w, wf, waiting⟩ := exists_waiting (feedbackMessage feedBackMsg Cmd state Seq payload)
  have sent := sentAs.wifi w STM.zero _ wf waiting (le_of_eq List.length_replicate.symm)
  rw [wifiSend_of_cons layout wf waiting (le_of_eq List.length_replicate.symm)] at sent
  have bytes := Event.u3WifiSend.inj (List.singleton_inj.mp (List.append_cancel_left sent))
  -- the first byte sent is 0, the first byte of the frame 0xCC
  have heads := congrArg List.head? bytes
  have first := wifiBuf_memset_head layout overruns
    (feedbackMessage feedBackMsg Cmd state Seq payload)
  rw [EXTERN_BUFSIZE, Nat.add_comm, taken_add] at heads
  simp [taken, feedbackFrame, first, List.range, List.range.loop] at heads

/-- Under both conditions all three transports send the frame. -/
theorem sentAs_of_data_eq {layout : StackLayout} (short : payload.length ≤ 119)
    (clear : ¬ layout.Overruns)
    (lucky : feedBackMsg.data payload.length = xorOf (ofList payload) payload.length) :
    SentAs layout feedBackMsg Cmd state Seq payload (feedbackFrame Cmd state Seq payload) := by
  have length := toNat_lenByte short
  have memory : taken (view (feedbackMessage feedBackMsg Cmd state Seq payload).bytes)
      (payload.length + 6) = feedbackFrame Cmd state Seq payload := by
    rw [taken_fillFeedBackMsg feedBackMsg Cmd state Seq short, lucky]
    rfl
  constructor
  · intro w
    rw [enFeedBackMsgQueue_log feedBackMsg Cmd state Seq short, lucky]
    rfl
  · intro w sendMsg rest wf oldest
    rw [tcpClientSend_of_cons wf oldest, len_feedbackMessage, length, memory]
  · intro w sendMsg rest wf oldest more
    rw [wifiSend_of_cons layout wf oldest more, memset_of_clear layout clear,
      len_feedbackMessage, length]
    exact congrArg (fun b => w.log ++ [Event.u3WifiSend b])
      (taken_wifiBuf feedBackMsg Cmd state Seq short)

end Sending

/-- For payloads of at most 119 bytes, the three transports send the frame that decodes to the
message exactly when the byte the local held behind the payload happens to be the parity and
the compiler keeps `sendMsg` out of the way of the `memset`. -/
theorem sentAs_iff (layout : StackLayout) (feedBackMsg : STM) (Cmd state Seq : UInt8)
    (payload : List UInt8) (short : payload.length ≤ 119) :
    (SentAs layout feedBackMsg Cmd state Seq payload (feedbackFrame Cmd state Seq payload) ∧
        ∀ rxMsg, Decodes feedBackMsg Cmd state Seq payload rxMsg
          (feedbackFrame Cmd state Seq payload)) ↔
      feedBackMsg.data payload.length = xorOf (ofList payload) payload.length ∧
        ¬ layout.Overruns := by
  constructor
  · rintro ⟨sentAs, -⟩
    exact ⟨SentAs.data_eq feedBackMsg Cmd state Seq short sentAs,
      SentAs.not_overruns feedBackMsg Cmd state Seq sentAs⟩
  · rintro ⟨lucky, clear⟩
    exact ⟨sentAs_of_data_eq feedBackMsg Cmd state Seq short clear lucky,
      decodes_feedbackFrame feedBackMsg Cmd state Seq short⟩

/-- `sendMsg` below `sendBuf`, with nothing between them. -/
def belowSendBuf : StackLayout := ⟨-257, Or.inr (le_refl _)⟩

/-- A local of zeros and a payload whose bytes cancel out. -/
theorem sentAs_iff_zero :
    SentAs belowSendBuf STM.zero 0x81 0 7 [5, 5] [0xCC, 7, 0x81, 0, 2, 5, 5, 0] ∧
      ∀ rxMsg, Decodes STM.zero 0x81 0 7 [5, 5] rxMsg [0xCC, 7, 0x81, 0, 2, 5, 5, 0] :=
  (sentAs_iff belowSendBuf STM.zero 0x81 0 7 [5, 5] (by decide)).mpr (by decide)

/-- The same local and the payload 1: UART6 gets 0 for the parity 1. -/
theorem staleCheck_sent :
    ¬ ∀ (feedBackMsg : STM) (Cmd state Seq : UInt8) (payload : List UInt8),
      payload.length ≤ 119 →
      SentAs belowSendBuf feedBackMsg Cmd state Seq payload
          (feedbackFrame Cmd state Seq payload) ∧
        ∀ rxMsg, Decodes feedBackMsg Cmd state Seq payload rxMsg
          (feedbackFrame Cmd state Seq payload) := by
  intro agree
  have lucky := SentAs.data_eq _ _ _ _ (by decide) (agree STM.zero 0x81 0 7 [1] (by decide)).1
  exact absurd lucky (by decide)

end Stm32Robot.Net
