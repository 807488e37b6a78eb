/-
# Net.TcpThread -- deliveries of the TCP threads

`tcp_server_thread` and `tcp_client_thread` copy the pbuf chain of one `netconn_recv` into a
200-byte buffer and hand that buffer to `MessageHandle`; the client also writes one message of
FMQ before it receives.  Neither keeps anything of a delivery for the next one: the threads
take a delivery for a message (`tcpRun_calls`).  A stream of frames is therefore processed
frame by frame exactly when each delivery is one frame (`tcp_processes_iff`).
-/
import Mathlib.Data.List.Flatten
import Stm32Robot.Motor.MessageAccept

namespace Stm32Robot.Net

open Stm32Robot.Theory.Bytes
open Stm32Robot.Motor.Queue
open Stm32Robot.Motor.Message

set_option autoImplicit false

/-! ## Receiving -/

/-- `TCP_SERVER_RX_BUFSIZE` and `TCP_CLIENT_RX_BUFSIZE`. -/
def RX_BUFSIZE : Nat := 200

/-- A pbuf: `len` is the length of `payload`, a `u16_t`. -/
structure Pbuf where
  payload : List UInt8
  fits : payload.length < 2 ^ 16
  deriving DecidableEq

/-- `RX_BUFSIZE-data_len`, in 32-bit arithmetic. -/
def remaining (data_len : Nat) : Nat := (2 ^ 32 + RX_BUFSIZE - data_len) % 2 ^ 32

/-- The loop over the pbuf chain. -/
def copyLoop (recvbuf : Vector UInt8 200) (data_len : Nat) : List Pbuf → Vector UInt8 200 × Nat
  | [] => (recvbuf, data_len)
  | q :: qs =>
      let recvbuf :=
        if q.payload.length > remaining data_len then
          memcpy recvbuf data_len (ofList q.payload) (remaining data_len)
        else memcpy recvbuf data_len (ofList q.payload) q.payload.length
      let data_len := (data_len + q.payload.length) % 2 ^ 32
      if data_len > RX_BUFSIZE then (recvbuf, data_len) else copyLoop recvbuf data_len qs

/-- A successful `netconn_recv`: the chain, the uninitialised locals of the call of
`MessageHandle`, and what the rest of the system did meanwhile. -/
structure Delivery where
  chain : List Pbuf
  locals : Locals
  elsewhere : World → World

/-- The bytes of a delivery. -/
def Delivery.piece (d : Delivery) : List UInt8 := d.chain.flatMap Pbuf.payload

/-- A call of `MessageHandle` and its return value. -/
structure Handled where
  call : Call
  ret : Int

section Threads

variable (k : Kinematics)

/-- A delivery is copied into the cleared buffer and handed over. -/
def deliver (d : Delivery) (w : World) : Option (World × List Handled) :=
  let copied := copyLoop (Vector.replicate 200 0) 0 d.chain
  let call : Call := ⟨view copied.1, copied.2⟩
  (messageHandle k d.locals call.msg call.len w).map fun (ret, w) => (w, [⟨call, ret⟩])

/-- The client's first step in a turn: one message of FMQ is written as it lies in the
local. -/
def tcpClientSend (sendMsg : STM) (w : World) : World :=
  if w.fmq.queueCount > 0 then
    let (_, sendMsg, fmq) := getAndDelQueueinter sendMsg w.fmq
    World.record { w with fmq := fmq }
      (.netconnWrite (taken (view sendMsg.bytes) (sendMsg.len.toNat + 6)))
  else w

/-- One turn of a thread's loop: a first step, and a `netconn_recv` that delivers or not. -/
def tcpTurn (first : World → World) (w : World) : Option Delivery → Option (World × List Handled)
  | none => some (first w, [])
  | some d => deliver k d (d.elsewhere (first w))

def tcpServerTurn : World → Option Delivery → Option (World × List Handled) := tcpTurn k id

def tcpClientTurn (sendMsg : STM) : World → Option Delivery → Option (World × List Handled) :=
  tcpTurn k (tcpClientSend sendMsg)

end Threads

/-- Turn after turn, with the calls made; `none` once a call has no defined result. -/
def tcpRun (turn : World → Option Delivery → Option (World × List Handled)) (w : World) :
    List (Option Delivery) → Option (World × List Handled)
  | [] => some (w, [])
  | p :: ps =>
      match turn w p with
      | none => none
      | some (w', calls) =>
          match tcpRun turn w' ps with
          | none => none
          | some (w'', later) => some (w'', calls ++ later)

/-- The pieces of the stream, in order. -/
def pieces (polls : List (Option Delivery)) : List (List UInt8) :=
  polls.filterMap fun p => p.map Delivery.piece

/-! ## The copy loop -/

section Copy

theorem remaining_of_le {n : Nat} (le : n ≤ 200) : remaining n = 200 - n := by
  unfold remaining RX_BUFSIZE
  omega

/-- A chain that fits is copied whole, behind what the buffer already holds. -/
theorem copyLoop_of_fits (chain : List Pbuf) (recvbuf : Vector UInt8 200) {n : Nat}
    (fits : n + (chain.flatMap Pbuf.payload).length ≤ 200) :
    (copyLoop recvbuf n chain).2 = n + (chain.flatMap Pbuf.payload).length ∧
      taken (view (copyLoop recvbuf n chain).1) (n + (chain.flatMap Pbuf.payload).length) =
        taken (view recvbuf) n ++ chain.flatMap Pbuf.payload := by
  induction chain generalizing recvbuf n with
  | nil =>
      refine ⟨rfl, ?_⟩
      show taken (view recvbuf) (n + 0) = taken (view recvbuf) n ++ []
      rw [List.append_nil, Nat.add_zero]
  | cons q qs ih =>
      rw [List.flatMap_cons, List.length_append] at fits
      have whole : ¬ q.payload.length > remaining n := by
        rw [remaining_of_le (by omega)]
        omega
      have sum : (n + q.payload.length) % 2 ^ 32 = n + q.payload.length := by omega
      have go : ¬ n + q.payload.length > RX_BUFSIZE := by
        unfold RX_BUFSIZE
        omega
      have next := ih (memcpy recvbuf n (ofList q.payload) q.payload.length)
        (n := n + q.payload.length) (by omega)
      rw [taken_memcpy recvbuf (by omega), List.append_assoc, Nat.add_assoc] at next
      rw [copyLoop]
      simp only [if_neg whole, sum, if_neg go, List.flatMap_cons, List.length_append]
      exact next

end Copy

/-! ## Turns and runs -/

section Runs

variable (k : Kinematics) (first : World → World)

/-- What a delivery hands to `MessageHandle`: its bytes, in a buffer of their own. -/
theorem deliver_eq (d : Delivery) (short : d.piece.length ≤ 200) (w : World) :
    ∃ c : Call, c.bytes = d.piece ∧ c.len = d.piece.length ∧
      deliver k d w = (messageHandle k d.locals c.msg c.len w).map fun (ret, w) =>
        (w, [⟨c, ret⟩]) := by
  obtain ⟨length, bytes⟩ := copyLoop_of_fits d.chain (Vector.replicate 200 0) (n := 0)
    (by rwa [Nat.zero_add])
  rw [Nat.zero_add] at length bytes
  refine ⟨⟨view (copyLoop (Vector.replicate 200 0) 0 d.chain).1,
    (copyLoop (Vector.replicate 200 0) 0 d.chain).2⟩, ?_, length, rfl⟩
  show taken (view (copyLoop (Vector.replicate 200 0) 0 d.chain).1)
    (copyLoop (Vector.replicate 200 0) 0 d.chain).2 = d.piece
  rw [length]
  exact bytes

/-- A thread calls `MessageHandle` once for each delivery, with its bytes, and the calls that
answer 0 are those whose bytes are a frame. -/
theorem tcpRun_calls (polls : List (Option Delivery)) (w : World)
    (some : ∀ p ∈ pieces polls, p ≠ []) (short : ∀ p ∈ pieces polls, p.length ≤ 133) :
    ∃ w' handled, tcpRun (tcpTurn k first) w polls = Option.some (w', handled) ∧
      handled.map (fun h => h.call.bytes) = pieces polls ∧
      ∀ h ∈ handled, (h.ret = 0 ↔ Framed h.call.msg h.call.len) := by
  induction polls generalizing w with
  | nil => exact ⟨w, [], rfl, rfl, fun h mem => absurd mem List.not_mem_nil⟩
  | cons p polls ih =>
      cases p with
      | none =>
          obtain ⟨w', handled, ran, bytes, answers⟩ := ih (first w) some short
          refine ⟨w', handled, ?_, bytes, answers⟩
          simp only [tcpRun, tcpTurn, ran, List.nil_append]
      | some d =>
          have one := some d.piece List.mem_cons_self
          have fits := short d.piece List.mem_cons_self
          have positive : 1 ≤ d.piece.length := List.length_pos_iff.mpr one
          obtain ⟨c, held, length, delivered⟩ :=
            deliver_eq k d (by omega) (d.elsewhere (first w))
          have total : ∃ ret w₁, messageHandle k d.locals c.msg c.len (d.elsewhere (first w)) =
              Option.some (ret, w₁) ∧ (ret = 0 ↔ Framed c.msg c.len) :=
            messageHandle_total k d.locals _ (by omega) (by omega)
          obtain ⟨ret, w₁, handledOne, answer⟩ := total
          obtain ⟨w', handled, ran, bytes, answers⟩ := ih w₁
            (fun p mem => some p (List.mem_cons_of_mem _ mem))
            fun p mem => short p (List.mem_cons_of_mem _ mem)
          rw [handledOne] at delivered
          refine ⟨w', ⟨c, ret⟩ :: handled, ?_, ?_, ?_⟩
          · simp only [tcpRun, tcpTurn, delivered, Option.map_some, ran, List.singleton_append]
          · rw [List.map_cons, bytes, held]
            rfl
          · intro h mem
            rcases List.mem_cons.mp mem with rfl | later
            · exact answer
            · exact answers h later

/-- A delivery longer than any message has no defined result. -/
theorem tcpRun_of_long (polls : List (Option Delivery)) (w : World)
    (some : ∀ p ∈ pieces polls, p ≠ []) (short : ∀ p ∈ pieces polls, p.length ≤ 200)
    (long : ∃ p ∈ pieces polls, 133 < p.length) :
    tcpRun (tcpTurn k first) w polls = none := by
  induction polls generalizing w with
  | nil =>
      obtain ⟨p, mem, -⟩ := long
      cases mem
  | cons p polls ih =>
      cases p with
      | none =>
          simp only [tcpRun, tcpTurn, ih (first w) some short long]
      | some d =>
          obtain ⟨c, held, length, delivered⟩ :=
            deliver_eq k d (short d.piece List.mem_cons_self) (d.elsewhere (first w))
          have turn : tcpTurn k first w (Option.some d) =
              (messageHandle k d.locals c.msg c.len (d.elsewhere (first w))).map fun (ret, w) =>
                (w, [⟨c, ret⟩]) := delivered
          rw [tcpRun, turn]
          by_cases here : 133 < d.piece.length
          · rw [messageHandle_of_long k d.locals _ (by omega), Option.map_none]
          · have later : ∃ p ∈ pieces polls, 133 < p.length := by
              obtain ⟨p, mem, exceeds⟩ := long
              rcases List.mem_cons.mp mem with rfl | rest
              · exact absurd exceeds here
              · exact ⟨p, rest, exceeds⟩
            cases messageHandle k d.locals c.msg c.len (d.elsewhere (first w)) with
            | none => rfl
            | some result =>
                simp only [Option.map_some, ih result.2
                  (fun p mem => some p (List.mem_cons_of_mem _ mem))
                  (fun p mem => short p (List.mem_cons_of_mem _ mem)) later]

/-! ## Streams of frames -/

/-- A sublist of non-empty pieces that is as long as the whole is the whole. -/
theorem eq_of_sublist_of_flatten {xs ys : List (List UInt8)} (sub : xs.Sublist ys)
    (some : ∀ y ∈ ys, y ≠ []) (long : ys.flatten.length ≤ xs.flatten.length) : xs = ys := by
  induction sub with
  | slnil => rfl
  | cons y sub ih =>
      have shorter := sub.flatten.length_le
      have positive : 0 < y.length := List.length_pos_iff.mpr (some y List.mem_cons_self)
      rw [List.flatten_cons, List.length_append] at long
      omega
  | cons_cons y sub ih =>
      rw [List.flatten_cons, List.flatten_cons, List.length_append, List.length_append] at long
      rw [ih (fun z mem => some z (List.mem_cons_of_mem y mem)) (by omega)]

/-- The thread makes `MessageHandle` process the frames, each once and in order, and nothing
else: every call has a result, and the accepted calls hand over these frames. -/
def ProcessesExactly (turn : World → Option Delivery → Option (World × List Handled)) (w : World)
    (polls : List (Option Delivery)) (frames : List Frame) : Prop :=
  ∃ w' handled, tcpRun turn w polls = some (w', handled) ∧
    List.Forall₂ Call.Delivers ((handled.filter fun h => h.ret = 0).map Handled.call) frames

variable {k first} {w : World} {polls : List (Option Delivery)} {frames : List Frame}

theorem pieces_of_processes (some : ∀ p ∈ pieces polls, p ≠ [])
    (short : ∀ p ∈ pieces polls, p.length ≤ 200)
    (stream : (pieces polls).flatten = frames.flatMap Frame.bytes)
    (processes : ProcessesExactly (tcpTurn k first) w polls frames) :
    pieces polls = frames.map Frame.bytes := by
  obtain ⟨w', handled, ran, accepted⟩ := processes
  have fits : ∀ p ∈ pieces polls, p.length ≤ 133 := by
    by_contra long
    simp only [not_forall, not_le] at long
    obtain ⟨p, mem, exceeds⟩ := long
    rw [tcpRun_of_long k first polls w some short ⟨p, mem, exceeds⟩] at ran
    cases ran
  obtain ⟨w'', calls, ran', bytes, -⟩ := tcpRun_calls k first polls w some fits
  rw [ran] at ran'
  obtain ⟨-, rfl⟩ := Prod.mk.inj (Option.some.inj ran')
  -- the accepted calls are a part of all the calls, and no byte of the stream is missing
  have part : (frames.map Frame.bytes).Sublist (pieces polls) := by
    rw [← delivers_iff.mp accepted, ← bytes, List.map_map]
    exact List.filter_sublist.map _
  refine (eq_of_sublist_of_flatten part some ?_).symm
  rw [stream, List.flatMap_def]

theorem processes_of_pieces (some : ∀ p ∈ pieces polls, p ≠ [])
    (cut : pieces polls = frames.map Frame.bytes) :
    ProcessesExactly (tcpTurn k first) w polls frames := by
  have fits : ∀ p ∈ pieces polls, p.length ≤ 133 := by
    intro p mem
    rw [cut] at mem
    obtain ⟨f, -, rfl⟩ := List.mem_map.mp mem
    have := f.fits
    rw [Frame.length_bytes]
    omega
  obtain ⟨w', handled, ran, bytes, answers⟩ :=
    tcpRun_calls k first polls w some fits
  have accepted : ∀ h ∈ handled, decide (h.ret = 0) = true := by
    intro h mem
    have held : h.call.bytes ∈ frames.map Frame.bytes := by
      rw [← cut, ← bytes]
      exact List.mem_map_of_mem mem
    obtain ⟨f, -, same⟩ := List.mem_map.mp held
    have framed : Framed h.call.msg h.call.len := (Call.bytes_eq_iff.mp same.symm).framed
    exact decide_eq_true ((answers h mem).mpr framed)
  refine ⟨w', handled, ran, ?_⟩
  rw [List.filter_eq_self.mpr accepted, delivers_iff, List.map_map, ← cut, ← bytes]
  rfl

end Runs

/-- For a stream of frames cut into non-empty pieces of at most 200 bytes, one to a delivery,
each thread processes every frame once, in order, and nothing else exactly when each piece is
one frame. -/
theorem tcp_processes_iff (k : Kinematics) (sendMsg : STM) (w : World)
    (polls : List (Option Delivery)) (frames : List Frame)
    (some : ∀ p ∈ pieces polls, p ≠ []) (short : ∀ p ∈ pieces polls, p.length ≤ 200)
    (stream : (pieces polls).flatten = frames.flatMap Frame.bytes) :
    (ProcessesExactly (tcpServerTurn k) w polls frames ↔
        pieces polls = frames.map Frame.bytes) ∧
      (ProcessesExactly (tcpClientTurn k sendMsg) w polls frames ↔
        pieces polls = frames.map Frame.bytes) :=
  ⟨⟨pieces_of_processes some short stream, processes_of_pieces some⟩,
    ⟨pieces_of_processes some short stream, processes_of_pieces some⟩⟩

/-- A delivery of one pbuf, with nothing else going on. -/
def onePbuf (payload : List UInt8) (fits : payload.length < 2 ^ 16) : Delivery :=
  ⟨[⟨payload, fits⟩], .zero, id⟩

/-- A request that arrives in one piece is processed by the server. -/
theorem tcp_processes_iff_whole :
    ProcessesExactly (tcpServerTurn .still) .powerUp
      [none, some (onePbuf Frame.feedbackRequest.bytes (by decide))] [Frame.feedbackRequest] :=
  (tcp_processes_iff .still .zero .powerUp
    [none, some (onePbuf Frame.feedbackRequest.bytes (by decide))] [Frame.feedbackRequest]
    (by decide) (by decide) (by decide)).1.mpr (by decide)

/-- The same request in two pieces of three bytes is not. -/
theorem tcp_split_request_lost :
    ¬ ∀ (k : Kinematics) (w : World) (polls : List (Option Delivery)) (frames : List Frame),
      (∀ f ∈ frames, f.Sealed) → (∀ p ∈ pieces polls, p ≠ []) →
      (∀ p ∈ pieces polls, p.length ≤ 200) →
      (pieces polls).flatten = frames.flatMap Frame.bytes →
      ProcessesExactly (tcpServerTurn k) w polls frames := by
  intro stated
  have split := stated .still .powerUp
    [some (onePbuf [0xAA, 0, 0x81] (by decide)), some (onePbuf [0, 0, 0] (by decide))]
    [Frame.feedbackRequest] (by simp [Frame.Sealed, Frame.feedbackRequest, xorOf])
    (by decide) (by decide) (by decide)
  have cut := pieces_of_processes (by decide) (by decide) (by decide) split
  exact absurd cut (by decide)

end Stm32Robot.Net
