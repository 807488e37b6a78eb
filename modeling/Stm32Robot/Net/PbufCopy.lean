/-
# Net.PbufCopy -- what a TCP thread keeps from one delivery to the next

The receive buffer is static and `data_len` a local of the thread: both outlive a delivery.
`receive` is the part of the loop body that works on them, the same in both threads, and
`copyLoopTraced` is the copy loop with the guard and the `memcpy` of each pbuf.

While the loop goes on, `data_len` is at most the size of the buffer: it may be exactly full,
with nothing left to copy.  The buffer then holds the payloads so far, and zeros behind them
(`view_copyLoop`).  `copy_bounded` says so of every delivery in a sequence of them.
-/
import Stm32Robot.Net.CopyBound

namespace Stm32Robot.Net

open Stm32Robot.Theory.Bytes
open Stm32Robot.Theory.Transducer
open Stm32Robot.Motor.Message

set_option autoImplicit false

/-! ## The loop body -/

/-- One pbuf in the loop: `data_len` at the guard, the difference compared with, and where and
how many bytes `memcpy` writes. -/
structure PbufWrite where
  data_len : Nat
  room : Nat
  offset : Nat
  count : Nat

/-- The length of the `memcpy` for a pbuf. -/
def pbufCount (data_len : Nat) (q : Pbuf) : Nat :=
  if q.payload.length > remaining data_len then remaining data_len else q.payload.length

/-- `copyLoop` with what it does for each pbuf. -/
def copyLoopTraced (recvbuf : Vector UInt8 200) (data_len : Nat) :
    List Pbuf → (Vector UInt8 200 × Nat) × List PbufWrite
  | [] => ((recvbuf, data_len), [])
  | q :: qs =>
      let recvbuf := memcpy recvbuf data_len (ofList q.payload) (pbufCount data_len q)
      let write : PbufWrite := ⟨data_len, remaining data_len, data_len, pbufCount data_len q⟩
      let data_len := (data_len + q.payload.length) % 2 ^ 32
      if data_len > RX_BUFSIZE then ((recvbuf, data_len), [write])
      else
        let (result, writes) := copyLoopTraced recvbuf data_len qs
        (result, write :: writes)

/-- What a thread keeps. -/
structure ReceiveBuffer where
  recvbuf : Vector UInt8 200
  data_len : Nat

/-- The call of `MessageHandle` and the writes before it. -/
structure Received where
  call : Call
  writes : List PbufWrite

/-- A delivery: the buffer is cleared, the chain copied and handed over, and `data_len`
cleared. -/
def receive (s : ReceiveBuffer) (chain : List Pbuf) : ReceiveBuffer × Received :=
  let recvbuf := memcpy s.recvbuf 0 (fun _ => 0) RX_BUFSIZE
  let ((recvbuf, data_len), writes) := copyLoopTraced recvbuf s.data_len chain
  (⟨recvbuf, 0⟩, ⟨⟨view recvbuf, data_len⟩, writes⟩)

/-! ## The copy -/

theorem memset_eq (recvbuf : Vector UInt8 200) :
    memcpy recvbuf 0 (fun _ => 0) RX_BUFSIZE = Vector.replicate 200 0 := by
  refine Vector.ext fun i inside => ?_
  simp [memcpy, RX_BUFSIZE]

section Copy

variable (chain : List Pbuf) (recvbuf : Vector UInt8 200) {n : Nat}

theorem copyLoop_cons (n : Nat) (q : Pbuf) :
    copyLoop recvbuf n (q :: chain) =
      if (n + q.payload.length) % 2 ^ 32 > RX_BUFSIZE then
        (memcpy recvbuf n (ofList q.payload) (pbufCount n q), (n + q.payload.length) % 2 ^ 32)
      else
        copyLoop (memcpy recvbuf n (ofList q.payload) (pbufCount n q))
          ((n + q.payload.length) % 2 ^ 32) chain := by
  rw [copyLoop, pbufCount, apply_ite (memcpy recvbuf n (ofList q.payload))]

theorem pbufCount_eq (inside : n ≤ 200) (q : Pbuf) :
    pbufCount n q = min (200 - n) q.payload.length := by
  rw [pbufCount, remaining_of_le inside]
  split_ifs <;> omega

theorem copyLoopTraced_fst (n : Nat) :
    (copyLoopTraced recvbuf n chain).1 = copyLoop recvbuf n chain := by
  induction chain generalizing recvbuf n with
  | nil => rfl
  | cons q qs ih =>
      rw [copyLoop_cons, copyLoopTraced]
      cases Nat.decLt RX_BUFSIZE ((n + q.payload.length) % 2 ^ 32) with
      | isTrue full => simp only [gt_iff_lt, full, if_true]
      | isFalse room =>
          simp only [gt_iff_lt, room, if_false]
          exact ih _ _

/-- The loop goes on only while `data_len` is inside the buffer, so the difference does not
wrap and no write is longer than it. -/
theorem copyLoopTraced_writes (inside : n ≤ 200) :
    ∀ x ∈ (copyLoopTraced recvbuf n chain).2,
      x.data_len ≤ 200 ∧ x.room = 200 - x.data_len ∧ x.offset + x.count ≤ 200 := by
  induction chain generalizing recvbuf n with
  | nil => simp [copyLoopTraced]
  | cons q qs ih =>
      have count := pbufCount_eq inside q
      have first : n ≤ 200 ∧ remaining n = 200 - n ∧ n + pbufCount n q ≤ 200 :=
        ⟨inside, remaining_of_le inside, by omega⟩
      intro x mem
      rw [copyLoopTraced] at mem
      cases Nat.decLt RX_BUFSIZE ((n + q.payload.length) % 2 ^ 32) with
      | isTrue full =>
          simp only [gt_iff_lt, full, if_true, List.mem_singleton] at mem
          rw [mem]
          exact first
      | isFalse room =>
          simp only [gt_iff_lt, room, if_false, List.mem_cons] at mem
          rcases mem with rfl | later
          · exact first
          · exact ih _ (not_lt.mp room) x later

/-- One pbuf behind the payloads so far. -/
theorem view_memcpy_pbuf {held : List UInt8} (inside : held.length ≤ 200) (payload : List UInt8)
    (filled : ∀ i, i < 200 → view recvbuf i = ofList held i) {i : Nat} (i_lt : i < 200) :
    view (memcpy recvbuf held.length (ofList payload) (min (200 - held.length) payload.length)) i =
      ofList (held ++ payload) i := by
  rw [view_memcpy _ _ _ _ i_lt, filled i i_lt]
  by_cases before : i < held.length
  · rw [if_neg (by omega), ofList, ofList, List.getD_eq_getElem?_getD,
      List.getD_eq_getElem?_getD, List.getElem?_append_left before]
  · by_cases reached : i - held.length < payload.length
    · rw [if_pos (by omega)]
      simp [ofList, List.getElem?_append_right (not_lt.mp before)]
    · rw [if_neg (by omega)]
      simp [ofList, List.getElem?_append_right (not_lt.mp before), not_lt.mp before,
        not_lt.mp reached]

/-- The buffer after the loop: all payloads in order as far as they go, and zeros. -/
theorem view_copyLoop {held : List UInt8} (inside : held.length ≤ 200)
    (filled : ∀ i, i < 200 → view recvbuf i = ofList held i) {i : Nat} (i_lt : i < 200) :
    view (copyLoop recvbuf held.length chain).1 i =
      ofList (held ++ chain.flatMap Pbuf.payload) i := by
  induction chain generalizing recvbuf held with
  | nil =>
      rw [List.flatMap_nil, List.append_nil]
      exact filled i i_lt
  | cons q qs ih =>
      have short := q.fits
      have sum : (held.length + q.payload.length) % 2 ^ 32 = (held ++ q.payload).length := by
        rw [List.length_append]
        omega
      have next {i : Nat} (i_lt : i < 200) := view_memcpy_pbuf recvbuf inside q.payload filled i_lt
      rw [copyLoop_cons, pbufCount_eq inside, sum, List.flatMap_cons, ← List.append_assoc]
      split_ifs with full
      · rw [next i_lt, ofList, ofList, List.getD_eq_getElem?_getD, List.getD_eq_getElem?_getD,
          List.getElem?_append_left (i_lt.trans full)]
      · exact ih _ (not_lt.mp full) fun i i_lt => next i_lt

/-- A buffer that reads as a list padded with zeros. -/
theorem toList_of_view {bytes : List UInt8}
    (filled : ∀ i, i < 200 → view recvbuf i = ofList bytes i) :
    recvbuf.toList = bytes.take 200 ++ List.replicate (200 - bytes.length) 0 := by
  refine List.ext_getElem (by simp; omega) fun i left right => ?_
  have i_lt : i < 200 := by simpa using left
  have byte := filled i i_lt
  rw [view_of_lt _ i_lt] at byte
  rw [Vector.getElem_toList, byte]
  by_cases within : i < bytes.length
  · rw [ofList_of_lt within, List.getElem_append_left (by simp; omega), List.getElem_take]
  · rw [List.getElem_append_right (by simp; omega), List.getElem_replicate]
    simp [ofList, not_lt.mp within]

end Copy

/-! ## Sequences of deliveries -/

section Deliveries

variable (recvbuf : Vector UInt8 200)

/-- Every delivery begins with `data_len` cleared. -/
theorem data_len_receive (before : List (List Pbuf)) :
    (runState receive ⟨recvbuf, 0⟩ before).data_len = 0 := by
  induction before using List.reverseRecOn with
  | nil => rfl
  | append_singleton before chain ih =>
      rw [runState_append]
      rfl

/-- So what a delivery hands over depends on its chain alone. -/
theorem receive_eq_call {s : ReceiveBuffer} (cleared : s.data_len = 0) (d : Delivery) :
    (receive s d.chain).2.call = d.call := by
  simp only [receive, memset_eq, cleared, Delivery.call, ← copyLoopTraced_fst]

/-- Before every delivery of a sequence `data_len` is 0; after its copy loop the buffer holds
the first bytes of its payloads, as many as fit, and zeros, and in the loop the difference never
wraps and no write goes beyond the buffer. -/
theorem copy_bounded (before : List (List Pbuf)) (chain : List Pbuf) :
    let s := runState receive ⟨recvbuf, 0⟩ before
    let bytes := chain.flatMap Pbuf.payload
    s.data_len = 0 ∧
      (receive s chain).1.recvbuf.toList =
        bytes.take (min 200 bytes.length) ++ List.replicate (200 - bytes.length) 0 ∧
      (∀ x ∈ (receive s chain).2.writes,
        x.data_len ≤ 200 ∧ x.room = 200 - x.data_len ∧ x.offset + x.count ≤ 200) ∧
      (receive s chain).1.data_len = 0 := by
  intro s bytes
  have cleared : s.data_len = 0 := data_len_receive recvbuf before
  refine ⟨cleared, ?_, ?_, rfl⟩
  · have short : ([] : List UInt8).length ≤ 200 := Nat.zero_le 200
    have zeros : ∀ i, i < 200 → view (Vector.replicate 200 0) i = ofList [] i := by
      intro i inside
      rw [view_of_lt _ inside]
      simp [ofList]
    have filled : ∀ i, i < 200 → view (receive s chain).1.recvbuf i = ofList bytes i := by
      intro i inside
      simp only [receive, memset_eq, cleared, copyLoopTraced_fst]
      exact view_copyLoop chain _ short zeros inside
    rw [toList_of_view _ filled, List.take_eq_take_min]
  · simp only [receive, cleared]
    exact copyLoopTraced_writes chain _ (Nat.zero_le 200)

end Deliveries

end Stm32Robot.Net
