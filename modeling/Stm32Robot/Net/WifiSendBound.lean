/-
# Net.WifiSendBound -- the accesses of the WiFi send step

Three sizes meet in `atk_8266_wifiap_test`: `sendBuf` has 125 bytes, the `memset` clears
`MAX_RX_BUFSIZE` of them, and a message has 126 bytes of payload and six around them.
`sendAccesses` lists the stores and reads of the step by their offsets.

The `memset` leaves `sendBuf` for every message (`send_overruns`).  What comes after it stays
inside exactly for payloads up to 119 bytes.
-/
import Stm32Robot.Net.FeedbackEncoders

namespace Stm32Robot.Net

open Stm32Robot.Theory.Bytes
open Stm32Robot.Motor.Message
open Stm32Robot.Motor.Queue

set_option autoImplicit false

/-- A byte access of the send step, by the offset in its object. -/
inductive SendAccess where
  | storeSendBuf (i : Nat)
  | readSendBuf (i : Nat)
  | readSendMsg (i : Nat)
deriving DecidableEq

namespace SendAccess

/-- `sendBuf` is a `u8[125]`, `sendMsg` an `STM` of 132 bytes. -/
def Inside : SendAccess → Prop
  | storeSendBuf i => i < 125
  | readSendBuf i => i < 125
  | readSendMsg i => i < 132

instance (a : SendAccess) : Decidable a.Inside := by
  cases a <;> exact inferInstanceAs (Decidable (_ < _))

end SendAccess

open SendAccess

/-! ## The accesses in order -/

/-- `memset(sendBuf,0,MAX_RX_BUFSIZE)`. -/
def memsetAccesses : List SendAccess := (List.range MAX_RX_BUFSIZE.toNat).map storeSendBuf

/-- `memcpy(sendBuf,&sendMsg,n)`. -/
def memcpyAccesses (n : Nat) : List SendAccess :=
  (List.range n).flatMap fun i => [readSendMsg i, storeSendBuf i]

/-- `sendBuf[n]=sendMsg.Bcc`. -/
def checkAccesses (n : Nat) : List SendAccess := [readSendMsg 131, storeSendBuf n]

/-- The loop of `u3_wifiSend`. -/
def wifiSendAccesses (len : Nat) : List SendAccess := (List.range len).map readSendBuf

/-- What the step sends for a dequeued message, and what it accesses to do so: the part up to
the `memset` and the part after it. -/
def sendTraced (layout : StackLayout) (sendMsg : STM) :
    List UInt8 × List SendAccess × List SendAccess :=
  let sendMsg := layout.memset sendMsg
  let len := sendMsg.len.toNat + EXTERN_BUFSIZE
  (taken (view (wifiBuf sendMsg)) len, memsetAccesses,
    memcpyAccesses (len - 1) ++ checkAccesses (len - 1) ++ wifiSendAccesses len)

def sendAccesses (layout : StackLayout) (sendMsg : STM) : List SendAccess :=
  (sendTraced layout sendMsg).2.1 ++ (sendTraced layout sendMsg).2.2

section Accesses

variable (layout : StackLayout) (sendMsg : STM)

theorem sendTraced_fst : (sendTraced layout sendMsg).1 =
    taken (view (wifiBuf (layout.memset sendMsg)))
      ((layout.memset sendMsg).len.toNat + EXTERN_BUFSIZE) := by
  rw [sendTraced]

/-- It is the step of the WiFi thread. -/
theorem wifiSend_eq_traced (constate : UInt8) (w : World) :
    wifiSend layout constate sendMsg w =
      if w.fmq.queueCount > 10 ∧ constate = 0x2B then
        let dequeued := getAndDelQueueinter sendMsg w.fmq
        World.record { w with fmq := dequeued.2.2 }
          (.u3WifiSend (sendTraced layout dequeued.2.1).1)
      else w := by
  rw [wifiSend]
  simp only [sendTraced_fst]

/-- What is sent are the bytes read from `sendBuf`. -/
theorem sent_eq_reads :
    (sendTraced layout sendMsg).1 = (sendTraced layout sendMsg).2.2.filterMap fun
      | readSendBuf i => some (view (wifiBuf (layout.memset sendMsg)) i)
      | _ => none := by
  simp [sendTraced, memcpyAccesses, checkAccesses, wifiSendAccesses, taken, List.filterMap_append,
    List.filterMap_flatMap, List.filterMap_map]

theorem memset_overruns : storeSendBuf 125 ∈ memsetAccesses := by
  simp [memsetAccesses, MAX_RX_BUFSIZE]

/-- After the `memset` the largest payload that stays inside has 119 bytes. -/
theorem afterMemset_inside_iff :
    (∀ a ∈ (sendTraced layout sendMsg).2.2, a.Inside) ↔
      (layout.memset sendMsg).len.toNat ≤ 119 := by
  simp only [sendTraced, memcpyAccesses, checkAccesses, wifiSendAccesses, EXTERN_BUFSIZE,
    List.mem_append, List.mem_flatMap, List.mem_map, List.mem_range, List.mem_cons,
    List.not_mem_nil, or_false]
  generalize (layout.memset sendMsg).len.toNat = n
  constructor
  · intro inside
    have check : n + 6 - 1 < 125 := inside (storeSendBuf (n + 6 - 1)) (.inl (.inr (.inr rfl)))
    omega
  · rintro short a ((⟨i, before, rfl | rfl⟩ | rfl | rfl) | ⟨i, before, rfl⟩)
    · show i < 132
      omega
    · show i < 125
      omega
    · show 131 < 132
      omega
    · show n + 6 - 1 < 125
      omega
    · show i < 125
      omega

/-- For no message does the step stay inside its buffers, wherever they lie; without the
`memset` it would exactly for a payload of at most 119 bytes. -/
theorem send_overruns :
    (¬ ∀ a ∈ sendAccesses layout sendMsg, a.Inside) ∧
      ((∀ a ∈ (sendTraced layout sendMsg).2.2, a.Inside) ↔
        (layout.memset sendMsg).len.toNat ≤ 119) := by
  refine ⟨?_, afterMemset_inside_iff layout sendMsg⟩
  intro inside
  have beyond := inside _ (List.mem_append_left _ memset_overruns)
  exact absurd beyond (lt_irrefl 125)

end Accesses

/-- A reply of six bytes, with the message below the buffer. -/
theorem sixBytes_overrun :
    ¬ ∀ (layout : StackLayout) (sendMsg : STM), sendMsg.len ≤ 126 →
      ∀ a ∈ sendAccesses layout sendMsg, a.Inside := by
  intro stated
  have inside := stated belowSendBuf (STM.zero.setLen 6) (by decide) _
    (List.mem_append_left _ memset_overruns)
  exact absurd inside (lt_irrefl 125)

end Stm32Robot.Net
