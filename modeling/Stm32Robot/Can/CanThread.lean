/-
# Can.CanThread -- the CAN thread of can.c

One turn of `can_thread` takes the oldest frame out of DCQ, sends it and hands the reply, if
one has come, to `FeedbackMessge`.  On an empty queue the thread only waits.
-/
import Stm32Robot.Motor.Message

namespace Stm32Robot.Can

open Stm32Robot.Motor.Driver
open Stm32Robot.Motor.Queue
open Stm32Robot.Motor.Message

set_option autoImplicit false

/-- `SendCan`: the frame that is put into a transmit mailbox. -/
def sendCan (sendMsg : SCM) (w : World) : World :=
  w.record (.canTransmit (sendMsg.id + DRIVER_ID) sendMsg.data sendMsg.len)

/-- One turn of the loop; `reply` is what `ReadCan` finds, `sendCanMsg` the local.  The frame
taken out of the queue is given back with the state. -/
def canThread (sendCanMsg : SCM) (reply : Option (Int × Vector UInt8 8)) (w : World) :
    Option SCM × World :=
  if w.dcq.queueCount > 0 then
    let (_, sendCanMsg, dcq) := getAndDelQueueinter sendCanMsg w.dcq
    let w := sendCan sendCanMsg { w with dcq := dcq }
    match reply with
    | some (readID, readData) =>
        (some sendCanMsg, { w with cru := feedbackMessge readID readData w.cru })
    | none => (some sendCanMsg, w)
  else (none, w)

section Turns

variable (sendCanMsg : SCM) (reply : Option (Int × Vector UInt8 8)) {w : World}

theorem canThread_of_empty (empty : w.dcq.queueCount ≤ 0) :
    canThread sendCanMsg reply w = (none, w) := if_neg (not_lt.mpr empty)

theorem canThread_of_pos (some : 0 < w.dcq.queueCount) :
    (canThread sendCanMsg reply w).1 = Option.some (getAndDelQueueinter sendCanMsg w.dcq).2.1 ∧
      (canThread sendCanMsg reply w).2.dcq = (getAndDelQueueinter sendCanMsg w.dcq).2.2 := by
  rw [canThread, if_pos some]
  cases reply <;> exact ⟨rfl, rfl⟩

theorem log_canThread_of_pos (some : 0 < w.dcq.queueCount) :
    (canThread sendCanMsg reply w).2.log = w.log ++
      [.canTransmit ((getAndDelQueueinter sendCanMsg w.dcq).2.1.id + DRIVER_ID)
        (getAndDelQueueinter sendCanMsg w.dcq).2.1.data
        (getAndDelQueueinter sendCanMsg w.dcq).2.1.len] := by
  rw [canThread, if_pos some]
  cases reply <;> rfl

end Turns

end Stm32Robot.Can
