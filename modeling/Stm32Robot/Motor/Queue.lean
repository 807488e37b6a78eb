/-
# Motor.Queue -- the ring queue of Queue.c

The C functions move nodes with `memcpy`, `size` bytes at a time, between a caller's
buffer and the array `QNode` points to.  `NodeMemory M α` is that array: `load m i` is
the node at slot `i`, `store m i x` the array after `x` is copied to slot `i`.  There are
two instances.  `NodeBytes size` is the memory itself, bytes counted from `QNode`, with a
node of `size` bytes at offset `size * i`; `Int → α` holds typed nodes, one for each slot.
Every function below is the same code over either.

A function that takes the caller's buffer `pe` to fill gives its content afterwards.
-/
import Mathlib.Data.Vector.Basic
import Mathlib.Tactic.Ring
import Stm32Robot.Theory.RingAddress
import Stm32Robot.Theory.Transducer

namespace Stm32Robot.Motor.Queue

open Stm32Robot.Theory.RingAddress
open Stm32Robot.Theory.Transducer

set_option autoImplicit false

/-! ## Node memory -/

/-- An array of nodes addressed by slot. -/
class NodeMemory (M : Type) (α : outParam Type) where
  load : M → Int → α
  store : M → Int → α → M
  load_store : ∀ (m : M) (i j : Int) (x : α),
    load (store m i x) j = if j = i then x else load m j

export NodeMemory (load store load_store)

instance typedNodes (α : Type) : NodeMemory (Int → α) α where
  load m i := m i
  store m i x := fun j => if j = i then x else m j
  load_store _ _ _ _ := rfl

/-- The bytes from `QNode` on, for nodes of `size` bytes. -/
structure NodeBytes (size : Nat) where
  byte : Int → UInt8

namespace NodeBytes

variable {size : Nat}

/-- `memcpy(pe, QNode + size*i, size)`. -/
def read (m : NodeBytes size) (i : Int) : Vector UInt8 size :=
  Vector.ofFn fun j => m.byte (size * i + j)

/-- `memcpy(QNode + size*i, pe, size)`. -/
def write (m : NodeBytes size) (i : Int) (x : Vector UInt8 size) : NodeBytes size :=
  ⟨fun a =>
    if h : size * i ≤ a ∧ a < size * i + size then x.get ⟨(a - size * i).toNat, by omega⟩
    else m.byte a⟩

/-- Nodes at distinct slots share no byte. -/
theorem slots_disjoint {i j : Int} (ne : j ≠ i) {k : Int} (hk : 0 ≤ k) (hks : k < size) :
    ¬ (size * i ≤ size * j + k ∧ size * j + k < size * i + size) := by
  rintro ⟨low, high⟩
  rcases lt_or_gt_of_ne ne with lt | gt
  · have : (size : Int) * (j + 1) ≤ size * i :=
      Int.mul_le_mul_of_nonneg_left lt (Int.natCast_nonneg size)
    rw [mul_add, mul_one] at this
    omega
  · have : (size : Int) * (i + 1) ≤ size * j :=
      Int.mul_le_mul_of_nonneg_left gt (Int.natCast_nonneg size)
    rw [mul_add, mul_one] at this
    omega

theorem read_write (m : NodeBytes size) (i j : Int) (x : Vector UInt8 size) :
    (m.write i x).read j = if j = i then x else m.read j := by
  apply Vector.ext
  intro k hk
  by_cases same : j = i
  · subst same
    have inside : (size : Int) * j ≤ size * j + k ∧ (size : Int) * j + k < size * j + size := by
      omega
    have offset : ((size : Int) * j + k - size * j).toNat = k := by omega
    simp only [read, write, if_true, Vector.getElem_ofFn, dif_pos inside, offset]
    rfl
  · have outside := slots_disjoint same (Int.natCast_nonneg k) (by omega : (k : Int) < size)
    simp only [read, write, if_neg same, Vector.getElem_ofFn, dif_neg outside]

end NodeBytes

instance byteNodes (size : Nat) : NodeMemory (NodeBytes size) (Vector UInt8 size) where
  load := NodeBytes.read
  store := NodeBytes.write
  load_store := NodeBytes.read_write

/-! ## Queue.c -/

/-- `struct interQueue`. -/
structure InterQueue (M : Type) where
  front : Int
  queueCount : Int
  rear : Int
  qNode : M
  maxCount : Int

variable {M α : Type}

def initQueueinter (Q : InterQueue M) : Int × InterQueue M :=
  (0, { Q with front := 0, rear := 0, queueCount := 0 })

section Functions

variable [NodeMemory M α]

/-- The slot `EnQueueinter` hands to `memcpy`: `rear`, read after the overflow reset. -/
def enSlot (Q : InterQueue M) : Int :=
  (if Q.queueCount ≥ Q.maxCount then (initQueueinter Q).2 else Q).rear

def enQueueinter (pe : α) (Q₀ : InterQueue M) : Int × InterQueue M :=
  let Q := if Q₀.queueCount ≥ Q₀.maxCount then (initQueueinter Q₀).2 else Q₀
  let Q := { Q with qNode := store Q.qNode (enSlot Q₀) pe }
  let Q := { Q with rear := Q.rear + 1 }
  let Q := if Q.rear ≥ Q.maxCount then { Q with rear := 0 } else Q
  let Q := { Q with queueCount := Q.queueCount + 1 }
  (0, Q)

def getAndDelQueueinter (pe : α) (Q : InterQueue M) : Int × α × InterQueue M :=
  if Q.queueCount ≤ 0 then (-1, pe, Q) else
  let pe := load Q.qNode Q.front
  let Q := { Q with front := Q.front + 1 }
  let Q := if Q.front ≥ Q.maxCount then { Q with front := 0 } else Q
  let Q := { Q with queueCount := Q.queueCount - 1 }
  (0, pe, Q)

def getQueueinter (pe : α) (Q : InterQueue M) : Int × α × InterQueue M :=
  if Q.queueCount ≤ 0 then (-1, pe, Q) else
  let pe := load Q.qNode Q.front
  (0, pe, Q)

def delQueueinter (Q : InterQueue M) : Int × InterQueue M :=
  if Q.queueCount ≤ 0 then (-1, Q) else
  let Q := { Q with front := Q.front + 1 }
  let Q := if Q.front ≥ Q.maxCount then { Q with front := 0 } else Q
  let Q := { Q with queueCount := Q.queueCount - 1 }
  (0, Q)

end Functions

/-! ## What each function does, with the wrap test as a cursor step -/

section Equations

variable [NodeMemory M α] {Q : InterQueue M} (pe : α)

theorem enSlot_of_room (room : Q.queueCount < Q.maxCount) : enSlot Q = Q.rear := by
  unfold enSlot
  rw [if_neg (not_le.mpr room)]

theorem enSlot_of_full (full : Q.maxCount ≤ Q.queueCount) : enSlot Q = 0 := by
  unfold enSlot
  rw [if_pos full]
  rfl

theorem enQueueinter_of_room (room : Q.queueCount < Q.maxCount) :
    enQueueinter pe Q = (0, { Q with
      qNode := store Q.qNode Q.rear pe
      rear := advance Q.maxCount Q.rear
      queueCount := Q.queueCount + 1 }) := by
  unfold enQueueinter
  rw [enSlot_of_room room]
  simp only [if_neg (not_le.mpr room), ge_iff_le, advance]
  split <;> rfl

/-- On a full queue the reset comes first: the new node is alone, in slot 0. -/
theorem enQueueinter_of_full (full : Q.maxCount ≤ Q.queueCount) :
    enQueueinter pe Q = (0, { Q with
      front := 0
      qNode := store Q.qNode 0 pe
      rear := advance Q.maxCount 0
      queueCount := 1 }) := by
  unfold enQueueinter
  rw [enSlot_of_full full]
  simp only [if_pos full, ge_iff_le, advance, initQueueinter]
  split <;> rfl

theorem getAndDelQueueinter_of_empty (empty : Q.queueCount ≤ 0) :
    getAndDelQueueinter pe Q = (-1, pe, Q) := if_pos empty

theorem getAndDelQueueinter_of_pos (some : 0 < Q.queueCount) :
    getAndDelQueueinter pe Q = (0, load Q.qNode Q.front, { Q with
      front := advance Q.maxCount Q.front
      queueCount := Q.queueCount - 1 }) := by
  unfold getAndDelQueueinter
  simp only [if_neg (not_le.mpr some), ge_iff_le, advance]
  split <;> rfl

theorem getQueueinter_of_empty (empty : Q.queueCount ≤ 0) :
    getQueueinter pe Q = (-1, pe, Q) := if_pos empty

theorem getQueueinter_of_pos (some : 0 < Q.queueCount) :
    getQueueinter pe Q = (0, load Q.qNode Q.front, Q) := if_neg (not_le.mpr some)

end Equations

/-- `DelQueueinter` is `GetAndDelQueueinter` without the copy. -/
theorem delQueueinter_eq [NodeMemory M α] (pe : α) (Q : InterQueue M) :
    delQueueinter Q = ((getAndDelQueueinter pe Q).1, (getAndDelQueueinter pe Q).2.2) := by
  unfold delQueueinter getAndDelQueueinter
  split <;> rfl

/-! ## Calls -/

/-- A call of one of the five functions, with the content of the caller's buffer. -/
inductive QueueCall (α : Type) where
  | init
  | en (pe : α)
  | getAndDel (pe : α)
  | get (pe : α)
  | del

/-- The caller's buffer of a call that has one. -/
def QueueCall.buffer {α : Type} : QueueCall α → Option α
  | .en pe | .getAndDel pe | .get pe => some pe
  | .init | .del => none

/-- The three calls that look at the head of the queue. -/
def QueueCall.reads {α : Type} : QueueCall α → Bool
  | .getAndDel _ | .get _ | .del => true
  | .init | .en _ => false

/-- What a call gives back: the return value, and the caller's buffer where there is one. -/
structure QueueReturn (α : Type) where
  ret : Int
  buffer : Option α

section Calls

variable [NodeMemory M α]

def queueStep (Q : InterQueue M) : QueueCall α → InterQueue M × QueueReturn α
  | .init => ((initQueueinter Q).2, ⟨(initQueueinter Q).1, none⟩)
  | .en pe => ((enQueueinter pe Q).2, ⟨(enQueueinter pe Q).1, some pe⟩)
  | .getAndDel pe =>
      ((getAndDelQueueinter pe Q).2.2,
        ⟨(getAndDelQueueinter pe Q).1, some (getAndDelQueueinter pe Q).2.1⟩)
  | .get pe =>
      ((getQueueinter pe Q).2.2, ⟨(getQueueinter pe Q).1, some (getQueueinter pe Q).2.1⟩)
  | .del => ((delQueueinter Q).2, ⟨(delQueueinter Q).1, none⟩)

/-- `EnQueueinter` of each node of a list, in order. -/
def enAll (Q : InterQueue M) (ms : List α) : InterQueue M :=
  ms.foldl (fun Q pe => (enQueueinter pe Q).2) Q

theorem enAll_append (Q : InterQueue M) (ms ns : List α) :
    enAll Q (ms ++ ns) = enAll (enAll Q ms) ns := List.foldl_append

/-- The slots a call hands to `memcpy`. -/
def memcpySlots (Q : InterQueue M) : QueueCall α → List Int
  | .en _ => [enSlot Q]
  | .getAndDel _ | .get _ => if Q.queueCount ≤ 0 then [] else [Q.front]
  | .init | .del => []

end Calls

/-! ## Changing the node type

The queue code never looks into a node, so relabelling the nodes of a typed queue
commutes with every call.  This is what lets a run be followed on nodes that carry a
label the program does not have. -/

namespace InterQueue

variable {β : Type}

/-- Relabel every node of a typed queue. -/
def map (f : α → β) (Q : InterQueue (Int → α)) : InterQueue (Int → β) :=
  { Q with qNode := fun i => f (Q.qNode i) }

theorem map_enQueueinter (f : α → β) (pe : α) (Q : InterQueue (Int → α)) :
    (enQueueinter pe Q).2.map f = (enQueueinter (f pe) (Q.map f)).2 := by
  have stored (i : Int) :
      (fun j => f (store Q.qNode i pe j)) = store (fun j => f (Q.qNode j)) i (f pe) := by
    funext j
    exact apply_ite f _ _ _
  rcases lt_or_ge Q.queueCount Q.maxCount with room | full
  · have room' : (Q.map f).queueCount < (Q.map f).maxCount := room
    rw [enQueueinter_of_room _ room, enQueueinter_of_room _ room']
    simp only [map, stored]
  · have full' : (Q.map f).maxCount ≤ (Q.map f).queueCount := full
    rw [enQueueinter_of_full _ full, enQueueinter_of_full _ full']
    simp only [map, stored]

theorem map_enAll (f : α → β) (ms : List α) (Q : InterQueue (Int → α)) :
    (enAll Q ms).map f = enAll (Q.map f) (ms.map f) := by
  induction ms generalizing Q with
  | nil => rfl
  | cons pe ms ih =>
      show (enAll (enQueueinter pe Q).2 ms).map f =
        enAll (enQueueinter (f pe) (Q.map f)).2 (ms.map f)
      rw [ih, map_enQueueinter]

theorem map_getAndDelQueueinter (f : α → β) (pe : α) (Q : InterQueue (Int → α)) :
    getAndDelQueueinter (f pe) (Q.map f) =
      ((getAndDelQueueinter pe Q).1, f (getAndDelQueueinter pe Q).2.1,
        (getAndDelQueueinter pe Q).2.2.map f) := by
  rcases le_or_gt Q.queueCount 0 with empty | some
  · have empty' : (Q.map f).queueCount ≤ 0 := empty
    rw [getAndDelQueueinter_of_empty _ empty, getAndDelQueueinter_of_empty _ empty']
  · have some' : 0 < (Q.map f).queueCount := some
    rw [getAndDelQueueinter_of_pos _ some, getAndDelQueueinter_of_pos _ some']
    rfl

end InterQueue

end Stm32Robot.Motor.Queue
