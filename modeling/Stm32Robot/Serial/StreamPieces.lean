/-
# Serial.StreamPieces -- how the receiver cuts a stream

Whatever arrives, the receiver of USART1 and USART2 takes it in pieces: it stores byte after
byte until their number is the fifth byte of the piece and six, calls `MessageHandle`, and
starts the next piece at the next byte that starts one.  `cut` says so of the stream alone.
`trace_cut` is that the receiver does the same: the indices it stores to and the lengths it
hands over are those of the pieces.

What starts a piece differs: a head byte, and on USART1 also the first byte after a scan.
`PortStep` is what the two have in common.
-/
import Mathlib.Data.List.TakeWhile
import Stm32Robot.Serial.UsmartPort

namespace Stm32Robot.Serial

open Stm32Robot.Theory.Bytes
open Stm32Robot.Theory.Transducer
open Stm32Robot.Motor.Message

set_option autoImplicit false

/-! ## The accesses of a step -/

/-- What a step does to memory: a store into the buffer, or a call with a pointer to it. -/
inductive Access where
  | store (i : Nat)
  | call (c : Call)

/-- The indices `rcvDataHandle` stores to. -/
def rcvStores (p : Port) (Res : UInt8) : List Nat :=
  if p.rxSta &&& 0x8000 = 0 then [(p.rxSta &&& 0x3FFF).toNat]
  else if Res = 0xAA then [((0 : BitVec 16) &&& 0x3FFF).toNat]
  else []

/-- The receiver with its accesses. -/
def rcvAccess (p : Port) (Res : UInt8) : Port × List Access :=
  ((rcvDataHandle p Res).1,
    (rcvStores p Res).map .store ++ (rcvDataHandle p Res).2.map .call)

def indices (es : List Access) : List Nat :=
  es.filterMap fun
    | .store i => some i
    | .call _ => none

def calls (es : List Access) : List Call :=
  es.filterMap fun
    | .store _ => none
    | .call c => some c

@[simp] theorem indices_append (es fs : List Access) :
    indices (es ++ fs) = indices es ++ indices fs := List.filterMap_append

@[simp] theorem calls_append (es fs : List Access) :
    calls (es ++ fs) = calls es ++ calls fs := List.filterMap_append

@[simp] theorem indices_rcvAccess (p : Port) (Res : UInt8) :
    indices (rcvAccess p Res).2 = rcvStores p Res := by
  simp [indices, rcvAccess, List.filterMap_append, List.filterMap_map]

@[simp] theorem calls_rcvAccess (p : Port) (Res : UInt8) :
    calls (rcvAccess p Res).2 = (rcvDataHandle p Res).2 := by
  simp [calls, rcvAccess, List.filterMap_append, List.filterMap_map]

/-- A step with its accesses makes the calls of the step. -/
theorem calls_emitted {ι : Type} {step : Port → ι → Port × List Call}
    {access : Port → ι → Port × List Access}
    (same : ∀ p i, (access p i).1 = (step p i).1 ∧ calls (access p i).2 = (step p i).2) (p : Port)
    (is : List ι) : calls (emitted access p is) = emitted step p is := by
  induction is generalizing p with
  | nil => rfl
  | cons i is ih =>
      rw [emitted_cons, emitted_cons, calls_append, (same p i).1, (same p i).2, ih]

/-- The buffer changes nowhere else. -/
theorem rxBuf_rcvDataHandle (p : Port) (Res : UInt8) {j : Nat} (other : j ∉ rcvStores p Res) :
    (rcvDataHandle p Res).1.rxBuf j = p.rxBuf j := by
  unfold rcvStores at other
  unfold rcvDataHandle
  split_ifs at other ⊢ with clear head
  · simp only
    split_ifs <;> exact if_neg (by simpa using other)
  · exact if_neg (by simpa using other)
  · rfl

/-! ## Pieces -/

/-- The length of a piece, once its fifth byte is there. -/
def pieceEnd (bs : List UInt8) : Option Nat := bs[4]?.map fun b => b.toNat + EXTERN_BUFSIZE

/-- A piece that has all its bytes. -/
def Whole (bs : List UInt8) : Prop := pieceEnd bs = some bs.length

/-- The beginning of a piece. -/
def Within (bs : List UInt8) : Prop := ∀ n, pieceEnd bs = some n → bs.length ≤ n

instance (bs : List UInt8) : Decidable (Whole bs) := inferInstanceAs (Decidable (_ = _))

section Pieces

variable {bs cs : List UInt8}

theorem pieceEnd_append (known : 4 < bs.length) : pieceEnd (bs ++ cs) = pieceEnd bs := by
  rw [pieceEnd, pieceEnd, List.getElem?_append_left known]

theorem four_lt_of_pieceEnd {n : Nat} (known : pieceEnd bs = some n) : 4 < bs.length := by
  obtain ⟨b, fifth, -⟩ := Option.map_eq_some_iff.mp known
  exact (List.getElem?_eq_some_iff.mp fifth).1

theorem six_le_of_pieceEnd {n : Nat} (known : pieceEnd bs = some n) : 6 ≤ n := by
  obtain ⟨b, -, rfl⟩ := Option.map_eq_some_iff.mp known
  exact Nat.le_add_left _ _

theorem Within.length_le (within : Within bs) : bs.length ≤ 261 := by
  by_cases known : 4 < bs.length
  · have := bs[4].toNat_lt
    have end' : pieceEnd bs = some (bs[4].toNat + 6) := by
      rw [pieceEnd, List.getElem?_eq_getElem known]
      rfl
    have := within _ end'
    omega
  · omega

theorem Within.of_append (within : Within (bs ++ cs)) : Within bs := by
  intro n known
  have bound := within n (by rw [pieceEnd_append (four_lt_of_pieceEnd known), known])
  rw [List.length_append] at bound
  omega

/-- A proper beginning of a piece is not the whole of it. -/
theorem Within.not_whole (within : Within (bs ++ cs)) (more : cs ≠ []) : ¬ Whole bs := by
  intro whole
  have bound := within bs.length (by rw [pieceEnd_append (four_lt_of_pieceEnd whole), whole])
  have := List.length_pos_iff.mpr more
  rw [List.length_append] at bound
  omega

end Pieces

section Cut

variable {ι : Type} (byte : ι → UInt8) (starts : ι → Bool)

/-- The length of the piece a stream begins with, should all of it arrive; of a stream too
short to tell, its own. -/
def pieceLength (is : List ι) : Nat := (pieceEnd (is.map byte)).getD is.length

theorem pieceLength_pos (i : ι) (is : List ι) : 0 < pieceLength byte (i :: is) := by
  unfold pieceLength
  cases known : pieceEnd ((i :: is).map byte) with
  | none => exact Nat.succ_pos _
  | some n =>
      have := six_le_of_pieceEnd known
      rw [Option.getD_some]
      omega

/-- What comes behind the first piece, from the next start on. -/
def afterPiece (is : List ι) : List ι :=
  (is.drop (pieceLength byte is)).dropWhile fun j => !starts j

theorem length_afterPiece_lt (i : ι) (is : List ι) :
    (afterPiece byte starts (i :: is)).length < (i :: is).length := by
  have shorter := (List.dropWhile_sublist (l := (i :: is).drop (pieceLength byte (i :: is)))
    fun j => !starts j).length_le
  have positive := pieceLength_pos byte i is
  rw [List.length_drop] at shorter
  rw [afterPiece, List.length_cons] at *
  omega

/-- Cut a stream into pieces; the last one may break off. -/
def cut : List ι → List (List ι)
  | [] => []
  | i :: is => (i :: is).take (pieceLength byte (i :: is)) :: cut (afterPiece byte starts (i :: is))
termination_by is => is.length
decreasing_by exact length_afterPiece_lt byte starts i is

/-- The first piece of a stream, with the rest behind it. -/
theorem piece_cases (is : List ι) :
    Within ((is.take (pieceLength byte is)).map byte) ∧
      (Whole ((is.take (pieceLength byte is)).map byte) ∨ is.drop (pieceLength byte is) = []) := by
  cases known : pieceEnd (is.map byte) with
  | none =>
      have all : pieceLength byte is = is.length := by rw [pieceLength, known, Option.getD_none]
      rw [all, List.take_length, List.drop_length]
      refine ⟨?_, .inr rfl⟩
      intro n some
      rw [known] at some
      cases some
  | some n =>
      have length : pieceLength byte is = n := by rw [pieceLength, known, Option.getD_some]
      rw [length, List.map_take]
      rcases le_or_gt n is.length with all | broken
      · have long := six_le_of_pieceEnd known
        have size : ((is.map byte).take n).length = n := by
          rw [List.length_take, List.length_map, min_eq_left all]
        have same : pieceEnd ((is.map byte).take n) = some n := by
          have extended : pieceEnd ((is.map byte).take n ++ (is.map byte).drop n) =
              pieceEnd ((is.map byte).take n) := pieceEnd_append (by omega)
          rw [← extended, List.take_append_drop, known]
        refine ⟨?_, .inl (by rw [Whole, same, size])⟩
        intro m fits
        rw [same, Option.some.injEq] at fits
        omega
      · rw [List.take_of_length_le (by rw [List.length_map]; omega)]
        refine ⟨?_, .inr (List.drop_of_length_le broken.le)⟩
        intro m fits
        rw [known, Option.some.injEq] at fits
        rw [List.length_map]
        omega

/-- The first piece is followed by what does not start one, and then by the next piece. -/
theorem cut_cons (i : ι) (is : List ι) :
    ∃ piece gap, i :: is = piece ++ (gap ++ afterPiece byte starts (i :: is)) ∧
      cut byte starts (i :: is) = piece :: cut byte starts (afterPiece byte starts (i :: is)) ∧
      piece ≠ [] ∧ Within (piece.map byte) ∧ (∀ j ∈ gap, starts j = false) ∧
      (Whole (piece.map byte) ∨ gap ++ afterPiece byte starts (i :: is) = []) := by
  obtain ⟨within, whole⟩ := piece_cases byte (i :: is)
  have rest : ((i :: is).drop (pieceLength byte (i :: is))).takeWhile (fun j => !starts j) ++
      afterPiece byte starts (i :: is) = (i :: is).drop (pieceLength byte (i :: is)) :=
    List.takeWhile_append_dropWhile
  refine ⟨(i :: is).take (pieceLength byte (i :: is)),
    ((i :: is).drop (pieceLength byte (i :: is))).takeWhile (fun j => !starts j),
    ?_, by rw [cut], ?_, within, ?_, by rwa [rest]⟩
  · rw [rest, List.take_append_drop]
  · have := pieceLength_pos byte i is
    simp
    omega
  · intro j mem
    simpa using List.mem_takeWhile_imp mem

end Cut

/-! ## The receiver on a piece -/

/-- A port that receives bytes: in the middle of a piece every input is a byte, after a piece
the inputs that start one are received as its first byte and the others are dropped. -/
structure PortStep {ι : Type} (step : Port → ι → Port × List Access) (byte : ι → UInt8)
    (starts : ι → Bool) : Prop where
  counts : ∀ p i, p.rxSta &&& 0x8000 = 0 → step p i = rcvAccess p (byte i)
  begins : ∀ p i, Complete p → starts i = true → ∃ buf, step p i = rcvAccess ⟨0, buf⟩ (byte i)
  drops : ∀ p i, Complete p → starts i = false → step p i = (p, [])

section Step

variable {p : Port} {bs : List UInt8} {b : UInt8}

theorem done_iff_whole (counting : Counting p (bs ++ [b])) : Done p ↔ Whole (bs ++ [b]) := by
  have count := counting.count
  rw [Done, count, Whole, pieceEnd]
  by_cases known : 4 < (bs ++ [b]).length
  · rw [counting.rxBuf_eq known, List.getElem?_eq_getElem known, Option.map_some,
      Option.some.injEq]
    exact and_iff_right known
  · rw [List.getElem?_eq_none (by omega), Option.map_none]
    exact iff_of_false (fun both => known both.1) (by simp)

/-- A byte while the port counts: it is handed over with the others when the piece is whole. -/
theorem rcvDataHandle_counting (counting : Counting p bs) (small : bs.length + 1 < 0x4000) :
    Counting (p.stored b) (bs ++ [b]) ∧ (p.stored b).rxSta.toNat = bs.length + 1 ∧
      rcvDataHandle p b =
        if Whole (bs ++ [b]) then
          ({ p.stored b with rxSta := (p.stored b).rxSta ||| 0x8000 },
            [⟨(p.stored b).rxBuf, (p.stored b).rxSta.toNat⟩])
        else (p.stored b, []) := by
  have next : Counting (p.stored b) (bs ++ [b]) := counting.stored small
  have count := next.count
  rw [List.length_append, List.length_singleton] at count
  refine ⟨next, count, (rcvDataHandle_of_clear counting.clear).trans ?_⟩
  exact if_congr (done_iff_whole next) rfl rfl

/-- The next byte of a piece is stored at its own index, and completes the piece or not. -/
theorem rcvAccess_counting (counting : Counting p bs) (within : Within (bs ++ [b])) :
    indices (rcvAccess p b).2 = [bs.length] ∧
      (Whole (bs ++ [b]) → Complete (rcvAccess p b).1 ∧
        (calls (rcvAccess p b).2).map Call.len = [bs.length + 1]) ∧
      (¬ Whole (bs ++ [b]) → Counting (rcvAccess p b).1 (bs ++ [b]) ∧
        calls (rcvAccess p b).2 = []) := by
  have bound := within.length_le
  rw [List.length_append, List.length_singleton] at bound
  obtain ⟨next, count, stepped⟩ := rcvDataHandle_counting (b := b) counting (by omega)
  refine ⟨?_, ?_, ?_⟩
  · have below : p.rxSta.toNat < 0x4000 := by have := counting.count; omega
    rw [indices_rcvAccess, rcvStores, if_pos counting.clear, count_masked below, counting.count]
  · intro whole
    rw [if_pos whole] at stepped
    rw [calls_rcvAccess, rcvAccess, stepped]
    exact ⟨complete_set, by simp [count]⟩
  · intro more
    rw [if_neg more] at stepped
    rw [calls_rcvAccess, rcvAccess, stepped]
    exact ⟨next, rfl⟩

end Step

/-! ## The receiver on a stream -/

section Stream

variable {ι : Type} {step : Port → ι → Port × List Access} {byte : ι → UInt8} {starts : ι → Bool}
  {p : Port}

/-- A piece, from its first missing byte on: every byte is stored at its own index, and the
last one hands the piece over. -/
theorem run_piece (ports : PortStep step byte starts) {bs : List UInt8} (counting : Counting p bs)
    (is : List ι) (within : Within (bs ++ is.map byte)) (some : is ≠ []) :
    indices (emitted step p is) = List.range' bs.length is.length ∧
      (Whole (bs ++ is.map byte) → Complete (runState step p is) ∧
        (calls (emitted step p is)).map Call.len = [bs.length + is.length]) ∧
      (¬ Whole (bs ++ is.map byte) → calls (emitted step p is) = []) := by
  induction is generalizing p bs with
  | nil => exact absurd rfl some
  | cons i is ih =>
      have split : bs ++ (i :: is).map byte = (bs ++ [byte i]) ++ is.map byte := by simp
      rw [split] at within ⊢
      rw [runState_cons, emitted_cons, ports.counts p i counting.clear, indices_append,
        calls_append]
      by_cases last : is = []
      · subst last
        rw [List.map_nil, List.append_nil] at within ⊢
        obtain ⟨stored, whole, broken⟩ := rcvAccess_counting counting within
        simp only [emitted_nil, runState_nil, stored]
        exact ⟨rfl, fun all => by simpa [calls] using whole all,
          fun more => by simpa [calls] using (broken more).2⟩
      · have missing : is.map byte ≠ [] := by simpa using last
        have inside : Within (bs ++ [byte i]) := within.of_append
        obtain ⟨stored, -, broken⟩ := rcvAccess_counting counting inside
        obtain ⟨next, silent⟩ := broken (within.not_whole missing)
        obtain ⟨later, whole, cut⟩ := ih next within last
        rw [stored, silent, later]
        simp only [List.length_append, List.length_cons, List.length_nil, List.nil_append] at *
        refine ⟨by rw [Nat.zero_add]; exact List.range'_succ.symm, ?_, cut⟩
        intro all
        obtain ⟨complete, handed⟩ := whole all
        exact ⟨complete, by rw [handed]; congr 1; omega⟩

/-- Between pieces what does not start one is dropped. -/
theorem run_gap (ports : PortStep step byte starts) (complete : Complete p) {gap : List ι}
    (silent : ∀ i ∈ gap, starts i = false) :
    runState step p gap = p ∧ emitted step p gap = [] := by
  induction gap with
  | nil => exact ⟨rfl, rfl⟩
  | cons i gap ih =>
      have dropped := ports.drops p i complete (silent i List.mem_cons_self)
      rw [runState_cons, emitted_cons, dropped]
      exact ih fun j mem => silent j (List.mem_cons_of_mem i mem)

/-- The first input is received as the first byte of a piece. -/
def Begins (step : Port → ι → Port × List Access) (byte : ι → UInt8) (p : Port) (is : List ι) :
    Prop := ∀ i js, is = i :: js → ∃ buf, step p i = rcvAccess ⟨0, buf⟩ (byte i)

/-- A piece from its first byte on. -/
theorem run_whole_piece (ports : PortStep step byte starts) {is : List ι}
    (begins : Begins step byte p is) (within : Within (is.map byte)) (some : is ≠ []) :
    indices (emitted step p is) = List.range is.length ∧
      (Whole (is.map byte) → Complete (runState step p is) ∧
        (calls (emitted step p is)).map Call.len = [is.length]) ∧
      (¬ Whole (is.map byte) → calls (emitted step p is) = []) := by
  cases is with
  | nil => exact absurd rfl some
  | cons i js =>
      obtain ⟨buf, stepped⟩ := begins i js rfl
      have empty : Counting ⟨0, buf⟩ [] := ⟨rfl, rfl, by decide⟩
      have same := ports.counts ⟨0, buf⟩ i empty.clear
      have piece := run_piece ports empty (i :: js) within some
      rw [runState_cons, emitted_cons, same, ← stepped, ← runState_cons, ← emitted_cons] at piece
      rw [List.range_eq_range']
      simpa only [List.nil_append, List.length_nil, Nat.zero_add] using piece

/-- After a piece the port is ready for the next one. -/
theorem begins_afterPiece (ports : PortStep step byte starts) (complete : Complete p)
    (is : List ι) : Begins step byte p (afterPiece byte starts is) := by
  intro i js split
  have started : starts i = true := by
    have first := List.head?_dropWhile_not (fun j => !starts j)
      (is.drop (pieceLength byte is))
    rw [← afterPiece, split] at first
    simpa using first
  exact ports.begins p i complete started

/-- The receiver stores and hands over as the stream is cut. -/
theorem trace_cut (ports : PortStep step byte starts) (is : List ι)
    (begins : Begins step byte p is) :
    indices (emitted step p is) =
        (cut byte starts is).flatMap (fun piece => List.range piece.length) ∧
      (calls (emitted step p is)).map Call.len =
        ((cut byte starts is).filter fun piece => Whole (piece.map byte)).map List.length := by
  induction is using cut.induct byte starts generalizing p with
  | case1 =>
      rw [cut]
      exact ⟨rfl, rfl⟩
  | case2 i is ih =>
      obtain ⟨piece, gap, split, pieces, some, within, silent, whole⟩ :=
        cut_cons byte starts i is
      have front : ∃ js, piece = i :: js := by
        obtain ⟨j, js, rfl⟩ := List.exists_cons_of_ne_nil some
        exact ⟨js, by rw [(List.cons.inj split).1]⟩
      have first : Begins step byte p piece := by
        obtain ⟨js, rfl⟩ := front
        intro j ks same
        obtain ⟨rfl, -⟩ := List.cons.inj same
        exact begins i is rfl
      obtain ⟨stored, handed, kept⟩ := run_whole_piece ports first within some
      have run := congrArg (emitted step p) split
      rw [emitted_append, emitted_append] at run
      rw [pieces, run, indices_append, calls_append, stored, List.flatMap_cons]
      rcases whole with whole | none
      · obtain ⟨complete, handedOne⟩ := handed whole
        obtain ⟨still, quiet⟩ := run_gap ports complete silent
        obtain ⟨later, handedLater⟩ := ih (begins_afterPiece ports complete (i :: is))
        rw [still, quiet, List.nil_append, later, List.map_append, handedOne, handedLater,
          List.filter_cons_of_pos (by simpa using whole)]
        exact ⟨rfl, rfl⟩
      · obtain ⟨rfl, nothing⟩ := List.append_eq_nil_iff.mp none
        rw [nothing, cut]
        by_cases whole : Whole (piece.map byte)
        · rw [List.filter_cons_of_pos (by simpa using whole)]
          simpa [indices, calls] using (handed whole).2
        · rw [List.filter_cons_of_neg (by simpa using whole)]
          simpa [indices, calls] using kept whole

end Stream

end Stm32Robot.Serial
