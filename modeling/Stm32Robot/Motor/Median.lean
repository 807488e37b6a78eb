/-
# Motor.Median -- the median of ConvertData.c

`GetMedianNum` sorts the memory it is given, in place, and reads the middle of it.  The result
depends on what is in the memory and not on where (`getMedianNum_eq`): it is the `median` of
any list with the same elements.

`getMedianNumArray` is the function on an array of exactly the length it is given, with no
result for an index outside of it: `getMedianNum_sorts` says that it has one, and which.
-/
import Stm32Robot.Motor.Driver
import Stm32Robot.Theory.BubbleSort

namespace Stm32Robot.Motor.ConvertData

open Stm32Robot.Theory.BubbleSort
open Stm32Robot.Motor.Driver (FitsInt)

set_option autoImplicit false

/-- The result, and the memory as the sort leaves it. -/
def getMedianNum (bArray : Nat → BitVec 16) (iFilterLen : Nat) :
    BitVec 16 × (Nat → BitVec 16) :=
  let bArray := bubbleSort BitVec.toInt bArray iFilterLen
  let bTemp :=
    if iFilterLen &&& 1 > 0 then bArray ((iFilterLen - 1) / 2)
    else
      BitVec.ofInt 16
        (((bArray (iFilterLen / 2)).toInt + (bArray (iFilterLen / 2 - 1)).toInt).tdiv 2)
  (bTemp, bArray)

/-- The middle element, or the mean of the two in the middle, truncated. -/
def median (xs : List Int) : Int :=
  let sorted := xs.insertionSort (· ≤ ·)
  if xs.length % 2 = 1 then sorted.getD ((xs.length - 1) / 2) 0
  else (sorted.getD (xs.length / 2) 0 + sorted.getD (xs.length / 2 - 1) 0).tdiv 2

/-- The mean of two `short`s is a `short`. -/
theorem toInt_mean (x y : BitVec 16) :
    (BitVec.ofInt 16 ((x.toInt + y.toInt).tdiv 2)).toInt = (x.toInt + y.toInt).tdiv 2 := by
  have xLow := x.le_toInt
  have xHigh := x.toInt_lt
  have yLow := y.le_toInt
  have yHigh := y.toInt_lt
  have low : (-65536 : Int).tdiv 2 ≤ (x.toInt + y.toInt).tdiv 2 :=
    Int.tdiv_le_tdiv (by decide) (by omega)
  have high : (x.toInt + y.toInt).tdiv 2 ≤ (65534 : Int).tdiv 2 :=
    Int.tdiv_le_tdiv (by decide) (by omega)
  rw [BitVec.toInt_ofInt]
  exact Int.bmod_eq_of_le low (Int.lt_add_one_of_le high)

theorem getMedianNum_eq {bArray : Nat → BitVec 16} {iFilterLen : Nat} (positive : 0 < iFilterLen)
    {ws : List (BitVec 16)} (same : content bArray iFilterLen = ws) :
    (getMedianNum bArray iFilterLen).1.toInt = median (ws.map BitVec.toInt) := by
  have sorted := map_bubbleSort BitVec.toInt bArray same
  have length : iFilterLen = (ws.map BitVec.toInt).length := by
    have lengths := congrArg List.length sorted
    rwa [List.length_map, List.length_range, List.length_insertionSort] at lengths
  have element {i : Nat} (inside : i < iFilterLen) :
      ((ws.map BitVec.toInt).insertionSort (· ≤ ·)).getD i 0 =
        (bubbleSort BitVec.toInt bArray iFilterLen i).toInt := by
    rw [← sorted]
    simp [inside]
  simp only [getMedianNum, median, ← length, Nat.and_one_is_mod]
  by_cases odd : iFilterLen % 2 = 1
  · rw [if_pos (by omega), if_pos odd, element (by omega)]
  · rw [if_neg (by omega), if_neg odd, element (by omega), element (by omega), toInt_mean]

/-! ## On an array -/

/-- `GetMedianNum` with every index checked against the array. -/
def getMedianNumArray (bArray : Array (BitVec 16)) (iFilterLen : Nat) :
    Option (BitVec 16 × Array (BitVec 16)) := do
  let bArray ← bubbleSortArray BitVec.toInt bArray iFilterLen
  let bTemp ←
    if iFilterLen &&& 1 > 0 then bArray[(iFilterLen - 1) / 2]?
    else do
      let upper ← bArray[iFilterLen / 2]?
      let lower ← bArray[iFilterLen / 2 - 1]?
      some (BitVec.ofInt 16 ((upper.toInt + lower.toInt).tdiv 2))
  some (bTemp, bArray)

/-- On an array it is the function on the memory the array is in. -/
theorem getMedianNumArray_eq {mem : Nat → BitVec 16} {bArray : Array (BitVec 16)} {n : Nat}
    (positive : 0 < n) (holds : Holds n mem bArray) :
    ∃ sorted, getMedianNumArray bArray n = some ((getMedianNum mem n).1, sorted) ∧
      Holds n (getMedianNum mem n).2 sorted := by
  obtain ⟨sorted, ran, result⟩ := bubbleSortArray_simulates BitVec.toInt holds
  refine ⟨sorted, ?_, result⟩
  simp only [getMedianNumArray, getMedianNum, ran, Option.bind_eq_bind, Option.bind_some]
  split_ifs with odd
  · rw [result.element _ (by omega), Option.bind_some]
  · have upper := result.element (n / 2) (by omega)
    have lower := result.element (n / 2 - 1) (by omega)
    simp only [upper, lower, Option.bind_some]

/-- For every array that is not empty all indices are inside, the array is left sorted, with the
elements it had, and the result is the element in the middle or the mean of the two in the
middle, truncated; their sum is an `int` and the mean a `short`. -/
theorem getMedianNum_sorts (bArray : Array (BitVec 16)) (positive : 0 < bArray.size) :
    ∃ (bTemp : BitVec 16) (sorted : Array (BitVec 16)),
      getMedianNumArray bArray bArray.size = some (bTemp, sorted) ∧
        sorted.toList.Perm bArray.toList ∧
          sorted.toList.Pairwise (fun x y => x.toInt ≤ y.toInt) ∧
            (bArray.size % 2 = 1 → sorted[(bArray.size - 1) / 2]? = some bTemp) ∧
              (bArray.size % 2 = 0 → ∃ x y, sorted[bArray.size / 2 - 1]? = some x ∧
                sorted[bArray.size / 2]? = some y ∧ FitsInt (x.toInt + y.toInt) ∧
                  -2 ^ 15 ≤ (x.toInt + y.toInt).tdiv 2 ∧ (x.toInt + y.toInt).tdiv 2 < 2 ^ 15 ∧
                    bTemp.toInt = (x.toInt + y.toInt).tdiv 2) := by
  obtain ⟨mem, holds⟩ := exists_holds positive
  obtain ⟨sorted, ran, result⟩ := getMedianNumArray_eq positive holds
  have element := result.element
  set n := bArray.size
  refine ⟨_, sorted, ran, ?_, ?_, ?_, ?_⟩
  · have same := content_bubbleSort BitVec.toInt mem n
    rw [content_eq_map, content_eq_map, Multiset.coe_eq_coe] at same
    rwa [result.toList_eq, holds.toList_eq]
  · rw [result.toList_eq, List.pairwise_map]
    refine List.pairwise_lt_range.imp_of_mem ?_
    intro i k _ inside before
    exact bubbleSort_sorted BitVec.toInt mem before.le (List.mem_range.mp inside)
  · intro odd
    rw [element _ (by omega), getMedianNum, Nat.and_one_is_mod, if_pos (by omega)]
  · intro even
    have mean := toInt_mean ((getMedianNum mem n).2 (n / 2)) ((getMedianNum mem n).2 (n / 2 - 1))
    set x := (getMedianNum mem n).2 (n / 2 - 1) with lower
    set y := (getMedianNum mem n).2 (n / 2) with upper
    refine ⟨x, y, element _ (by omega), element _ (by omega), ?_, ?_, ?_, ?_⟩
    · have := x.le_toInt
      have := x.toInt_lt
      have := y.le_toInt
      have := y.toInt_lt
      constructor <;> omega
    · rw [add_comm, ← mean]
      exact BitVec.le_toInt _
    · rw [add_comm, ← mean]
      exact BitVec.toInt_lt
    · rw [add_comm, ← mean, getMedianNum, Nat.and_one_is_mod, if_neg (by omega)]
      rfl

/-- Four values, two of them equal. -/
theorem getMedianNum_sorts_four :
    ∃ bTemp sorted, getMedianNumArray #[5, 0xFFFF, 2, 2] 4 = some (bTemp, sorted) ∧
      sorted.toList.Perm [5, 0xFFFF, 2, 2] := by
  obtain ⟨bTemp, sorted, ran, elements, -⟩ := getMedianNum_sorts #[5, 0xFFFF, 2, 2] (by decide)
  exact ⟨bTemp, sorted, ran, elements⟩

end Stm32Robot.Motor.ConvertData
