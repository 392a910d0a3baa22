import Mathlib.Algebra.Order.Ring.Int
import Mathlib.Data.List.Basic

/-!
# The order of the machines

`string_numeric_comparator` (`machines.cpp`) compares two strings, where digits that stand at one place in both are compared by the
numbers they begin. The machines are sorted by it. A string is the list of its characters, which are signed.
-/

namespace ScheduleTest

namespace MachineNames

/-- `isdigit`. -/
def isdigit (c : Int8) : Bool := 48 ≤ c.toInt && c.toInt ≤ 57

/-- `LONG_MIN`. -/
def longMin : ℤ := -2 ^ 63

/-- `LONG_MAX`. -/
def longMax : ℤ := 2 ^ 63 - 1

/-- The number of some digits. -/
def numberOf (digits : List Int8) : ℤ := digits.foldl (fun n c => 10 * n + (c.toInt - 48)) 0

/-- `strtol` on a text that begins with a digit, in base 10: a number that is too large is `LONG_MAX`. -/
def strtol (s : List Int8) : ℤ × List Int8 := (min (numberOf (s.takeWhile isdigit)) longMax, s.dropWhile isdigit)

/-- `static_cast<int>`. -/
def toInt32 (z : ℤ) : ℤ := z.bmod (2 ^ 32)

/-- What `strtol` leaves is shorter. -/
theorem length_strtol {c : Int8} (h : isdigit c = true) (s : List Int8) : (strtol (c :: s)).2.length < (c :: s).length := by
  have hdrop : (c :: s).dropWhile isdigit = s.dropWhile isdigit := List.dropWhile_cons_of_pos h
  have hle : (s.dropWhile isdigit).length ≤ s.length := (List.dropWhile_sublist isdigit).length_le
  change ((c :: s).dropWhile isdigit).length < _
  rw [hdrop, List.length_cons]
  omega

/-- `string_numeric_comparator`. An assertion that fails has no result; both assertions ask whether the first number is too large. -/
def stringNumericComparator : List Int8 → List Int8 → Option ℤ
  | c1 :: p1, c2 :: p2 =>
    if _ : isdigit c1 ∧ isdigit c2 then
      let int1 := (strtol (c1 :: p1)).1
      let int2 := (strtol (c2 :: p2)).1
      if int1 = longMin ∨ int1 = longMax then none
      else if int2 = longMin ∨ int1 = longMax then none
      else if int1 ≠ int2 then some (toInt32 (int1 - int2))
      else stringNumericComparator (strtol (c1 :: p1)).2 (strtol (c2 :: p2)).2
    else if c1 ≠ c2 then some (c1.toInt - c2.toInt)
    else stringNumericComparator p1 p2
  | _ :: _, [] => some 1
  | [], _ :: _ => some (-1)
  | [], [] => some 0
  termination_by s1 => s1.length
  decreasing_by
  · have hdigits : isdigit c1 = true ∧ isdigit c2 = true := ‹_›
    exact length_strtol hdigits.1 p1
  · exact Nat.lt_succ_self _

/-- `strcmp`: unsigned characters are compared, up to the null character that ends a string. -/
def strcmp : List Int8 → List Int8 → ℤ
  | [], [] => 0
  | c1 :: _, [] => c1.toUInt8.toNat
  | [], c2 :: _ => -c2.toUInt8.toNat
  | c1 :: s1, c2 :: s2 => if c1 ≠ c2 then (c1.toUInt8.toNat : ℤ) - c2.toUInt8.toNat else if c1 = 0 then 0 else strcmp s1 s2

/-- `machine_comparator_name`, for the names of two machines. -/
def machineComparatorName (name1 name2 : List Int8) : Option Bool :=
  (stringNumericComparator name1 name2).map fun cmpRet => (if cmpRet = 0 then strcmp name1 name2 else cmpRet) ≤ 0

end MachineNames

end ScheduleTest
