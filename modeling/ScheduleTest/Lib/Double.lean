import Mathlib.Data.Rat.Floor
import Mathlib.Tactic.NormNum

/-!
# Rounding to a double

An operation on `double`s gives the double nearest to its exact result, of two that are equally near the one with the even
mantissa. Doubles are taken as the rational numbers they are: a program on doubles is a program on rational numbers that rounds the
result of each of its operations, and what is proved of every rounding holds of this one. What is too large for a double is not
cut off here.
-/

namespace Double

/-- The integer nearest to a number, the even one of two. -/
def nearestEven (q : ℚ) : ℤ :=
  if q - ⌊q⌋ < 1 / 2 then ⌊q⌋
  else if 1 / 2 < q - ⌊q⌋ then ⌊q⌋ + 1
  else if ⌊q⌋ % 2 = 0 then ⌊q⌋
  else ⌊q⌋ + 1

/-- The exponent of a number: `2 ^ exponent q` is the largest power of two that is not above `|q|`. -/
def exponent (q : ℚ) : ℤ :=
  let estimate : ℤ := q.num.natAbs.log2 - q.den.log2
  if |q| < 2 ^ estimate then estimate - 1 else estimate

/-- The distance of the doubles around a number: a mantissa has 53 bits, and the smallest double is `2 ^ -1074`. -/
def ulp (q : ℚ) : ℚ := 2 ^ max (exponent q - 52) (-1074)

/-- The double nearest to a number. -/
def nearest (q : ℚ) : ℚ := nearestEven (q / ulp q) * ulp q

/-- 0.1 is not a double: the nearest one is above it. -/
example : nearest (1 / 10) = 3602879701896397 / 2 ^ 55 := by decide +kernel

end Double
