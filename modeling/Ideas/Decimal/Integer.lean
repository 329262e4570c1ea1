/-
Whole numbers: the bounds of those of sixty-four bits, rounding a quotient to one, and
reading one, which is an optional sign and digits, and nothing else.
-/
import Ideas.Decimal.Numeral

namespace Ideas.Decimal

/-- The greatest whole number of sixty-four bits without a sign. -/
def greatestWord : Nat := 0xffffffffffffffff

/-- The greatest whole number of sixty-four bits with a sign. -/
def greatestInt64 : Int := 0x7fffffffffffffff

/-- The least whole number of sixty-four bits with a sign. -/
def leastInt64 : Int := -0x8000000000000000

/-- A quotient rounded to the nearest whole number, a half to the even neighbour. -/
def roundDiv (numerator denominator : Nat) : Nat :=
  let down := numerator / denominator
  let rest := 2 * (numerator % denominator)
  if rest < denominator then down
  else if rest > denominator then down + 1
  else if down % 2 = 0 then down else down + 1

example : roundDiv 5 2 = 2 ∧ roundDiv 7 2 = 4 ∧ roundDiv 8 3 = 3 := by decide

/-- The whole number that fills a text. -/
def readInt? (cs : List Char) : Option Int :=
  let (negative, digits) := Numeral.splitSign cs
  if digits ≠ [] ∧ digits.all Char.isDigit then
    let n : Int := digitsValue digits
    some (if negative then -n else n)
  else none

/-- The whole number of sixty-four bits with a sign that fills a text. -/
def readInt64? (cs : List Char) : Option Int :=
  (readInt? cs).filter fun n => leastInt64 ≤ n ∧ n ≤ greatestInt64

end Ideas.Decimal
