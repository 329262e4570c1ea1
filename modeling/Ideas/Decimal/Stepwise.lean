/-
Reading a number by steps in double arithmetic.

The digits of the number are taken as a whole number as long as they fit into
sixty-four bits; what follows is dropped.  That whole number, as a double, is then
multiplied or divided by a power of ten.  The result is at most a little off the
nearest double, and it is what readers of data files take for the number, so that
files mean the same to all of them.  A number too large for a double is refused.
-/
import Ideas.Decimal.Integer

namespace Ideas.Decimal

/-- Put digits behind a whole number as long as it fits; the answer has the digits left over. -/
def takeDigits (n : Nat) : List Char → Nat × List Char
  | [] => (n, [])
  | c :: rest =>
    let next := 10 * n + (c.toNat - '0'.toNat)
    if next ≤ greatestWord then takeDigits next rest else (n, c :: rest)

/-- A power of ten as a double. -/
def powerOfTen (n : Nat) : Float :=
  nearestFloat 1 n

/-- Multiply a double by a power of ten, in steps of at most 10^308. -/
def scaleByPower (x : Float) (power : Int) : Option Float :=
  if power.natAbs ≤ 308 then
    if 0 ≤ power then
      let y := x * powerOfTen power.natAbs
      if y.isInf then none else some y
    else some (x / powerOfTen power.natAbs)
  else if x == 0 then some x
  else if 0 ≤ power then none
  else scaleByPower (x / powerOfTen 308) (power + 308)
termination_by (-power).toNat

/-- The double that a written number is read as; no answer for one that is too large. -/
def Numeral.toFloatByStep? (n : Numeral) : Option Float :=
  let (whole, dropped) := takeDigits 0 n.whole
  let fraction := n.fraction.getD []
  let (word, unused) := takeDigits whole fraction
  let kept : Int := fraction.length - unused.length
  let power := (n.exponent.map Exponent.value).getD 0 + dropped.length - kept
  (scaleByPower (Float.ofNat word) power).map fun x => if n.negative then -x else x

/-- The whole number that was written, where it was written without point and exponent and is not
negative; a zero with a sign is none. -/
def Numeral.toNat? (n : Numeral) : Option Nat :=
  if n.negative ∨ n.fraction.isSome ∨ n.exponent.isSome then none else some (digitsValue n.whole)

/-- A whole number as it is written. -/
def Numeral.ofNat (n : Nat) : Numeral :=
  ⟨false, digitsOf n, none, none⟩

theorem Numeral.toNat?_ofNat (n : Nat) : (Numeral.ofNat n).toNat? = some n := by
  simp [Numeral.toNat?, Numeral.ofNat]

end Ideas.Decimal
