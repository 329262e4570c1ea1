/-
Reading a number in extended precision.

The digits of the number are taken as one whole number, until it has no room for
another digit in sixty-four bits; what follows is dropped.  The power of ten that is
left is worked off by factors of 10^100, 10^10 and 10, or of their inverses, and every
product is rounded to sixty-four significant bits, a half going to the even neighbour.
The last result is rounded to a double.  That is the double nearest to the number,
except where the number lies very near to the middle between two doubles or has more
digits than were taken.
-/
import Ideas.Decimal.Integer
import Ideas.Decimal.Shortest

namespace Ideas.Decimal

/-- The number `significand * 2 ^ exponent`. -/
structure Extended where
  significand : Nat
  exponent : Int
deriving DecidableEq, Repr

namespace Extended

/-- How many binary digits a number has. -/
def bitCount (n : Nat) : Nat :=
  if n = 0 then 0 else n.log2 + 1

/-- A number as a multiple of two to the `exponent`, rounded where it is none. -/
def inUnits (exponent : Int) (x : Extended) : Nat :=
  let shift := x.exponent - exponent
  roundDiv (x.significand * Nat.pow 2 shift.toNat) (Nat.pow 2 (-shift).toNat)

/-- A number rounded to the given count of binary digits. -/
def roundTo (bits : Nat) (x : Extended) : Extended :=
  let exponent := x.exponent + bitCount x.significand - bits
  ⟨x.inUnits exponent, exponent⟩

/-- How many binary digits a number keeps. -/
def precision : Nat := 64

/-- A product, rounded. -/
def mul (x y : Extended) : Extended :=
  roundTo precision ⟨x.significand * y.significand, x.exponent + y.exponent⟩

/-- A whole number, rounded. -/
def ofNat (n : Nat) : Extended :=
  roundTo precision ⟨n, 0⟩

/-- One divided by a whole number, rounded. -/
def ofInverse (n : Nat) : Extended :=
  let places := precision - 1 + bitCount n
  ⟨roundDiv (Nat.pow 2 places) n, -places⟩

/-- Multiply by the given power of ten, where `factor` is what stands for a whole power. -/
def scaleBy (factor : Nat → Extended) (power : Nat) (x : Extended) : Extended :=
  let times := fun count (y : Extended) (z : Extended) => Nat.repeat (mul y) count z
  let x := times (power / 100) (factor (Nat.pow 10 100)) x
  let x := times (power / 10 % 10) (factor (Nat.pow 10 10)) x
  times (power % 10) (factor 10) x

/-- Multiply by a power of ten. -/
def scale (power : Int) (x : Extended) : Extended :=
  scaleBy (if 0 ≤ power then ofNat else ofInverse) power.natAbs x

/-- The greatest double. -/
def greatestDouble : Extended := ⟨0x1fffffffffffff, 971⟩

/-- Whether a number is greater than another one. -/
def exceeds (x y : Extended) : Bool :=
  let shift := x.exponent - y.exponent
  y.significand * Nat.pow 2 (-shift).toNat < x.significand * Nat.pow 2 shift.toNat

/-- The nearest double, a half going to the even neighbour; all that exceeds the greatest double is
infinite. -/
def toFloat (x : Extended) : Float :=
  if x.significand = 0 then 0
  else if x.exceeds greatestDouble then 1 / 0
  else
    let exponent := max leastExponent (x.exponent + bitCount x.significand - 53)
    let bits := (exponent - leastExponent).toNat * leastNormal + x.inUnits exponent
    Float.ofBits bits.toUInt64

example : ofNat 10 = ⟨0xa000000000000000, -60⟩ := by decide +kernel
example : ofInverse 10 = ⟨0xcccccccccccccccd, -67⟩ := by decide +kernel

end Extended

/-! ### Written numbers -/

/-- A word with less than this has room for another digit. -/
def digitLimit : Nat := (greatestWord - 9) / 10

/-- Put a digit behind a whole number. -/
def putDigit (n : Nat) (c : Char) : Nat :=
  10 * n + (c.toNat - '0'.toNat)

/-- Put digits behind a whole number until it is full; the answer tells how many are left over. -/
def fillWord (n : Nat) : List Char → Nat × Nat
  | [] => (n, 0)
  | c :: rest =>
    let next := putDigit n c
    if next < digitLimit then fillWord next rest else (next, rest.length)

/-- Put the digits of a fraction behind a whole number as long as there is room; the answer tells how
many were put there. -/
def fillFraction (n : Nat) : List Char → Nat × Nat
  | [] => (n, 0)
  | c :: rest =>
    if n < digitLimit then
      let (word, count) := fillFraction (putDigit n c) rest
      (word, count + 1)
    else (n, 0)

/-- Move a power of ten into a whole number as far as there is room. -/
def absorbPower (n : Nat) : Nat → Nat × Nat
  | 0 => (n, 0)
  | power + 1 =>
    if n < greatestWord / 10 then absorbPower (10 * n) power else (n, power + 1)

/-- Cancel a power of ten in a denominator with the zeros at the end of a whole number. -/
def cancelPower (n : Nat) : Nat → Nat × Nat
  | 0 => (n, 0)
  | power + 1 => if n % 10 = 0 then cancelPower (n / 10) power else (n, power + 1)

/-- The exponent that digits spell, as far as it matters: what is beyond ten thousand is. -/
def cappedExponent (digits : List Char) : Nat :=
  digits.foldl (fun n c => if n < 10000 then putDigit n c else 10000) 0

/-- The double that a written number is read as in extended precision. -/
def Numeral.toFloatExtended (n : Numeral) : Float :=
  let (word, dropped) := fillWord 0 n.whole
  let (word, taken) := fillFraction word (n.fraction.getD [])
  let exponent : Int := match n.exponent with
    | none => 0
    | some e => if e.negative then -(cappedExponent e.digits : Int) else cappedExponent e.digits
  let power := exponent + dropped - taken
  let magnitude :=
    if word = 0 then 0
    else if 0 ≤ power then
      let (word, rest) := absorbPower word power.toNat
      ((Extended.ofNat word).scale rest).toFloat
    else
      let (word, rest) := cancelPower word power.natAbs
      ((Extended.ofNat word).scale (-rest)).toFloat
  if n.negative then -magnitude else magnitude

end Ideas.Decimal
