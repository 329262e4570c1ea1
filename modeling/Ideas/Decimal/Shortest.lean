/-
The shortest decimal that names a double.

A finite double is a significand times a power of two, and the reals that round to
it fill an interval around it, ends included when the significand is even.  For one
digit, two digits, and so on up to seventeen, the decimals of that many digits form
a grid; the first grid that has a point in the interval gives the answer.  On that
grid only the two neighbours of the double need to be tried, and of two hits the
nearer one is taken.  All of it is arithmetic on natural numbers.
-/
import Ideas.Decimal.Numeral

namespace Ideas.Decimal

/-- A double taken apart. -/
inductive Binary where
  | nan
  | infinite (negative : Bool)
  /-- The number `significand * 2 ^ exponent`, with its sign. -/
  | finite (negative : Bool) (significand : Nat) (exponent : Int)
deriving DecidableEq, Repr

/-- The significand of the least normal double of each power of two. -/
def leastNormal : Nat := 0x10000000000000

/-- The exponent of the doubles nearest to zero. -/
def leastExponent : Int := -1074

/-- Take the sixty-four bits of a double apart. -/
def Binary.ofBits (bits : Nat) : Binary :=
  let negative := decide (0x8000000000000000 ≤ bits)
  let biased : Nat := bits / leastNormal % 2048
  let fraction := bits % leastNormal
  if biased = 2047 then
    if fraction = 0 then .infinite negative else .nan
  else if biased = 0 then .finite negative fraction leastExponent
  else .finite negative (leastNormal + fraction) (leastExponent + ((biased : Int) - 1))

/-- Take a double apart. -/
def Binary.ofFloat (x : Float) : Binary :=
  Binary.ofBits x.toBits.toNat

/-- A double is finite when it is neither infinite nor no number at all. -/
def isFinite (x : Float) : Bool :=
  match Binary.ofFloat x with
  | .finite .. => true
  | _ => false

/-- The decimal `coefficient * 10 ^ power`. -/
structure Scaled where
  coefficient : Nat
  power : Int
deriving DecidableEq, Repr

/-- Which of two decimals is taken when a double lies halfway between them. -/
inductive Tie where
  | up
  | even
deriving DecidableEq, Repr

/-- The reals that round to a positive double, and the double itself, as multiples of
`1 / denominator`. -/
structure Interval where
  low : Nat
  value : Nat
  high : Nat
  denominator : Nat
  /-- Whether the ends belong to it. -/
  closed : Bool

/-- The interval of a positive double. -/
def Interval.of (significand : Nat) (exponent : Int) : Interval :=
  let below := if significand = leastNormal ∧ exponent ≠ leastExponent then 1 else 2
  let power := exponent - 2
  let scale := Nat.pow 2 power.toNat
  { low := (4 * significand - below) * scale
    value := 4 * significand * scale
    high := (4 * significand + 2) * scale
    denominator := Nat.pow 2 (-power).toNat
    closed := significand % 2 == 0 }

namespace Interval

/-- How many digits stand before the point; negative when zeros follow it. -/
def pointPlace (i : Interval) : Int :=
  (digitsOf (i.value * Nat.pow 10 330 / i.denominator)).length - 330

/-- The interval with all numbers ten to the `power` times as large. -/
def scale (i : Interval) (power : Int) : Interval :=
  let up := Nat.pow 10 power.toNat
  { i with
    low := i.low * up
    value := i.value * up
    high := i.high * up
    denominator := i.denominator * Nat.pow 10 (-power).toNat }

/-- Whether a whole number lies in the interval. -/
def contains (i : Interval) (n : Nat) : Bool :=
  let n := n * i.denominator
  if i.closed then i.low ≤ n && n ≤ i.high else i.low < n && n < i.high

/-- The whole number in the interval that is nearest to its value, among the two neighbours. -/
def nearest? (i : Interval) (tie : Tie) : Option Nat :=
  let down := i.value / i.denominator
  let rest := 2 * (i.value % i.denominator)
  match i.contains down, i.contains (down + 1) with
  | true, true =>
    if rest < i.denominator then some down
    else if rest > i.denominator then some (down + 1)
    else match tie with
      | .up => some (down + 1)
      | .even => some (if down % 2 = 0 then down else down + 1)
  | true, false => some down
  | false, true => some (down + 1)
  | false, false => none

end Interval

/-- Drop the zeros at the end of a coefficient; `count` bounds how many are looked at. -/
def Scaled.dropZeros : Nat → Scaled → Scaled
  | 0, d => d
  | count + 1, d =>
    if d.coefficient ≠ 0 ∧ d.coefficient % 10 = 0 then
      dropZeros count ⟨d.coefficient / 10, d.power + 1⟩
    else d

/-- The shortest decimal that reads back as the positive double `significand * 2 ^ exponent`. -/
def shortest (tie : Tie) (significand : Nat) (exponent : Int) : Scaled :=
  let interval := Interval.of significand exponent
  let point := interval.pointPlace
  let onGrid := fun (digits : Nat) =>
    let power := point - digits
    ((interval.scale (-power)).nearest? tie).map fun n => (⟨n, power⟩ : Scaled)
  (((List.range 17).findSome? fun n => onGrid (n + 1)).getD ⟨significand, exponent⟩).dropZeros 17

-- The least double and the greatest one.
example : shortest .even 1 (-1074) = ⟨5, -324⟩ := by decide +kernel
example : shortest .even 0x1fffffffffffff 971 = ⟨17976931348623157, 292⟩ := by decide +kernel

end Ideas.Decimal
