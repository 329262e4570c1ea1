/-
Values in the number columns of the tables.

A number column takes whatever it is given: a text that reads as a number is turned
into one, a number with nothing behind the point into a whole number, and any other
text stays a text.  So a cell of such a column has to be checked when it is read.
Numbers in texts are read in extended precision.
Whole numbers have sixty-four bits; counting beyond the greatest one gives a double.
-/
import Ideas.Decimal.Extended
import Ideas.Error

namespace Ideas.Database

/-- A value in a number column. -/
inductive Cell where
  | integer (n : Int)
  | real (x : Float)
  | text (s : String)

namespace Cell

/-- The blanks that may stand around a number. -/
def isSpace (c : Char) : Bool :=
  c = ' ' || ('\t' ≤ c && c ≤ '\r')

/-- A text without blanks at its ends. -/
def withoutSpaces (s : String) : List Char :=
  ((s.toList.dropWhile isSpace).reverse.dropWhile isSpace).reverse

/-- A double as a whole number, where it is one and has fewer than sixty-four bits. -/
def exactInteger? (x : Float) : Option Int :=
  match Decimal.Binary.ofFloat x with
  | .finite negative significand exponent =>
    let scale := Nat.pow 2 (-exponent).toNat
    let n : Int := significand * Nat.pow 2 exponent.toNat / scale
    let n := if negative then -n else n
    if significand % scale = 0 ∧ Decimal.leastInt64 < n ∧ n < Decimal.greatestInt64 then some n
    else none
  | _ => none

/-- A double as a column of whole numbers keeps it. -/
def ofReal (x : Float) : Cell :=
  match exactInteger? x with
  | some n => .integer n
  | none => .real x

/-- The double nearest to a whole number. -/
def nearestReal (n : Int) : Float :=
  let x := Decimal.nearestFloat n.natAbs 0
  if n < 0 then -x else x

/-- A whole number as a column keeps it: as a double where it has too many bits. -/
def ofInteger (n : Int) : Cell :=
  if Decimal.leastInt64 ≤ n ∧ n ≤ Decimal.greatestInt64 then .integer n
  else .real (nearestReal n)

/-- A text as a column of whole numbers keeps it. -/
def ofText (s : String) : Cell :=
  let cs := withoutSpaces s
  match Decimal.readInt64? cs, Decimal.Numeral.ofLiteral? cs with
  | some n, _ => .integer n
  | none, some n => ofReal n.toFloatExtended
  | none, none => .text s

/-- A double as a column of doubles keeps it: zero has no sign there. -/
def realOf (x : Float) : Cell :=
  .real (if x == 0 then 0 else x)

/-- A text as a column of doubles keeps it. -/
def realOfText (s : String) : Cell :=
  match Decimal.Numeral.ofLiteral? (withoutSpaces s) with
  | some n => realOf n.toFloatExtended
  | none => .text s

/-- A whole number as a column of doubles keeps it. -/
def realOfInteger (n : Int) : Cell :=
  .real (nearestReal n)

/-- The longest start of a text that is a number, as a number: zero where there is none. -/
def leadingNumber (s : String) : Cell :=
  let cs := s.toList.dropWhile isSpace
  let starts := (List.range (cs.length + 1)).reverse.map cs.take
  match starts.findSome? Decimal.Numeral.ofLiteral? with
  | none => .integer 0
  | some n =>
    let value : Int := if n.negative then -Decimal.digitsValue n.whole else Decimal.digitsValue n.whole
    if n.fraction.isNone ∧ n.exponent.isNone ∧ Decimal.leastInt64 ≤ value
        ∧ value ≤ Decimal.greatestInt64 then
      .integer value
    else .real n.toFloatExtended

/-- The cell counted up by one. -/
def next : Cell → Cell
  | .integer n => ofInteger (n + 1)
  | .real x => ofReal (x + 1)
  | .text s =>
    match leadingNumber s with
    | .integer n => ofInteger (n + 1)
    | .real x => ofReal (x + 1)
    | .text _ => .integer 1

/-- The whole number in a cell. -/
def toInteger : Cell → Except StoreError Int
  | .integer n => .ok n
  | _ => .error .mismatch

/-- The truth value in a cell: any whole number but zero is true. -/
def toBool (c : Cell) : Except StoreError Bool :=
  c.toInteger.map (· ≠ 0)

/-- The double in a cell. -/
def toReal : Cell → Except StoreError Float
  | .real x => .ok x
  | .integer n => .ok (nearestReal n)
  | .text _ => .error .mismatch

/-- Whether a cell holds a given whole number. -/
def isInteger (n : Int) : Cell → Bool
  | .integer m => m = n
  | _ => false

end Cell

/-- A count as the tables keep it; a count with too many bits is refused. -/
def ofCount (n : Nat) : Except StoreError Int :=
  if (n : Int) ≤ Decimal.greatestInt64 then .ok n
  else .error (.invalidData (.integerOutOfRange n))

/-- A count that the tables keep; one below zero is refused. -/
def toCount (n : Int) : Except StoreError Nat :=
  if 0 ≤ n then .ok n.toNat else .error (.invalidData (.negativeInteger n))

end Ideas.Database
