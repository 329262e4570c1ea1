/-
How numbers are written out.

A `Style` says which numbers are written without a power of ten, whether a whole
number keeps a fraction of `.0`, and how a tie between two shortest decimals ends.
`plainText` is the style for people, `Style.dataText` the one of data files;
`fixedText` rounds to a given count of places after the point, a half going to the
even neighbour.
-/
import Ideas.Decimal.Integer
import Ideas.Decimal.Shortest

namespace Ideas.Decimal

/-- A way to write doubles. -/
structure Style where
  /-- Whether a number is written without a power of ten, by the place of its point. -/
  positional : Int → Bool
  /-- Whether a whole number is written with a fraction of zero. -/
  keepFraction : Bool
  tie : Tie

/-- The style for people: never a power of ten, and no point in a whole number. -/
def Style.plain : Style := ⟨fun _ => true, false, .up⟩

/-- The style of data files: a power of ten from 10^16 on and below 10^-5, and a point in
every number without one. -/
def Style.data : Style := ⟨fun point => -5 < point ∧ point ≤ 16, true, .even⟩

namespace Style

/-- Write digits whose point stands after the first `point` of them. -/
def positionalParts (style : Style) (digits : List Char) (point : Int) :
    List Char × Option (List Char) :=
  if point ≤ 0 then (['0'], some (List.replicate (-point).toNat '0' ++ digits))
  else
    let count := point.toNat
    if digits.length ≤ count then
      (digits ++ List.replicate (count - digits.length) '0',
        if style.keepFraction then some ['0'] else none)
    else (digits.take count, some (digits.drop count))

/-- Write a decimal. -/
def numeral (style : Style) (negative : Bool) (d : Scaled) : Numeral :=
  let digits := digitsOf d.coefficient
  let point := digits.length + d.power
  if style.positional point then
    let (whole, fraction) := style.positionalParts digits point
    ⟨negative, whole, fraction, none⟩
  else
    let power := point - 1
    ⟨negative, digits.take 1, if digits.length ≤ 1 then none else some (digits.drop 1),
      some ⟨decide (power < 0), digitsOf power.natAbs⟩⟩

/-- The number that a finite double is written as. -/
def numeral? (style : Style) (x : Float) : Option Numeral :=
  match Binary.ofFloat x with
  | .finite negative significand exponent =>
    let d := if significand = 0 then ⟨0, 0⟩ else shortest style.tie significand exponent
    some (style.numeral negative d)
  | _ => none

end Style

-- Where the style of data files turns to powers of ten.
example : (Style.data.numeral false ⟨1, 15⟩).text = "1000000000000000.0" := by decide
example : (Style.data.numeral false ⟨1, 16⟩).text = "1e+16" := by decide
example : (Style.data.numeral false ⟨15, -6⟩).text = "0.000015" := by decide
example : (Style.data.numeral false ⟨1, -5⟩).text = "0.00001" := by decide
example : (Style.data.numeral false ⟨15, -7⟩).text = "1.5e-6" := by decide
example : (Style.data.numeral true ⟨0, 0⟩).text = "-0.0" := by decide

-- The style for people never does.
example : (Style.plain.numeral false ⟨1, 21⟩).text = "1000000000000000000000" := by decide
example : (Style.plain.numeral false ⟨125, -2⟩).text = "1.25" := by decide
example : (Style.plain.numeral true ⟨0, 0⟩).text = "-0" := by decide

/-- A double in the style for people. -/
def plainText (x : Float) : String :=
  match Style.plain.numeral? x, Binary.ofFloat x with
  | some n, _ => n.text
  | none, .infinite true => "-inf"
  | none, .infinite false => "inf"
  | none, _ => "NaN"

/-- A double with the given count of places after the point. -/
def fixedText (places : Nat) (x : Float) : String :=
  match Binary.ofFloat x with
  | .finite negative significand exponent =>
    let unit := Nat.pow 10 places
    let units :=
      roundDiv (significand * Nat.pow 2 exponent.toNat * unit) (Nat.pow 2 (-exponent).toNat)
    let fraction := digitsOf (units % unit)
    let padded := List.replicate (places - fraction.length) '0' ++ fraction
    (Numeral.mk negative (digitsOf (units / unit))
      (if places = 0 then none else some padded) none).text
  | .infinite true => "-inf"
  | .infinite false => "inf"
  | .nan => "NaN"

end Ideas.Decimal
