/-
Numbers as they are written: a sign, digits, a fraction and a power of ten.

A `Numeral` keeps the parts of a written number apart.  `Numeral.text` puts them
together again, and `Numeral.ofLiteral?` reads the everyday form, in which the
sign, the point with the digits on one of its sides, and the exponent may be
missing.  `Numeral.toFloat` is the double nearest to the number that the parts
denote.
-/

namespace Ideas.Decimal

/-- The power of ten behind a number: its sign and its digits. -/
structure Exponent where
  negative : Bool
  digits : List Char
deriving DecidableEq, Repr

/-- A written number. -/
structure Numeral where
  negative : Bool
  /-- The digits before the point. -/
  whole : List Char
  /-- The digits after the point, where there is one. -/
  fraction : Option (List Char)
  exponent : Option Exponent
deriving DecidableEq, Repr

/-- The number that decimal digits spell. -/
def digitsValue (digits : List Char) : Nat :=
  Nat.ofDigitChars 10 digits 0

/-- The digits of a number. -/
def digitsOf (n : Nat) : List Char :=
  Nat.toDigits 10 n

@[simp] theorem digitsValue_digitsOf (n : Nat) : digitsValue (digitsOf n) = n :=
  Nat.ofDigitChars_toDigits (by decide) (by decide)

theorem isDigit_of_mem_digitsOf {n : Nat} {c : Char} (h : c ∈ digitsOf n) : c.isDigit :=
  Nat.isDigit_of_mem_toDigits (by decide) (by decide) h

theorem digitsOf_ne_nil (n : Nat) : digitsOf n ≠ [] := by
  intro h
  have := digitsValue_digitsOf n
  rw [h] at this
  subst this
  exact absurd h (by decide)

/-- The double nearest to `coefficient` times ten to the `power`, a tie going to the even one. -/
def nearestFloat (coefficient : Nat) (power : Int) : Float :=
  let magnitude : Int := (digitsOf coefficient).length + power
  if coefficient = 0 ∨ magnitude < -330 then 0
  else if magnitude > 310 then 1 / 0
  else OfScientific.ofScientific coefficient (decide (power < 0)) power.natAbs

namespace Exponent

/-- The exponent as a number. -/
def value (e : Exponent) : Int :=
  if e.negative then -(digitsValue e.digits : Int) else digitsValue e.digits

/-- The exponent as it is written, always with its sign. -/
def chars (e : Exponent) : List Char :=
  'e' :: (if e.negative then '-' else '+') :: e.digits

end Exponent

namespace Numeral

/-- The characters of a written number. -/
def chars (n : Numeral) : List Char :=
  (if n.negative then ['-'] else []) ++ n.whole
    ++ (match n.fraction with
        | none => []
        | some digits => '.' :: digits)
    ++ (match n.exponent with
        | none => []
        | some e => e.chars)

/-- The text of a written number. -/
def text (n : Numeral) : String :=
  String.ofList n.chars

/-- The double nearest to a written number. -/
def toFloat (n : Numeral) : Float :=
  let fraction := n.fraction.getD []
  let power := (n.exponent.map Exponent.value).getD 0 - fraction.length
  let magnitude := nearestFloat (digitsValue (n.whole ++ fraction)) power
  if n.negative then -magnitude else magnitude

/-- Split a sign off; the answer tells whether it was a minus. -/
def splitSign : List Char → Bool × List Char
  | '-' :: rest => (true, rest)
  | '+' :: rest => (false, rest)
  | cs => (false, cs)

/-- Read an exponent that ends the text; a text that is empty has none. -/
def readExponent? : List Char → Option (Option Exponent)
  | [] => some none
  | c :: rest =>
    if c = 'e' ∨ c = 'E' then
      let (negative, digits) := splitSign rest
      if digits ≠ [] ∧ digits.all Char.isDigit then some (some ⟨negative, digits⟩) else none
    else none

/-- Read a number that fills the text: an optional sign, digits with an optional point among
them or at either end, and an optional exponent. -/
def ofLiteral? (cs : List Char) : Option Numeral :=
  let (negative, cs) := splitSign cs
  let whole := cs.takeWhile Char.isDigit
  match cs.dropWhile Char.isDigit with
  | '.' :: rest =>
    let fraction := rest.takeWhile Char.isDigit
    if whole = [] ∧ fraction = [] then none
    else (readExponent? (rest.dropWhile Char.isDigit)).map (⟨negative, whole, some fraction, ·⟩)
  | rest =>
    if whole = [] then none
    else (readExponent? rest).map (⟨negative, whole, none, ·⟩)

end Numeral

end Ideas.Decimal
