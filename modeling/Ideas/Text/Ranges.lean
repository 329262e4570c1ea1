/-
Sets of characters, written the way the Unicode tables write them.

A property of characters is a list of ranges of code points, `41-5A AA B5`, in
hexadecimal and parted by blanks.  `Ranges.ofText` reads that form once, when the
program starts, and `Ranges.contains` looks a character up.  A mapping of
characters, such as lower case, is a list of ranges as well, each with the place
its first character goes to: `41-5A>61` moves a run, and `100-12E/2>101` moves
every second character of one.
-/
import Ideas.Text.Hex

namespace Ideas.Text

/-- The code point that a run of hexadecimal digits names. -/
def codePoint (digits : List Char) : Nat :=
  (ofHexDigits? digits).getD 0

/-- The pieces of a text between blanks and line ends. -/
def blankSeparated (text : String) : List (List Char) :=
  let close := fun (word : List Char) (words : List (List Char)) =>
    if word.isEmpty then words else word.reverse :: words
  let (word, words) := text.toList.foldl
    (fun (word, words) c =>
      if c = ' ' ∨ c = '\n' then ([], close word words) else (c :: word, words))
    (([], []) : List Char × List (List Char))
  (close word words).reverse

/-- The part of a word before its first `mark`, and the part after it where there is one. -/
def cutAt (mark : Char) (word : List Char) : List Char × Option (List Char) :=
  match word.dropWhile (· ≠ mark) with
  | [] => (word, none)
  | _ :: rest => (word.takeWhile (· ≠ mark), some rest)

/-- A set of characters as ranges of code points, both ends included. -/
abbrev Ranges := Array (Nat × Nat)

namespace Ranges

/-- One range, `41-5A` or `AA`. -/
def readRange (word : List Char) : Nat × Nat :=
  let (low, high) := cutAt '-' word
  (codePoint low, codePoint (high.getD low))

/-- Read a list of ranges. -/
def ofText (text : String) : Ranges :=
  ((blankSeparated text).map readRange).toArray

/-- Whether a character is in one of the ranges. -/
def contains (ranges : Ranges) (c : Char) : Bool :=
  ranges.any fun (low, high) => low ≤ c.toNat && c.toNat ≤ high

end Ranges

/-- A run of characters `low`, `low + step`, … up to `high` that moves to `target` and on. -/
structure Shift where
  low : Nat
  high : Nat
  step : Nat
  target : Nat

namespace Shift

/-- One run, `41-5A>61`, `100-12E/2>101` or `178>FF`. -/
def read (word : List Char) : Shift :=
  let (source, target) := cutAt '>' word
  let (range, step) := cutAt '/' source
  let (low, high) := Ranges.readRange range
  ⟨low, high, codePoint (step.getD ['1']), codePoint (target.getD [])⟩

/-- Read a mapping. -/
def ofText (text : String) : Array Shift :=
  ((blankSeparated text).map read).toArray

/-- Where a run sends a character of its own; no answer for any other character. -/
def image? (shift : Shift) (c : Char) : Option Char :=
  if shift.low ≤ c.toNat ∧ c.toNat ≤ shift.high ∧ (c.toNat - shift.low) % shift.step = 0 then
    some (Char.ofNat (shift.target + (c.toNat - shift.low)))
  else none

end Shift

end Ideas.Text
