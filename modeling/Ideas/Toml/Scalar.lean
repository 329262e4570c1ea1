/-
The plain values of TOML: strings, numbers, dates and truth values.

Strings come in four kinds, with and without escapes, on one line and on several.
All other plain values are single words: a run of letters, digits, signs, points and
colons, in a date perhaps with a blank before the time.  A word is read as a whole, so
that it either is a value or is none.
-/
import Ideas.Decimal.Integer
import Ideas.Text.Hex
import Ideas.Toml

namespace Ideas.Toml

/-! ### Strings -/

/-- The characters that may stand in strings and comments as they are. -/
def isPlain (c : Char) : Bool :=
  c = '\t' || (' ' ≤ c && c ≤ '~') || '\u0080' ≤ c

/-- The character that an escape of hexadecimal digits names. -/
def escapedChar? (digits : List Char) : Option Char := do
  let n ← Text.ofHexDigits? digits
  if n < 0xD800 ∨ (0xE000 ≤ n ∧ n < 0x110000) then some (Char.ofNat n) else none

/-- The character that a backslash and one more character stand for. -/
def shortEscape? (c : Char) : Option Char :=
  if c = '"' ∨ c = '\\' then some c
  else if c = 'b' then some '\x08'
  else if c = 't' then some '\t'
  else if c = 'n' then some '\n'
  else if c = 'f' then some '\x0c'
  else if c = 'r' then some '\r'
  else none

/-- Put a character in front of what was read. -/
def andThen (c : Char) (read : Option (List Char × List Char)) :
    Option (List Char × List Char) :=
  read.map fun (cs, rest) => (c :: cs, rest)

/-- Read the escape after a backslash; the answer has the character and what follows it. -/
def readEscape : List Char → Option (Char × List Char)
  | 'u' :: a :: b :: c :: d :: rest => (escapedChar? [a, b, c, d]).map (·, rest)
  | 'U' :: a :: b :: c :: d :: e :: f :: g :: h :: rest =>
    (escapedChar? [a, b, c, d, e, f, g, h]).map (·, rest)
  | c :: rest => (shortEscape? c).map (·, rest)
  | [] => none

/-- Drop blanks and line ends. -/
def dropLines : List Char → List Char
  | ' ' :: rest => dropLines rest
  | '\t' :: rest => dropLines rest
  | '\n' :: rest => dropLines rest
  | '\r' :: '\n' :: rest => dropLines rest
  | cs => cs

/-- What follows a backslash at the end of a line, if nothing but blanks follows it there. -/
def lineJoin? (cs : List Char) : Option (List Char) :=
  match cs.dropWhile fun c => c = ' ' || c = '\t' with
  | '\n' :: rest => some (dropLines rest)
  | '\r' :: '\n' :: rest => some (dropLines rest)
  | _ => none

/-- Read a string with escapes on one line, from after its first quote; `count` bounds the number
of characters. -/
def readBasic : Nat → List Char → Option (List Char × List Char)
  | 0, _ => none
  | count + 1, cs =>
    match cs with
    | '"' :: rest => some ([], rest)
    | '\\' :: rest => do
      let (c, rest) ← readEscape rest
      andThen c (readBasic count rest)
    | c :: rest => if isPlain c then andThen c (readBasic count rest) else none
    | [] => none

/-- Read a string without escapes on one line, from after its first quote. -/
def readLiteral : List Char → Option (List Char × List Char)
  | '\'' :: rest => some ([], rest)
  | c :: rest => if isPlain c then andThen c (readLiteral rest) else none
  | [] => none

/-- Where three to five quotes follow, the string ends there: up to two of them are its own. -/
def closingQuotes? (quote : Char) (cs : List Char) : Option (List Char × List Char) :=
  let run := (cs.takeWhile (· = quote)).length
  if run < 3 then none
  else
    let own := min (run - 3) 2
    some (List.replicate own quote, cs.drop (own + 3))

/-- Read a string on several lines, from after its first quotes; `escapes` tells whether a
backslash is special, and `count` bounds the number of characters. -/
def readLong (quote : Char) (escapes : Bool) : Nat → List Char → Option (List Char × List Char)
  | 0, _ => none
  | count + 1, cs =>
    match closingQuotes? quote cs with
    | some closing => some closing
    | none =>
      match cs with
      | '\n' :: rest => andThen '\n' (readLong quote escapes count rest)
      | '\r' :: '\n' :: rest => andThen '\n' (readLong quote escapes count rest)
      | '\\' :: rest =>
        if escapes then
          match lineJoin? rest with
          | some rest => readLong quote escapes count rest
          | none => do
            let (c, rest) ← readEscape rest
            andThen c (readLong quote escapes count rest)
        else andThen '\\' (readLong quote escapes count rest)
      | c :: rest =>
        if isPlain c then andThen c (readLong quote escapes count rest) else none
      | [] => none

/-- Drop the line end right after the quotes that open a string on several lines. -/
def dropFirstLineEnd : List Char → List Char
  | '\n' :: rest => rest
  | '\r' :: '\n' :: rest => rest
  | cs => cs

/-- Read a string on one line, with its quotes. -/
def readShortString? : List Char → Option (String × List Char)
  | '"' :: rest => (readBasic (rest.length + 1) rest).map fun (s, rest) => (String.ofList s, rest)
  | '\'' :: rest => (readLiteral rest).map fun (s, rest) => (String.ofList s, rest)
  | _ => none

/-- Read a string of any kind, with its quotes. -/
def readString? (cs : List Char) : Option (String × List Char) :=
  let long := fun quote escapes rest =>
    let rest := dropFirstLineEnd rest
    (readLong quote escapes (rest.length + 1) rest).map fun (s, rest) => (String.ofList s, rest)
  match cs with
  | '"' :: '"' :: '"' :: rest => long '"' true rest
  | '\'' :: '\'' :: '\'' :: rest => long '\'' false rest
  | _ => readShortString? cs

/-! ### Numbers -/

/-- Digits with single underscores between them, without the underscores. -/
def groupedDigits? (isDigit : Char → Bool) : List Char → Option (List Char)
  | [] => none
  | [c] => if isDigit c then some [c] else none
  | c :: '_' :: rest => if isDigit c then (groupedDigits? isDigit rest).map (c :: ·) else none
  | c :: rest => if isDigit c then (groupedDigits? isDigit rest).map (c :: ·) else none

/-- The digits of a decimal number before its point: no zeros in front. -/
def wholeDigits? (cs : List Char) : Option (List Char) := do
  let digits ← groupedDigits? Char.isDigit cs
  if digits.length > 1 ∧ digits.head? = some '0' then none else some digits

/-- A whole number of at most sixty-four bits with its sign. -/
def fitInt64 (n : Int) : Option Value :=
  if Decimal.leastInt64 ≤ n ∧ n ≤ Decimal.greatestInt64 then some (.integer n) else none

/-- A whole number to a base other than ten. -/
def readBased? (base : Nat) (cs : List Char) : Option Value := do
  let inBase := fun c => match Text.hexValue? c with
    | some d => decide (d < base)
    | none => false
  let digits ← groupedDigits? inBase cs
  fitInt64 (digits.foldl (fun n c => base * n + (Text.hexValue? c).getD 0) 0 : Nat)

/-- A word before one of the marks, the mark, and the word after it. -/
def cutAtAny (marks : List Char) (word : List Char) : List Char × Option (Char × List Char) :=
  match word.dropWhile (· ∉ marks) with
  | [] => (word, none)
  | mark :: rest => (word.takeWhile (· ∉ marks), some (mark, rest))

/-- The exponent of a number, where there is one. -/
def readExponent? : Option (Char × List Char) → Option (Option Decimal.Exponent)
  | none => some none
  | some (_, cs) => do
    let (negative, digits) := Decimal.Numeral.splitSign cs
    return some ⟨negative, ← groupedDigits? Char.isDigit digits⟩

/-- A number with a point or an exponent; one that is too large and positive is refused. -/
def readFloat? (negative : Bool) (cs : List Char) : Option Value := do
  let (mantissa, exponent) := cutAtAny ['e', 'E'] cs
  let (whole, fraction) := cutAtAny ['.'] mantissa
  let whole ← wholeDigits? whole
  let fraction ← match fraction with
    | none => some none
    | some (_, digits) => (groupedDigits? Char.isDigit digits).map some
  let exponent ← readExponent? exponent
  let x := Decimal.Numeral.toFloat ⟨negative, whole, fraction, exponent⟩
  if x.isInf ∧ !negative then none else some (.float x)

/-- A number, infinity, or no number at all, with its sign. -/
def readNumber? (word : List Char) : Option Value :=
  let (negative, cs) := Decimal.Numeral.splitSign word
  if cs = "inf".toList then some (.float (if negative then -1.0 / 0.0 else 1.0 / 0.0))
  else if cs = "nan".toList then some (.float (0.0 / 0.0))
  else match word with
    | '0' :: 'x' :: digits => readBased? 16 digits
    | '0' :: 'o' :: digits => readBased? 8 digits
    | '0' :: 'b' :: digits => readBased? 2 digits
    | _ =>
      if cs.any fun c => c = '.' ∨ c = 'e' ∨ c = 'E' then readFloat? negative cs
      else do
        let n : Int := Decimal.digitsValue (← wholeDigits? cs)
        fitInt64 (if negative then -n else n)

/-! ### Dates and times -/

/-- The number that exactly `count` digits spell. -/
def fixedDigits? (count : Nat) (cs : List Char) : Option Nat :=
  if cs.length = count ∧ cs.all Char.isDigit then some (Decimal.digitsValue cs) else none

/-- The number of days of a month. -/
def daysIn (year month : Nat) : Nat :=
  if month = 2 then
    if year % 4 = 0 ∧ (year % 100 ≠ 0 ∨ year % 400 = 0) then 29 else 28
  else if month ∈ [4, 6, 9, 11] then 30
  else 31

/-- Whether a word is a date. -/
def isDate : List Char → Bool
  | y1 :: y2 :: y3 :: y4 :: '-' :: m1 :: m2 :: '-' :: d1 :: d2 :: [] =>
    match fixedDigits? 4 [y1, y2, y3, y4], fixedDigits? 2 [m1, m2], fixedDigits? 2 [d1, d2] with
    | some year, some month, some day =>
      1 ≤ month && month ≤ 12 && 1 ≤ day && day ≤ daysIn year month
    | _, _, _ => false
  | _ => false

/-- Whether a word is a time of day. -/
def isTime : List Char → Bool
  | h1 :: h2 :: ':' :: m1 :: m2 :: ':' :: s1 :: s2 :: rest =>
    (match fixedDigits? 2 [h1, h2], fixedDigits? 2 [m1, m2], fixedDigits? 2 [s1, s2] with
      | some hour, some minute, some second => hour ≤ 23 && minute ≤ 59 && second ≤ 60
      | _, _, _ => false)
    && match rest with
      | [] => true
      | '.' :: digits => digits ≠ [] && digits.all Char.isDigit
      | _ => false
  | _ => false

/-- Whether a word is the distance of a local time from the universal one. -/
def isOffset : List Char → Bool
  | ['Z'] => true
  | ['z'] => true
  | sign :: h1 :: h2 :: ':' :: m1 :: m2 :: [] =>
    (sign = '+' || sign = '-')
    && match fixedDigits? 2 [h1, h2], fixedDigits? 2 [m1, m2] with
      | some hour, some minute => hour ≤ 23 && minute ≤ 59
      | _, _ => false
  | _ => false

/-- Whether a word is a time of day, perhaps with its distance from the universal one. -/
def isZonedTime (word : List Char) : Bool :=
  let (time, zone) := cutAtAny ['Z', 'z', '+', '-'] word
  isTime time && match zone with
    | none => true
    | some (mark, rest) => isOffset (mark :: rest)

/-- Whether a word is a date, a time, or both. -/
def isDatetime (word : List Char) : Bool :=
  isDate word || isTime word
    || (isDate (word.take 10) && match word.drop 10 with
      | mark :: time => (mark = 'T' || mark = 't' || mark = ' ') && isZonedTime time
      | [] => false)

/-! ### Words -/

/-- The characters of words. -/
def isWordChar (c : Char) : Bool :=
  c.isAlphanum || c = '_' || c = '-' || c = '+' || c = '.' || c = ':'

/-- The word that begins here, and what follows it; a date takes a time behind a blank with it. -/
def takeWord (cs : List Char) : List Char × List Char :=
  let word := cs.takeWhile isWordChar
  match isDate word, cs.dropWhile isWordChar with
  | true, ' ' :: rest =>
    let time := rest.takeWhile isWordChar
    if isZonedTime time then (word ++ ' ' :: time, rest.dropWhile isWordChar)
    else (word, ' ' :: rest)
  | _, rest => (word, rest)

/-- The value of a word. -/
def ofWord? (word : List Char) : Option Value :=
  if word = "true".toList then some (.boolean true)
  else if word = "false".toList then some (.boolean false)
  else if isDatetime word then some .datetime
  else readNumber? word

end Ideas.Toml
