/-
Hexadecimal digits.

Digits are written in lower case and read in either case.
-/

namespace Ideas.Text

/-- The digit of a number below sixteen. -/
def hexDigit (n : Nat) : Char :=
  if n < 10 then Char.ofNat ('0'.toNat + n) else Char.ofNat ('a'.toNat + (n - 10))

/-- The number a digit stands for. -/
def hexValue? (c : Char) : Option Nat :=
  if '0' ≤ c ∧ c ≤ '9' then some (c.toNat - '0'.toNat)
  else if 'a' ≤ c ∧ c ≤ 'f' then some (c.toNat - 'a'.toNat + 10)
  else if 'A' ≤ c ∧ c ≤ 'F' then some (c.toNat - 'A'.toNat + 10)
  else none

/-- The last `count` digits of a number, the most significant first. -/
def hexDigits : Nat → Nat → List Char
  | 0, _ => []
  | count + 1, n => hexDigits count (n / 16) ++ [hexDigit (n % 16)]

/-- The number that the values of digits make, the most significant first. -/
def ofHexValues (values : List Nat) : Nat :=
  values.foldl (fun n digit => 16 * n + digit) 0

/-- The number that digits spell; no answer where one of them is none. -/
def ofHexDigits? (digits : List Char) : Option Nat :=
  (digits.mapM hexValue?).map ofHexValues

theorem hexValue?_hexDigit {n : Nat} (h : n < 16) : hexValue? (hexDigit n) = some n := by
  decide +revert

theorem length_hexDigits (count n : Nat) : (hexDigits count n).length = count := by
  induction count generalizing n with
  | zero => rfl
  | succ count ih => simp [hexDigits, ih]

theorem ofHexDigits?_append {front : List Char} {value : Nat} {c : Char} {digit : Nat}
    (h : ofHexDigits? front = some value) (hc : hexValue? c = some digit) :
    ofHexDigits? (front ++ [c]) = some (16 * value + digit) := by
  obtain ⟨values, hv, rfl⟩ := Option.map_eq_some_iff.mp h
  simp [ofHexDigits?, List.mapM_append, hv, hc, ofHexValues]

/-- Written digits read back as the number, less what did not fit. -/
theorem ofHexDigits?_hexDigits (count n : Nat) :
    ofHexDigits? (hexDigits count n) = some (n % Nat.pow 16 count) := by
  induction count generalizing n with
  | zero => simp [hexDigits, ofHexDigits?, ofHexValues, Nat.mod_one]
  | succ count ih =>
    have hpow : Nat.pow 16 (count + 1) = 16 * Nat.pow 16 count := Nat.pow_succ'
    rw [hexDigits, hpow, Nat.mod_mul, Nat.add_comm,
      ofHexDigits?_append (ih (n / 16)) (hexValue?_hexDigit (Nat.mod_lt n (by decide)))]

/-- The digits of a number, without zeros in front. -/
def hexText (n : Nat) : List Char :=
  Nat.toDigits 16 n

end Ideas.Text
