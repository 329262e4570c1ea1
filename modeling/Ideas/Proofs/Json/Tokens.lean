/-
What is written as JSON text is read as the tokens that were written.

A string reads back whatever its characters are: each of them is written as itself or
as one escape, and stands for itself again.  A number reads back if it is written as the
rules demand, with no idle zero in front and with digits wherever digits are expected.  A
number has no end of its own, so what follows it must not go on with it; of the tokens
a comma and the two closing brackets do not, and no others follow a number in the text of
a value.
-/
import Mathlib.Data.List.Chain
import Ideas.Json.Token

namespace Ideas.Json

/-! ### Strings -/

/-- A piece that stands for a character by itself. -/
def Piece.StandsFor (p : Piece) (c : Char) : Prop :=
  ∀ pieces, joinPieces (p :: pieces) = (joinPieces pieces).map (c :: ·)

theorem standsFor_char (c : Char) : (Piece.char c).StandsFor c := by
  intro pieces
  rw [joinPieces]

/-- A unit far from the halves of surrogate pairs stands for its character. -/
theorem standsFor_unit {n : Nat} (h : n < 0xD800) : (Piece.unit n).StandsFor (Char.ofNat n) := by
  have hhigh : isHighHalf n = false := by
    rw [isHighHalf, Bool.and_eq_false_iff]
    exact Or.inl (decide_eq_false (by omega))
  have hlow : isLowHalf n = false := by
    rw [isLowHalf, Bool.and_eq_false_iff]
    exact Or.inl (decide_eq_false (by omega))
  intro pieces
  cases pieces with
  | nil => simp [joinPieces, hhigh, hlow]
  | cons p rest =>
    cases p with
    | char c => simp [joinPieces, hhigh, hlow]
    | unit m => rw [joinPieces, hhigh, hlow]; rfl

/-- The escape of a character that has no shorter one. -/
theorem unitValue?_control : ∀ n < 0x20,
    unitValue? '0' '0' (if n < 0x10 then '0' else '1') (Nat.digitChar (n % 16)) = some n := by
  decide

theorem readPieces_unit {a b c d : Char} {n : Nat} (h : unitValue? a b c d = some n)
    (rest : List Char) :
    readPieces ('\\' :: 'u' :: a :: b :: c :: d :: rest)
      = (readPieces rest).map fun (pieces, rest) => (.unit n :: pieces, rest) := by
  rw [readPieces, h]
  cases readPieces rest <;> rfl

theorem exists_readPieces_short {c e : Char} (h : shortEscape? e = some c) (hu : e ≠ 'u') :
    ∃ p : Piece, p.StandsFor c ∧ ∀ rest, readPieces (['\\', e] ++ rest)
      = (readPieces rest).map fun (pieces, rest) => (p :: pieces, rest) := by
  refine ⟨.char c, standsFor_char c, fun rest => ?_⟩
  rw [List.cons_append, List.singleton_append, readPieces.eq_4]
  · rw [h]
    cases readPieces rest <;> rfl
  · intro _ _ _ _ _ hc
    exact absurd hc hu

theorem readPieces_plain {c : Char} (hquote : c ≠ '"') (hslash : c ≠ '\\')
    (hcontrol : ¬c.toNat < 0x20) (rest : List Char) :
    readPieces (c :: rest)
      = (readPieces rest).map fun (pieces, rest) => (.char c :: pieces, rest) := by
  rw [readPieces.eq_5]
  · rw [if_neg (by simp [hcontrol, hslash])]
    cases readPieces rest <;> rfl
  all_goals grind

/-- A written character is read as one piece, which stands for it. -/
theorem exists_readPieces_escapeChar (c : Char) : ∃ p : Piece, p.StandsFor c ∧
    ∀ rest, readPieces (escapeChar c ++ rest)
      = (readPieces rest).map fun (pieces, rest) => (p :: pieces, rest) := by
  unfold escapeChar
  -- Seven characters have an escape of two characters.
  iterate 7
    split
    · next h =>
      subst h
      exact exists_readPieces_short (by decide) (by decide)
  split
  · next h =>
    have hdigit : Text.hexText (c.toNat % 16) = [Nat.digitChar (c.toNat % 16)] :=
      Nat.toDigits_of_lt_base (Nat.mod_lt _ (by decide))
    refine ⟨.unit c.toNat, ?_, ?_⟩
    · have hstands := standsFor_unit (n := c.toNat) (by omega)
      rwa [Char.ofNat_toNat] at hstands
    · rw [hdigit]
      exact readPieces_unit (unitValue?_control c.toNat h)
  · next hquote hslash _ _ _ _ _ hcontrol =>
    exact ⟨.char c, standsFor_char c, readPieces_plain hquote hslash hcontrol⟩

/-- The characters of a string are read back up to its last quote. -/
theorem readPieces_flatMap_escapeChar (cs rest : List Char) :
    ∃ pieces, readPieces (cs.flatMap escapeChar ++ '"' :: rest) = some (pieces, rest) ∧
      joinPieces pieces = some cs := by
  induction cs with
  | nil => exact ⟨[], by rw [List.flatMap_nil, List.nil_append, readPieces], rfl⟩
  | cons c cs ih =>
    obtain ⟨pieces, hread, hjoin⟩ := ih
    obtain ⟨p, hstands, hstep⟩ := exists_readPieces_escapeChar c
    refine ⟨p :: pieces, ?_, ?_⟩
    · rw [List.flatMap_cons, List.append_assoc, hstep, hread]
      rfl
    · rw [hstands, hjoin]
      rfl

/-! ### Numbers -/

/-- Digits, and at least one of them. -/
def IsDigits (cs : List Char) : Prop :=
  cs ≠ [] ∧ ∀ c ∈ cs, c.isDigit

/-- What follows a number does not go on with it. -/
def EndsNumber (rest : List Char) : Prop :=
  ∀ c ∈ rest.head?, c.isDigit = false ∧ c ≠ '.' ∧ c ≠ 'e' ∧ c ≠ 'E'

/-- Written as JSON demands: no idle zero in front, and digits wherever digits are expected. -/
structure IsNumber (n : Decimal.Numeral) : Prop where
  whole : IsDigits n.whole
  leading : n.whole.head? = some '0' → n.whole = ['0']
  fraction : ∀ digits ∈ n.fraction, IsDigits digits
  exponent : ∀ e ∈ n.exponent, IsDigits e.digits

theorem readDigits?_append {digits rest : List Char} (h : IsDigits digits)
    (hrest : ∀ c ∈ rest.head?, c.isDigit = false) :
    readDigits? (digits ++ rest) = some (digits, rest) := by
  have htake : rest.takeWhile Char.isDigit = [] ∧ rest.dropWhile Char.isDigit = rest := by
    cases rest with
    | nil => exact ⟨rfl, rfl⟩
    | cons c rest => simp [hrest c rfl]
  rw [readDigits?, List.takeWhile_append_of_pos h.2, List.dropWhile_append_of_pos h.2, htake.1,
    htake.2, List.append_nil]
  exact if_neg h.1

theorem readWhole?_append {whole rest : List Char} (h : IsDigits whole)
    (hleading : whole.head? = some '0' → whole = ['0'])
    (hrest : ∀ c ∈ rest.head?, c.isDigit = false) :
    readWhole? (whole ++ rest) = some (whole, rest) := by
  by_cases hzero : whole.head? = some '0'
  · rw [hleading hzero]
    rfl
  · have hne : ∀ cs, whole ++ rest ≠ '0' :: cs := by
      intro cs hcs
      obtain ⟨c, tail, rfl⟩ := List.exists_cons_of_ne_nil h.1
      exact hzero (congrArg some (List.cons.inj hcs).1)
    rw [readWhole?.eq_2 _ hne, readDigits?_append h hrest]

/-- The fraction as it is written. -/
def fractionChars : Option (List Char) → List Char
  | none => []
  | some digits => '.' :: digits

/-- The exponent as it is written. -/
def exponentChars : Option Decimal.Exponent → List Char
  | none => []
  | some e => e.chars

theorem readExponent?_append {exponent : Option Decimal.Exponent} {rest : List Char}
    (h : ∀ e ∈ exponent, IsDigits e.digits) (hrest : EndsNumber rest) :
    readExponent? (exponentChars exponent ++ rest) = some (exponent, rest) := by
  cases exponent with
  | none =>
    cases rest with
    | nil => rfl
    | cons c rest =>
      obtain ⟨-, -, he, hE⟩ := hrest c rfl
      rw [exponentChars, List.nil_append, readExponent?, if_neg (by simp [he, hE])]
  | some e =>
    obtain ⟨negative, digits⟩ := e
    have hread := readDigits?_append (h _ rfl) fun c hc => (hrest c hc).1
    cases negative <;>
      simp [exponentChars, Decimal.Exponent.chars, readExponent?, Decimal.Numeral.splitSign, hread]

theorem readFraction?_append {fraction : Option (List Char)} {rest : List Char}
    (h : ∀ digits ∈ fraction, IsDigits digits)
    (hrest : ∀ c ∈ rest.head?, c.isDigit = false ∧ c ≠ '.') :
    readFraction? (fractionChars fraction ++ rest) = some (fraction, rest) := by
  cases fraction with
  | none =>
    rw [fractionChars, List.nil_append, readFraction?.eq_2]
    intro cs hcs
    exact (hrest '.' (by rw [hcs]; rfl)).2 rfl
  | some digits =>
    rw [fractionChars, List.cons_append, readFraction?,
      readDigits?_append (h _ rfl) fun c hc => (hrest c hc).1]
    rfl

/-- A number begins with a minus or with a digit. -/
theorem exists_chars_eq_cons {n : Decimal.Numeral} (h : IsNumber n) :
    ∃ c cs, n.chars = c :: cs ∧ (c = '-' ∨ c.isDigit) := by
  obtain ⟨d, ds, hwhole⟩ := List.exists_cons_of_ne_nil h.whole.1
  have hd : d.isDigit := h.whole.2 d (by rw [hwhole]; exact List.mem_cons_self)
  rw [Decimal.Numeral.chars, hwhole]
  cases n.negative with
  | true => exact ⟨'-', _, rfl, Or.inl rfl⟩
  | false => exact ⟨d, _, rfl, Or.inr hd⟩

/-- A number is read back up to where it ends. -/
theorem readNumber?_append {n : Decimal.Numeral} {rest : List Char} (h : IsNumber n)
    (hrest : EndsNumber rest) : readNumber? (n.chars ++ rest) = some (n, rest) := by
  obtain ⟨negative, whole, fraction, exponent⟩ := n
  obtain ⟨hwhole, hleading, hfraction, hexponent⟩ := h
  simp only at hwhole hleading hfraction hexponent
  -- No part begins with what would go on with the part before it.
  have htail : ∀ c ∈ (exponentChars exponent ++ rest).head?, c.isDigit = false ∧ c ≠ '.' := by
    cases exponent with
    | none => exact fun c hc => ⟨(hrest c hc).1, (hrest c hc).2.1⟩
    | some e => rintro c ⟨⟩; decide
  have hpoint : ∀ c ∈ (fractionChars fraction ++ (exponentChars exponent ++ rest)).head?,
      c.isDigit = false := by
    cases fraction with
    | none => exact fun c hc => (htail c hc).1
    | some digits => rintro c ⟨⟩; decide
  have hchars : (Decimal.Numeral.mk negative whole fraction exponent).chars ++ rest
      = (if negative then ['-'] else [])
        ++ (whole ++ (fractionChars fraction ++ (exponentChars exponent ++ rest))) := by
    show (if negative then ['-'] else []) ++ whole ++ fractionChars fraction
      ++ exponentChars exponent ++ rest = _
    simp only [List.append_assoc]
  have hparts := readWhole?_append hwhole hleading hpoint
  rw [hchars]
  cases negative with
  | true =>
    rw [if_pos rfl, List.singleton_append, readNumber?.eq_1]
    simp only [hparts, readFraction?_append hfraction htail, readExponent?_append hexponent hrest,
      Option.bind_eq_bind, Option.bind_some, Option.pure_def]
  | false =>
    have hminus : ∀ cs, whole ++ (fractionChars fraction ++ (exponentChars exponent ++ rest))
        = '-' :: cs → False := by
      intro cs hcs
      obtain ⟨d, ds, rfl⟩ := List.exists_cons_of_ne_nil hwhole.1
      have hd : d = '-' := (List.cons.inj hcs).1
      exact absurd (hwhole.2 d List.mem_cons_self) (by rw [hd]; decide)
    rw [if_neg Bool.false_ne_true, List.nil_append, readNumber?.eq_2 _ hminus]
    simp only [hparts, readFraction?_append hfraction htail, readExponent?_append hexponent hrest,
      Option.bind_eq_bind, Option.bind_some, Option.pure_def]

/-! ### Tokens -/

namespace Token

/-- A token that is read as it is written. -/
def Legible : Token → Prop
  | .number n => IsNumber n
  | .string s => s.isSome
  | _ => True

/-- A token that may stand behind a number. -/
def EndsValue (t : Token) : Prop :=
  t = .comma ∨ t = .closeArray ∨ t = .closeObject

/-- A token behind another one; a number does not stand in front of any token. -/
def Precedes (t next : Token) : Prop :=
  (∃ n, t = .number n) → next.EndsValue

/-- No token begins with a blank. -/
theorem exists_chars_eq_cons {t : Token} (h : t.Legible) :
    ∃ c cs, t.chars = c :: cs ∧ isSpace c = false := by
  cases t with
  | number n =>
    obtain ⟨c, cs, hchars, hc⟩ := Json.exists_chars_eq_cons h
    refine ⟨c, cs, hchars, ?_⟩
    rcases hc with rfl | hc
    · rfl
    · rw [isSpace]
      simp only [Bool.or_eq_false_iff, decide_eq_false_iff_not]
      refine ⟨⟨⟨?_, ?_⟩, ?_⟩, ?_⟩ <;> (rintro rfl; exact absurd hc (by decide))
  | bool b => cases b <;> exact ⟨_, _, rfl, rfl⟩
  | _ => exact ⟨_, _, rfl, rfl⟩

theorem EndsValue.endsNumber {t : Token} (h : t.EndsValue) (rest : List Char) :
    EndsNumber (t.chars ++ rest) := by
  rcases h with rfl | rfl | rfl <;> (rintro c ⟨⟩; decide)

end Token

/-- What begins like a number is read as one. -/
theorem readToken?_of_number {c : Char} (cs : List Char) (h : c = '-' ∨ c.isDigit) :
    readToken? (c :: cs) = (readNumber? (c :: cs)).map fun (n, rest) => (.number n, rest) := by
  have hother : ∀ d : Char, d ≠ '-' → d.isDigit = false → c ≠ d := by
    rintro d hminus hdigit rfl
    rcases h with rfl | h
    · exact hminus rfl
    · exact absurd h (by rw [hdigit]; exact Bool.false_ne_true)
  rw [readToken?.eq_11] <;>
    (intro _ hcs; exact hother _ (by decide) (by decide) (List.cons.inj hcs).1)

/-- A token is read back; behind a number there has to be something that ends it. -/
theorem readToken?_append {t : Token} {rest : List Char} (h : t.Legible)
    (hrest : (∃ n, t = .number n) → EndsNumber rest) :
    readToken? (t.chars ++ rest) = some (t, rest) := by
  cases t with
  | number n =>
    obtain ⟨c, cs, hchars, hc⟩ := exists_chars_eq_cons h
    have hread := readNumber?_append h (hrest ⟨n, rfl⟩)
    rw [Token.chars]
    rw [hchars, List.cons_append] at hread ⊢
    rw [readToken?_of_number _ hc, hread]
    rfl
  | string s =>
    obtain ⟨s, rfl⟩ := Option.isSome_iff_exists.mp h
    obtain ⟨pieces, hread, hjoin⟩ := readPieces_flatMap_escapeChar s.toList rest
    have hchars : (Token.string (some s)).chars ++ rest
        = '"' :: (s.toList.flatMap escapeChar ++ '"' :: rest) := by
      rw [Token.chars, Option.getD_some, stringChars]
      simp only [List.cons_append, List.append_assoc, List.nil_append]
    rw [hchars, readToken?, hread, Option.map_some]
    simp only [hjoin, Option.map_some, String.ofList_toList]
  | bool b => cases b <;> rfl
  | _ => rfl

/-- Tokens that may stand in a row are read back. -/
theorem readTokens?_flatMap {ts : List Token} (h : ∀ t ∈ ts, t.Legible)
    (hchain : ts.IsChain Token.Precedes) {count : Nat} (hcount : ts.length ≤ count) :
    readTokens? count (ts.flatMap Token.chars) = some ts := by
  induction ts generalizing count with
  | nil => rw [List.flatMap_nil, readTokens?.eq_def]; rfl
  | cons t ts ih =>
    obtain ⟨count, rfl⟩ : ∃ k, count = k + 1 := by
      rw [List.length_cons] at hcount
      exact ⟨count - 1, by omega⟩
    have ht := h t List.mem_cons_self
    obtain ⟨c, cs, hchars, hspace⟩ := Token.exists_chars_eq_cons ht
    have hdrop : (t.chars ++ ts.flatMap Token.chars).dropWhile isSpace
        = t.chars ++ ts.flatMap Token.chars := by
      rw [hchars, List.cons_append, List.dropWhile_cons_of_neg (by simp [hspace])]
    have hread : readToken? (t.chars ++ ts.flatMap Token.chars)
        = some (t, ts.flatMap Token.chars) := by
      refine readToken?_append ht fun hnumber => ?_
      cases ts with
      | nil => rintro c ⟨⟩
      | cons next ts =>
        rw [List.flatMap_cons]
        exact ((List.isChain_cons_cons.mp hchain).1 hnumber).endsNumber _
    have hfits : ts.length ≤ count := by
      rw [List.length_cons] at hcount
      omega
    have hrest := ih (fun t ht => h t (List.mem_cons_of_mem _ ht)) hchain.tail hfits
    rw [hchars, List.cons_append] at hdrop hread
    rw [List.flatMap_cons, readTokens?.eq_def, hchars, List.cons_append]
    simp only [hdrop, hread, hrest, Option.bind_eq_bind, Option.bind_some, Option.pure_def]

/-- The tokens of a text are the ones it was written from. -/
theorem tokens?_flatMap {ts : List Token} (h : ∀ t ∈ ts, t.Legible)
    (hchain : ts.IsChain Token.Precedes) : tokens? (ts.flatMap Token.chars) = some ts := by
  refine readTokens?_flatMap h hchain ?_
  clear hchain
  induction ts with
  | nil => exact Nat.le_refl 0
  | cons t ts ih =>
    obtain ⟨c, cs, hchars, -⟩ := Token.exists_chars_eq_cons (h t List.mem_cons_self)
    have hrest := ih fun t ht => h t (List.mem_cons_of_mem _ ht)
    rw [List.flatMap_cons, hchars]
    simp only [List.length_cons, List.length_append]
    omega

end Ideas.Json
