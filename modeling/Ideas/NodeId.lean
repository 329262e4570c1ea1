/-
Ids of nodes.

An id is a word of 128 bits that is given out once and never again.  Its text is
thirty-two lower-case hexadecimal digits in five groups parted by hyphens.  Reading
is more generous than writing: the digits may have either case, and they may come
without the hyphens, in braces, or behind `urn:uuid:`.  No other form is an id;
`NodeId.readTrimmed?` also drops blanks around it.  `NodeId.read?_text` says that the text
of an id reads back as the id.
-/
import Ideas.Text.Blank
import Ideas.Text.Hex

namespace Ideas

/-- The identity of a node: a word of 128 bits. -/
structure NodeId where
  bits : BitVec 128
deriving DecidableEq, Repr

namespace NodeId

/-! ### Groups -/

/-- The lengths of the five groups of digits. -/
def groups : List Nat := [8, 4, 4, 4, 12]

/-- Put a hyphen between groups of the given lengths. -/
def hyphenate : List Nat → List Char → List Char
  | [], cs => cs
  | [_], cs => cs
  | n :: more, cs => cs.take n ++ '-' :: hyphenate more (cs.drop n)

/-- Take the hyphens out again; no answer where the groups have other lengths. -/
def unhyphenate? : List Nat → List Char → Option (List Char)
  | [], _ => none
  | [n], cs => if cs.length = n then some cs else none
  | n :: more, cs =>
    match cs.drop n with
    | '-' :: rest => (unhyphenate? more rest).map (cs.take n ++ ·)
    | _ => none

/-! ### Writing and reading -/

/-- The id that thirty-two digits spell. -/
def ofDigits? (digits : List Char) : Option NodeId :=
  if digits.length = 32 then
    (Text.ofHexDigits? digits).map fun n => ⟨BitVec.ofNat 128 n⟩
  else none

/-- The text of an id, as a list of characters. -/
def chars (id : NodeId) : List Char :=
  hyphenate groups (Text.hexDigits 32 id.bits.toNat)

/-- The text of an id. -/
def text (id : NodeId) : String :=
  String.ofList id.chars

instance : ToString NodeId := ⟨text⟩

/-- The id in five groups of digits. -/
def ofGroups? (cs : List Char) : Option NodeId :=
  (unhyphenate? groups cs).bind ofDigits?

/-- What stands in front of the groups in the long form, in lower case. -/
def urn : List Char := "urn:uuid:".toList

/-- Read an id from a list of characters. -/
def ofChars? (cs : List Char) : Option NodeId :=
  if (cs.take urn.length).map Char.toLower = urn then ofGroups? (cs.drop urn.length)
  else match cs with
    | '\x7b' :: rest => if rest.getLast? = some '\x7d' then ofGroups? rest.dropLast else none
    | _ => (ofDigits? cs).or (ofGroups? cs)

/-- Read an id that fills the text. -/
def read? (s : String) : Option NodeId :=
  ofChars? s.toList

/-- Read an id with blanks around it. -/
def readTrimmed? (s : String) : Option NodeId :=
  ofChars? (Text.trimChars s.toList)

/-! ### What is written is read -/

theorem unhyphenate?_append {n m : Nat} {more : List Nat} {group rest : List Char}
    (h : group.length = n) :
    unhyphenate? (n :: m :: more) (group ++ '-' :: rest)
      = (unhyphenate? (m :: more) rest).map (group ++ ·) := by
  rw [unhyphenate?, List.drop_left' h, List.take_left' h]
  · rfl
  · exact List.cons_ne_nil m more

theorem unhyphenate?_hyphenate {cs : List Char} (h : cs.length = 32) :
    unhyphenate? groups (hyphenate groups cs) = some cs := by
  simp only [groups, hyphenate]
  rw [unhyphenate?_append (by simp [h]), unhyphenate?_append (by simp [h]),
    unhyphenate?_append (by simp [h]), unhyphenate?_append (by simp [h]), unhyphenate?,
    if_pos (by simp [h])]
  simp only [Option.map_some, List.take_append_drop]

/-- Written groups of digits are an id again. -/
theorem ofGroups?_chars (id : NodeId) : ofGroups? id.chars = some id := by
  have hlen := Text.length_hexDigits 32 id.bits.toNat
  have hlt : id.bits.toNat % Nat.pow 16 32 = id.bits.toNat := Nat.mod_eq_of_lt id.bits.isLt
  rw [ofGroups?, chars, unhyphenate?_hyphenate hlen, Option.bind_some, ofDigits?, if_pos hlen,
    Text.ofHexDigits?_hexDigits, hlt, Option.map_some, BitVec.ofNat_toNat, BitVec.setWidth_eq]

theorem length_chars (id : NodeId) : id.chars.length = 36 := by
  have hlen := Text.length_hexDigits 32 id.bits.toNat
  simp [chars, groups, hyphenate, hlen]

theorem exists_head_hexDigits (count n : Nat) :
    ∃ d < 16, (Text.hexDigits (count + 1) n).head? = some (Text.hexDigit d) := by
  induction count generalizing n with
  | zero => exact ⟨n % 16, Nat.mod_lt n (by decide), rfl⟩
  | succ count ih =>
    obtain ⟨d, hd, h⟩ := ih (n / 16)
    exact ⟨d, hd, by rw [Text.hexDigits, List.head?_append, h]; rfl⟩

theorem head?_chars (id : NodeId) : ∃ d < 16, id.chars.head? = some (Text.hexDigit d) := by
  obtain ⟨d, hd, h⟩ := exists_head_hexDigits 31 id.bits.toNat
  refine ⟨d, hd, ?_⟩
  simp [chars, groups, hyphenate, List.head?_take, h]

/-- What is written is read. -/
theorem read?_text (id : NodeId) : read? id.text = some id := by
  obtain ⟨d, hd, h⟩ := id.head?_chars
  obtain ⟨rest, hchars⟩ : ∃ rest, id.chars = Text.hexDigit d :: rest := by
    cases hc : id.chars with
    | nil => simp [hc] at h
    | cons c rest => exact ⟨rest, by simp_all⟩
  have hu : ∀ d < 16, (Text.hexDigit d).toLower ≠ 'u' := by decide
  have hb : ∀ d < 16, Text.hexDigit d ≠ '\x7b' := by decide
  have hurn : (id.chars.take urn.length).map Char.toLower ≠ urn := by
    rw [hchars]
    intro h
    exact hu d hd (List.cons.inj h).1
  have hdigits : ofDigits? id.chars = none := by
    rw [ofDigits?, id.length_chars]; rfl
  rw [read?, text, String.toList_ofList, ofChars?, if_neg hurn]
  · rw [hdigits, Option.none_or, ofGroups?_chars]
  · intro rest h
    exact hb d hd (by rw [hchars] at h; exact (List.cons.inj h).1)

/-- Texts tell ids apart. -/
theorem text_inj {id id' : NodeId} : id.text = id'.text ↔ id = id' := by
  refine ⟨fun h => ?_, congrArg text⟩
  have hread := congrArg read? h
  rwa [read?_text, read?_text, Option.some.injEq] at hread

/-! ### New ids -/

/-- The id made of 122 random bits: version four, whose other six bits are fixed. -/
def ofRandomBits (bits : BitVec 122) : NodeId :=
  ⟨bits.extractLsb' 74 48 ++ BitVec.ofNat 4 4 ++ bits.extractLsb' 62 12 ++ BitVec.ofNat 2 2
    ++ bits.extractLsb' 0 62⟩

end NodeId

end Ideas
