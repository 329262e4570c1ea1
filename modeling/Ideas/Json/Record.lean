/-
Taking values out of JSON.

A record is an object whose fields are looked up by name.  Fields that nobody asks
for are passed over, but a field that is asked for may stand there only once.  A
record may also be written as an array of its values in the order of its fields,
where only the last ones may be missing.  Where the last of several fields of one name
is to count instead, `collapsed` takes the earlier ones out first.
-/
import Ideas.Json

namespace Ideas.Json

/-- The fields of an object with a name. -/
def fieldsNamed (name : String) (fields : List (String × Json)) : List Json :=
  (fields.filter fun field => field.1 = name).map Prod.snd

/-- The one field of an object with a name; the inner answer is missing where the field is, and
the outer where it stands there twice. -/
def field? (fields : List (String × Json)) (name : String) : Option (Option Json) :=
  match fieldsNamed name fields with
  | [] => some none
  | [v] => some (some v)
  | _ => none

/-- The values of a record, in the order in which its fields are named. -/
def record? (names : List String) : Json → Option (List (Option Json))
  | .object fields => names.mapM (field? fields)
  | .array items =>
    if items.length ≤ names.length then
      some (items.map some ++ List.replicate (names.length - items.length) none)
    else none
  | _ => none

/-- A value that has to be there. -/
def required {α : Type} (decode : Json → Option α) (v : Option Json) : Option α :=
  v.bind decode

/-- A value that may be missing. -/
def optional {α : Type} (default : α) (decode : Json → Option α) : Option Json → Option α
  | none => some default
  | some v => decode v

/-- A value that may be null. -/
def nullable {α : Type} (decode : Json → Option α) : Json → Option (Option α)
  | .null => some none
  | v => (decode v).map some

/-- A text. -/
def string? : Json → Option String
  | .string s => some s
  | _ => none

/-- A truth value. -/
def bool? : Json → Option Bool
  | .bool b => some b
  | _ => none

/-- A whole number from zero up to a greatest one. -/
def natUpTo? (greatest : Nat) : Json → Option Nat
  | .number n => n.toNat?.filter (· ≤ greatest)
  | _ => none

/-- A finite number. -/
def float? : Json → Option Float
  | .number n => n.toFloatByStep?
  | _ => none

/-- The items of an array. -/
def list? {α : Type} (decode : Json → Option α) : Json → Option (List α)
  | .array items => items.mapM decode
  | _ => none

/-- One of several words: the word itself, or an object with the word as its only field and null
in it. -/
def word? : Json → Option String
  | .string s => some s
  | .object [(s, .null)] => some s
  | _ => none

/-! ### Taking out what was put in -/

theorem natUpTo?_ofNat {greatest n : Nat} (h : n ≤ greatest) :
    natUpTo? greatest (.ofNat n) = some n := by
  simp [natUpTo?, ofNat, Decimal.Numeral.toNat?_ofNat, h]

theorem list?_ofList {α : Type} (decode : Json → Option α) (encode : α → Json) {items : List α}
    (h : ∀ a ∈ items, decode (encode a) = some a) :
    list? decode (ofList encode items) = some items := by
  simp only [list?, ofList]
  induction items with
  | nil => rfl
  | cons a rest ih =>
    rw [List.map_cons, List.mapM_cons, h a List.mem_cons_self,
      ih fun b hb => h b (List.mem_cons_of_mem a hb)]
    rfl

theorem nullable_ofOption {α : Type} (decode : Json → Option α) (encode : α → Json)
    {o : Option α} (h : ∀ a ∈ o, decode (encode a) = some a) (hnull : ∀ a, encode a ≠ .null) :
    nullable decode (ofOption encode o) = some o := by
  cases o with
  | none => rfl
  | some a =>
    simp only [ofOption]
    rw [nullable, h a rfl, Option.map_some]
    exact hnull a

/-! ### Fields of one name -/

/-- Put a field in front of others, unless one of them has its name. -/
def withField (name : String) (v : Json) (fields : List (String × Json)) :
    List (String × Json) :=
  if (fields.map Prod.fst).contains name then fields else (name, v) :: fields

mutual

/-- A value in whose objects only the last of several fields of one name is left. -/
def collapsed : Json → Json
  | .array items => .array (collapsedItems items)
  | .object fields => .object (collapsedFields fields)
  | v => v

/-- The items of an array, each collapsed. -/
def collapsedItems : List Json → List Json
  | [] => []
  | v :: rest => v.collapsed :: collapsedItems rest

/-- The fields of an object, each collapsed, the last of each name. -/
def collapsedFields : List (String × Json) → List (String × Json)
  | [] => []
  | (name, v) :: rest => withField name v.collapsed (collapsedFields rest)

end

end Ideas.Json
