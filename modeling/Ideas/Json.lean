/-
JSON values.

Numbers keep the form in which they are written, and objects keep the order of their
fields and fields of one name as well.  A text may hold half of a surrogate pair as
an escape; such a text stands for no value, nor does an object with such a field name.
It is `malformed`: a reader may pass it over where it does not look, but not use it.
-/
import Ideas.Decimal.Layout
import Ideas.Decimal.Stepwise

namespace Ideas

/-- A JSON value. -/
inductive Json where
  | null
  | bool (b : Bool)
  | number (n : Decimal.Numeral)
  | string (s : String)
  | array (items : List Json)
  | object (fields : List (String × Json))
  /-- Something that is written according to the rules but has no value. -/
  | malformed

namespace Json

/-- A whole number. -/
def ofNat (n : Nat) : Json :=
  .number (.ofNat n)

/-- A whole number with its sign. -/
def ofInt (n : Int) : Json :=
  .number ⟨decide (n < 0), Decimal.digitsOf n.natAbs, none, none⟩

/-- A double; one that is not finite is written as null. -/
def ofFloat (x : Float) : Json :=
  match Decimal.Style.data.numeral? x with
  | some n => .number n
  | none => .null

/-- A text, or null where there is none. -/
def ofOption {α : Type} (f : α → Json) : Option α → Json
  | some a => f a
  | none => .null

/-- The items of a list. -/
def ofList {α : Type} (f : α → Json) (items : List α) : Json :=
  .array (items.map f)

end Json

end Ideas
