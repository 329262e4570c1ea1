/-
Reading JSON.

The tokens are taken one by one, with a stack of the arrays and objects that are
still open.  What may come next depends on the top of the stack alone, so reading is
a single pass in which every token either fits or ends it.
-/
import Ideas.Json.Token

namespace Ideas.Json

/-- An array or an object that is still open. -/
inductive Frame where
  /-- The items read so far, the latest first. -/
  | array (items : List Json)
  /-- The fields read so far, the latest first, and the name of the one being read. -/
  | object (fields : List (Option String × Json)) (name : Option String)

/-- What has been read, and what may follow. -/
inductive Progress where
  /-- A value has to follow. -/
  | value (stack : List Frame)
  /-- An array was opened: an item or its end may follow. -/
  | firstItem (stack : List Frame)
  /-- A value inside the top of the stack ended: a comma or the end may follow. -/
  | afterValue (stack : List Frame)
  /-- An object was opened: a field or its end may follow. -/
  | firstField (stack : List Frame)
  /-- A field has to follow. -/
  | field (fields : List (Option String × Json)) (stack : List Frame)
  /-- A colon has to follow. -/
  | colon (stack : List Frame)
  /-- The whole value has been read: nothing may follow. -/
  | done (v : Json)

/-- The object with some fields; it has no value if one of the names has no text. -/
def closeFields (fields : List (Option String × Json)) : Json :=
  match fields.mapM fun (name, v) => name.map (·, v) with
  | some fields => .object fields
  | none => .malformed

/-- Go on after a value. -/
def Progress.complete (v : Json) : List Frame → Progress
  | [] => .done v
  | .array items :: stack => .afterValue (.array (v :: items) :: stack)
  | .object fields name :: stack => .afterValue (.object ((name, v) :: fields) name :: stack)

/-- Take the token that begins a value. -/
def Progress.begin (stack : List Frame) : Token → Option Progress
  | .openArray => some (.firstItem stack)
  | .openObject => some (.firstField stack)
  | .null => some (.complete .null stack)
  | .bool b => some (.complete (.bool b) stack)
  | .number n => some (.complete (.number n) stack)
  | .string (some s) => some (.complete (.string s) stack)
  | .string none => some (.complete .malformed stack)
  | _ => none

/-- Take one token. -/
def Progress.step : Progress → Token → Option Progress
  | .value stack, t => begin stack t
  | .firstItem stack, .closeArray => some (.complete (.array []) stack)
  | .firstItem stack, t => begin (.array [] :: stack) t
  | .afterValue (.array items :: stack), .comma => some (.value (.array items :: stack))
  | .afterValue (.array items :: stack), .closeArray =>
    some (.complete (.array items.reverse) stack)
  | .afterValue (.object fields _ :: stack), .comma => some (.field fields stack)
  | .afterValue (.object fields _ :: stack), .closeObject =>
    some (.complete (closeFields fields.reverse) stack)
  | .firstField stack, .closeObject => some (.complete (.object []) stack)
  | .firstField stack, .string s => some (.colon (.object [] s :: stack))
  | .field fields stack, .string s => some (.colon (.object fields s :: stack))
  | .colon stack, .colon => some (.value stack)
  | _, _ => none

/-- Take all tokens, from a point where something has been read already. -/
def Progress.run (p : Progress) (ts : List Token) : Option Progress :=
  ts.foldlM Progress.step p

/-- Read a value that fills the text. -/
def read? (s : String) : Option Json := do
  let ts ← tokens? s.toList
  match ← Progress.run (.value []) ts with
  | .done v => some v
  | _ => none

end Ideas.Json
