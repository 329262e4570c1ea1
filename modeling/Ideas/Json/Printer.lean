/-
Writing JSON.

`compact` writes a value without blanks: its tokens one after another.  `pretty`
writes every item and every field on a line of its own, two blanks further in than
the bracket around it, and brackets with nothing between them on one line.  `sorted`
brings the fields of all objects into the order of their names.
-/
import Ideas.Json.Token

namespace Ideas.Json

mutual

/-- The tokens of a value. -/
def tokens : Json → List Token
  | .null => [.null]
  | .bool b => [.bool b]
  | .number n => [.number n]
  | .string s => [.string (some s)]
  | .array items => .openArray :: itemTokens items
  | .object fields => .openObject :: fieldTokens fields
  | .malformed => [.string none]

/-- The tokens of the items of an array, and of its end. -/
def itemTokens : List Json → List Token
  | [] => [.closeArray]
  | [v] => v.tokens ++ [.closeArray]
  | v :: rest => v.tokens ++ .comma :: itemTokens rest

/-- The tokens of the fields of an object, and of its end. -/
def fieldTokens : List (String × Json) → List Token
  | [] => [.closeObject]
  | [(name, v)] => .string (some name) :: .colon :: v.tokens ++ [.closeObject]
  | (name, v) :: rest =>
    .string (some name) :: .colon :: v.tokens ++ .comma :: fieldTokens rest

end

/-- A value without blanks. -/
def compact (v : Json) : String :=
  String.ofList (v.tokens.flatMap Token.chars)

/-- The start of a line that stands `depth` brackets in. -/
def newLine (depth : Nat) : List Char :=
  '\n' :: List.replicate (2 * depth) ' '

mutual

/-- A value whose brackets stand `depth` brackets in. -/
def prettyChars (depth : Nat) : Json → List Char
  | .array [] => ['[', ']']
  | .array items => '[' :: prettyItems depth items
  | .object [] => ['\x7b', '\x7d']
  | .object fields => '\x7b' :: prettyFields depth fields
  | v => v.tokens.flatMap Token.chars

/-- The items of an array, and its end. -/
def prettyItems (depth : Nat) : List Json → List Char
  | [] => newLine depth ++ [']']
  | [v] => newLine (depth + 1) ++ prettyChars (depth + 1) v ++ newLine depth ++ [']']
  | v :: rest => newLine (depth + 1) ++ prettyChars (depth + 1) v ++ ',' :: prettyItems depth rest

/-- The fields of an object, and its end. -/
def prettyFields (depth : Nat) : List (String × Json) → List Char
  | [] => newLine depth ++ ['\x7d']
  | [(name, v)] =>
    newLine (depth + 1) ++ stringChars name ++ [':', ' '] ++ prettyChars (depth + 1) v
      ++ newLine depth ++ ['\x7d']
  | (name, v) :: rest =>
    newLine (depth + 1) ++ stringChars name ++ [':', ' '] ++ prettyChars (depth + 1) v
      ++ ',' :: prettyFields depth rest

end

/-- A value on several lines. -/
def pretty (v : Json) : String :=
  String.ofList (prettyChars 0 v)

mutual

/-- A value with the fields of all its objects in the order of their names. -/
def sorted : Json → Json
  | .array items => .array (sortedItems items)
  | .object fields => .object ((sortedFields fields).mergeSort fun f g => f.1 ≤ g.1)
  | v => v

/-- The items of an array, each sorted. -/
def sortedItems : List Json → List Json
  | [] => []
  | v :: rest => v.sorted :: sortedItems rest

/-- The fields of an object, each sorted. -/
def sortedFields : List (String × Json) → List (String × Json)
  | [] => []
  | (name, v) :: rest => (name, v.sorted) :: sortedFields rest

end

end Ideas.Json
