/-
Reading TOML documents.

A document is read line by line: an assignment, a header, or nothing, and perhaps a
comment behind it.  Values may be nested, and an array may run over several lines.
Neither the parts of a key nor the brackets around a value may be more than
`greatestDepth`.  The recursion is bounded by the length of the text, since every step
takes at least one character.
-/
import Ideas.Toml.Scalar

namespace Ideas.Toml

/-- How many parts a key may have, and how many brackets may be open around a value. -/
def greatestDepth : Nat := 79

/-! ### Blanks and comments -/

/-- Drop the blanks in front. -/
def dropBlanks (cs : List Char) : List Char :=
  cs.dropWhile fun c => c = ' ' || c = '\t'

/-- Drop a comment, up to the end of its line; a comment may hold plain characters only. -/
def dropComment? : List Char → Option (List Char)
  | '#' :: rest =>
    match rest.dropWhile isPlain with
    | [] => some []
    | '\n' :: rest => some ('\n' :: rest)
    | '\r' :: '\n' :: rest => some ('\n' :: rest)
    | _ => none
  | cs => some cs

/-- Drop blanks, comments and line ends, of which there are at most `count`. -/
def dropFiller? : Nat → List Char → Option (List Char)
  | 0, _ => none
  | count + 1, cs =>
    match dropBlanks cs with
    | '\n' :: rest => dropFiller? count rest
    | '\r' :: '\n' :: rest => dropFiller? count rest
    | '#' :: rest => do dropFiller? count (← dropComment? ('#' :: rest))
    | cs => some cs

/-! ### Keys -/

/-- The characters of keys without quotes. -/
def isKeyChar (c : Char) : Bool :=
  c.isAlphanum || c = '_' || c = '-'

/-- Read one part of a key. -/
def readSimpleKey? (cs : List Char) : Option (String × List Char) :=
  match readShortString? cs with
  | some read => some read
  | none =>
    let key := cs.takeWhile isKeyChar
    if key = [] then none else some (String.ofList key, cs.dropWhile isKeyChar)

/-- Read the parts of a key, at most `count` of them with points between them, and the blanks
after them; the last part is apart from the others. -/
def readParts? : Nat → List Char → Option ((List String × String) × List Char)
  | 0, _ => none
  | count + 1, cs => do
    let (part, rest) ← readSimpleKey? cs
    match dropBlanks rest with
    | '.' :: rest =>
      let ((path, key), rest) ← readParts? count (dropBlanks rest)
      return ((part :: path, key), rest)
    | rest => return (([], part), rest)

/-- Read a key and the blanks after it. -/
def readKey? (cs : List Char) : Option ((List String × String) × List Char) :=
  readParts? greatestDepth cs

/-! ### Values -/

mutual

/-- Read a value, in which `depth` more brackets may be open at once. -/
def readValue? (depth : Nat) : Nat → List Char → Option (Value × List Char)
  | 0, _ => none
  | steps + 1, cs =>
    match cs with
    | '"' :: _ => (readString? cs).map fun (s, rest) => (.string s, rest)
    | '\'' :: _ => (readString? cs).map fun (s, rest) => (.string s, rest)
    | '[' :: rest =>
      if depth = 0 then none
      else (readItems? (depth - 1) steps rest).map fun (items, rest) => (.array items, rest)
    | '\x7b' :: rest =>
      if depth = 0 then none
      else match dropBlanks rest with
      | '\x7d' :: rest => some (.table .braces [], rest)
      | rest => (readFields? (depth - 1) steps [] rest).map fun (fields, rest) =>
        (.table .braces fields, rest)
    | _ => do
      let (word, rest) := takeWord cs
      return (← ofWord? word, rest)

/-- Read the items of an array, and its end. -/
def readItems? (depth : Nat) : Nat → List Char → Option (List Value × List Char)
  | 0, _ => none
  | steps + 1, cs => do
    match ← dropFiller? (cs.length + 1) cs with
    | ']' :: rest => return ([], rest)
    | cs =>
      let (item, rest) ← readValue? depth steps cs
      match ← dropFiller? (rest.length + 1) rest with
      | ']' :: rest => return ([item], rest)
      | ',' :: rest =>
        let (items, rest) ← readItems? depth steps rest
        return (item :: items, rest)
      | _ => none

/-- Read the fields of a table in braces, behind those read so far, and its end. -/
def readFields? (depth : Nat) : Nat → Fields → List Char → Option (Fields × List Char)
  | 0, _, _ => none
  | steps + 1, fields, cs => do
    let ((path, key), rest) ← readKey? (dropBlanks cs)
    match rest with
    | '=' :: rest =>
      let (v, rest) ← readValue? depth steps (dropBlanks rest)
      let fields ← Fields.assign .braces path key v fields
      match dropBlanks rest with
      | '\x7d' :: rest => return (fields, rest)
      | ',' :: rest => readFields? depth steps fields rest
      | _ => none
    | _ => none

end

/-! ### Lines -/

/-- A document that is being read: its fields, and the keys of the last header. -/
structure Draft where
  fields : Fields := []
  opened : List String := []

/-- Read a header; the answer tells the keys, and whether the brackets are double. -/
def readHeader? (cs : List Char) : Option ((Bool × List String × String) × List Char) :=
  match cs with
  | '[' :: '[' :: rest => do
    let ((path, key), rest) ← readKey? (dropBlanks rest)
    match rest with
    | ']' :: ']' :: rest => return ((true, path, key), rest)
    | _ => none
  | '[' :: rest => do
    let ((path, key), rest) ← readKey? (dropBlanks rest)
    match rest with
    | ']' :: rest => return ((false, path, key), rest)
    | _ => none
  | _ => none

/-- Read the assignment or the header at the start of a line, if there is one. -/
def readStatement? (draft : Draft) (cs : List Char) : Option (Draft × List Char) :=
  match cs with
  | [] => some (draft, [])
  | c :: _ =>
    if c = '\n' ∨ c = '\r' ∨ c = '#' then some (draft, cs)
    else if c = '[' then do
      let ((double, path, key), rest) ← readHeader? cs
      let fields ← (if double then Fields.appendTable else Fields.openTable) path key draft.fields
      return ({ fields, opened := path ++ [key] }, rest)
    else do
      let ((path, key), rest) ← readKey? cs
      match rest with
      | '=' :: rest =>
        let (v, rest) ← readValue? greatestDepth (2 * cs.length) (dropBlanks rest)
        let fields ← Fields.inOpened (Fields.assign .header path key v) draft.opened draft.fields
        return ({ draft with fields }, rest)
      | _ => none

/-- Read lines, of which there are at most `count`. -/
def readLines? : Nat → Draft → List Char → Option Fields
  | 0, _, _ => none
  | count + 1, draft, cs => do
    let (draft, rest) ← readStatement? draft (dropBlanks cs)
    match ← dropComment? (dropBlanks rest) with
    | [] => return draft.fields
    | '\n' :: rest => readLines? count draft rest
    | '\r' :: '\n' :: rest => readLines? count draft rest
    | _ => none

/-- Read a document; a byte order mark in front of it is dropped. -/
def read? (text : String) : Option Fields :=
  let cs := match text.toList with
    | '\ufeff' :: rest => rest
    | cs => cs
  readLines? (cs.length + 1) {} cs

end Ideas.Toml
