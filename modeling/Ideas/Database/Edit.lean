/-
Changing rows by hand.

`edit` overwrites one column of the rows with a key, and `erase` deletes them, without
regard for what the row means.  The place of a row can be overwritten like a column of
its own.  The rules of the tables hold all the same: columns that need a value keep
one, keys and places stay apart, and no row is left that refers to nothing.
-/
import Ideas.Database

namespace Ideas.Database

/-- The tables. -/
inductive Table where
  | metadata
  | nodes
  | ideas
  | generations
  | relations
deriving DecidableEq, Repr

/-- The name of a table. -/
def Table.name : Table → String
  | .metadata => "metadata"
  | .nodes => "nodes"
  | .ideas => "ideas"
  | .generations => "generations"
  | .relations => "relations"

/-- All tables. -/
def Table.all : List Table :=
  [.metadata, .nodes, .ideas, .generations, .relations]

/-- The table of a name. -/
def Table.ofName? (name : String) : Option Table :=
  all.find? fun table => table.name = name

/-- The names of the columns of a table. -/
def Table.columns : Table → List String
  | .metadata => ["key", "value"]
  | .nodes => ["id", "owner", "node_type", "name", "arc_list", "comp_arc_list", "forward_id",
      "copy_id", "generation", "created_at"]
  | .ideas => ["id", "owner", "title", "content", "tags", "energy", "archived", "created_at"]
  | .generations => ["owner", "value"]
  | .relations => ["source_id", "target_id", "strength", "created_at"]

/-- The blanks that may stand around a name. -/
def isNameSpace (c : Char) : Bool :=
  c = ' ' || c = '\t' || c = '\n' || c = '\x0c' || c = '\r'

/-- The marks that a name may stand in. -/
def nameMarks : List (Char × Char) :=
  [('"', '"'), ('\'', '\''), ('\x60', '\x60'), ('[', ']')]

/-- A name without blanks around it and without the marks it stands in.  The case of its letters
makes no difference. -/
def plainName (name : String) : String :=
  let cs := ((name.toList.dropWhile isNameSpace).reverse.dropWhile isNameSpace).reverse
  let inner := match cs with
    | [] => []
    | c :: rest =>
      match nameMarks.lookup c with
      | none => cs
      | some mark => if rest.getLast? = some mark then rest.dropLast else cs
  (String.ofList inner).toLower

example : plainName " [Title] " = "title" := by decide +kernel

/-- The names that the place of a row has as a column. -/
def placeColumns : List String :=
  ["rowid", "oid", "_rowid_"]

/-- A value to write into a column. -/
inductive Entry where
  | null
  | integer (n : Int)
  | text (s : String)

namespace Entry

/-- The entry as a text column keeps it. -/
def text? : Entry → Option String
  | .null => none
  | .integer n => some (toString n)
  | .text s => some s

/-- The entry in a text column that needs a value. -/
def toText (e : Entry) (column : String) : Except StoreError String :=
  match e.text? with
  | some s => .ok s
  | none => .error (.constraint (.notNull column))

/-- The entry in a column of whole numbers that needs a value. -/
def toCell (e : Entry) (column : String) : Except StoreError Cell :=
  match e with
  | .null => .error (.constraint (.notNull column))
  | .integer n => .ok (.ofInteger n)
  | .text s => .ok (.ofText s)

/-- The entry in a column of doubles that needs a value. -/
def toRealCell (e : Entry) (column : String) : Except StoreError Cell :=
  match e with
  | .null => .error (.constraint (.notNull column))
  | .integer n => .ok (.realOfInteger n)
  | .text s => .ok (.realOfText s)

/-- The entry as a place. -/
def toPlace (e : Entry) : Except StoreError Place := do
  let number ←
    match e with
    | .null => .error .mismatch
    | .integer n => (Cell.ofInteger n).toInteger
    | .text s => (Cell.ofText s).toInteger
  return { number }

end Entry

/-- Overwrite a column of a node's row. -/
def NodeRow.set (r : NodeRow) (column : String) (e : Entry) : Except StoreError NodeRow :=
  match column with
  | "id" => .ok { r with id := e.text? }
  | "owner" => (e.toText "nodes.owner").map fun s => { r with owner := s }
  | "node_type" => (e.toText "nodes.node_type").map fun s => { r with kind := s }
  | "name" => .ok { r with name := e.text? }
  | "arc_list" => (e.toText "nodes.arc_list").map fun s => { r with arcs := s }
  | "comp_arc_list" => (e.toText "nodes.comp_arc_list").map fun s => { r with complement := s }
  | "forward_id" => .ok { r with forward := e.text? }
  | "copy_id" => .ok { r with copy := e.text? }
  | "generation" => (e.toCell "nodes.generation").map fun c => { r with generation := c }
  | "created_at" => (e.toText "nodes.created_at").map fun _ => r
  | _ => .error .mismatch

/-- Overwrite a column of an idea's row. -/
def IdeaRow.set (r : IdeaRow) (column : String) (e : Entry) : Except StoreError IdeaRow :=
  match column with
  | "id" => .ok { r with id := e.text? }
  | "owner" => (e.toText "ideas.owner").map fun s => { r with owner := s }
  | "title" => (e.toText "ideas.title").map fun s => { r with title := s }
  | "content" => .ok { r with content := e.text? }
  | "tags" => (e.toText "ideas.tags").map fun s => { r with tags := s }
  | "energy" => (e.toCell "ideas.energy").map fun c => { r with energy := c }
  | "archived" => (e.toCell "ideas.archived").map fun c => { r with archived := c }
  | "created_at" => (e.toText "ideas.created_at").map fun _ => r
  | _ => .error .mismatch

/-- Overwrite a column of a counter's row. -/
def GenerationRow.set (r : GenerationRow) (column : String) (e : Entry) :
    Except StoreError GenerationRow :=
  match column with
  | "owner" => .ok { r with owner := e.text? }
  | "value" => (e.toCell "generations.value").map fun c => { r with value := c }
  | _ => .error .mismatch

/-- Overwrite a column of a relation's row. -/
def RelationRow.set (r : RelationRow) (column : String) (e : Entry) :
    Except StoreError RelationRow :=
  match column with
  | "source_id" => (e.toText "relations.source_id").map fun s => { r with source := s }
  | "target_id" => (e.toText "relations.target_id").map fun s => { r with target := s }
  | "strength" => (e.toRealCell "relations.strength").map fun c => { r with strength := c }
  | "created_at" => (e.toText "relations.created_at").map fun _ => r
  | _ => .error .mismatch

/-- Overwrite a column of a property's row. -/
def MetadataRow.set (r : MetadataRow) (column : String) (e : Entry) :
    Except StoreError MetadataRow :=
  match column with
  | "key" => .ok { r with key := e.text? }
  | "value" => (e.toText "metadata.value").map fun s => { r with value := s }
  | _ => .error .mismatch

/-- Whether every idea has a node, and every relation two ideas. -/
def wellReferenced (db : Database) : Bool :=
  let nodes := db.nodes.toList.map NodeRow.id
  let ideas := db.ideas.toList.map IdeaRow.id
  (ideas.all fun id => id.isNone || nodes.contains id)
    && db.relations.toList.all fun r =>
      ideas.contains (some r.source) && ideas.contains (some r.target)

/-- Whether the keys that are there are all different. -/
def distinct {α : Type} [DecidableEq α] (keys : List (Option α)) : Bool :=
  let present := keys.filterMap id
  present.eraseDups.length = present.length

/-- The rule that keys break when one is used twice. -/
def broken? (db : Database) : Option Constraint :=
  if !distinct (db.metadata.toList.map MetadataRow.key) then some (.unique "metadata.key")
  else if !distinct (db.nodes.toList.map NodeRow.id) then some (.unique "nodes.id")
  else if !distinct (db.ideas.toList.map IdeaRow.id) then some (.unique "ideas.id")
  else if !distinct (db.generations.toList.map GenerationRow.owner) then
    some (.unique "generations.owner")
  else if !distinct (db.relations.toList.map fun r => some (r.source, r.target)) then
    some (.unique "relations.source_id, relations.target_id")
  else if !db.wellReferenced then some .foreignKey
  else none

/-- A change of some rows of a table, unless it breaks a rule; the answer is their number. -/
def checked (count : Nat) (db : Database) : Except StoreError (Nat × Database) :=
  match db.broken? with
  | some rule => .error (.constraint rule)
  | none => .ok (count, db)

/-- Move the rows that fit, of which there can be one at most. -/
def moveWhere {ρ : Type} (table : Table) (e : Entry) (fits : ρ → Bool) (rows : Rows ρ) :
    Except StoreError (Rows ρ) :=
  if rows.toList.any fits then do
    let moved := rows.move fits (← e.toPlace)
    if distinct (moved.places.map some) then .ok moved
    else .error (.constraint (.unique (table.name ++ ".rowid")))
  else .ok rows

/-- Overwrite a column of the rows that fit; `set` does so with a column of the table's own.  The
answer has their number. -/
def setWhere {ρ : Type} (table : Table) (column : String) (e : Entry) (fits : ρ → Bool)
    (set : ρ → String → Entry → Except StoreError ρ) (rows : Rows ρ) :
    Except StoreError (Nat × Rows ρ) := do
  let changed ←
    if column ∈ placeColumns then moveWhere table e fits rows
    else if column ∈ table.columns then rows.tryModify fits (set · column e)
    else .error .mismatch
  return (rows.toList.countP fits, changed)

/-- Whether a row has the key that a change names. -/
def MetadataRow.hasKey (key : String) (r : MetadataRow) : Bool := r.key = some key

/-- Whether a row has the key that a change names. -/
def NodeRow.hasKey (key : String) (r : NodeRow) : Bool := r.id = some key

/-- Whether a row has the key that a change names. -/
def IdeaRow.hasKey (key : String) (r : IdeaRow) : Bool := r.id = some key

/-- Whether a row has the key that a change names. -/
def GenerationRow.hasKey (key : String) (r : GenerationRow) : Bool := r.owner = some key

/-- Whether a row has the key that a change names: that of its target. -/
def RelationRow.hasKey (key : String) (r : RelationRow) : Bool := r.target = key

/-- Overwrite a column of the rows with a key; the answer is their number. -/
def edit (table : Table) (column key : String) (e : Entry) : Query Nat :=
  statement fun db =>
    let column := plainName column
    match table with
    | .metadata => do
      let (count, rows) ←
        setWhere table column e (MetadataRow.hasKey key) MetadataRow.set db.metadata
      checked count { db with metadata := rows }
    | .nodes => do
      let (count, rows) ←
        setWhere table column e (NodeRow.hasKey key) NodeRow.set db.nodes
      checked count { db with nodes := rows }
    | .ideas => do
      let (count, rows) ←
        setWhere table column e (IdeaRow.hasKey key) IdeaRow.set db.ideas
      checked count { db with ideas := rows }
    | .generations => do
      let (count, rows) ←
        setWhere table column e (GenerationRow.hasKey key) GenerationRow.set db.generations
      checked count { db with generations := rows }
    | .relations => do
      let (count, rows) ←
        setWhere table column e (RelationRow.hasKey key) RelationRow.set db.relations
      checked count { db with relations := rows }

/-- Delete the rows with a key; the answer is their number. -/
def erase (table : Table) (key : String) : Query Nat :=
  statement fun db =>
    match table with
    | .metadata =>
      let fits := MetadataRow.hasKey key
      checked (db.metadata.toList.countP fits) { db with metadata := db.metadata.erase fits }
    | .nodes =>
      let fits := NodeRow.hasKey key
      checked (db.nodes.toList.countP fits) { db with nodes := db.nodes.erase fits }
    | .ideas =>
      let fits := IdeaRow.hasKey key
      checked (db.ideas.toList.countP fits) { db with ideas := db.ideas.erase fits }
    | .generations =>
      let fits := GenerationRow.hasKey key
      checked (db.generations.toList.countP fits)
        { db with generations := db.generations.erase fits }
    | .relations =>
      let fits := RelationRow.hasKey key
      checked (db.relations.toList.countP fits) { db with relations := db.relations.erase fits }

end Ideas.Database
