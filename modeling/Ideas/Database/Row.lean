/-
The rows of the tables.

A row holds a node or an idea as texts and numbers: ids as their texts, lists as
JSON.  The columns that may be empty are optional here, and among them are the keys of
four of the tables, which the tables do not insist on.  Writing a row is checked only
for the size of counts; reading one checks everything, column by column.
-/
import Ideas.Codec
import Ideas.Database.Cell

namespace Ideas.Database

/-- A row of the table of nodes. -/
structure NodeRow where
  id : Option String
  owner : String
  kind : String
  name : Option String
  arcs : String
  complement : String
  forward : Option String
  copy : Option String
  generation : Cell

/-- A row of the table of ideas. -/
structure IdeaRow where
  id : Option String
  owner : String
  title : String
  content : Option String
  tags : String
  energy : Cell
  archived : Cell

/-- A row of the table of generation counters. -/
structure GenerationRow where
  owner : Option String
  value : Cell

/-- A row of the table of relations. -/
structure RelationRow where
  source : String
  target : String
  strength : Cell

/-- A row of the table of properties of the database itself. -/
structure MetadataRow where
  key : Option String
  value : String

/-- The id in a column. -/
def readId (s : String) : Except StoreError NodeId :=
  match NodeId.read? s with
  | some id => .ok id
  | none => .error (.invalidData (.badId s))

/-- The id in a column that may be empty. -/
def readOptionalId : Option String → Except StoreError (Option NodeId)
  | none => .ok none
  | some s => (readId s).map some

/-- The text in a key column. -/
def readKey : Option String → Except StoreError String
  | some s => .ok s
  | none => .error .mismatch

/-- The value that a JSON text in a column stands for. -/
def readJson {α : Type} (decode : Json → Option α) (s : String) : Except StoreError α :=
  match (Json.read? s).bind decode with
  | some a => .ok a
  | none => .error .json

namespace NodeRow

/-- The row of a node. -/
def ofNode (n : Node) : Except StoreError NodeRow := do
  return {
    id := some n.id.text
    owner := n.owner
    kind := n.kind.name
    name := n.name
    arcs := (Arcs.toJson n.arcs).compact
    complement := (Arcs.toJson n.complement).compact
    forward := n.forward.map NodeId.text
    copy := n.copy.map NodeId.text
    generation := .integer (← ofCount n.generation) }

/-- The node in a row. -/
def toNode (r : NodeRow) : Except StoreError Node := do
  let id ← readKey r.id
  let generation ← r.generation.toInteger
  return {
    id := ← readId id
    owner := r.owner
    kind := NodeKind.ofStored r.kind
    name := r.name
    arcs := ← readJson Arcs.ofJson? r.arcs
    complement := ← readJson Arcs.ofJson? r.complement
    forward := ← readOptionalId r.forward
    copy := ← readOptionalId r.copy
    generation := ← toCount generation }

/-- Overwrite the columns of an update; its generation is given as the tables keep it. -/
def overwrite (r : NodeRow) (u : Update) (generation : Option Int) : NodeRow :=
  { r with
    arcs := (u.arcs.map fun arcs => (Arcs.toJson arcs).compact).getD r.arcs
    complement := (u.complement.map fun arcs => (Arcs.toJson arcs).compact).getD r.complement
    forward := (u.forward.map NodeId.text).or r.forward
    copy := (u.copy.map NodeId.text).or r.copy
    generation := (generation.map Cell.integer).getD r.generation }

end NodeRow

namespace IdeaRow

/-- The row of an idea. -/
def ofIdea (i : Idea) : IdeaRow :=
  { id := some i.id.text
    owner := i.owner
    title := i.title
    content := i.content
    tags := (Json.ofList .string i.tags).compact
    energy := .integer i.energy.toNat
    archived := .integer (if i.archived then 1 else 0) }

/-- The columns of a row that have to be of a certain type. -/
structure Columns where
  id : String
  energy : Int
  archived : Bool

/-- Check the types of a row's columns. -/
def columns (r : IdeaRow) : Except StoreError Columns := do
  return { id := ← readKey r.id, energy := ← r.energy.toInteger, archived := ← r.archived.toBool }

/-- The idea in a row whose columns were checked. -/
def ofColumns (r : IdeaRow) (c : Columns) : Except StoreError Idea := do
  if c.energy < 0 ∨ 255 < c.energy then
    throw (.invalidData (.energyOutOfRange c.energy))
  return {
    id := ← readId c.id
    owner := r.owner
    title := r.title
    content := r.content
    tags := ← readJson (Json.list? Json.string?) r.tags
    energy := clampEnergy c.energy.toNat.toUInt8
    archived := c.archived }

/-- The idea in a row. -/
def toIdea (r : IdeaRow) : Except StoreError Idea := do
  r.ofColumns (← r.columns)

end IdeaRow

end Ideas.Database
