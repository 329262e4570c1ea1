/-
A database as one text, the form in which it is kept between two runs.

Every table is an array of its rows, behind the mark of whether one was ever moved, and
every row an array of its place and of the array of its columns.  A double is kept by
its bits, so that nothing of it is lost.  A database is kept between transactions only,
and a restored one has none open.
-/
import Ideas.Codec
import Ideas.Database

namespace Ideas.Database

open Json

/-! ### Cells -/

/-- A whole number with its sign. -/
def readInt? : Json → Option Int
  | .number ⟨negative, whole, none, none⟩ =>
    let n : Int := Decimal.digitsValue whole
    some (if negative then -n else n)
  | _ => none

/-- A cell: a number, a text, or a record of the bits of a double. -/
def Cell.toJson : Cell → Json
  | .integer n => .ofInt n
  | .real x => .object [("bits", .ofNat x.toBits.toNat)]
  | .text s => .string s

/-- Read a cell. -/
def Cell.ofJson? : Json → Option Cell
  | .string s => some (.text s)
  | .object [("bits", bits)] =>
    (natUpTo? Decimal.greatestWord bits).map fun n => .real (Float.ofBits n.toUInt64)
  | v => (readInt? v).map .integer

/-! ### Rows -/

/-- A text that may be missing. -/
def ofText : Option String → Json :=
  Json.ofOption .string

/-- Read a text that may be missing. -/
def readText? : Json → Option (Option String) :=
  nullable string?

/-- A row of the table of properties. -/
def MetadataRow.toJson (r : MetadataRow) : Json :=
  .array [ofText r.key, .string r.value]

/-- Read a row of the table of properties. -/
def MetadataRow.ofJson? : Json → Option MetadataRow
  | .array [key, value] => return ⟨← readText? key, ← value.string?⟩
  | _ => none

/-- A row of the table of nodes. -/
def NodeRow.toJson (r : NodeRow) : Json :=
  .array [ofText r.id, .string r.owner, .string r.kind, ofText r.name, .string r.arcs,
    .string r.complement, ofText r.forward, ofText r.copy, r.generation.toJson]

/-- Read a row of the table of nodes. -/
def NodeRow.ofJson? : Json → Option NodeRow
  | .array [id, owner, kind, name, arcs, complement, forward, copy, generation] =>
    return {
      id := ← readText? id
      owner := ← owner.string?
      kind := ← kind.string?
      name := ← readText? name
      arcs := ← arcs.string?
      complement := ← complement.string?
      forward := ← readText? forward
      copy := ← readText? copy
      generation := ← Cell.ofJson? generation }
  | _ => none

/-- A row of the table of ideas. -/
def IdeaRow.toJson (r : IdeaRow) : Json :=
  .array [ofText r.id, .string r.owner, .string r.title, ofText r.content, .string r.tags,
    r.energy.toJson, r.archived.toJson]

/-- Read a row of the table of ideas. -/
def IdeaRow.ofJson? : Json → Option IdeaRow
  | .array [id, owner, title, content, tags, energy, archived] =>
    return {
      id := ← readText? id
      owner := ← owner.string?
      title := ← title.string?
      content := ← readText? content
      tags := ← tags.string?
      energy := ← Cell.ofJson? energy
      archived := ← Cell.ofJson? archived }
  | _ => none

/-- A row of the table of counters. -/
def GenerationRow.toJson (r : GenerationRow) : Json :=
  .array [ofText r.owner, r.value.toJson]

/-- Read a row of the table of counters. -/
def GenerationRow.ofJson? : Json → Option GenerationRow
  | .array [owner, value] => return ⟨← readText? owner, ← Cell.ofJson? value⟩
  | _ => none

/-- A row of the table of relations. -/
def RelationRow.toJson (r : RelationRow) : Json :=
  .array [.string r.source, .string r.target, r.strength.toJson]

/-- Read a row of the table of relations. -/
def RelationRow.ofJson? : Json → Option RelationRow
  | .array [source, target, strength] =>
    return ⟨← source.string?, ← target.string?, ← Cell.ofJson? strength⟩
  | _ => none

/-! ### Tables -/

/-- A place: its number, and which draw it was by. -/
def Place.toJson (p : Place) : Json :=
  .array [.ofInt p.number, .ofNat p.drawn]

/-- Read a place. -/
def Place.ofJson? : Json → Option Place
  | .array [number, drawn] =>
    return ⟨← readInt? number, ← natUpTo? Decimal.greatestWord drawn⟩
  | _ => none

/-- The rows of a table with their places. -/
def Rows.toJson {ρ : Type} (encode : ρ → Json) (t : Rows ρ) : Json :=
  .array [.bool t.moved, Json.ofList (fun p => .array [p.place.toJson, encode p.row]) t.placed]

/-- Read a row and its place. -/
def Placed.ofJson? {ρ : Type} (decode : Json → Option ρ) : Json → Option (Placed ρ)
  | .array [place, row] => return ⟨← Place.ofJson? place, ← decode row⟩
  | _ => none

/-- Read the rows of a table. -/
def Rows.ofJson? {ρ : Type} (decode : Json → Option ρ) : Json → Option (Rows ρ)
  | .array [moved, placed] => return ⟨← placed.list? (Placed.ofJson? decode), ← moved.bool?⟩
  | _ => none

/-! ### Databases -/

/-- The tables of a database. -/
def toJson (db : Database) : Json :=
  .array [
    db.metadata.toJson MetadataRow.toJson,
    db.nodes.toJson NodeRow.toJson,
    db.ideas.toJson IdeaRow.toJson,
    db.generations.toJson GenerationRow.toJson,
    db.relations.toJson RelationRow.toJson]

/-- Read the tables of a database. -/
def ofJson? : Json → Option Database
  | .array [metadata, nodes, ideas, generations, relations] =>
    return {
      metadata := ← Rows.ofJson? MetadataRow.ofJson? metadata
      nodes := ← Rows.ofJson? NodeRow.ofJson? nodes
      ideas := ← Rows.ofJson? IdeaRow.ofJson? ideas
      generations := ← Rows.ofJson? GenerationRow.ofJson? generations
      relations := ← Rows.ofJson? RelationRow.ofJson? relations }
  | _ => none

/-- The text of a database. -/
def snapshot (db : Database) : String :=
  db.toJson.compact

/-- The database of a text. -/
def restore? (text : String) : Option Database :=
  (Json.read? text).bind ofJson?

end Ideas.Database
