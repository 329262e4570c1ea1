/-
Nodes and ideas as JSON.

Each type has a pair of functions, one to write it and one to read it.  Written
records name all their fields in a fixed order.  On reading, the fields of nodes and
ideas that have a usual value may be missing; the others have to be there.
-/
import Ideas.Discovery
import Ideas.Json.Printer
import Ideas.Json.Reader
import Ideas.Json.Record
import Ideas.Node

namespace Ideas

open Json

namespace NodeId

/-- An id as its text. -/
def toJson (id : NodeId) : Json :=
  .string id.text

/-- Read an id. -/
def ofJson? (v : Json) : Option NodeId :=
  v.string?.bind read?

theorem ofJson?_toJson (id : NodeId) : ofJson? id.toJson = some id := by
  rw [ofJson?, toJson, string?, Option.bind_some, read?_text]

end NodeId

namespace ArcValue

/-- A value as a record of its kind and itself. -/
def toJson (v : ArcValue) : Json :=
  let (kind, content) := match v with
    | .text s => ("text", Json.string s)
    | .number x => ("number", Json.ofFloat x)
    | .node id => ("node", id.toJson)
  .object [("kind", .string kind), ("value", content)]

/-- The value of a kind. -/
def ofContent? (kind : String) (content : Json) : Option ArcValue :=
  if kind = "text" then content.string?.map .text
  else if kind = "number" then content.float?.map .number
  else if kind = "node" then (NodeId.ofJson? content).map .node
  else none

/-- Read the kind of a value; in a record that is an array it can only be the word itself. -/
def kind? (record : Json) (kind : Json) : Option String :=
  match record with
  | .array _ => kind.string?
  | _ => kind.word?

/-- Read a value. -/
def ofJson? (v : Json) : Option ArcValue := do
  match ← v.record? ["kind", "value"] with
  | [kind, content] =>
    let kind ← required (kind? v) kind
    required (ofContent? kind) content
  | _ => none

end ArcValue

namespace Arc

/-- An arc as a record. -/
def toJson (a : Arc) : Json :=
  .object [("label", .string a.label), ("value", a.value.toJson)]

/-- Read an arc. -/
def ofJson? (v : Json) : Option Arc := do
  match ← v.record? ["label", "value"] with
  | [label, value] =>
    return { label := ← required string? label, value := ← required ArcValue.ofJson? value }
  | _ => none

end Arc

namespace Arcs

/-- A list of arcs. -/
def toJson (arcs : List Arc) : Json :=
  Json.ofList Arc.toJson arcs

/-- Read a list of arcs. -/
def ofJson? (v : Json) : Option (List Arc) :=
  v.list? Arc.ofJson?

end Arcs

namespace NodeKind

/-- Read the kind of a node. -/
def ofJson? (v : Json) : Option NodeKind :=
  v.word?.bind ofName?

theorem ofJson?_name (kind : NodeKind) : ofJson? (.string kind.name) = some kind := by
  rw [ofJson?, word?, Option.bind_some, ofName?_name]

end NodeKind

namespace Node

/-- The names of the fields of a node. -/
def fieldNames : List String :=
  ["id", "owner", "node_type", "name", "arc_list", "comp_arc_list", "forward_id", "copy_id",
    "generation"]

/-- A node as a record. -/
def toJson (n : Node) : Json :=
  .object [
    ("id", n.id.toJson),
    ("owner", .string n.owner),
    ("node_type", .string n.kind.name),
    ("name", Json.ofOption .string n.name),
    ("arc_list", Arcs.toJson n.arcs),
    ("comp_arc_list", Arcs.toJson n.complement),
    ("forward_id", Json.ofOption NodeId.toJson n.forward),
    ("copy_id", Json.ofOption NodeId.toJson n.copy),
    ("generation", .ofNat n.generation)]

/-- Read a node. -/
def ofJson? (v : Json) : Option Node := do
  match ← v.record? fieldNames with
  | [id, owner, kind, name, arcs, complement, forward, copy, generation] =>
    return {
      id := ← required NodeId.ofJson? id
      owner := ← required string? owner
      kind := ← required NodeKind.ofJson? kind
      name := ← optional none (nullable string?) name
      arcs := ← required Arcs.ofJson? arcs
      complement := ← optional [] Arcs.ofJson? complement
      forward := ← optional none (nullable NodeId.ofJson?) forward
      copy := ← optional none (nullable NodeId.ofJson?) copy
      generation := ← optional 0 (natUpTo? Decimal.greatestWord) generation }
  | _ => none

end Node

namespace Idea

/-- The names of the fields of an idea. -/
def fieldNames : List String :=
  ["id", "owner", "title", "content", "tags", "energy", "archived"]

/-- An idea as a record. -/
def toJson (i : Idea) : Json :=
  .object [
    ("id", i.id.toJson),
    ("owner", .string i.owner),
    ("title", .string i.title),
    ("content", Json.ofOption .string i.content),
    ("tags", Json.ofList .string i.tags),
    ("energy", .ofNat i.energy.toNat),
    ("archived", .bool i.archived)]

/-- Read an idea. -/
def ofJson? (v : Json) : Option Idea := do
  match ← v.record? fieldNames with
  | [id, owner, title, content, tags, energy, archived] =>
    return {
      id := ← required NodeId.ofJson? id
      owner := ← required string? owner
      title := ← required string? title
      content := ← optional none (nullable string?) content
      tags := ← optional [] (list? string?) tags
      energy := (← required (natUpTo? 255) energy).toUInt8
      archived := ← optional false bool? archived }
  | _ => none

end Idea

namespace DiscoverySettings

/-- Settings as a record. -/
def toJson (s : DiscoverySettings) : Json :=
  .object [("threshold", .ofFloat s.threshold), ("limit", .ofNat s.limit)]

/-- Read settings; what is missing has its usual value. -/
def ofJson? (v : Json) : Option DiscoverySettings := do
  let usual : DiscoverySettings := {}
  match ← v.record? ["threshold", "limit"] with
  | [threshold, limit] =>
    return {
      threshold := ← optional usual.threshold float? threshold
      limit := ← optional usual.limit (natUpTo? Decimal.greatestWord) limit }
  | _ => none

end DiscoverySettings

end Ideas
