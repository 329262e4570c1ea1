/-
Nodes of the graph.

A node is a leaf, which has a name and nothing else, a complex node, which carries
arcs, or an atomic one, which is treated like a leaf.  A node that was unified into
another one points at it through `forward`, once and for ever; the arcs of the other
node that it lacked are then kept in `complement`.  `copy` points at the node that
holds the merged view, and `generation` stamps the time of forwarding.

An `Update` names the fields to overwrite and leaves the rest alone.
-/
import Ideas.Arc

namespace Ideas

/-- The kinds of nodes. -/
inductive NodeKind where
  /-- A named node without structure. -/
  | leaf
  /-- A node with arcs. -/
  | complex
  /-- Unified exactly like a leaf. -/
  | atomic
deriving DecidableEq, Repr

namespace NodeKind

/-- The word for a kind. -/
def name : NodeKind → String
  | .leaf => "leaf"
  | .complex => "complex"
  | .atomic => "atomic"

/-- The kind a word names, if it names one. -/
def ofName? (s : String) : Option NodeKind :=
  if s = "leaf" then some .leaf
  else if s = "complex" then some .complex
  else if s = "atomic" then some .atomic
  else none

/-- The kind a stored word stands for; an unknown word stands for a leaf. -/
def ofStored (s : String) : NodeKind :=
  (ofName? s).getD .leaf

theorem ofName?_name (kind : NodeKind) : ofName? kind.name = some kind := by
  cases kind <;> decide

theorem ofStored_name (kind : NodeKind) : ofStored kind.name = kind := by
  simp [ofStored, ofName?_name]

end NodeKind

/-- A node of the graph. -/
structure Node where
  id : NodeId
  owner : String
  kind : NodeKind
  name : Option String
  /-- The arcs it was made with. -/
  arcs : List Arc
  /-- The arcs it received from the nodes it was unified with. -/
  complement : List Arc := []
  /-- The node it was unified into. -/
  forward : Option NodeId := none
  /-- The node that holds its merged view. -/
  copy : Option NodeId := none
  generation : Nat := 0

namespace Node

/-- A leaf. -/
def leaf (id : NodeId) (owner name : String) : Node :=
  { id, owner, kind := .leaf, name := some name, arcs := [] }

/-- A complex node without a name; of arcs with one label the first is kept. -/
def complex (id : NodeId) (owner : String) (arcs : List Arc) : Node :=
  { id, owner, kind := .complex, name := none, arcs := Arcs.dedup arcs }

/-- A complex node with a name; of arcs with one label the first is kept. -/
def namedComplex (id : NodeId) (owner name : String) (arcs : List Arc) : Node :=
  { id, owner, kind := .complex, name := some name, arcs := Arcs.dedup arcs }

/-- Leaves and atomic nodes have no structure to merge. -/
def isLeaf (n : Node) : Bool :=
  n.kind = .leaf ∨ n.kind = .atomic

/-- Complex nodes have arcs to merge. -/
def isComplex (n : Node) : Bool :=
  n.kind = .complex

/-- A node that was unified into another one. -/
def isSuperseded (n : Node) : Bool :=
  n.forward.isSome

/-- The name, or nothing where there is none. -/
def displayName (n : Node) : String :=
  n.name.getD ""

end Node

/-- The fields of a node to overwrite. -/
structure Update where
  arcs : Option (List Arc) := none
  complement : Option (List Arc) := none
  forward : Option NodeId := none
  copy : Option NodeId := none
  generation : Option Nat := none

namespace Update

/-- An update that overwrites nothing. -/
def isEmpty (u : Update) : Bool :=
  u.arcs.isNone && u.complement.isNone && u.forward.isNone && u.copy.isNone
    && u.generation.isNone

/-- Overwrite the fields of a node. -/
def applyTo (u : Update) (n : Node) : Node :=
  { n with
    arcs := u.arcs.getD n.arcs
    complement := u.complement.getD n.complement
    forward := u.forward.or n.forward
    copy := u.copy.or n.copy
    generation := u.generation.getD n.generation }

@[simp] theorem id_applyTo (u : Update) (n : Node) : (u.applyTo n).id = n.id := rfl

@[simp] theorem owner_applyTo (u : Update) (n : Node) : (u.applyTo n).owner = n.owner := rfl

@[simp] theorem kind_applyTo (u : Update) (n : Node) : (u.applyTo n).kind = n.kind := rfl

@[simp] theorem name_applyTo (u : Update) (n : Node) : (u.applyTo n).name = n.name := rfl

/-- An update without fields changes nothing. -/
theorem applyTo_of_isEmpty {u : Update} (h : u.isEmpty) (n : Node) : u.applyTo n = n := by
  simp_all [isEmpty, applyTo]

end Update

end Ideas
