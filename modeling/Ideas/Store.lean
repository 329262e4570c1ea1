/-
The contract between the graph's operations and whatever keeps its data.

An `Action` reads and writes a state and may fail.  What it wrote before it failed
stays written: the state comes back beside the answer, whether that is a value or an
error.  `NodeStore` lists the operations that a kind of state has to offer; all the
rest of the library is written against them and works on any such state.
-/
import Ideas.Error
import Ideas.Idea
import Ideas.Node

namespace Ideas

/-- A computation on a state that may fail, and keeps what was written before it failed. -/
abbrev Action (σ α : Type) := ExceptT EngineError (StateM σ) α

/-- The state is a store of nodes and of the ideas that own them. -/
class NodeStore (σ : Type) where
  /-- How many nodes are stored at most; no walk along stored references needs to be longer. -/
  nodeCount : σ → Nat
  /-- The node with an id, if there is one. -/
  get : NodeId → Action σ (Option Node)
  /-- Store a new node under its own id. -/
  create : Node → Action σ Unit
  /-- Overwrite fields of a node.  A forward reference is written once: a node that has one
  refuses another, and nothing is changed. -/
  update : NodeId → Update → Action σ Unit
  /-- Count the generation of an owner up by one, and answer with it. -/
  nextGeneration : String → Action σ Nat
  /-- The idea with an id, if there is one. -/
  getIdea : NodeId → Action σ (Option Idea)
  /-- Store a new idea together with its node. -/
  createIdea : Idea → Node → Action σ Unit
  /-- The ideas of an owner that are not archived, in the order of their creation. -/
  listActive : String → Action σ (List Idea)
  /-- Archive an idea; the idea and its node stay readable. -/
  archiveIdea : NodeId → Action σ Unit

namespace NodeStore

variable {σ : Type} [NodeStore σ]

/-- The node with an id; it is an error if there is none. -/
def require (id : NodeId) : Action σ Node := do
  match ← get id with
  | some node => return node
  | none => throw (.nodeNotFound id)

/-- The node of an idea: a leaf named by the title where there are no arcs, and a complex node
that carries them otherwise. -/
def nodeOf (idea : Idea) (arcs : List Arc) : Node :=
  if arcs.isEmpty then .leaf idea.id idea.owner idea.title
  else .namedComplex idea.id idea.owner idea.title arcs

/-- Store a new idea and the node made for it. -/
def authorIdea (idea : Idea) (arcs : List Arc) : Action σ Unit :=
  createIdea idea (nodeOf idea arcs)

end NodeStore

/-- The generation of an owner that none was issued to; the first one issued is one higher. -/
def generationSeed : Nat := 10

end Ideas
