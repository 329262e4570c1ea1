/-
What tools answer.

An answer is a record, with the fields of all its objects in the order of their
names.  Tools work on the database of a workspace; what one wrote before it failed
stays written.  That the relations found by discovery cannot be saved is no failure,
and a candidate whose idea cannot be loaded has no title.
-/
import Ideas.Inspection
import Ideas.Tool.Request
import Ideas.Unification
import Ideas.Workspace

namespace Ideas

open NodeStore

/-- A tool at work. -/
abbrev ToolM (α : Type) := ExceptT ToolError (StateM Database) α

namespace ToolRequest

variable (workspace : Workspace)

/-- Work on the graph. -/
def engine {α : Type} (act : Action Database α) : ToolM α :=
  ExceptT.adapt ToolError.engine act

/-- Store a new idea. -/
def addAnswer (fresh : NodeId) (draft : Draft) : ToolM Json := do
  engine (draft.author fresh workspace.owner)
  let node ← engine (require fresh)
  return .object [
    ("id", fresh.toJson),
    ("node_type", .string node.kind.name),
    ("arcs", .ofNat node.arcs.length)]

/-- Show a node, its idea and its forward chain. -/
def inspectAnswer (id : NodeId) : ToolM Json := do
  let node ← engine (require id)
  let idea ← engine (getIdea id)
  let chain ← engine (forwardChain id)
  return (Inspection.mk node idea (chain.map Node.id)).toJson

/-- A forward reference that was written, as a record. -/
def forwardingJson (f : Forwarding) : Json :=
  .object [
    ("node", f.node.toJson),
    ("into", f.target.toJson),
    ("generation", .ofNat f.generation),
    ("comp_arcs_added", .ofNat f.received)]

/-- Unify two nodes. -/
def unifyAnswer (fresh a b : NodeId) : ToolM Json := do
  let u ← engine (Ideas.unify fresh a b)
  return .object [
    ("result_node_id", u.result.toJson),
    ("canonical_id", u.canonical.toJson),
    ("merged", .bool u.merged),
    ("forwarded", Json.ofList forwardingJson u.forwarded)]

/-- Save relations as far as that is possible. -/
def trySave (id : NodeId) (found : List (Candidate Float)) : StateM Database Unit := do
  let _ ← (Database.saveRelations id found).run
  return ()

/-- A candidate as a record. -/
def candidateJson (c : Candidate Float) : StateM Database Json := do
  let idea ← attempt? (getIdea c.id)
  return .object [
    ("id", c.id.toJson),
    ("strength", .ofFloat c.strength),
    ("title", .string ((idea.join.map Idea.title).getD ""))]

/-- Find the ideas related to an idea. -/
def discoverAnswer (id : NodeId) (limit : Option Nat) (save : Bool) : StateM Database Json := do
  let usual := workspace.settings.discovery
  let settings := { usual with limit := limit.getD usual.limit }
  let found := settings.cap (← discoverRelations settings id)
  if save then trySave id found
  return .object [
    ("threshold", .ofFloat settings.threshold),
    ("candidates", .array (← found.mapM candidateJson))]

/-- Count what is stored. -/
def countAnswer : StateM Database Json := do
  let s := (← get).statistics
  return .object [
    ("nodes", .ofNat s.nodes),
    ("ideas", .ofNat s.ideas),
    ("archived", .ofNat s.archived),
    ("superseded", .ofNat s.superseded),
    ("materialized", .ofNat s.materialized),
    ("relations", .ofNat s.relations),
    ("owner", .string workspace.owner)]

/-- Do what is asked; a new node has the id `fresh`. -/
def answer (fresh : NodeId) : ToolRequest → ToolM Json
  | .add draft => addAnswer workspace fresh draft
  | .discover id limit save => ExceptT.lift (discoverAnswer workspace id limit save)
  | .inspect id => inspectAnswer id
  | .count => ExceptT.lift (countAnswer workspace)
  | .unify a b => unifyAnswer fresh a b

end ToolRequest

/-- Call a tool by its name. -/
def Tool.call (workspace : Workspace) (fresh : NodeId) (name parameters : Json) : ToolM Json := do
  let request ← ExceptT.mk (pure (ToolRequest.ofCall name parameters))
  return (← request.answer workspace fresh).sorted

end Ideas
