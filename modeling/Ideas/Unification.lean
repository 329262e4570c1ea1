/-
Unification of two nodes.

Nothing is overwritten.  Of two nodes that become one, the first is forwarded into
the second and keeps those arcs of the second that it lacks.  Two leaves unify if
their names are equal, and then nothing is written; a leaf is forwarded into a
complex node; and two complex nodes first unify the nodes that they refer to under a
common label.  Those references may lead back to the pair that is being unified: a
pair that was opened once is not opened again, so cyclic structures come to an end.
They may also merge one of the two nodes on the way, and then the pair starts again
from where the two have got to.

The `Run` carries the store, the pairs opened so far and the forwardings written so
far; like the store it survives a failure.  Every call inside another one opens a new
ordered pair of stored nodes, so their number bounds the depth of the recursion.
-/
import Ideas.ForwardChain
import Ideas.Materialization

namespace Ideas

open NodeStore

/-- One forward reference that was written. -/
structure Forwarding where
  node : NodeId
  target : NodeId
  /-- The stamp it was written with. -/
  generation : Nat
  /-- How many arcs of the target the node received. -/
  received : Nat
deriving DecidableEq, Repr

/-- A unification under way. -/
structure Run (σ : Type) where
  store : σ
  /-- The pairs of canonical nodes whose common labels were looked into, the latest first. -/
  opened : List (NodeId × NodeId) := []
  /-- The forward references written, in the order of writing. -/
  forwarded : List Forwarding := []

/-- A step of a unification. -/
abbrev RunM (σ α : Type) := ExceptT EngineError (StateM (Run σ)) α

/-- What a unification came to. -/
structure Unified where
  /-- The node that holds the result. -/
  result : NodeId
  /-- The canonical node of the first of the two. -/
  canonical : NodeId
  /-- The forward references written, in the order of writing. -/
  forwarded : List Forwarding
deriving DecidableEq, Repr

/-- Whether a unification wrote anything. -/
def Unified.merged (u : Unified) : Bool :=
  !u.forwarded.isEmpty

namespace Run

variable {σ : Type} [NodeStore σ]

/-- Let the store do something. -/
def onStore {α : Type} (act : Action σ α) : RunM σ α :=
  fun run =>
    let (result, store) := act run.store
    (result, { run with store })

/-- Point `node` at `target` and add `arcs` to what it received, under a fresh stamp. -/
def forwardInto (node : Node) (target : NodeId) (arcs : List Arc) : RunM σ Unit := do
  let generation ← onStore (nextGeneration node.owner)
  onStore <| update node.id
    { complement := if arcs.isEmpty then none else some (node.complement ++ arcs)
      forward := some target
      generation := some generation }
  modify fun run => { run with
    forwarded := run.forwarded ++ [⟨node.id, target, generation, arcs.length⟩] }

/-- Unify what two complex nodes refer to under a common label, label by label. -/
def unifyShared (unify : NodeId → NodeId → RunM σ Unit) (ours : List Arc) :
    List Arc → RunM σ Unit
  | [] => pure ()
  | theirs :: rest => do
    match (Arcs.find? theirs.label ours).bind (·.value.node?), theirs.value.node? with
    | some a, some b => unify a b
    | _, _ => pure ()
    unifyShared unify ours rest

/-- Unify two complex canonical nodes, with `unify` for what they refer to. -/
def unifyComplex (unify : NodeId → NodeId → RunM σ Unit) (n m : Node) : RunM σ Unit := do
  let shared := Arcs.intersect n.arcs m.arcs
  if shared.isEmpty then
    forwardInto n m.id (Arcs.complement m.arcs n.arcs)
  else
    modify fun run => { run with opened := (n.id, m.id) :: run.opened }
    unifyShared unify n.arcs shared
    let n ← onStore (require n.id)
    let m ← onStore (require m.id)
    if n.isSuperseded || m.isSuperseded then unify n.id m.id
    else forwardInto n m.id (Arcs.complement m.arcs n.arcs)

/-- Unify two nodes, with `unify` for all that has to be unified on the way. -/
def unifyStep (unify : NodeId → NodeId → RunM σ Unit) (a b : NodeId) : RunM σ Unit := do
  let n ← onStore (dereference a)
  let m ← onStore (dereference b)
  if n.id = m.id ∨ (n.id, m.id) ∈ (← getThe (Run σ)).opened then
    return ()
  match n.isLeaf, m.isLeaf with
  | true, true =>
    if n.name ≠ m.name then
      throw (.incompatibleLeaves n.displayName m.displayName)
  | true, false => forwardInto n m.id []
  | false, true => forwardInto m n.id []
  | false, false => unifyComplex unify n m

/-- Unify two nodes with at most `depth` calls inside one another. -/
def unifyWithin : Nat → NodeId → NodeId → RunM σ Unit
  | 0, a, _ => throw (.cycleDetected a)
  | depth + 1, a, b => unifyStep (unifyWithin depth) a b

/-- Unify two nodes from a fresh start on a store: the outcome, and the run as it ended. -/
def unify (store : σ) (a b : NodeId) : Except EngineError Unit × Run σ :=
  let count := nodeCount store
  unifyWithin (count * count + 1) a b { store }

end Run

variable {σ : Type} [NodeStore σ]

/-- Unify two nodes; the answer lists the forward references written. -/
def unifyCore (a b : NodeId) : Action σ (List Forwarding) :=
  fun store =>
    let (result, run) := Run.unify store a b
    (result.map fun _ => run.forwarded, run.store)

/-- The copy of a node, where it has one that is stored. -/
def existingCopy (id : NodeId) : Action σ (Option NodeId) := do
  match (← require id).copy with
  | none => return none
  | some copy => return if (← get copy).isSome then some copy else none

/-- Unify two nodes and make the merged view of the first, under the id `fresh`.  Where there
was nothing to do, nothing is written: the answer is the copy there is, or the canonical node. -/
def unify (fresh a b : NodeId) : Action σ Unified := do
  let forwarded ← unifyCore a b
  let canonical ← dereference a
  let result ←
    if forwarded.isEmpty then pure ((← existingCopy a).getD canonical.id)
    else pure (← materialize fresh a).id
  return ⟨result, canonical.id, forwarded⟩

end Ideas
