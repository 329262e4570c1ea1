/-
Following forward references.

The forward chain of an id is the node with that id, the node it was unified into,
and so on; its last node, which points nowhere, is the canonical one.  The walk
remembers the ids it has seen and stops with an error at the first one that it meets
again, or that is not stored.  No walk visits more nodes than are stored, which is
what bounds the recursion.
-/
import Ideas.Store

namespace Ideas

open NodeStore

variable {σ : Type} [NodeStore σ]

/-- Follow forward references from `current`, for at most `steps` nodes; `seen` holds the ids
met so far. -/
def followForward : Nat → List NodeId → NodeId → Action σ (List Node)
  | 0, _, current => throw (.cycleDetected current)
  | steps + 1, seen, current => do
    if current ∈ seen then throw (.cycleDetected current)
    let node ← require current
    match node.forward with
    | none => return [node]
    | some next => return node :: (← followForward steps (current :: seen) next)

/-- Every node on the forward chain of an id, the canonical one last. -/
def forwardChain (id : NodeId) : Action σ (List Node) := do
  followForward (nodeCount (← getThe σ) + 1) [] id

/-- The canonical node of an id: the end of its forward chain. -/
def dereference (id : NodeId) : Action σ Node := do
  match (← forwardChain id).getLast? with
  | some node => return node
  | none => throw (.nodeNotFound id)

end Ideas
