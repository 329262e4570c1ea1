/-
The merged view of a node, as a node of its own.

A node together with all that its forward chain has gathered can be written out as a
new node.  Its arcs are those of the chain in order, of each node first its own and
then the ones it received, and of arcs with one label the first is kept; so the arcs
of the node itself win.  The node then points at its copy, which stands on no chain.
-/
import Ideas.ForwardChain

namespace Ideas

open NodeStore

/-- The arcs gathered along a chain, the first of each label. -/
def gatheredArcs (chain : List Node) : List Arc :=
  chain.foldl (fun arcs node => Arcs.union (Arcs.union arcs node.arcs) node.complement) []

/-- The merged view, under the id `fresh`, of a node whose chain is `chain` and ends in
`canonical`. -/
def mergedView (fresh : NodeId) (input canonical : Node) (chain : List Node) : Node :=
  let arcs := gatheredArcs chain
  { id := fresh
    owner := input.owner
    kind := if canonical.isComplex || !arcs.isEmpty then .complex else canonical.kind
    name := canonical.name.or input.name
    arcs
    generation := canonical.generation }

variable {σ : Type} [NodeStore σ]

/-- Store the merged view of a node under the id `fresh`, and point the node at it. -/
def materialize (fresh id : NodeId) : Action σ Node := do
  let chain ← forwardChain id
  match chain.head?, chain.getLast? with
  | some input, some canonical =>
    let copy := mergedView fresh input canonical chain
    create copy
    update input.id { copy := some fresh }
    return copy
  | _, _ => throw (.nodeNotFound id)

end Ideas
