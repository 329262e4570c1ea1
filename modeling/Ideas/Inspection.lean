/-
What is shown of a node: itself, its idea and its forward chain.
-/
import Ideas.Codec

namespace Ideas

/-- All that is shown of a node. -/
structure Inspection where
  node : Node
  /-- The idea that the node belongs to. -/
  idea : Option Idea
  /-- The ids on the forward chain, the canonical one last. -/
  chain : List NodeId

namespace Inspection

/-- The canonical id. -/
def canonical? (i : Inspection) : Option NodeId :=
  i.chain.getLast?

/-- All of it as a record. -/
def toJson (i : Inspection) : Json :=
  .object [
    ("node", i.node.toJson),
    ("idea", Json.ofOption Idea.toJson i.idea),
    ("chain", Json.ofList NodeId.toJson i.chain)]

end Inspection

end Ideas
