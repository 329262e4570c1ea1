/-
Drafts: what people say of a new idea.

A draft has all that an idea is made of except its id and its owner.  It becomes an
idea when it is stored: its body, tags and energy are then brought into their usual
form, and a node is made from its title and its arcs.
-/
import Ideas.Store

namespace Ideas

/-- A new idea before it is stored. -/
structure Draft where
  title : String
  content : Option String := none
  tags : List String := []
  energy : UInt8 := minEnergy
  /-- The arcs of the idea's node. -/
  arcs : List Arc := []

namespace Draft

/-- The idea that a draft becomes. -/
def idea (draft : Draft) (id : NodeId) (owner : String) : Idea :=
  let idea := (Idea.mk id owner draft.title none [] minEnergy false).withTags draft.tags
    |>.withEnergy draft.energy
  match draft.content with
  | some content => idea.withContent content
  | none => idea

/-- Store a draft under the id `id`. -/
def author {σ : Type} [NodeStore σ] (draft : Draft) (id : NodeId) (owner : String) :
    Action σ Unit :=
  NodeStore.authorIdea (draft.idea id owner) draft.arcs

end Draft

end Ideas
