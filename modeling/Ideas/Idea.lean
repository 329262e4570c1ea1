/-
Ideas: what people author.

An idea has a title, perhaps a body, tags and an energy from one to five, and it
shares the id of one node.  A body of blanks counts as missing.  Tags are trimmed,
put into lower case, and kept once each in the order in which they first appear.
-/
import Ideas.NodeId
import Ideas.Text.Lowercase

namespace Ideas

/-- The least energy of an idea. -/
def minEnergy : UInt8 := 1

/-- The greatest energy of an idea. -/
def maxEnergy : UInt8 := 5

/-- The nearest energy between the least and the greatest. -/
def clampEnergy (energy : UInt8) : UInt8 :=
  if energy < minEnergy then minEnergy else if maxEnergy < energy then maxEnergy else energy

theorem minEnergy_le_clampEnergy (energy : UInt8) : minEnergy ≤ clampEnergy energy := by
  unfold clampEnergy
  split
  · exact UInt8.le_refl _
  · split
    · decide
    · exact UInt8.not_lt.mp ‹_›

theorem clampEnergy_le_maxEnergy (energy : UInt8) : clampEnergy energy ≤ maxEnergy := by
  unfold clampEnergy
  split
  · decide
  · split
    · exact UInt8.le_refl _
    · exact UInt8.not_lt.mp ‹_›

theorem clampEnergy_of_mem {energy : UInt8} (h : minEnergy ≤ energy) (h' : energy ≤ maxEnergy) :
    clampEnergy energy = energy := by
  rw [clampEnergy, if_neg (UInt8.not_lt.mpr h), if_neg (UInt8.not_lt.mpr h')]

/-- A tag in its usual form: without blanks around it, and in lower case. -/
def normalizeTag (tag : String) : String :=
  Text.lowercase (Text.trim tag)

/-- Tags in their usual form, without blank ones, each where it first appears. -/
def normalizeTags (tags : List String) : List String :=
  (tags.map normalizeTag).foldl
    (fun kept tag => if tag = "" ∨ tag ∈ kept then kept else kept ++ [tag]) []

/-- An authored idea. -/
structure Idea where
  /-- The id of the idea and of its node. -/
  id : NodeId
  owner : String
  title : String
  content : Option String := none
  tags : List String := []
  energy : UInt8 := minEnergy
  archived : Bool := false
deriving DecidableEq

namespace Idea

/-- Set the body; blanks around it are dropped, and a blank one counts as missing. -/
def withContent (i : Idea) (content : String) : Idea :=
  let trimmed := Text.trim content
  { i with content := if trimmed = "" then none else some trimmed }

/-- Set the tags, in their usual form. -/
def withTags (i : Idea) (tags : List String) : Idea :=
  { i with tags := normalizeTags tags }

/-- Set the energy to the nearest admissible one. -/
def withEnergy (i : Idea) (energy : UInt8) : Idea :=
  { i with energy := clampEnergy energy }

/-- The body, empty where it is missing. -/
def contentText (i : Idea) : String :=
  i.content.getD ""

end Idea

end Ideas
