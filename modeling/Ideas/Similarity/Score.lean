/-
How alike two ideas are.

Four tenths of the score come from the titles, three from the bodies, two from the
tags and one from the energies.  A missing body scores nothing and keeps its weight.
-/
import Ideas.Idea
import Ideas.Similarity.Text

namespace Ideas.Similarity

variable (α : Type) [Number α]

/-- The share of tags that two ideas have in common, each tag counted once. -/
def tagScore (a b : List String) : α :=
  let a := a.eraseDups
  let b := b.eraseDups
  let total := a.length + b.length
  if total = 0 then 0.0
  else 2.0 * Number.ofCount (a.filter (· ∈ b)).length / Number.ofCount total

/-- How far two energies are apart, after both are brought into their range. -/
def energyDistance (a b : UInt8) : Nat :=
  let a := (clampEnergy a).toNat
  let b := (clampEnergy b).toNat
  max a b - min a b

/-- One for equal energies, and a quarter less for every step between them. -/
def energyScore (a b : UInt8) : α :=
  1.0 - Number.ofCount (energyDistance a b)
    / Number.ofCount (maxEnergy.toNat - minEnergy.toNat)

/-- The parts of a score. -/
structure Breakdown where
  title : α
  content : α
  tags : α
  energy : α
  total : α

/-- The score of two bodies, of which either may be missing. -/
def contentScore (a b : Option String) : α :=
  match a, b with
  | some a, some b => textSimilarity α a b
  | _, _ => 0.0

/-- The parts of a score, weighed and added. -/
def weighted (title content tags energy : α) : α :=
  0.40 * title + 0.30 * content + 0.20 * tags + 0.10 * energy

/-- How alike two ideas are, part by part. -/
def breakdown (a b : Idea) : Breakdown α :=
  let title := textSimilarity α a.title b.title
  let content := contentScore α a.content b.content
  let tags := tagScore α a.tags b.tags
  let energy := energyScore α a.energy b.energy
  { title, content, tags, energy
    total := clampUnit (weighted α title content tags energy) }

/-- How alike two ideas are, from zero to one. -/
def score (a b : Idea) : α :=
  (breakdown α a b).total

end Ideas.Similarity
