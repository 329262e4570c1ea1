/-
Finding the ideas that are related to an idea.

Every idea of a pool is scored against a target.  Those that score above a threshold
are candidates, the strongest first, and equally strong ones in the order of the pool;
the target itself and archived ideas are left out.  Discovery is advice: when the
store cannot be read, there are no candidates.
-/
import Ideas.Decimal.Integer
import Ideas.Similarity.Score
import Ideas.Store

namespace Ideas

open NodeStore

/-- An idea that may be related, and how strongly. -/
structure Candidate (α : Type) where
  id : NodeId
  strength : α

/-- The candidates among a pool: those admitted by their strength, the strongest first. -/
def rank {α : Type} (strength : Idea → α) (admits : α → Bool) (atLeast : α → α → Bool)
    (target : NodeId) (pool : List Idea) : List (Candidate α) :=
  let scored := (pool.filter fun i => i.id ≠ target ∧ i.archived = false).map
    fun i => (⟨i.id, strength i⟩ : Candidate α)
  (scored.filter fun c => admits c.strength).mergeSort
    fun c d => atLeast c.strength d.strength

/-- The place of a double in the total order of doubles. -/
def strengthKey (x : Float) : Int :=
  let bits : Int := x.toBits.toNat
  if bits ≤ Decimal.greatestInt64 then bits else Decimal.greatestInt64 - bits

/-- What discovery is set to. -/
structure DiscoverySettings where
  /-- Candidates have to score above this. -/
  threshold : Float := 0.1
  /-- How many candidates are kept. -/
  limit : Nat := 5

namespace DiscoverySettings

/-- Keep the strongest candidates. -/
def cap {α : Type} (settings : DiscoverySettings) (found : List (Candidate α)) :
    List (Candidate α) :=
  found.take settings.limit

end DiscoverySettings

/-- The candidates for a target among a pool, the strongest first. -/
def discover (settings : DiscoverySettings) (target : Idea) (pool : List Idea) :
    List (Candidate Float) :=
  rank (Similarity.score Float target) (fun x => settings.threshold < x)
    (fun x y => strengthKey y ≤ strengthKey x) target.id pool

/-- The outcome of an action, or nothing where it fails. -/
def attempt? {σ α : Type} (act : Action σ α) : StateM σ (Option α) := do
  match ← act.run with
  | .ok value => return some value
  | .error _ => return none

/-- The candidates for an idea among the active ideas of its owner. -/
def discoverRelations {σ : Type} [NodeStore σ] (settings : DiscoverySettings) (id : NodeId) :
    StateM σ (List (Candidate Float)) := do
  match ← attempt? (getIdea id) with
  | some (some target) =>
    match ← attempt? (listActive target.owner) with
    | some pool => return discover settings target pool
    | none => return []
  | _ => return []

end Ideas
