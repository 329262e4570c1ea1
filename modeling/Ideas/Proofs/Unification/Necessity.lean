/-
A unification merges nothing that need not be merged.

`Forced` is what the data before a unification demand of it: the least equivalence that
relates the two ids in question, each node with the one it points at, and what two
related complex nodes refer to under a common label.  It is a congruence closure, and it
is taken of the memory as it was at first.

It propagates (`propagates_forced`), and so every course stays inside it, whether it succeeds
or fails: wherever a node points, that is forced, and the leaves that the course finds in
conflict are forced to be one (`Course.within`).
-/
import Ideas.Proofs.Unification.Demand

namespace Ideas

open Backed

namespace Memory

/-- The least equivalence that a unification of `a` and `b` has to respect. -/
inductive Forced (m : Memory) (a b : NodeId) : NodeId → NodeId → Prop
  | asked : Forced m a b a b
  | points {id next : NodeId} (h : m.forward? id = some next) : Forced m a b id next
  /-- The first arc of the one node with a label that any arc of the other node has. -/
  | shares {id id' x y : NodeId} {n k : Node} {ours theirs : Arc} (h : Forced m a b id id')
      (left : m.node? id = some n) (right : m.node? id' = some k) (hn : n.kind = .complex)
      (hk : k.kind = .complex) (first : Arcs.find? theirs.label n.arcs = some ours)
      (any : theirs ∈ k.arcs) (hx : ours.value = .node x) (hy : theirs.value = .node y) :
      Forced m a b x y
  | refl (id : NodeId) : Forced m a b id id
  | symm {id id' : NodeId} (h : Forced m a b id id') : Forced m a b id' id
  | trans {id id' id'' : NodeId} (h : Forced m a b id id') (h' : Forced m a b id' id'') :
      Forced m a b id id''

/-- Two leaves are forced to be one, and have different names. -/
def Conflict (m : Memory) (a b : NodeId) (left right : String) : Prop :=
  ∃ n k, m.node? n.id = some n ∧ m.node? k.id = some k ∧ m.Forced a b n.id k.id ∧
    n.isLeaf = true ∧ k.isLeaf = true ∧ n.name ≠ k.name ∧
    n.displayName = left ∧ k.displayName = right

/-- Nodes have only been forwarded, and only where it was forced. -/
structure Within (m : Memory) (a b : NodeId) (now : Memory) : Prop where
  evolves : m.Evolves now
  points : ∀ id next, now.forward? id = some next → m.Forced a b id next

variable {m now : Memory} {a b : NodeId}

theorem within_refl (m : Memory) (a b : NodeId) : m.Within a b m :=
  ⟨Evolves.refl m, fun _ _ h => .points h⟩

theorem Within.along (h : m.Within a b now) : m.Along (m.Forced a b) now :=
  ⟨h.evolves, fun id next hnext => Or.inr (h.points id next hnext)⟩

theorem Along.within (h : m.Along (m.Forced a b) now) : m.Within a b now :=
  ⟨h.evolves, fun id next hnext => (h.points id next hnext).elim .points fun hnew => hnew⟩

theorem propagates_forced (m : Memory) (a b : NodeId) : m.Propagates (m.Forced a b) where
  symm h := h.symm
  trans h h' := h.trans h'
  points h hnext := h.trans (.points hnext)
  shares h left right _ hn hk first any hx hy :=
    .shares h left.found right.found (Node.isLeaf_eq_false_iff.mp hn)
      (Node.isLeaf_eq_false_iff.mp hk) first any hx hy

end Memory

namespace Run

variable {m : Memory} {a b : NodeId} {fails : EngineError → Prop} {run run' : Run Memory}

/-- A course forwards only what is forced, and finds only leaves in conflict that are forced to be
one. -/
theorem Course.within {t : Task} {r : Except EngineError Unit} (h : Course fails t run r run')
    (hfails : ∀ left right, ¬ fails (.incompatibleLeaves left right))
    (forced : t.Related (m.Forced a b)) (within : m.Within a b run.store) :
    m.Within a b run'.store ∧
      ∀ left right, r = .error (.incompatibleLeaves left right) → m.Conflict a b left right := by
  obtain ⟨along, hstops⟩ := h.along (Memory.propagates_forced m a b) forced within.along
  refine ⟨along.within, ?_⟩
  intro left right hr
  rcases hstops _ hr with hfail | hobstacle
  · exact absurd hfail (hfails left right)
  · cases hobstacle with
    | unread _ _ _ he =>
        rcases Memory.error_of_dereference he with ⟨_, hcycle | hmissing⟩
        · cases hcycle
        · cases hmissing
    | names forced' left right hn hk hname =>
        exact ⟨_, _, left.found, right.found, forced', hn, hk, hname, rfl, rfl⟩

end Run

variable {σ : Type} [NodeStore σ] [Backed σ]

/-- A store does not find leaves in conflict. -/
theorem not_fails_clash (left right : String) : ¬ fails σ (.incompatibleLeaves left right) := by
  intro he
  obtain ⟨cause, hcause⟩ := ofStore_of_fails he
  rw [EngineError.ofStore] at hcause
  split at hcause <;> cases hcause

/-- Whether a unification succeeds or fails, each forward reference there is afterwards relates two
nodes that the data before it force to be one; and if it fails because of two leaves, there
are two stored leaves of these names, which differ, and which are forced to be one. -/
theorem nothing_unforced (s : σ) (a b : NodeId) :
    (∀ id next, (contents (unifyCore a b s).2).forward? id = some next →
      (contents s).Forced a b id next) ∧
    ∀ left right, (unifyCore a b s).1 = .error (.incompatibleLeaves left right) →
      ∃ n k, (contents s).node? n.id = some n ∧ (contents s).node? k.id = some k ∧
        (contents s).Forced a b n.id k.id ∧ n.isLeaf = true ∧ k.isLeaf = true ∧
        n.name ≠ k.name ∧ n.displayName = left ∧ k.displayName = right := by
  rcases hrun : Run.unify s a b with ⟨outcome, run⟩
  obtain ⟨within, hclash⟩ := (Run.course_of_unify hrun).within (m := contents s) (a := a) (b := b)
    not_fails_clash .asked (Memory.within_refl _ a b)
  rw [unifyCore_eq hrun]
  refine ⟨within.points, ?_⟩
  intro left right herror
  cases outcome with
  | ok _ => cases herror
  | error e =>
      cases herror
      exact hclash left right rfl

example : (unifyCore ⟨1⟩ ⟨2⟩
    ({ nodes := [.leaf ⟨1⟩ "ann" "tea", .leaf ⟨2⟩ "ann" "mate"] } : Memory)).1
      = .error (.incompatibleLeaves "tea" "mate") := by cbv

end Ideas
