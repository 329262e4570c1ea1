/-
Forward chains only grow.

Whatever call is made on whatever data, and wherever it breaks off, a chain that could be
followed before can be followed after it and begins with the same ids.  Other chains may
be cyclic or lead nowhere, but none comes to be so: each forward reference is written
from a node that points nowhere to another one that is stored, is complex and points
nowhere at that moment.

Both are facts about the single writes (`Memory.Writes`), and hold of a call because it
does nothing else to forward references (`Call.writes`).
-/
import Ideas.Proofs.Unification.Call

namespace Ideas

open Backed

/-- The calls that unify nodes or write a merged view. -/
inductive Call where
  | unifyCore (a b : NodeId)
  | unify (copy a b : NodeId)
  | materialize (copy id : NodeId)

namespace Call

/-- The state after a call, whatever came of it. -/
def after {σ : Type} [NodeStore σ] : Call → σ → σ
  | .unifyCore a b, s => (Ideas.unifyCore a b s).2
  | .unify copy a b, s => (Ideas.unify copy a b s).2
  | .materialize copy id, s => (Ideas.materialize copy id s).2

/-- The forward references that a call writes, in the order of writing. -/
def written {σ : Type} [NodeStore σ] : Call → σ → List Forwarding
  | .unifyCore a b, s => (Run.unify s a b).2.forwarded
  | .unify _ a b, s => (Run.unify s a b).2.forwarded
  | .materialize _ _, _ => []

end Call

variable {σ : Type} [NodeStore σ] [Backed σ]

/-- What becomes of the data once the forward references are written takes no path back and points
no node elsewhere. -/
structure Settles (mid m : Memory) : Prop where
  grows : mid.Extends m
  forward?_eq : ∀ id, m.forward? id = mid.forward? id

theorem settles_refl (m : Memory) : Settles m m :=
  ⟨Memory.Extends.refl m, fun _ => rfl⟩

theorem settles_stamp (m : Memory) (owner : String) : Settles m (m.stamp owner) :=
  ⟨Memory.extends_stamp m owner, fun _ => rfl⟩

theorem unifyCore_settles (a b : NodeId) (s : σ) :
    ∃ mid, (contents s).Writes (Run.unify s a b).2.forwarded mid ∧
      Settles mid (contents (unifyCore a b s).2) := by
  rcases hcall : unifyCore a b s with ⟨r, s'⟩
  obtain ⟨mid, hwrites, ⟨-, hmid⟩ | ⟨e, -, hmid | ⟨owner, hmid⟩⟩⟩ := unifyCore_writes hcall
  · exact ⟨mid, hwrites, hmid ▸ settles_refl mid⟩
  · exact ⟨mid, hwrites, hmid ▸ settles_refl mid⟩
  · exact ⟨mid, hwrites, hmid ▸ settles_stamp mid owner⟩

theorem Materializes.settles {mid m m' : Memory} {copy id : NodeId}
    {r : Except EngineError Node} (h : Materializes m copy id r m') (hm : Settles mid m) :
    Settles mid m' :=
  ⟨hm.grows.trans h.extends, fun x => (h.forward?_eq x).trans (hm.forward?_eq x)⟩

/-- A call writes its forward references where they may be written, and nothing else that matters
to a chain. -/
theorem Call.writes (call : Call) (s : σ) :
    ∃ mid, (contents s).Writes (call.written s) mid ∧ Settles mid (contents (call.after s)) := by
  cases call with
  | unifyCore a b => exact unifyCore_settles a b s
  | unify copy a b =>
      obtain ⟨mid, hwrites, hsettles⟩ := unifyCore_settles a b s
      refine ⟨mid, hwrites, ?_⟩
      rw [after]
      rcases hcall : Ideas.unify copy a b s with ⟨r, s'⟩
      rcases unify_cases hcall with
        ⟨_, _, core, -, hcore, hsame⟩ | ⟨_, core, hcore, ⟨-, -, hsame⟩ | ⟨-, _, made, -⟩⟩
      · rw [hcore] at hsettles
        exact hsame ▸ hsettles
      · rw [hcore] at hsettles
        exact hsame ▸ hsettles
      · rw [hcore] at hsettles
        exact made.settles hsettles
  | materialize copy id =>
      refine ⟨contents s, .nil, ?_⟩
      rw [after]
      rcases hcall : Ideas.materialize copy id s with ⟨r, s'⟩
      exact (materializes hcall).settles (settles_refl _)

/-- A node that was not stored before a call points nowhere after it. -/
theorem Settles.forward_eq_none {m mid m' : Memory} {fs : List Forwarding}
    (hsettles : Settles mid m') (hwrites : m.Writes fs mid) {id : NodeId} {n : Node}
    (new : m.node? id = none) (found : m'.node? id = some n) : n.forward = none := by
  have hforward := hsettles.forward?_eq id
  rw [Memory.forward?, Memory.forward?, found, hwrites.accounts.missing new] at hforward
  exact hforward

/-- A stored id has a forward chain, or was stored before and had none already. -/
theorem Settles.chain_or_broken {m mid m' : Memory} {fs : List Forwarding}
    (hsettles : Settles mid m') (hwrites : m.Writes fs mid) {id : NodeId} {n : Node}
    (found : m'.node? id = some n) :
    (∃ chain, (forwardChain id m').1 = .ok chain) ∨
      (∃ k, m.node? id = some k) ∧ ∃ e, (forwardChain id m).1 = .error e := by
  cases hchain : (forwardChain id m).1 with
  | ok chain =>
      obtain ⟨chain', hchain', -⟩ :=
        (hwrites.extends.trans hsettles.grows).forwardChain hchain
      exact Or.inl ⟨chain', hchain'⟩
  | error e =>
      cases before : m.node? id with
      | some k => exact Or.inr ⟨⟨k, rfl⟩, e, rfl⟩
      | none =>
          have hn := hsettles.forward_eq_none hwrites before found
          exact Or.inl ⟨[n], Memory.forwardChain_eq_ok_iff.mpr ⟨[], n, rfl, .stop found hn⟩⟩

/-- After any call, and wherever it broke off, each forward chain there was can still be followed
and begins with the ids it had, so that ids which led to one node still do; no chain has
become cyclic or come to lead nowhere; and the forward references written, which are all that
changed about where nodes point, were written where they may be. -/
theorem forward_chains_grow (call : Call) (s : σ) :
    (∀ id chain, (forwardChain id (contents s)).1 = .ok chain →
      ∃ chain', (forwardChain id (contents (call.after s))).1 = .ok chain' ∧
        chain.map Node.id <+: chain'.map Node.id) ∧
    (∀ id n, (contents (call.after s)).node? id = some n →
      (∃ chain, (forwardChain id (contents (call.after s))).1 = .ok chain) ∨
        (∃ k, (contents s).node? id = some k) ∧
          ∃ e, (forwardChain id (contents s)).1 = .error e) ∧
    (∀ id id' n, (dereference id (contents s)).1 = .ok n →
      (dereference id' (contents s)).1 = .ok n →
        ∃ k, (dereference id (contents (call.after s))).1 = .ok k ∧
          (dereference id' (contents (call.after s))).1 = .ok k) ∧
    ∃ mid, (contents s).Writes (call.written s) mid ∧
      ∀ id, (contents (call.after s)).forward? id = mid.forward? id := by
  obtain ⟨mid, hwrites, hsettles⟩ := call.writes s
  have grows : (contents s).Extends (contents (call.after s)) :=
    hwrites.extends.trans hsettles.grows
  refine ⟨fun id chain hchain => grows.forwardChain hchain,
    fun id n found => hsettles.chain_or_broken hwrites found, ?_, mid, hwrites,
    hsettles.forward?_eq⟩
  intro id id' n hn hn'
  obtain ⟨k, hk, hself⟩ := grows.canonical (Memory.dereference_eq_ok_iff.mp hn)
  obtain ⟨k', hk', hself'⟩ := grows.canonical (Memory.dereference_eq_ok_iff.mp hn')
  obtain rfl := hself.unique hself'
  exact ⟨k, Memory.dereference_eq_ok_iff.mpr hk, Memory.dereference_eq_ok_iff.mpr hk'⟩

end Ideas
