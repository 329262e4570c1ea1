/-
Calls on stores of any kind, and what holds while they run.

A `Regime` says three things of a kind of store: what holds of its states, when a node is
seen in a state as it was read, and with which errors a call may end in which states.  It is
`Readable` if reading a node abides by it, and `Lawful` if all single requests do.  Then the
operations on the graph do, which are put together from requests: they keep what holds, and
fail as they may.

The one law with a condition is that of forwarding.  It is asked only of two nodes that are
seen, that point nowhere and that differ, and wherever a unification forwards a node, this is
so: both were read just before, and between reading and writing there are other reads at the
most, which lose sight of nothing (`Regime.Reads`).
-/
import Ideas.Proofs.Backed
import Ideas.Proofs.Unification.Forwarding

namespace Ideas

open NodeStore

/-- The errors that the operations on the graph raise by themselves. -/
inductive EngineError.Structural : EngineError → Prop
  | nodeNotFound (id : NodeId) : Structural (.nodeNotFound id)
  | cycleDetected (id : NodeId) : Structural (.cycleDetected id)
  | incompatibleLeaves (left right : String) : Structural (.incompatibleLeaves left right)

/-- The two requests that forward a node. -/
def forwardRequests {σ : Type} [NodeStore σ] (n : Node) (target : NodeId) (arcs : List Arc) :
    Action σ Nat := do
  let generation ← nextGeneration n.owner
  update n.id (.forwarding n target arcs generation)
  return generation

/-- What is to hold of the states of a store, and of calls on it. -/
structure Regime (σ : Type) where
  /-- What holds of every state. -/
  holds : σ → Prop
  /-- A node is stored as it was read. -/
  sees : σ → Node → Prop
  /-- A call may end with an error in a state. -/
  allows : EngineError → σ → Prop

namespace Regime

variable {σ τ α β : Type} {p : Regime σ} {store : τ → σ} {pre : σ → Prop}

/-- How a call may end. -/
def Ends (p : Regime σ) (store : τ → σ) (post : α → σ → Prop) : Except EngineError α × τ → Prop
  | (.ok a, t) => p.holds (store t) ∧ post a (store t)
  | (.error e, t) => p.allows e (store t)

/-- An action that keeps what holds, if it is run where `pre` does. -/
def Keeps (p : Regime σ) (store : τ → σ) (pre : σ → Prop)
    (act : ExceptT EngineError (StateM τ) α) : Prop :=
  ∀ t, p.holds (store t) → pre (store t) → p.Ends store (fun _ _ => True) (act t)

/-- An action that also loses sight of no node; `post` tells what it answers with. -/
def Reads (p : Regime σ) (store : τ → σ) (pre : σ → Prop)
    (act : ExceptT EngineError (StateM τ) α) (post : α → σ → Prop) : Prop :=
  ∀ t, p.holds (store t) → pre (store t) →
    p.Ends store (fun a s => post a s ∧ ∀ n, p.sees (store t) n → p.sees s n) (act t)

/-- Reading a node abides by a regime. -/
structure Readable [NodeStore σ] (p : Regime σ) : Prop where
  fails : ∀ {e s}, e.Structural → p.holds s → p.allows e s
  get : ∀ id, p.Reads (fun s => s) (fun _ => True) (get id)
    fun found s => ∀ n, found = some n → n.id = id ∧ p.sees s n

/-- Single requests abide by a regime. -/
structure Lawful [NodeStore σ] (p : Regime σ) : Prop extends p.Readable where
  forward : ∀ (n k : Node) arcs, n.forward = none → k.forward = none → n.id ≠ k.id →
    p.Keeps (fun s => s) (fun s => p.sees s n ∧ p.sees s k) (forwardRequests n k.id arcs)
  create : ∀ n : Node, n.forward = none →
    p.Keeps (fun s => s) (fun _ => True) (create n)
  point : ∀ id copy,
    p.Keeps (fun s => s) (fun _ => True) (update id { copy := some copy })

/-- The nodes of a forward chain, each of them seen. -/
inductive Walk (p : Regime σ) (s : σ) : NodeId → List Node → Prop
  | last {n : Node} (sees : p.sees s n) (h : n.forward = none) : Walk p s n.id [n]
  | step {n : Node} {next : NodeId} {rest : List Node} (sees : p.sees s n)
      (h : n.forward = some next) (tail : Walk p s next rest) : Walk p s n.id (n :: rest)

/-- The last node of a chain points nowhere. -/
theorem Walk.last_forward {s : σ} {id : NodeId} {chain : List Node} {n : Node}
    (h : p.Walk s id chain) (hlast : chain.getLast? = some n) :
    n.forward = none ∧ p.sees s n := by
  induction h with
  | last hsees hn =>
      cases hlast
      exact ⟨hn, hsees⟩
  | @step _ _ rest _ _ tail ih =>
      refine ih ?_
      cases tail <;> exact hlast

/-! ### Actions put together -/

section

variable {act : ExceptT EngineError (StateM τ) α} {f : α → ExceptT EngineError (StateM τ) β}
  {mid : α → σ → Prop} {post : β → σ → Prop}

theorem reads_pure {b : β} (h : ∀ s, pre s → post b s) : p.Reads store pre (pure b) post :=
  fun _ hholds hpre => ⟨hholds, h _ hpre, fun _ hn => hn⟩

theorem Reads.bind (h : p.Reads store pre act mid) (hf : ∀ a, p.Reads store (mid a) (f a) post) :
    p.Reads store pre (act >>= f) post := by
  intro t hholds hpre
  have hact := h t hholds hpre
  rcases hrun : act t with ⟨e | a, t'⟩
  · rw [hrun] at hact
    rw [bind_eq_of_error hrun]
    exact hact
  · rw [hrun] at hact
    obtain ⟨hholds', hmid, hsees⟩ := hact
    have hrest := hf a t' hholds' hmid
    rw [bind_eq_of_ok hrun]
    rcases hrun' : f a t' with ⟨e | b, t''⟩
    · rw [hrun'] at hrest
      exact hrest
    · rw [hrun'] at hrest
      exact ⟨hrest.1, hrest.2.1, fun n hn => hrest.2.2 n (hsees n hn)⟩

/-- A node that was seen before is seen after reading. -/
theorem Reads.frame (h : p.Reads store pre act mid) (n : Node) :
    p.Reads store (fun s => pre s ∧ p.sees s n) act (fun a s => mid a s ∧ p.sees s n) := by
  intro t hholds hpre
  have hact := h t hholds hpre.1
  rcases hrun : act t with ⟨e | a, t'⟩
  · rw [hrun] at hact
    exact hact
  · rw [hrun] at hact
    exact ⟨hact.1, ⟨hact.2.1, hact.2.2 n hpre.2⟩, hact.2.2⟩

theorem Reads.weaken {pre' : σ → Prop} (h : p.Reads store pre act mid)
    (hpre : ∀ s, pre' s → pre s) : p.Reads store pre' act mid :=
  fun t hholds hpre' => h t hholds (hpre _ hpre')

/-- What has nothing to do with the state is known from the start. -/
theorem Reads.of_fact {P : Prop} (h : P → p.Reads store pre act mid) :
    p.Reads store (fun s => P ∧ pre s) act mid :=
  fun t hholds hpre => h hpre.1 t hholds hpre.2

theorem keeps_pure (b : β) : p.Keeps store pre (pure b) :=
  fun _ hholds _ => ⟨hholds, trivial⟩

theorem Keeps.weaken {pre' : σ → Prop} (h : p.Keeps store pre act) (hpre : ∀ s, pre' s → pre s) :
    p.Keeps store pre' act :=
  fun t hholds hpre' => h t hholds (hpre _ hpre')

theorem Keeps.of_fact {P : Prop} (h : P → p.Keeps store pre act) :
    p.Keeps store (fun s => P ∧ pre s) act :=
  fun t hholds hpre => h hpre.1 t hholds hpre.2

/-- What is read tells what may be done next. -/
theorem Reads.keeps_bind (h : p.Reads store pre act mid)
    (hf : ∀ a, p.Keeps store (mid a) (f a)) : p.Keeps store pre (act >>= f) := by
  intro t hholds hpre
  have hact := h t hholds hpre
  rcases hrun : act t with ⟨e | a, t'⟩
  · rw [hrun] at hact
    rw [bind_eq_of_error hrun]
    exact hact
  · rw [hrun] at hact
    rw [bind_eq_of_ok hrun]
    exact hf a t' hact.1 hact.2.1

theorem Keeps.bind (h : p.Keeps store pre act) (hf : ∀ a, p.Keeps store (fun _ => True) (f a)) :
    p.Keeps store pre (act >>= f) := by
  intro t hholds hpre
  have hact := h t hholds hpre
  rcases hrun : act t with ⟨e | a, t'⟩
  · rw [hrun] at hact
    rw [bind_eq_of_error hrun]
    exact hact
  · rw [hrun] at hact
    rw [bind_eq_of_ok hrun]
    exact hf a t' hact.1 trivial

end

/-! ### Walks -/

section

variable [NodeStore σ] (readable : p.Readable)

include readable

theorem Readable.reads_throw {e : EngineError} (he : e.Structural) (post : α → σ → Prop) :
    p.Reads store pre (throw e) post :=
  fun _ hholds _ => readable.fails he hholds

theorem Readable.keeps_throw {e : EngineError} (he : e.Structural) :
    p.Keeps store pre (throw e : ExceptT EngineError (StateM τ) α) :=
  fun _ hholds _ => readable.fails he hholds

/-- A node that is there is seen. -/
theorem Readable.require (id : NodeId) : p.Reads (fun s => s) (fun _ => True) (require id)
    fun n s => n.id = id ∧ p.sees s n := by
  refine (readable.get id).bind fun found => ?_
  cases found with
  | none => exact readable.reads_throw (.nodeNotFound id) _
  | some n => exact reads_pure fun s h => h n rfl

/-- A walk sees every node that it comes by. -/
theorem Readable.followForward : ∀ (steps : Nat) (seen : List NodeId) (id : NodeId),
    p.Reads (fun s => s) (fun _ => True) (followForward steps seen id)
      fun chain s => p.Walk s id chain := by
  intro steps
  induction steps with
  | zero => exact fun seen id => readable.reads_throw (.cycleDetected id) _
  | succ steps ih =>
      intro seen id
      by_cases hseen : id ∈ seen
      · rw [Ideas.followForward, if_pos hseen]
        exact readable.reads_throw (.cycleDetected id) _
      · rw [followForward_of_notMem hseen]
        refine (readable.require id).bind fun n => ?_
        cases hn : n.forward with
        | none =>
            refine reads_pure ?_
            rintro s ⟨rfl, hsees⟩
            exact .last hsees hn
        | some next =>
            refine Reads.of_fact fun hid => ?_
            refine (((ih (id :: seen) next).frame n).weaken fun _ h => ⟨trivial, h⟩).bind ?_
            intro rest
            refine reads_pure ?_
            rintro s ⟨hrest, hsees⟩
            exact hid ▸ .step hsees hn hrest

theorem Readable.forwardChain (id : NodeId) :
    p.Reads (fun s => s) (fun _ => True) (forwardChain id)
      fun chain s => p.Walk s id chain :=
  fun s hholds _ => readable.followForward (nodeCount s + 1) [] id s hholds trivial

theorem Readable.dereference (id : NodeId) :
    p.Reads (fun s => s) (fun _ => True) (dereference id) fun n s =>
      n.forward = none ∧ p.sees s n := by
  refine (readable.forwardChain id).bind fun chain => ?_
  cases hlast : chain.getLast? with
  | none => exact readable.reads_throw (.nodeNotFound id) _
  | some n => exact reads_pure fun s h => h.last_forward hlast

theorem Readable.existingCopy (id : NodeId) :
    p.Reads (fun s => s) (fun _ => True) (existingCopy id) fun _ _ => True := by
  refine (readable.require id).bind fun n => ?_
  cases n.copy with
  | none => exact reads_pure fun _ _ => trivial
  | some copy =>
      refine ((readable.get copy).weaken fun _ _ => trivial).bind fun found => ?_
      exact reads_pure fun _ _ => trivial

end

/-! ### Merged views and unification -/

section

variable {call : NodeId → NodeId → RunM σ Unit}

theorem Reads.onStore {act : Action σ α} {post : α → σ → Prop}
    (h : p.Reads (fun s => s) pre act post) :
    p.Reads Run.store pre (Run.onStore act) post := by
  intro run hholds hpre
  have hact := h run.store hholds hpre
  rw [Run.onStore]
  rcases hrun : act run.store with ⟨e | a, s⟩ <;> rw [hrun] at hact <;> exact hact

theorem Keeps.onStore {act : Action σ α} (h : p.Keeps (fun s => s) pre act) :
    p.Keeps Run.store pre (Run.onStore act) := by
  intro run hholds hpre
  have hact := h run.store hholds hpre
  rw [Run.onStore]
  rcases hrun : act run.store with ⟨e | a, s⟩ <;> rw [hrun] at hact <;> exact hact

/-- What a run notes of itself is not in the store. -/
theorem keeps_modify {f : Run σ → Run σ} (hf : ∀ run, (f run).store = run.store) :
    p.Keeps Run.store pre (modify f : RunM σ PUnit) := by
  intro run hholds _
  exact ⟨(hf run).symm ▸ hholds, trivial⟩

theorem onStore_bind (act : Action σ α) (f : α → Action σ β) :
    (Run.onStore (act >>= f) : RunM σ β) = Run.onStore act >>= fun a => Run.onStore (f a) := by
  funext run
  rcases hact : act run.store with ⟨e | a, s⟩
  · have hrun : Run.onStore act run = (.error e, { run with store := s }) := by
      rw [Run.onStore, hact]
    rw [bind_eq_of_error hrun, Run.onStore, bind_eq_of_error hact]
  · have hrun : Run.onStore act run = (.ok a, { run with store := s }) := by
      rw [Run.onStore, hact]
    rw [bind_eq_of_ok hrun, Run.onStore, bind_eq_of_ok hact]
    rfl

/-- A node is forwarded by two requests, and then a note is made of it. -/
theorem forwardInto_eq [NodeStore σ] (n : Node) (target : NodeId) (arcs : List Arc) :
    (Run.forwardInto n target arcs : RunM σ Unit) = (do
      let generation ← Run.onStore (forwardRequests n target arcs)
      modify fun run => { run with
        forwarded := run.forwarded ++ [⟨n.id, target, generation, arcs.length⟩] }) := by
  have hpure (g : Nat) : (Run.onStore (pure g) : RunM σ Nat) = pure g := rfl
  rw [forwardRequests, Run.forwardInto]
  simp only [onStore_bind, hpure, bind_assoc, pure_bind]
  rfl

/-- What is kept for two nodes is kept for all that two nodes refer to. -/
theorem keeps_unifyShared (hrec : ∀ a b, p.Keeps Run.store (fun _ => True) (call a b))
    (ours theirs : List Arc) :
    p.Keeps Run.store (fun _ => True) (Run.unifyShared call ours theirs) := by
  induction theirs with
  | nil => exact keeps_pure ()
  | cons arc rest ih =>
      rw [Run.unifyShared]
      split
      · exact (hrec _ _).bind fun _ => ih
      · exact ih

variable [NodeStore σ] (lawful : p.Lawful)

include lawful

theorem Lawful.materialize (fresh id : NodeId) :
    p.Keeps (fun s => s) (fun _ => True) (materialize fresh id) := by
  refine (lawful.forwardChain id).keeps_bind fun chain => ?_
  cases chain.head? with
  | none => exact lawful.keeps_throw (.nodeNotFound id)
  | some input =>
      cases chain.getLast? with
      | none => exact lawful.keeps_throw (.nodeNotFound id)
      | some canonical =>
          refine ((lawful.create _ rfl).weaken fun _ _ => trivial).bind fun _ => ?_
          exact (lawful.point input.id fresh).bind fun _ => keeps_pure _

theorem Lawful.forwardInto {n k : Node} (hn : n.forward = none) (hk : k.forward = none)
    (hne : n.id ≠ k.id) (arcs : List Arc) :
    p.Keeps Run.store (fun s => p.sees s n ∧ p.sees s k) (Run.forwardInto n k.id arcs) := by
  rw [forwardInto_eq]
  exact (lawful.forward n k arcs hn hk hne).onStore.bind fun _ => keeps_modify fun _ => rfl

theorem Lawful.unifyComplex (hrec : ∀ a b, p.Keeps Run.store (fun _ => True) (call a b))
    {n k : Node} (hn : n.forward = none) (hk : k.forward = none) (hne : n.id ≠ k.id) :
    p.Keeps Run.store (fun s => p.sees s n ∧ p.sees s k) (Run.unifyComplex call n k) := by
  rw [Run.unifyComplex]
  split
  · exact lawful.forwardInto hn hk hne _
  refine Keeps.bind (keeps_modify fun _ => rfl) fun _ => ?_
  refine (keeps_unifyShared hrec _ _).bind fun _ => ?_
  -- The two nodes are read again: what was seen of them before is not relied on.
  refine (lawful.require n.id).onStore.keeps_bind fun n' => Keeps.of_fact fun hn' => ?_
  refine (((lawful.require k.id).onStore.frame n').weaken fun _ h => ⟨trivial, h⟩).keeps_bind
    fun k' => ?_
  split
  · exact (hrec n'.id k'.id).weaken fun _ _ => trivial
  · next hmerged =>
      obtain ⟨hleft, hright⟩ := Bool.or_eq_false_iff.mp (Bool.eq_false_iff.mpr hmerged)
      have hleft := Node.isSuperseded_eq_false_iff.mp hleft
      have hright := Node.isSuperseded_eq_false_iff.mp hright
      intro run hholds hseen
      obtain ⟨⟨hk', hsees⟩, hsees'⟩ := hseen
      have hne' : n'.id ≠ k'.id := by rwa [hn', hk']
      exact lawful.forwardInto hleft hright hne' _ run hholds ⟨hsees', hsees⟩

theorem Lawful.unifyStep (hrec : ∀ a b, p.Keeps Run.store (fun _ => True) (call a b))
    (a b : NodeId) : p.Keeps Run.store (fun _ => True) (Run.unifyStep call a b) := by
  rw [Run.unifyStep]
  refine (lawful.dereference a).onStore.keeps_bind fun n => Keeps.of_fact fun hn => ?_
  refine (((lawful.dereference b).onStore.frame n).weaken fun _ h => ⟨trivial, h⟩).keeps_bind
    fun k => ?_
  intro run hholds hseen
  obtain ⟨⟨hk, hright⟩, hleft⟩ := hseen
  have hget : (getThe (Run σ) : RunM σ (Run σ)) run = (.ok run, run) := rfl
  rw [bind_eq_of_ok hget]
  by_cases hknown : n.id = k.id ∨ (n.id, k.id) ∈ run.opened
  · rw [if_pos hknown]
    exact ⟨hholds, trivial⟩
  rw [if_neg hknown]
  have hne : n.id ≠ k.id := fun he => hknown (Or.inl he)
  cases n.isLeaf with
  | true =>
      cases k.isLeaf with
      | true =>
          simp only
          split
          · exact lawful.fails (.incompatibleLeaves _ _) hholds
          · exact ⟨hholds, trivial⟩
      | false => exact lawful.forwardInto hn hk hne [] run hholds ⟨hleft, hright⟩
  | false =>
      cases k.isLeaf with
      | true => exact lawful.forwardInto hk hn hne.symm [] run hholds ⟨hright, hleft⟩
      | false => exact lawful.unifyComplex hrec hn hk hne run hholds ⟨hleft, hright⟩

theorem Lawful.unifyWithin (depth : Nat) (a b : NodeId) :
    p.Keeps Run.store (fun _ => True) (Run.unifyWithin depth a b) := by
  induction depth generalizing a b with
  | zero => exact lawful.keeps_throw (.cycleDetected a)
  | succ depth ih => exact lawful.unifyStep ih a b

theorem Lawful.unifyCore (a b : NodeId) :
    p.Keeps (fun s => s) (fun _ => True) (unifyCore a b) := by
  intro s hholds _
  have hrun := lawful.unifyWithin (nodeCount s * nodeCount s + 1) a b { store := s } hholds trivial
  rcases hends : Run.unify s a b with ⟨outcome, run⟩
  rw [Run.unify] at hends
  rw [hends] at hrun
  rw [Ideas.unifyCore, Run.unify, hends]
  cases outcome <;> exact hrun

theorem Lawful.unify (fresh a b : NodeId) :
    p.Keeps (fun s => s) (fun _ => True) (unify fresh a b) := by
  refine (lawful.unifyCore a b).bind fun forwarded => ?_
  refine (lawful.dereference a).keeps_bind fun canonical => ?_
  split
  · refine ((lawful.existingCopy a).weaken fun _ _ => trivial).keeps_bind fun found => ?_
    exact keeps_pure _
  · exact ((lawful.materialize fresh a).weaken fun _ _ => trivial).bind fun _ => keeps_pure _

end

/-! ### States that are only read -/

/-- A state stays as it is. -/
def still (s₀ : σ) (sees : σ → Node → Prop) : Regime σ where
  holds s := s = s₀
  sees := sees
  allows _ s := s = s₀

/-! ### Watched stores -/

/-- What holds of a store behind a watch. -/
def watched (p : Regime σ) : Regime (Monitored σ) where
  holds m := p.holds m.inner
  sees m := p.sees m.inner
  allows e m := p.allows e m.inner

/-- A watched request fails before it reaches the store, or is answered by the store. -/
theorem pass_cases (operation : Operation) (act : Action σ α) (m : Monitored σ) :
    (∃ requests fault, Monitored.pass operation act m
        = (.error Monitored.injected, ⟨m.inner, requests, fault⟩)) ∨
      ∃ requests fault, Monitored.pass operation act m
        = ((act m.inner).1, ⟨(act m.inner).2, requests, fault⟩) := by
  rcases hstrike : Monitored.strike operation m.fault with ⟨struck, fault⟩
  cases struck with
  | true => exact Or.inl ⟨_, _, Monitored.pass_of_strike act hstrike⟩
  | false =>
      refine Or.inr ⟨operation :: m.requests, fault, ?_⟩
      simp only [Monitored.pass, hstrike]
      rfl

section

variable (hstruck : ∀ s, p.holds s → p.allows Monitored.injected s)

include hstruck

theorem Reads.pass {act : Action σ α} {post : α → σ → Prop} (operation : Operation)
    (h : p.Reads (fun s => s) pre act post) :
    p.watched.Reads (fun m => m) (fun m => pre m.inner) (Monitored.pass operation act)
      fun a m => post a m.inner := by
  intro m hholds hpre
  rcases pass_cases operation act m with ⟨requests, fault, hrun⟩ | ⟨requests, fault, hrun⟩
  · rw [hrun]
    exact hstruck m.inner hholds
  · have hact := h m.inner hholds hpre
    rw [hrun]
    rcases hact' : act m.inner with ⟨e | a, s⟩ <;> rw [hact'] at hact <;> exact hact

theorem Keeps.pass {act : Action σ α} (operation : Operation)
    (h : p.Keeps (fun s => s) pre act) :
    p.watched.Keeps (fun m => m) (fun m => pre m.inner)
      (Monitored.pass operation act) := by
  intro m hholds hpre
  rcases pass_cases operation act m with ⟨requests, fault, hrun⟩ | ⟨requests, fault, hrun⟩
  · rw [hrun]
    exact hstruck m.inner hholds
  · have hact := h m.inner hholds hpre
    rw [hrun]
    rcases hact' : act m.inner with ⟨e | a, s⟩ <;> rw [hact'] at hact <;> exact hact

variable [NodeStore σ]

theorem Readable.watched (h : p.Readable) : p.watched.Readable where
  fails he hholds := h.fails he hholds
  get id := (h.get id).pass hstruck .get

/-- A watch may strike between the two requests that forward a node, so that a stamp is lost. -/
theorem Lawful.watched (h : p.Lawful)
    (hstamp : ∀ owner, p.Keeps (fun s => s) (fun _ => True) (nextGeneration owner)) :
    p.watched.Lawful where
  toReadable := h.toReadable.watched hstruck
  forward n k arcs hn hk hne := by
    intro m hholds hsees
    rcases pass_cases .nextGeneration (nextGeneration n.owner) m with
      ⟨requests, fault, hrun⟩ | ⟨requests, fault, hrun⟩ <;>
      change (nextGeneration n.owner : Action (Monitored σ) Nat) m = _ at hrun
    · rw [forwardRequests, bind_eq_of_error hrun]
      exact hstruck m.inner hholds
    have hstamped := hstamp n.owner m.inner hholds trivial
    have hboth := h.forward n k arcs hn hk hne m.inner hholds hsees
    rcases hissued : (nextGeneration n.owner : Action σ Nat) m.inner with ⟨e | g, s⟩
    · rw [hissued] at hrun hstamped
      rw [forwardRequests, bind_eq_of_error hrun]
      exact hstamped
    rw [hissued] at hrun hstamped
    rw [forwardRequests, bind_eq_of_ok hissued] at hboth
    rw [forwardRequests, bind_eq_of_ok hrun]
    rcases pass_cases .update (update n.id (.forwarding n k.id arcs g)) ⟨s, requests, fault⟩ with
      ⟨requests', fault', hrun'⟩ | ⟨requests', fault', hrun'⟩ <;>
      change (update n.id (.forwarding n k.id arcs g) : Action (Monitored σ) Unit) _ = _ at hrun'
    · rw [bind_eq_of_error hrun']
      exact hstruck s hstamped.1
    rcases hupdate : (update n.id (.forwarding n k.id arcs g) : Action σ Unit) s with ⟨e | _, s'⟩
    · rw [hupdate] at hrun'
      rw [bind_eq_of_error hupdate] at hboth
      rw [bind_eq_of_error hrun']
      exact hboth
    · rw [hupdate] at hrun'
      rw [bind_eq_of_ok hupdate] at hboth
      rw [bind_eq_of_ok hrun']
      exact hboth
  create n hn := (h.create n hn).pass hstruck .create
  point id copy := (h.point id copy).pass hstruck .update

end

end Regime

end Ideas
