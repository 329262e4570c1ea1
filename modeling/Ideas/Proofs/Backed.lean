/-
Stores that keep what a memory keeps.

The operations on the graph run on any state that offers the requests of a `NodeStore`.
What can be proved of them rests on what the requests do, and `Backed` is that promise:
such a store holds the data of a memory, and each request either does to the data what
it does to the memory and gives the same answer, or fails before it reaches the data.
A memory keeps the promise without ever failing, and a watched store keeps it if the
store behind it does, whatever its fault is.

An action that only reads keeps the promise as a whole (`Reads`): each request may fail,
and it fails as its first failing request does.  That is proved once for every way of
putting requests together, and then holds of the walk along forward references and of
all that is built on it.
-/
import Ideas.Proofs.ForwardPath
import Ideas.Store.Memory
import Ideas.Store.Monitored
import Ideas.Unification

namespace Ideas

open NodeStore

/-- An action does to the data what `onMemory` does, or fails with one of the errors `fails` and
leaves the data alone. -/
def Serves {σ α : Type} (contents : σ → Memory) (fails : EngineError → Prop) (act : Action σ α)
    (onMemory : Action Memory α) : Prop :=
  ∀ s, (∃ e, fails e ∧ (act s).1 = .error e ∧ contents (act s).2 = contents s) ∨
    ((act s).1 = (onMemory (contents s)).1 ∧ contents (act s).2 = (onMemory (contents s)).2)

/-- A store that answers every request as a memory does, unless the request fails before it
reaches the data. -/
class Backed (σ : Type) [NodeStore σ] where
  /-- The data of a state. -/
  contents : σ → Memory
  /-- The errors of requests that did not reach the data. -/
  fails : EngineError → Prop
  ofStore_of_fails : ∀ {e}, fails e → ∃ cause, e = .ofStore cause
  nodeCount_eq : ∀ s, nodeCount s = nodeCount (contents s)
  serves_get : ∀ id, Serves contents fails (get id) (get id)
  serves_create : ∀ node, Serves contents fails (create node) (create node)
  serves_update : ∀ id u, Serves contents fails (update id u) (update id u)
  serves_nextGeneration : ∀ owner,
    Serves contents fails (nextGeneration owner) (nextGeneration owner)
  serves_getIdea : ∀ id, Serves contents fails (getIdea id) (getIdea id)
  serves_createIdea : ∀ idea node,
    Serves contents fails (createIdea idea node) (createIdea idea node)
  serves_listActive : ∀ owner, Serves contents fails (listActive owner) (listActive owner)
  serves_archiveIdea : ∀ id, Serves contents fails (archiveIdea id) (archiveIdea id)

open Backed

/-! ### The stores that keep the promise -/

/-- A memory never fails by itself. -/
instance : Backed Memory where
  contents := id
  fails _ := False
  ofStore_of_fails := False.elim
  nodeCount_eq _ := rfl
  serves_get _ _ := Or.inr ⟨rfl, rfl⟩
  serves_create _ _ := Or.inr ⟨rfl, rfl⟩
  serves_update _ _ _ := Or.inr ⟨rfl, rfl⟩
  serves_nextGeneration _ _ := Or.inr ⟨rfl, rfl⟩
  serves_getIdea _ _ := Or.inr ⟨rfl, rfl⟩
  serves_createIdea _ _ _ := Or.inr ⟨rfl, rfl⟩
  serves_listActive _ _ := Or.inr ⟨rfl, rfl⟩
  serves_archiveIdea _ _ := Or.inr ⟨rfl, rfl⟩

namespace Monitored

variable {σ α : Type}

/-- The failure that a watched store makes up. -/
def injected : EngineError :=
  .storeUnavailable (.unreachable "injected failure")

/-- A request to a watched store is stopped by the fault, or answered by the store behind. -/
theorem serves_pass {contents : σ → Memory} {fails : EngineError → Prop} {act : Action σ α}
    {onMemory : Action Memory α} (operation : Operation) (h : Serves contents fails act onMemory) :
    Serves (fun m => contents m.inner) (fun e => e = injected ∨ fails e) (pass operation act)
      onMemory := by
  intro m
  rcases hstrike : strike operation m.fault with ⟨struck, fault⟩
  cases struck with
  | true =>
      rw [pass_of_strike act hstrike]
      exact Or.inl ⟨injected, Or.inl rfl, rfl, rfl⟩
  | false =>
      simp only [pass, hstrike]
      rcases h m.inner with ⟨e, he, herr, hsame⟩ | hanswer
      · exact Or.inl ⟨e, Or.inr he, herr, hsame⟩
      · exact Or.inr hanswer

/-- Watching a store takes nothing from its promise. -/
instance [NodeStore σ] [Backed σ] : Backed (Monitored σ) where
  contents m := contents m.inner
  fails e := e = injected ∨ fails σ e
  ofStore_of_fails := by
    rintro e (rfl | he)
    · exact ⟨.unreachable "injected failure", rfl⟩
    · exact ofStore_of_fails he
  nodeCount_eq m := nodeCount_eq m.inner
  serves_get id := serves_pass .get (serves_get id)
  serves_create node := serves_pass .create (serves_create node)
  serves_update id u := serves_pass .update (serves_update id u)
  serves_nextGeneration owner := serves_pass .nextGeneration (serves_nextGeneration owner)
  serves_getIdea id := serves_pass .getIdea (serves_getIdea id)
  serves_createIdea idea node := serves_pass .createIdea (serves_createIdea idea node)
  serves_listActive owner := serves_pass .listActive (serves_listActive owner)
  serves_archiveIdea id := serves_pass .archiveIdea (serves_archiveIdea id)

end Monitored

variable {σ α β : Type} [NodeStore σ] [Backed σ]

/-- The outcome of an action that keeps the promise. -/
theorem Serves.cases {act : Action σ α} {onMemory : Action Memory α}
    (h : Serves contents (fails σ) act onMemory) {s s' : σ} {r : Except EngineError α}
    (hrun : act s = (r, s')) :
    (∃ e, fails σ e ∧ r = .error e ∧ contents s' = contents s) ∨
      onMemory (contents s) = (r, contents s') := by
  have := h s
  rw [hrun] at this
  rcases this with ⟨e, he, herr, hsame⟩ | ⟨hr, hs⟩
  · exact Or.inl ⟨e, he, herr, hsame⟩
  · exact Or.inr (Prod.ext hr.symm hs.symm)

/-! ### Actions that only read -/

/-- An action that leaves the data alone, and answers as `onMemory` does unless it fails. -/
structure Reads (act : Action σ α) (onMemory : Action Memory α) : Prop where
  serves : Serves contents (fails σ) act onMemory
  unchanged : ∀ m, (onMemory m).2 = m

/-- The outcome of an action that only reads. -/
theorem Reads.cases {act : Action σ α} {onMemory : Action Memory α} (h : Reads act onMemory)
    {s s' : σ} {r : Except EngineError α} (hrun : act s = (r, s')) :
    contents s' = contents s ∧
      ((∃ e, fails σ e ∧ r = .error e) ∨ (onMemory (contents s)).1 = r) := by
  rcases h.serves.cases hrun with ⟨e, he, hr, hsame⟩ | hanswer
  · exact ⟨hsame, Or.inl ⟨e, he, hr⟩⟩
  · have hsame := h.unchanged (contents s)
    rw [hanswer] at hsame ⊢
    exact ⟨hsame, Or.inr rfl⟩

theorem reads_pure (a : α) : Reads (pure a : Action σ α) (pure a) :=
  ⟨fun _ => Or.inr ⟨rfl, rfl⟩, fun _ => rfl⟩

theorem reads_throw (e : EngineError) : Reads (throw e : Action σ α) (throw e) :=
  ⟨fun _ => Or.inr ⟨rfl, rfl⟩, fun _ => rfl⟩

/-- Two reads, one after the other, are a read. -/
theorem Reads.bind {act : Action σ α} {onMemory : Action Memory α} {f : α → Action σ β}
    {g : α → Action Memory β} (h : Reads act onMemory) (hf : ∀ a, Reads (f a) (g a)) :
    Reads (act >>= f) (onMemory >>= g) := by
  refine ⟨fun s => ?_, fun m => ?_⟩
  · rcases hact : act s with ⟨e | a, mid⟩
    · rw [bind_eq_of_error hact]
      rcases h.serves.cases hact with ⟨e', he, hr, hsame⟩ | hanswer
      · cases hr
        exact Or.inl ⟨e, he, rfl, hsame⟩
      · rw [bind_eq_of_error hanswer]
        exact Or.inr ⟨rfl, rfl⟩
    · obtain ⟨hsame, ⟨e, -, hr⟩ | hanswer⟩ := h.cases hact
      · cases hr
      · have hmem : onMemory (contents s) = (.ok a, contents s) :=
          Prod.ext hanswer (h.unchanged _)
        rw [bind_eq_of_ok hact, bind_eq_of_ok hmem, ← hsame]
        exact (hf a).serves mid
  · rcases hm : onMemory m with ⟨e | a, m'⟩
    · have := h.unchanged m
      rw [bind_eq_of_error hm]
      rw [hm] at this
      exact this
    · have := h.unchanged m
      rw [hm] at this
      rw [bind_eq_of_ok hm, (hf a).unchanged]
      exact this

theorem reads_get (id : NodeId) : Reads (get id : Action σ (Option Node)) (get id) :=
  ⟨serves_get id, fun _ => rfl⟩

theorem reads_require (id : NodeId) : Reads (require id : Action σ Node) (require id) := by
  refine (reads_get id).bind fun found => ?_
  cases found with
  | none => exact reads_throw _
  | some n => exact reads_pure n

theorem reads_followForward :
    ∀ (steps : Nat) (seen : List NodeId) (id : NodeId),
      Reads (followForward steps seen id : Action σ (List Node)) (followForward steps seen id) := by
  intro steps
  induction steps with
  | zero => intro seen id; exact reads_throw _
  | succ steps ih =>
      intro seen id
      by_cases hseen : id ∈ seen
      · rw [followForward, followForward, if_pos hseen, if_pos hseen]
        exact reads_throw _
      · rw [followForward_of_notMem hseen, followForward_of_notMem hseen]
        refine (reads_require id).bind fun n => ?_
        cases n.forward with
        | none => exact reads_pure _
        | some next => exact (ih _ next).bind fun rest => reads_pure _

theorem reads_forwardChain (id : NodeId) :
    Reads (forwardChain id : Action σ (List Node)) (forwardChain id) := by
  refine ⟨fun s => ?_, fun m => (reads_followForward (σ := Memory) _ _ id).unchanged m⟩
  have hrun : forwardChain id s = followForward (nodeCount s + 1) [] id s := rfl
  have hmem : forwardChain id (contents s)
      = followForward (nodeCount (contents s) + 1) [] id (contents s) := rfl
  rw [hrun, hmem, ← nodeCount_eq]
  exact (reads_followForward _ _ id).serves s

theorem reads_dereference (id : NodeId) :
    Reads (dereference id : Action σ Node) (dereference id) := by
  refine (reads_forwardChain id).bind fun chain => ?_
  cases chain.getLast? with
  | none => exact reads_throw _
  | some n => exact reads_pure n

theorem reads_existingCopy (id : NodeId) :
    Reads (existingCopy id : Action σ (Option NodeId)) (existingCopy id) := by
  refine (reads_require id).bind fun n => ?_
  cases n.copy with
  | none => exact reads_pure _
  | some copy => exact (reads_get copy).bind fun found => reads_pure _

end Ideas
