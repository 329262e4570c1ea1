/-
One kind of store seen as another.

A map between states carries an action over if the action does to the image of a state
what is the image of what it does to the state, and answers the same (`Carries`).  A map
that carries over the requests which unification is made of (`Translates`) carries over
unification as a whole, since all that it learns of a store is what its requests answer.

Two such maps are made use of: the one that keeps of a store nothing but its data, where
no request fails by itself, and the one that opens or closes a transaction.
-/
import Ideas.Proofs.Action
import Ideas.Unification

namespace Ideas

open NodeStore

/-! ### Actions that are carried over -/

section

variable {ε σ τ α β : Type} {image : σ → τ}

/-- On the image of a state the second action does what the first one does on the state. -/
def Carries (image : σ → τ) (act : ExceptT ε (StateM σ) α) (act' : ExceptT ε (StateM τ) α) :
    Prop :=
  ∀ s, act' (image s) = ((act s).1, image (act s).2)

theorem carries_pure (a : α) :
    Carries image (pure a : ExceptT ε (StateM σ) α) (pure a) :=
  fun _ => rfl

theorem carries_throw (e : ε) :
    Carries image (throw e : ExceptT ε (StateM σ) α) (throw e) :=
  fun _ => rfl

/-- Parts that are carried over make a whole that is. -/
theorem Carries.bind {act : ExceptT ε (StateM σ) α} {act' : ExceptT ε (StateM τ) α}
    {f : α → ExceptT ε (StateM σ) β} {f' : α → ExceptT ε (StateM τ) β}
    (h : Carries image act act') (hf : ∀ a, Carries image (f a) (f' a)) :
    Carries image (act >>= f) (act' >>= f') := by
  intro s
  have hfirst := h s
  rcases hact : act s with ⟨e | a, mid⟩
  · rw [hact] at hfirst
    rw [bind_eq_of_error hact, bind_eq_of_error hfirst]
  · rw [hact] at hfirst
    rw [bind_eq_of_ok hact, bind_eq_of_ok hfirst]
    exact hf a mid

end

/-! ### Stores that are carried over -/

/-- The requests of a unification are carried over. -/
structure Translates {σ τ : Type} [NodeStore σ] [NodeStore τ] (image : σ → τ) : Prop where
  nodeCount_eq : ∀ s, nodeCount (image s) = nodeCount s
  get : ∀ id, Carries image (get id : Action σ _) (get id)
  create : ∀ n, Carries image (create n : Action σ _) (create n)
  update : ∀ id u, Carries image (update id u : Action σ _) (update id u)
  nextGeneration : ∀ owner, Carries image (nextGeneration owner : Action σ _) (nextGeneration owner)

namespace Translates

variable {σ τ : Type} [NodeStore σ] [NodeStore τ] {image : σ → τ}

theorem require (h : Translates image) (id : NodeId) :
    Carries image (require id : Action σ Node) (require id) := by
  refine (h.get id).bind fun found => ?_
  cases found with
  | none => exact carries_throw _
  | some n => exact carries_pure n

theorem followForward (h : Translates image) :
    ∀ (steps : Nat) (seen : List NodeId) (id : NodeId),
      Carries image (followForward steps seen id : Action σ (List Node))
        (followForward steps seen id) := by
  intro steps
  induction steps with
  | zero => intro seen id; exact carries_throw _
  | succ steps ih =>
      intro seen id
      rw [Ideas.followForward, Ideas.followForward]
      by_cases hseen : id ∈ seen
      · rw [if_pos hseen, if_pos hseen]
        exact carries_throw _
      · rw [if_neg hseen, if_neg hseen]
        refine (h.require id).bind fun n => ?_
        cases n.forward with
        | none => exact carries_pure _
        | some next => exact (ih _ next).bind fun rest => carries_pure _

theorem forwardChain (h : Translates image) (id : NodeId) :
    Carries image (forwardChain id : Action σ (List Node)) (forwardChain id) := by
  intro s
  show Ideas.followForward (nodeCount (image s) + 1) [] id (image s) = _
  rw [h.nodeCount_eq]
  exact h.followForward _ [] id s

theorem dereference (h : Translates image) (id : NodeId) :
    Carries image (dereference id : Action σ Node) (dereference id) := by
  refine (h.forwardChain id).bind fun chain => ?_
  cases chain.getLast? with
  | none => exact carries_throw _
  | some n => exact carries_pure n

theorem existingCopy (h : Translates image) (id : NodeId) :
    Carries image (existingCopy id : Action σ (Option NodeId)) (existingCopy id) := by
  refine (h.require id).bind fun n => ?_
  cases n.copy with
  | none => exact carries_pure _
  | some copy => exact (h.get copy).bind fun found => carries_pure _

theorem materialize (h : Translates image) (copy id : NodeId) :
    Carries image (materialize copy id : Action σ Node) (materialize copy id) := by
  refine (h.forwardChain id).bind fun chain => ?_
  cases chain.head? with
  | none => exact carries_throw _
  | some input =>
      cases chain.getLast? with
      | none => exact carries_throw _
      | some canonical =>
          refine (h.create _).bind fun _ => ?_
          exact (h.update input.id _).bind fun _ => carries_pure _

end Translates

/-! ### Unification -/

namespace Run

variable {σ τ α : Type} {image : σ → τ}

/-- The run on the image of its store. -/
def mapped (image : σ → τ) (run : Run σ) : Run τ :=
  ⟨image run.store, run.opened, run.forwarded⟩

theorem carries_onStore {act : Action σ α} {act' : Action τ α} (h : Carries image act act') :
    Carries (mapped image) (onStore act) (onStore act') :=
  fun run => congrArg (Prod.map id (Run.mk · run.opened run.forwarded)) (h run.store)

/-- A look at the run as it is. -/
theorem carries_look {f : Run σ → RunM σ α} {f' : Run τ → RunM τ α}
    (h : ∀ run, Carries (mapped image) (f run) (f' (run.mapped image))) :
    Carries (mapped image) (getThe (Run σ) >>= f) (getThe (Run τ) >>= f') :=
  fun run => h run run

variable {unify : NodeId → NodeId → RunM σ Unit} {unify' : NodeId → NodeId → RunM τ Unit}

theorem carries_unifyShared (hrec : ∀ a b, Carries (mapped image) (unify a b) (unify' a b))
    (ours theirs : List Arc) :
    Carries (mapped image) (unifyShared unify ours theirs) (unifyShared unify' ours theirs) := by
  induction theirs with
  | nil => exact carries_pure ()
  | cons arc rest ih =>
      rw [unifyShared, unifyShared]
      cases (Arcs.find? arc.label ours).bind (·.value.node?) with
      | none => exact ih
      | some a =>
          cases arc.value.node? with
          | none => exact ih
          | some b => exact (hrec a b).bind fun _ => ih

variable [NodeStore σ] [NodeStore τ]

theorem carries_forwardInto (h : Translates image) (n : Node) (target : NodeId)
    (arcs : List Arc) :
    Carries (mapped image) (forwardInto n target arcs : RunM σ Unit)
      (forwardInto n target arcs) := by
  refine (carries_onStore (h.nextGeneration n.owner)).bind fun generation => ?_
  refine (carries_onStore (h.update n.id _)).bind fun _ => ?_
  exact fun _ => rfl

theorem carries_unifyComplex (h : Translates image)
    (hrec : ∀ a b, Carries (mapped image) (unify a b) (unify' a b)) (n k : Node) :
    Carries (mapped image) (unifyComplex unify n k) (unifyComplex unify' n k) := by
  rw [unifyComplex, unifyComplex]
  split
  · exact carries_forwardInto h n k.id _
  · have hopen : Carries (mapped image)
        (modify fun run => { run with opened := (n.id, k.id) :: run.opened } : RunM σ Unit)
        (modify fun run => { run with opened := (n.id, k.id) :: run.opened }) := fun _ => rfl
    refine hopen.bind fun _ => ?_
    refine (carries_unifyShared hrec n.arcs _).bind fun _ => ?_
    refine (carries_onStore (h.require n.id)).bind fun n' => ?_
    refine (carries_onStore (h.require k.id)).bind fun k' => ?_
    split
    · exact hrec n'.id k'.id
    · exact carries_forwardInto h n' k'.id _

theorem carries_unifyStep (h : Translates image)
    (hrec : ∀ a b, Carries (mapped image) (unify a b) (unify' a b)) (a b : NodeId) :
    Carries (mapped image) (unifyStep unify a b) (unifyStep unify' a b) := by
  refine (carries_onStore (h.dereference a)).bind fun n => ?_
  refine (carries_onStore (h.dereference b)).bind fun k => ?_
  refine carries_look fun run => ?_
  show Carries (mapped image) (if n.id = k.id ∨ (n.id, k.id) ∈ run.opened then _ else _)
    (if n.id = k.id ∨ (n.id, k.id) ∈ run.opened then _ else _)
  split
  · exact carries_pure ()
  · cases n.isLeaf with
    | true =>
        cases k.isLeaf with
        | true =>
            simp only
            split
            · exact carries_throw _
            · exact carries_pure ()
        | false => exact carries_forwardInto h n k.id []
    | false =>
        cases k.isLeaf with
        | true => exact carries_forwardInto h k n.id []
        | false => exact carries_unifyComplex h hrec n k

theorem carries_unifyWithin (h : Translates image) (depth : Nat) (a b : NodeId) :
    Carries (mapped image) (unifyWithin depth a b : RunM σ Unit) (unifyWithin depth a b) := by
  induction depth generalizing a b with
  | zero => exact carries_throw _
  | succ depth ih => exact carries_unifyStep h ih a b

end Run

namespace Translates

variable {σ τ : Type} [NodeStore σ] [NodeStore τ] {image : σ → τ}

theorem unifyCore (h : Translates image) (a b : NodeId) :
    Carries image (unifyCore a b : Action σ (List Forwarding)) (unifyCore a b) := by
  intro s
  have hrun := Run.carries_unifyWithin h (nodeCount s * nodeCount s + 1) a b { store := s }
  rw [Ideas.unifyCore, Ideas.unifyCore, Run.unify, Run.unify, h.nodeCount_eq]
  have hstart : Run.mapped image { store := s } = { store := image s } := rfl
  rw [hstart] at hrun
  rw [hrun]
  rfl

theorem unify (h : Translates image) (copy a b : NodeId) :
    Carries image (unify copy a b : Action σ Unified) (unify copy a b) := by
  refine (h.unifyCore a b).bind fun forwarded => ?_
  refine (h.dereference a).bind fun canonical => ?_
  split
  · exact (h.existingCopy a).bind fun copy => carries_pure _
  · exact (h.materialize copy a).bind fun view => carries_pure _

end Translates

end Ideas
