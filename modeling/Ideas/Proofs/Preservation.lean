/-
What every call keeps, wherever it breaks off.

The calls that unify nodes or write a merged view are made of four kinds of changes: a
stamp is issued, a node is forwarded where it may be and receives what it lacks of the
other one, a merged view is stored, and a node is pointed at its view.  A property of
the data that is `Kept` by each of them is kept by every course of a unification
(`Course.preserves`) and by every call (`Call.preserves`), on every store that holds the
data, and whichever of its requests fail.

`Reached calls` are the memories that the empty one becomes by storing nodes that the
constructors made, and by calls of certain kinds.  `Arisen` are all data that come about:
ideas are stored, too, and each step may be made on another kind of store, so that one
that fails may have failed at any of its requests.  What is kept by the four changes and
holds of what is new holds of all of them (`Arisen.preserves`).
-/
import Ideas.Proofs.Memory
import Ideas.Proofs.Unification.Growth

namespace Ideas

open NodeStore Backed

/-- The arcs that a node receives when it is forwarded into another one. -/
def Node.receives (n target : Node) : List Arc :=
  if n.isLeaf then [] else Arcs.complement target.arcs n.arcs

/-- A property of the data that the changes keep which calls are made of. -/
structure Memory.Kept (P : Memory → Prop) : Prop where
  stamp : ∀ {m : Memory} (owner : String), P m → P (m.stamp owner)
  forward : ∀ {m : Memory} {n k : Node}, P m → m.MayForward n k →
    P (m.forwardNode n k.id (n.receives k))
  addView : ∀ {m : Memory} {copy id : NodeId} {view : Node}, P m → m.IsView copy id view →
    m.node? view.id = none → P (m.addNode view)
  point : ∀ {m : Memory} (id copy : NodeId), P m →
    P (m.modifyNode id (Update.applyTo { copy := some copy }))

variable {P : Memory → Prop}

/-! ### Courses -/

namespace Run

variable {run run' : Run Memory} {fails : EngineError → Prop} {r : Except EngineError Unit}

/-- What a node receives that is forwarded at once. -/
theorem AtOnce.arcs_eq {n k x y : Node} {arcs : List Arc} (h : AtOnce n k x y arcs) :
    arcs = x.receives y := by
  cases h with
  | leafInto hn _ => rw [Node.receives, if_pos hn]
  | takesLeaf _ hk => rw [Node.receives, if_pos hk]
  | disjoint hn _ _ => rw [Node.receives, if_neg (Bool.eq_false_iff.mp hn)]

theorem Forwards.preserves (kept : Memory.Kept P) {n k : Node}
    (h : Forwards fails n k (n.receives k) run r run') (may : run.store.MayForward n k)
    (hrun : P run.store) : P run'.store := by
  cases h with
  | unstamped => exact hrun
  | unwritten => exact kept.stamp _ hrun
  | done => exact kept.forward hrun may

/-- What forwarding and stamps keep is kept by every course. -/
theorem Course.preserves (kept : Memory.Kept P) {t : Task} (h : Course fails t run r run')
    (hrun : P run.store) : P run'.store := by
  induction h with
  | unread | known | agree | clash | nil => exact hrun
  | atOnce meet which h => exact (which.arcs_eq ▸ h).preserves kept (which.mayForward meet) hrun
  | failsInside _ _ ih => exact ih hrun
  | unreadAgain _ _ _ ih => exact ih hrun
  | restarts _ _ _ _ _ _ ih ihAgain => exact ihAgain (ih hrun)
  | @joins a b n k n' k' run mid run' r op inside left right hn hk h ih =>
      have may := op.mayForward inside.steps_of_ok left right hn hk
      -- The node that is read again has the kind of the one that was opened.
      have hcomplex : n'.isLeaf = false := by
        obtain ⟨x, hx, hevolves⟩ := inside.steps_of_ok.evolves.found op.left.found
        obtain rfl := Option.some.inj (hx.symm.trans left)
        rw [Node.isLeaf_eq_false_iff, hevolves.kind_eq]
        exact Node.isLeaf_eq_false_iff.mp op.left_complex
      have harcs : Arcs.complement k'.arcs n'.arcs = n'.receives k' := by
        rw [Node.receives, if_neg (Bool.eq_false_iff.mp hcomplex)]
      exact (harcs ▸ h).preserves kept may (ih hrun)
  | skip _ _ ih => exact ih hrun
  | arcFails _ _ _ ih => exact ih hrun
  | arc _ _ _ _ ih ihTail => exact ihTail (ih hrun)

end Run

/-! ### Calls -/

theorem Materializes.preserves (kept : Memory.Kept P) {m m' : Memory} {copy id : NodeId}
    {r : Except EngineError Node} (h : Materializes m copy id r m') (hm : P m) : P m' := by
  cases h with
  | unwritten => exact hm
  | unpointed isView new => exact kept.addView hm isView (isView.id_eq ▸ new)
  | done isView new => exact kept.point id _ (kept.addView hm isView (isView.id_eq ▸ new))

section

variable {σ : Type} [NodeStore σ] [Backed σ] {s s' : σ}

theorem preserves_unifyCore (kept : Memory.Kept P) {a b : NodeId}
    {r : Except EngineError (List Forwarding)} (h : unifyCore a b s = (r, s'))
    (hs : P (contents s)) : P (contents s') := by
  rcases hrun : Run.unify s a b with ⟨outcome, run⟩
  have hkept : P run.view.store := (Run.course_of_unify hrun).preserves kept hs
  rw [unifyCore_eq hrun] at h
  cases h
  exact hkept

/-- What the changes keep that calls are made of is kept by every call. -/
theorem Call.preserves (kept : Memory.Kept P) (c : Call) (s : σ) (hs : P (contents s)) :
    P (contents (c.after s)) := by
  cases c with
  | unifyCore a b => exact preserves_unifyCore kept (Prod.eta (Ideas.unifyCore a b s)).symm hs
  | materialize copy id =>
      exact (materializes (Prod.eta (Ideas.materialize copy id s)).symm).preserves kept hs
  | unify copy a b =>
      rw [after]
      rcases hcall : Ideas.unify copy a b s with ⟨r, s'⟩
      rcases unify_cases hcall with
        ⟨_, _, core, -, hcore, hsame⟩ | ⟨_, core, hcore, ⟨-, -, hsame⟩ | ⟨-, _, made, -⟩⟩
      · exact hsame ▸ preserves_unifyCore kept hcore hs
      · exact hsame ▸ preserves_unifyCore kept hcore hs
      · exact made.preserves kept (preserves_unifyCore kept hcore hs)

end

/-! ### Data that come about -/

/-- A node as a constructor makes it. -/
inductive Node.Made : Node → Prop
  | leaf (id : NodeId) (owner name : String) : Made (.leaf id owner name)
  | complex (id : NodeId) (owner : String) (arcs : List Arc) : Made (.complex id owner arcs)
  | namedComplex (id : NodeId) (owner name : String) (arcs : List Arc) :
      Made (.namedComplex id owner name arcs)

/-- The memories reached from the empty one by storing new nodes and by calls of certain kinds. -/
inductive Reached (calls : Call → Prop) : Memory → Prop
  | empty : Reached calls {}
  | create {m : Memory} (h : Reached calls m) {n : Node} (hn : n.Made) :
      Reached calls (NodeStore.create n m).2
  | call {m : Memory} (h : Reached calls m) {c : Call} (hc : calls c) : Reached calls (c.after m)

/-- The calls that unify nodes and make the merged view. -/
def Call.IsUnify : Call → Prop
  | .unify _ _ _ => True
  | _ => False

/-- The calls that unify nodes and make no merged view. -/
def Call.IsUnifyCore : Call → Prop
  | .unifyCore _ _ => True
  | _ => False

/-- The data that come about from none by nodes and ideas as the constructors make them, by stamps
and by calls, each on some store that holds the data. -/
inductive Arisen : Memory → Prop
  | empty : Arisen {}
  | create {σ : Type} [NodeStore σ] [Backed σ] {s : σ} (h : Arisen (contents s)) {n : Node}
      (hn : n.Made) : Arisen (contents (NodeStore.create n s).2)
  | author {σ : Type} [NodeStore σ] [Backed σ] {s : σ} (h : Arisen (contents s)) (i : Idea)
      (arcs : List Arc) : Arisen (contents (NodeStore.authorIdea i arcs s).2)
  | stamp {σ : Type} [NodeStore σ] [Backed σ] {s : σ} (h : Arisen (contents s))
      (owner : String) : Arisen (contents (NodeStore.nextGeneration owner s).2)
  | call {σ : Type} [NodeStore σ] [Backed σ] {s : σ} (h : Arisen (contents s)) (c : Call) :
      Arisen (contents (c.after s))

/-- The node of an idea is made by a constructor. -/
theorem made_nodeOf (i : Idea) (arcs : List Arc) : (nodeOf i arcs).Made := by
  rw [nodeOf]
  split
  · exact .leaf _ _ _
  · exact .namedComplex _ _ _ _

section

variable {σ : Type} [NodeStore σ] [Backed σ] {s s' : σ}

/-- A new idea and its node are stored under an id that is free, or nothing is done. -/
theorem createIdea_cases {i : Idea} {n : Node} {r : Except EngineError Unit}
    (h : (createIdea i n : Action σ Unit) s = (r, s')) :
    contents s' = contents s ∨
      (contents s).node? n.id = none ∧ contents s' = ((contents s).addNode n).addIdea i := by
  rcases (serves_createIdea i n).cases h with ⟨_, -, -, hkept⟩ | hmemory
  · exact Or.inl hkept
  rw [Memory.createIdea_eq] at hmemory
  by_cases hid : i.id = n.id
  · rw [if_neg (not_not_intro hid)] at hmemory
    cases found : (contents s).node? n.id with
    | some _ =>
        rw [found, Option.isSome_some, if_pos rfl] at hmemory
        exact Or.inl (congrArg Prod.snd hmemory).symm
    | none =>
        rw [found, Option.isSome_none, if_neg Bool.false_ne_true] at hmemory
        exact Or.inr ⟨rfl, (congrArg Prod.snd hmemory).symm⟩
  · rw [if_pos hid] at hmemory
    exact Or.inl (congrArg Prod.snd hmemory).symm

/-- A stamp is issued, or nothing is done. -/
theorem nextGeneration_cases {owner : String} {r : Except EngineError Nat}
    (h : (nextGeneration owner : Action σ Nat) s = (r, s')) :
    contents s' = contents s ∨ contents s' = (contents s).stamp owner := by
  rcases (serves_nextGeneration owner).cases h with ⟨_, -, -, hkept⟩ | hmemory
  · exact Or.inl hkept
  · rw [Run.nextGeneration_eq] at hmemory
    exact Or.inr (congrArg Prod.snd hmemory).symm

end

/-- What holds of no data, of new nodes as they are made, and is kept by all changes, holds of all
data that come about. -/
theorem Arisen.preserves {m : Memory} (h : Arisen m) (kept : Memory.Kept P) (hempty : P {})
    (hadd : ∀ {m : Memory} {n : Node}, P m → n.Made → m.node? n.id = none → P (m.addNode n))
    (hidea : ∀ {m : Memory} (i : Idea), P m → P (m.addIdea i)) : P m := by
  induction h with
  | empty => exact hempty
  | @create σ _ _ s _ n hn ih =>
      rcases create_cases (Prod.eta (NodeStore.create n s)).symm with
        ⟨_, -, hsame⟩ | ⟨new, -, hadded⟩
      · exact hsame ▸ ih
      · exact hadded ▸ hadd ih hn new
  | @author σ _ _ s _ i arcs ih =>
      rcases createIdea_cases (Prod.eta (NodeStore.authorIdea i arcs s)).symm with
        hsame | ⟨new, hadded⟩
      · exact hsame ▸ ih
      · exact hadded ▸ hidea i (hadd ih (made_nodeOf i arcs) new)
  | @stamp σ _ _ s _ owner ih =>
      rcases nextGeneration_cases (Prod.eta (NodeStore.nextGeneration owner s)).symm with
        hsame | hstamped
      · exact hsame ▸ ih
      · exact hstamped ▸ kept.stamp owner ih
  | call _ c ih => exact c.preserves kept _ ih

/-- What is reached without failures of the store comes about. -/
theorem Reached.arisen {calls : Call → Prop} {m : Memory} (h : Reached calls m) : Arisen m := by
  induction h with
  | empty => exact .empty
  | @create m _ n hn ih => exact Arisen.create (σ := Memory) (s := m) ih hn
  | @call m _ c _ ih => exact Arisen.call (σ := Memory) (s := m) ih c

end Ideas
