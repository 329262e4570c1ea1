/-
The operations on the graph, on a memory and on a database that mirrors it.

All of them are put together from requests, so they are in step because the requests are.
What has to be seen to is that they write nothing that cannot be stored: the arcs that a
node receives and those of a merged view come from nodes that were read, and a stamp is
one that was issued.
-/
import Ideas.Proofs.Database.Requests
import Ideas.Proofs.Request

namespace Ideas

open NodeStore Database

/-! ### Walks and copies -/

theorem inStep_require (id : NodeId) :
    InStep mirroring True Node.Storable (require id) (require id) := by
  refine (inStep_get id).bind fun found => ?_
  cases found with
  | none => exact inStep_throw _
  | some n => exact inStep_pure fun hgiven => hgiven.2 n rfl

theorem inStep_followForward :
    ∀ (steps : Nat) (seen : List NodeId) (id : NodeId),
      InStep mirroring True (fun chain => ∀ n ∈ chain, n.Storable)
        (followForward steps seen id) (followForward steps seen id) := by
  intro steps
  induction steps with
  | zero => intro seen id; exact inStep_throw _
  | succ steps ih =>
    intro seen id
    by_cases hseen : id ∈ seen
    · rw [followForward, followForward, if_pos hseen, if_pos hseen]
      exact inStep_throw _
    · rw [followForward_of_notMem hseen, followForward_of_notMem hseen]
      refine (inStep_require id).bind fun n => ?_
      cases n.forward with
      | none => exact inStep_pure fun hgiven => List.forall_mem_singleton.mpr hgiven.2
      | some next =>
        refine ((ih _ next).of_given fun _ => trivial).bind fun rest => ?_
        exact inStep_pure fun hgiven => List.forall_mem_cons.mpr ⟨hgiven.1.2, hgiven.2⟩

/-- A database has as many nodes as the memory it mirrors. -/
theorem Mirrors.nodeCount_eq {m : Memory} {db : Database} (h : Mirrors m db) :
    nodeCount m = nodeCount db := by
  show m.nodes.length = db.nodes.toList.length
  rw [h.nodes_eq, List.length_map]

theorem inStep_forwardChain (id : NodeId) :
    InStep mirroring True (fun chain => ∀ n ∈ chain, n.Storable)
      (forwardChain id) (forwardChain id) := by
  have hrun : ∀ {σ : Type} [NodeStore σ] (s : σ), forwardChain id s
      = followForward (nodeCount s + 1) [] id s := fun s => rfl
  refine ⟨fun {m} hfine => ?_, fun hgiven m db h hfine => ?_⟩
  · rw [hrun] at hfine
    exact (inStep_followForward _ _ id).fine_before hfine
  · rw [hrun] at hfine
    rw [hrun, hrun, ← Mirrors.nodeCount_eq h]
    exact (inStep_followForward _ _ id).ends hgiven h hfine

theorem inStep_dereference (id : NodeId) :
    InStep mirroring True Node.Storable (dereference id) (dereference id) := by
  refine (inStep_forwardChain id).bind fun chain => ?_
  cases hlast : chain.getLast? with
  | none => exact inStep_throw _
  | some n => exact inStep_pure fun hgiven => hgiven.2 n (List.mem_of_getLast? hlast)

theorem inStep_existingCopy (id : NodeId) :
    InStep mirroring True (fun _ => True) (existingCopy id) (existingCopy id) := by
  refine (inStep_require id).bind fun n => ?_
  cases n.copy with
  | none => exact inStep_pure fun _ => trivial
  | some copy =>
    refine ((inStep_get copy).of_given fun _ => trivial).bind fun found => ?_
    exact inStep_pure fun _ => trivial

/-- The merged view of storable nodes is storable. -/
theorem storable_mergedView {chain : List Node} (hchain : ∀ n ∈ chain, n.Storable)
    {canonical : Node} (hcanonical : canonical.Storable) (fresh : NodeId) (input : Node) :
    (mergedView fresh input canonical chain).Storable :=
  ⟨storable_gatheredArcs hchain, Arcs.storable_nil, hcanonical.generation_le⟩

theorem inStep_materialize (fresh id : NodeId) :
    InStep mirroring True (fun _ => True) (materialize fresh id) (materialize fresh id) := by
  refine (inStep_forwardChain id).bind fun chain => ?_
  cases chain.head? with
  | none => exact inStep_throw _
  | some input =>
    cases hlast : chain.getLast? with
    | none => exact inStep_throw _
    | some canonical =>
      have hview : (True ∧ ∀ n ∈ chain, n.Storable) →
          (mergedView fresh input canonical chain).Storable := fun hgiven =>
        storable_mergedView hgiven.2 (hgiven.2 _ (List.mem_of_getLast? hlast)) fresh input
      refine ((inStep_create _).of_given hview).bind fun _ => ?_
      have hpoint : ({ copy := some fresh } : Update).Storable :=
        ⟨by simp, by simp, by simp⟩
      refine ((inStep_update input.id _).of_given fun _ => hpoint).bind fun _ => ?_
      exact inStep_pure fun _ => trivial

/-! ### Authored ideas -/

/-- The node of an idea is storable if its arcs are. -/
theorem storable_nodeOf (i : Idea) {arcs : List Arc} (h : Arcs.Storable arcs) :
    (nodeOf i arcs).Storable := by
  rw [nodeOf]
  split
  · exact Node.storable_leaf _ _ _
  · obtain ⟨harcs, hcomplement, hgeneration⟩ := Node.storable_complex i.id i.owner h
    exact ⟨harcs, hcomplement, hgeneration⟩

theorem inStep_authorIdea (i : Idea) (arcs : List Arc) :
    InStep mirroring (i.Storable ∧ Arcs.Storable arcs) (fun _ => True) (authorIdea i arcs)
      (authorIdea i arcs) :=
  (inStep_createIdea i _).of_given fun hgiven => ⟨hgiven.1, storable_nodeOf i hgiven.2⟩

/-! ### Unification -/

namespace Run

/-- Runs that have come equally far, on stores that are paired. -/
def pairing (p : Pairing Memory Database) : Pairing (Run Memory) (Run Database) where
  paired run run' := p.paired run.store run'.store ∧ run.opened = run'.opened ∧
    run.forwarded = run'.forwarded
  fine run := p.fine run.store

variable {α : Type} {given : Prop} {yields : α → Prop}

theorem inStep_onStore {act : Action Memory α} {act' : Action Database α}
    (h : InStep mirroring given yields act act') :
    InStep (pairing mirroring) given yields (onStore act) (onStore act') := by
  refine ⟨fun hfine => h.fine_before hfine, ?_⟩
  rintro hgiven run run' ⟨hstores, hopened, hforwarded⟩ hfine
  obtain ⟨hagree, hpaired, hyields⟩ := h.ends hgiven hstores hfine
  exact ⟨hagree, ⟨hpaired, hopened, hforwarded⟩, hyields⟩

/-- A change to the books of a run, which leaves the store alone. -/
theorem inStep_modify {f : Run Memory → Run Memory} {f' : Run Database → Run Database}
    (hpaired : ∀ {run run'}, (pairing mirroring).paired run run' →
      (pairing mirroring).paired (f run) (f' run'))
    (hstore : ∀ run, (f run).store = run.store) :
    InStep (pairing mirroring) given (fun _ => True) (modify f : RunM Memory Unit)
      (modify f' : RunM Database Unit) := by
  refine ⟨fun {run} hfine => ?_, fun _ run run' h _ => ⟨.ok (), hpaired h, fun _ _ => trivial⟩⟩
  have hfine : mirroring.fine (f run).store := hfine
  rwa [hstore] at hfine

/-- A look at the pairs that are open. -/
theorem inStep_opened {f : Run Memory → RunM Memory α} {f' : Run Database → RunM Database α}
    (h : ∀ run run', run.opened = run'.opened →
      InStep (pairing mirroring) given yields (f run) (f' run')) :
    InStep (pairing mirroring) given yields (getThe (Run Memory) >>= f)
      (getThe (Run Database) >>= f') :=
  ⟨fun {run} hfine => (h run ⟨{}, run.opened, []⟩ rfl).fine_before hfine,
    fun hgiven run run' hpaired hfine => (h run run' hpaired.2.1).ends hgiven hpaired hfine⟩

theorem inStep_forwardInto (n : Node) (target : NodeId) (arcs : List Arc) :
    InStep (pairing mirroring) (n.Storable ∧ Arcs.Storable arcs) (fun _ => True)
      (forwardInto n target arcs) (forwardInto n target arcs) := by
  refine ((inStep_onStore (inStep_nextGeneration n.owner)).of_given fun _ => trivial).bind ?_
  intro generation
  have hupdate : ((n.Storable ∧ Arcs.Storable arcs) ∧
      (generation : Int) ≤ Decimal.greatestInt64) → Update.Storable
        { complement := if arcs.isEmpty then none else some (n.complement ++ arcs)
          forward := some target
          generation := some generation } := by
    rintro ⟨⟨hn, harcs⟩, hfits⟩
    refine ⟨by simp, ?_, ?_⟩
    · intro received hreceived
      obtain ⟨-, ⟨⟩⟩ := Option.ite_none_left_eq_some.mp hreceived
      exact hn.complement.append harcs
    · rintro _ ⟨⟩
      exact hfits
  refine ((inStep_onStore (inStep_update n.id _)).of_given hupdate).bind fun _ => ?_
  refine inStep_modify ?_ fun _ => rfl
  rintro run run' ⟨hstores, hopened, hforwarded⟩
  exact ⟨hstores, hopened, by rw [hforwarded]⟩

/-- A recursion that is in step for every two ids. -/
def Recurs (unify : NodeId → NodeId → RunM Memory Unit)
    (unify' : NodeId → NodeId → RunM Database Unit) : Prop :=
  ∀ a b, InStep (pairing mirroring) True (fun _ => True) (unify a b) (unify' a b)

variable {unify : NodeId → NodeId → RunM Memory Unit}
  {unify' : NodeId → NodeId → RunM Database Unit}

theorem inStep_unifyShared (hrec : Recurs unify unify') (ours theirs : List Arc) :
    InStep (pairing mirroring) True (fun _ => True) (unifyShared unify ours theirs)
      (unifyShared unify' ours theirs) := by
  induction theirs with
  | nil => exact inStep_pure fun _ => trivial
  | cons arc rest ih =>
    rw [unifyShared, unifyShared]
    cases (Arcs.find? arc.label ours).bind (·.value.node?) with
    | none => exact ih
    | some a =>
      cases arc.value.node? with
      | none => exact ih
      | some b => exact (hrec a b).bind fun _ => ih.of_given fun _ => trivial

theorem inStep_unifyComplex (hrec : Recurs unify unify') (n k : Node) :
    InStep (pairing mirroring) (n.Storable ∧ k.Storable) (fun _ => True) (unifyComplex unify n k)
      (unifyComplex unify' n k) := by
  rw [unifyComplex, unifyComplex]
  split
  · exact (inStep_forwardInto n k.id _).of_given fun hgiven => ⟨hgiven.1, hgiven.2.arcs.filter _⟩
  · have hopen : InStep (pairing mirroring) (n.Storable ∧ k.Storable) (fun _ => True)
        (modify fun run => { run with opened := (n.id, k.id) :: run.opened } : RunM Memory Unit)
        (modify fun run => { run with opened := (n.id, k.id) :: run.opened }) := by
      refine inStep_modify ?_ fun _ => rfl
      rintro run run' ⟨hstores, hopened, hforwarded⟩
      exact ⟨hstores, by rw [hopened], hforwarded⟩
    refine hopen.bind fun _ => ?_
    refine ((inStep_unifyShared hrec n.arcs _).of_given fun _ => trivial).bind fun _ => ?_
    refine ((inStep_onStore (inStep_require n.id)).of_given fun _ => trivial).bind fun n' => ?_
    refine ((inStep_onStore (inStep_require k.id)).of_given fun _ => trivial).bind fun k' => ?_
    split
    · exact (hrec n'.id k'.id).of_given fun _ => trivial
    · exact (inStep_forwardInto n' k'.id _).of_given fun hgiven =>
        ⟨hgiven.1.2, hgiven.2.arcs.filter _⟩

theorem inStep_unifyStep (hrec : Recurs unify unify') :
    Recurs (unifyStep unify) (unifyStep unify') := by
  intro a b
  refine (inStep_onStore (inStep_dereference a)).bind fun n => ?_
  refine ((inStep_onStore (inStep_dereference b)).of_given fun _ => trivial).bind fun k => ?_
  refine inStep_opened fun run run' hopened => ?_
  rw [hopened]
  split
  · exact inStep_pure fun _ => trivial
  · cases n.isLeaf with
    | true =>
      cases k.isLeaf with
      | true =>
        simp only
        split
        · exact inStep_throw _
        · exact inStep_pure fun _ => trivial
      | false =>
        exact (inStep_forwardInto n k.id []).of_given fun hgiven =>
          ⟨hgiven.1.2, Arcs.storable_nil⟩
    | false =>
      cases k.isLeaf with
      | true =>
        exact (inStep_forwardInto k n.id []).of_given fun hgiven =>
          ⟨hgiven.2, Arcs.storable_nil⟩
      | false =>
        exact (inStep_unifyComplex hrec n k).of_given fun hgiven => ⟨hgiven.1.2, hgiven.2⟩

theorem inStep_unifyWithin : ∀ depth : Nat, Recurs (unifyWithin depth) (unifyWithin depth) := by
  intro depth
  induction depth with
  | zero => intro a b; exact inStep_throw _
  | succ depth ih => exact inStep_unifyStep ih

end Run

theorem inStep_unifyCore (a b : NodeId) :
    InStep mirroring True (fun _ => True) (unifyCore a b) (unifyCore a b) := by
  have hwithin := fun depth => Run.inStep_unifyWithin depth a b
  refine ⟨fun {m} hfine => ?_, fun hgiven m db h hfine => ?_⟩
  · rw [unifyCore_eq (Prod.eta _).symm] at hfine
    exact (hwithin _).fine_before hfine
  · have hcount : nodeCount m = nodeCount db := Mirrors.nodeCount_eq h
    have hstart : (Run.pairing mirroring).paired { store := m } { store := db } := ⟨h, rfl, rfl⟩
    rw [unifyCore_eq (Prod.eta _).symm] at hfine ⊢
    rw [unifyCore_eq (Prod.eta _).symm, Run.unify, Run.unify, ← hcount]
    obtain ⟨hagree, ⟨hstores, -, hforwarded⟩, -⟩ := (hwithin _).ends hgiven hstart hfine
    refine ⟨?_, hstores, fun _ _ => trivial⟩
    rw [hforwarded]
    exact hagree.map _

theorem inStep_unify (fresh a b : NodeId) :
    InStep mirroring True (fun _ => True) (unify fresh a b) (unify fresh a b) := by
  refine (inStep_unifyCore a b).bind fun forwarded => ?_
  refine ((inStep_dereference a).of_given fun _ => trivial).bind fun canonical => ?_
  split
  · refine ((inStep_existingCopy a).of_given fun _ => trivial).bind fun copy => ?_
    exact inStep_pure fun _ => trivial
  · refine ((inStep_materialize fresh a).of_given fun _ => trivial).bind fun view => ?_
    exact inStep_pure fun _ => trivial

/-! ### Discovery -/

theorem inStep_discovery (settings : DiscoverySettings) (id : NodeId) :
    InStep mirroring True (fun _ => True) (discovery settings id) (discovery settings id) := by
  refine ⟨fun {m} hfine => ?_, fun _ m db h _ => ?_⟩
  · rwa [discovery, m.discoverRelations_eq] at hfine
  · have hdatabase := discoverRelations_eq (s := db) (toAction_eq (h.loadIdea_eq id))
      (fun owner => toAction_eq (h.listIdeas_eq owner)) settings
    rw [discovery, discovery, m.discoverRelations_eq, hdatabase]
    exact ⟨.ok _, h, fun _ _ => trivial⟩

end Ideas
