/-
How a merged view is written.

`materialize` makes two requests that write, and either may fail: the view is stored as
a new node, and then the node it was made of is pointed at it.  `Materializes` tells the
three ways this may end on the data: nothing was written, the new node is there but
nothing points at it, or all was done (`materializes`).  Whichever it is, no node is
taken away and none points elsewhere than before.
-/
import Ideas.Materialization
import Ideas.Proofs.Backed
import Ideas.Proofs.Memory

namespace Ideas

open NodeStore Backed

namespace Memory

variable {m m' : Memory} {id copy : NodeId} {view : Node}

/-! ### Requests that write -/

/-- A node is stored under an id that is free, or nothing is done. -/
theorem create_cases {node : Node} {r : Except EngineError Unit}
    (h : (create node : Action Memory Unit) m = (r, m')) :
    (∃ e, r = .error e ∧ m' = m) ∨
      m.node? node.id = none ∧ r = .ok () ∧ m' = m.addNode node := by
  have hget : (getThe Memory : Action Memory Memory) m = (.ok m, m) := rfl
  have hrun := (bind_eq_of_ok hget).symm.trans h
  cases found : m.node? node.id with
  | some _ =>
      simp only [found, Option.isSome_some, if_true] at hrun
      cases hrun
      exact Or.inl ⟨_, rfl, rfl⟩
  | none =>
      simp only [found, Option.isSome_none, Bool.false_eq_true, if_false] at hrun
      cases hrun
      exact Or.inr ⟨rfl, rfl, rfl⟩

/-- A stored node takes an update, or nothing is done. -/
theorem update_cases {u : Update} {r : Except EngineError Unit}
    (h : (update id u : Action Memory Unit) m = (r, m')) :
    (∃ e, r = .error e ∧ m' = m) ∨
      (∃ n, m.node? id = some n) ∧ r = .ok () ∧ m' = m.modifyNode id u.applyTo := by
  have hget : (getThe Memory : Action Memory Memory) m = (.ok m, m) := rfl
  have hrun := (bind_eq_of_ok hget).symm.trans h
  cases found : m.node? id with
  | none =>
      simp only [found] at hrun
      cases hrun
      exact Or.inl ⟨_, rfl, rfl⟩
  | some n =>
      simp only [found] at hrun
      cases hconflict : u.forward.isSome && n.forward.isSome with
      | true =>
          simp only [hconflict, if_true] at hrun
          cases hrun
          exact Or.inl ⟨_, rfl, rfl⟩
      | false =>
          simp only [hconflict, Bool.false_eq_true, if_false] at hrun
          cases hrun
          exact Or.inr ⟨⟨n, rfl⟩, rfl, rfl⟩

/-! ### The view, and the node that points at it -/

/-- The merged view that is stored for `id` under the id `copy`. -/
def IsView (m : Memory) (copy id : NodeId) (view : Node) : Prop :=
  ∃ chain input canonical, (forwardChain id m).1 = .ok chain ∧ chain.head? = some input ∧
    chain.getLast? = some canonical ∧ view = mergedView copy input canonical chain

/-- Store a view and point a node at it. -/
def copyTo (m : Memory) (id : NodeId) (view : Node) : Memory :=
  (m.addNode view).modifyNode id (Update.applyTo { copy := some view.id })

theorem IsView.id_eq (h : m.IsView copy id view) : view.id = copy := by
  obtain ⟨_, _, _, -, -, -, rfl⟩ := h
  rfl

theorem IsView.forward_eq_none (h : m.IsView copy id view) : view.forward = none := by
  obtain ⟨_, _, _, -, -, -, rfl⟩ := h
  rfl

/-- A merged view that is a leaf has no arcs. -/
theorem IsView.arcs_eq_nil (h : m.IsView copy id view) (hleaf : view.isLeaf = true) :
    view.arcs = [] := by
  obtain ⟨chain, input, canonical, -, -, -, rfl⟩ := h
  by_cases harcs : gatheredArcs chain = []
  · exact harcs
  · rw [mergedView, Node.isLeaf] at hleaf
    simp [harcs] at hleaf

/-- A chain begins with the node it is asked for. -/
theorem head_of_forwardChain {chain : List Node} {input : Node}
    (h : (forwardChain id m).1 = .ok chain) (hhead : chain.head? = some input) :
    m.node? id = some input := by
  obtain ⟨path, last, rfl, hpath⟩ := forwardChain_eq_ok_iff.mp h
  cases hpath with
  | stop found _ =>
      cases hhead
      exact found
  | go found _ _ =>
      cases hhead
      exact found

/-- Only a stored id has a merged view. -/
theorem IsView.found (h : m.IsView copy id view) : ∃ n, m.node? id = some n := by
  obtain ⟨_, input, _, hchain, hhead, -, -⟩ := h
  exact ⟨input, head_of_forwardChain hchain hhead⟩

/-- A view that can be stored gets another id than the node it is made of. -/
theorem IsView.copy_ne (h : m.IsView copy id view) (new : m.node? copy = none) : copy ≠ id := by
  obtain ⟨n, found⟩ := h.found
  rintro rfl
  rw [found] at new
  cases new

/-- What is found after a node was copied. -/
theorem node?_copyTo (new : m.node? view.id = none) {n : Node} (found : m.node? id = some n)
    (x : NodeId) :
    (m.copyTo id view).node? x
      = if x = id then some { n with copy := some view.id }
        else if x = view.id then some view else m.node? x := by
  have hne : id ≠ view.id := by
    rintro rfl
    rw [found] at new
    cases new
  rw [copyTo, node?_modifyNode _ _ (Update.id_applyTo _), node?_addNode new]
  split
  · next hx =>
      subst hx
      rw [if_neg hne, found]
      rfl
  · rfl

theorem extends_addNode (new : m.node? view.id = none) : m.Extends (m.addNode view) := by
  refine extends_of_forward_eq fun {x n} found => ⟨n, ?_, rfl⟩
  have hne : x ≠ view.id := by
    rintro rfl
    rw [found] at new
    cases new
  rw [node?_addNode new, if_neg hne]
  exact found

theorem forward?_addNode (new : m.node? view.id = none) (hview : view.forward = none)
    (x : NodeId) : (m.addNode view).forward? x = m.forward? x := by
  rw [forward?, forward?, node?_addNode new]
  split
  · next hx =>
      subst hx
      rw [new]
      exact hview
  · rfl

theorem forward?_modifyNode (id : NodeId) {f : Node → Node} (hid : ∀ n, (f n).id = n.id)
    (hf : ∀ n, (f n).forward = n.forward) (x : NodeId) :
    (m.modifyNode id f).forward? x = m.forward? x := by
  rw [forward?, forward?, node?_modifyNode _ _ hid]
  split
  · cases m.node? x with
    | none => rfl
    | some n => exact hf n
  · rfl

theorem extends_modifyNode (id : NodeId) {f : Node → Node} (hid : ∀ n, (f n).id = n.id)
    (hf : ∀ n, (f n).forward = n.forward) : m.Extends (m.modifyNode id f) := by
  refine extends_of_forward_eq fun {x n} found => ?_
  rw [node?_modifyNode _ _ hid, found]
  split
  · exact ⟨f n, rfl, hf n⟩
  · exact ⟨n, rfl, rfl⟩

/-- A merged view under a free id is what the chain has gathered. -/
theorem materialize_eq_ok {fresh : NodeId} {chain : List Node}
    (hchain : (forwardChain id m).1 = .ok chain) (new : m.node? fresh = none) :
    ∃ view, (materialize fresh id m).1 = .ok view ∧ view.arcs = gatheredArcs chain := by
  obtain ⟨path, last, rfl, hpath⟩ := forwardChain_eq_ok_iff.mp hchain
  have hread : (forwardChain id : Action Memory _) m = (.ok (path ++ [last]), m) :=
    Prod.ext hchain ((reads_forwardChain (σ := Memory) id).unchanged m)
  obtain ⟨input, hhead⟩ : ∃ input, (path ++ [last]).head? = some input := by
    cases path with
    | nil => exact ⟨last, rfl⟩
    | cons n rest => exact ⟨n, rfl⟩
  have found : m.node? input.id = some input := by
    have hfound := head_of_forwardChain hchain hhead
    rwa [id_of_node? hfound]
  obtain ⟨view, hview⟩ : ∃ view, mergedView fresh input last (path ++ [last]) = view := ⟨_, rfl⟩
  obtain rfl : view.id = fresh := by rw [← hview]; rfl
  -- The id is free, so the view is stored, and the node that is pointed at it is another one.
  have hne : input.id ≠ view.id := by
    rintro heq
    rw [heq, new] at found
    cases found
  have hcreate : (create view : Action Memory Unit) m = (.ok (), m.addNode view) := by
    rw [create_eq, new]
    rfl
  have hpoint : (update input.id { copy := some view.id } : Action Memory Unit) (m.addNode view)
      = (.ok (), m.copyTo input.id view) := by
    rw [update_eq, if_pos]
    · rfl
    · refine takes_iff.mpr ⟨input, ?_, fun h => nomatch h⟩
      rw [node?_addNode new, if_neg hne, found]
  refine ⟨view, ?_, ?_⟩
  · rw [materialize, bind_eq_of_ok hread]
    simp only [hhead, List.getLast?_concat]
    rw [hview, bind_eq_of_ok hcreate, bind_eq_of_ok hpoint]
    rfl
  · rw [← hview]
    rfl

end Memory

/-- How writing a merged view ends: before anything is written, with a view that nothing points
at, or well. -/
inductive Materializes (m : Memory) (copy id : NodeId) : Except EngineError Node → Memory → Prop
  | unwritten {e : EngineError} : Materializes m copy id (.error e) m
  | unpointed {e : EngineError} {view : Node} (isView : m.IsView copy id view)
      (new : m.node? copy = none) : Materializes m copy id (.error e) (m.addNode view)
  | done {view : Node} (isView : m.IsView copy id view) (new : m.node? copy = none) :
      Materializes m copy id (.ok view) (m.copyTo id view)

variable {σ : Type} [NodeStore σ] [Backed σ] {copy id : NodeId} {s s' : σ}

theorem create_cases {node : Node} {r : Except EngineError Unit}
    (h : (create node : Action σ Unit) s = (r, s')) :
    (∃ e, r = .error e ∧ contents s' = contents s) ∨
      (contents s).node? node.id = none ∧ r = .ok () ∧
        contents s' = (contents s).addNode node := by
  rcases (serves_create node).cases h with ⟨e, -, hr, hkept⟩ | hmemory
  · exact Or.inl ⟨e, hr, hkept⟩
  · exact Memory.create_cases hmemory

theorem update_cases {u : Update} {r : Except EngineError Unit}
    (h : (update id u : Action σ Unit) s = (r, s')) :
    (∃ e, r = .error e ∧ contents s' = contents s) ∨
      (∃ n, (contents s).node? id = some n) ∧ r = .ok () ∧
        contents s' = (contents s).modifyNode id u.applyTo := by
  rcases (serves_update id u).cases h with ⟨e, -, hr, hkept⟩ | hmemory
  · exact Or.inl ⟨e, hr, hkept⟩
  · exact Memory.update_cases hmemory

/-- A merged view is written in one of these ways. -/
theorem materializes {r : Except EngineError Node}
    (h : materialize copy id s = (r, s')) : Materializes (contents s) copy id r (contents s') := by
  rw [materialize] at h
  rcases bind_cases h with ⟨e, hchain, rfl⟩ | ⟨chain, mid, hchain, h⟩
  · rw [((reads_forwardChain id).cases hchain).1]
    exact .unwritten
  obtain ⟨hsame, ⟨e, -, he⟩ | hanswer⟩ := (reads_forwardChain id).cases hchain
  · cases he
  cases hhead : chain.head? with
  | none =>
      simp only [hhead] at h
      cases h
      rw [hsame]
      exact .unwritten
  | some input =>
      cases hlast : chain.getLast? with
      | none =>
          simp only [hhead, hlast] at h
          cases h
          rw [hsame]
          exact .unwritten
      | some canonical =>
          simp only [hhead, hlast] at h
          have isView : (contents s).IsView copy id (mergedView copy input canonical chain) :=
            ⟨chain, input, canonical, hanswer, hhead, hlast, rfl⟩
          have hinput : input.id = id :=
            Memory.id_of_node? (Memory.head_of_forwardChain hanswer hhead)
          rw [← hsame] at isView ⊢
          rw [hinput] at h
          rcases bind_cases h with ⟨e, hcreate, rfl⟩ | ⟨_, created, hcreate, h⟩
          · rcases create_cases hcreate with ⟨_, -, hkept⟩ | ⟨-, hr, -⟩
            · rw [hkept]
              exact .unwritten
            · cases hr
          rcases create_cases hcreate with ⟨_, hr, -⟩ | ⟨new, -, hcreated⟩
          · cases hr
          rcases bind_cases h with ⟨e, hupdate, rfl⟩ | ⟨_, pointed, hupdate, h⟩
          · rcases update_cases hupdate with ⟨_, -, hkept⟩ | ⟨-, hr, -⟩
            · rw [hkept, hcreated]
              exact .unpointed isView new
            · cases hr
          rcases update_cases hupdate with ⟨_, hr, -⟩ | ⟨-, -, hpointed⟩
          · cases hr
          cases h
          rw [hpointed, hcreated]
          exact .done isView new

/-- No path is broken by a merged view. -/
theorem Materializes.extends {m m' : Memory} {r : Except EngineError Node}
    (h : Materializes m copy id r m') : m.Extends m' := by
  cases h with
  | unwritten => exact Memory.Extends.refl m
  | unpointed isView new => exact Memory.extends_addNode (isView.id_eq ▸ new)
  | done isView new =>
      exact (Memory.extends_addNode (isView.id_eq ▸ new)).trans
        (Memory.extends_modifyNode id (Update.id_applyTo _) fun _ => rfl)

/-- No node points elsewhere, and the view points nowhere. -/
theorem Materializes.forward?_eq {m m' : Memory} {r : Except EngineError Node}
    (h : Materializes m copy id r m') (x : NodeId) : m'.forward? x = m.forward? x := by
  cases h with
  | unwritten => rfl
  | unpointed isView new =>
      exact Memory.forward?_addNode (isView.id_eq ▸ new) isView.forward_eq_none x
  | done isView new =>
      rw [Memory.copyTo, Memory.forward?_modifyNode id (Update.id_applyTo _) fun _ => rfl]
      exact Memory.forward?_addNode (isView.id_eq ▸ new) isView.forward_eq_none x

end Ideas
