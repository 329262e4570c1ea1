/-
The bound on the depth never cuts a unification off.

A unification runs with a bound on how many calls may be inside one another: one more
than there are ordered pairs of stored nodes.  Each call inside another one opens such a
pair, no pair is opened twice and none is closed again, so the pairs that are left and
the depth that is left shrink together and the bound is never met (`Ready`).  From any
store that keeps what a memory keeps, a unification therefore runs a course, to its end
or to a request that fails (`course_of_unify`).

The proof takes the program apart request by request.  What is said of the data after it
is said of courses.
-/
import Mathlib.Data.List.ProdSigma
import Ideas.Proofs.Backed
import Ideas.Proofs.Unification.Course

namespace Ideas.Run

open NodeStore Backed

/-! ### Pairs that are open, and depth that is left -/

/-- The pairs that were opened are pairs of stored nodes, each opened once. -/
structure Tidy (run : Run Memory) : Prop where
  nodup : run.opened.Nodup
  stored : ∀ p ∈ run.opened,
    p.1 ∈ run.store.nodes.map Node.id ∧ p.2 ∈ run.store.nodes.map Node.id

/-- There are at most as many open pairs as there are pairs of nodes. -/
theorem Tidy.length_le {run : Run Memory} (h : Tidy run) :
    run.opened.length ≤ run.store.nodes.length * run.store.nodes.length := by
  have hsub : run.opened ⊆ run.store.nodes.map Node.id ×ˢ run.store.nodes.map Node.id := by
    rintro ⟨x, y⟩ hp
    exact List.mem_product.mpr (h.stored _ hp)
  have hle := h.nodup.length_le_of_subset hsub
  rwa [List.length_product, List.length_map] at hle

theorem Tidy.step {run run' : Run Memory} (h : Tidy run) (hstep : Step run run') :
    Tidy run' := by
  have hids := hstep.ids_eq
  cases hstep with
  | enter left right new =>
      refine ⟨List.nodup_cons.mpr ⟨new, h.nodup⟩, ?_⟩
      intro p hp
      rcases List.mem_cons.mp hp with rfl | hp
      · exact ⟨Memory.mem_ids_of_node? left, Memory.mem_ids_of_node? right⟩
      · exact h.stored p hp
  | forward =>
      refine ⟨h.nodup, ?_⟩
      rw [hids]
      exact h.stored

theorem Tidy.steps {run run' : Run Memory} (h : Tidy run) (hsteps : Steps run run') :
    Tidy run' := by
  induction hsteps with
  | refl => exact h
  | tail _ hstep ih => exact ih.step hstep

/-- With `depth` calls left there is a pair left for each of them. -/
structure Ready (depth : Nat) (run : Run Memory) : Prop extends Tidy run where
  room : run.store.nodes.length * run.store.nodes.length < depth + run.opened.length

theorem Ready.steps {depth : Nat} {run run' : Run Memory} (h : Ready depth run)
    (hsteps : Steps run run') : Ready depth run' := by
  refine ⟨h.toTidy.steps hsteps, ?_⟩
  have hlen := congrArg List.length hsteps.ids_eq
  rw [List.length_map, List.length_map] at hlen
  have hle := hsteps.opened_suffix.length_le
  have hroom := h.room
  rw [hlen]
  omega

/-- A call inside another one has a pair less before it. -/
theorem Ready.enter {depth : Nat} {run : Run Memory} {a b : NodeId} {n k : Node}
    (h : Ready (depth + 1) run) (op : Opening run a b n k) : Ready depth (run.enter n k) := by
  refine ⟨h.toTidy.step op.step, ?_⟩
  have hroom := h.room
  show run.store.nodes.length * run.store.nodes.length < depth + (run.opened.length + 1)
  omega

theorem not_ready_zero {run : Run Memory} : ¬ Ready 0 run := by
  intro h
  have hle := h.toTidy.length_le
  have hroom := h.room
  omega

/-! ### The program, request by request -/

variable {σ : Type} {run run' : Run σ}

theorem onStore_cases {α : Type} {act : Action σ α} {r : Except EngineError α}
    (h : onStore act run = (r, run')) :
    ∃ store, act run.store = (r, store) ∧ run' = { run with store } := by
  rw [onStore] at h
  cases h
  exact ⟨_, rfl, rfl⟩

variable [NodeStore σ] [Backed σ] {r : Except EngineError Unit}

/-- The run as its data show it. -/
def view (run : Run σ) : Run Memory :=
  ⟨contents run.store, run.opened, run.forwarded⟩

/-- A request within a run fails and leaves the data alone, or it is answered as by a memory; only
an answer that is no error lets the run go on. -/
theorem serves_bind_cases {α : Type} {act : Action σ α} {onMemory : Action Memory α}
    {f : α → RunM σ Unit} (hact : Serves contents (fails σ) act onMemory)
    (h : (onStore act >>= f) run = (r, run')) :
    (∃ e, fails σ e ∧ r = .error e ∧ run'.view = run.view) ∨
      (∃ e, (onMemory run.view.store).1 = .error e ∧ r = .error e ∧
        run'.view = { run.view with store := (onMemory run.view.store).2 }) ∨
      ∃ a mid, (onMemory run.view.store).1 = .ok a ∧
        mid.view = { run.view with store := (onMemory run.view.store).2 } ∧
        f a mid = (r, run') := by
  rcases bind_cases h with ⟨e, hrequest, rfl⟩ | ⟨a, mid, hrequest, h⟩
  · obtain ⟨store, hrun, rfl⟩ := onStore_cases hrequest
    rcases hact.cases hrun with ⟨e', he, hr, hsame⟩ | hanswer
    · cases hr
      exact Or.inl ⟨e, he, rfl, by rw [view, view, hsame]⟩
    · refine Or.inr (Or.inl ⟨e, congrArg Prod.fst hanswer, rfl, ?_⟩)
      rw [show onMemory run.view.store = _ from hanswer]
      rfl
  · obtain ⟨store, hrun, rfl⟩ := onStore_cases hrequest
    rcases hact.cases hrun with ⟨e', he, hr, hsame⟩ | hanswer
    · cases hr
    · refine Or.inr (Or.inr ⟨a, _, congrArg Prod.fst hanswer, ?_, h⟩)
      rw [show onMemory run.view.store = _ from hanswer]
      rfl

/-- A read within a run leaves the data alone; only an answer that is no error lets the run go
on. -/
theorem reads_bind_cases {α : Type} {act : Action σ α} {onMemory : Action Memory α}
    {f : α → RunM σ Unit} (hact : Reads act onMemory) (h : (onStore act >>= f) run = (r, run')) :
    (∃ e, (fails σ e ∨ (onMemory run.view.store).1 = .error e) ∧ r = .error e ∧
        run'.view = run.view) ∨
      ∃ a mid, (onMemory run.view.store).1 = .ok a ∧ mid.view = run.view ∧
        f a mid = (r, run') := by
  have hsame := hact.unchanged run.view.store
  rcases serves_bind_cases hact.serves h with
    ⟨e, he, hr, hview⟩ | ⟨e, he, hr, hview⟩ | ⟨a, mid, ha, hview, h⟩
  · exact Or.inl ⟨e, Or.inl he, hr, hview⟩
  · rw [hsame] at hview
    exact Or.inl ⟨e, Or.inr he, hr, hview⟩
  · rw [hsame] at hview
    exact Or.inr ⟨a, mid, ha, hview, h⟩

/-- A read leaves the view of a run as it was. -/
theorem view_of_reads {α : Type} {act : Action σ α} {onMemory : Action Memory α}
    (hact : Reads act onMemory) {mid : Run σ} {r : Except EngineError α}
    (h : onStore act run = (r, mid)) : mid.view = run.view := by
  obtain ⟨store, hrun, rfl⟩ := onStore_cases h
  rw [view, view, (hact.cases hrun).1]

/-- What is read where a reference ends is the canonical node. -/
theorem canonical_of_dereference {id : NodeId} {n : Node} {mid : Run σ}
    (h : onStore (dereference id) run = (.ok n, mid)) : run.view.store.Canonical id n := by
  obtain ⟨store, hrun, -⟩ := onStore_cases h
  obtain ⟨-, ⟨_, -, hr⟩ | hr⟩ := (reads_dereference id).cases hrun
  · cases hr
  · exact Memory.dereference_eq_ok_iff.mp hr

/-- Two references are read one after the other, and the data are still the same. -/
theorem canonical_of_dereferences {a b : NodeId} {n k : Node} {mid mid' : Run σ}
    (hleft : onStore (dereference a) run = (.ok n, mid))
    (hright : onStore (dereference b) mid = (.ok k, mid')) :
    mid'.view = run.view ∧ mid'.view.store.Canonical a n ∧ mid'.view.store.Canonical b k := by
  have hview := view_of_reads (reads_dereference a) hleft
  have hsame := view_of_reads (reads_dereference b) hright
  have left := canonical_of_dereference hleft
  have right := canonical_of_dereference hright
  rw [← hview, ← hsame] at left
  rw [← hsame] at right
  exact ⟨hsame.trans hview, left, right⟩

/-- A stored node is read as it is. -/
theorem require_bind_cases {id : NodeId} {n : Node} {f : Node → RunM σ Unit}
    (found : run.view.store.node? id = some n)
    (h : (onStore (require id) >>= f) run = (r, run')) :
    (∃ e, fails σ e ∧ r = .error e ∧ run'.view = run.view) ∨
      ∃ mid, mid.view = run.view ∧ f n mid = (r, run') := by
  have hread := congrArg Prod.fst (Memory.require_of_found found)
  rcases reads_bind_cases (reads_require id) h with
    ⟨e, he | he, hr, hview⟩ | ⟨a, mid, ha, hview, h⟩
  · exact Or.inl ⟨e, he, hr, hview⟩
  · cases hread.symm.trans he
  · cases hread.symm.trans ha
    exact Or.inr ⟨mid, hview, h⟩

theorem nextGeneration_eq (m : Memory) (owner : String) :
    (nextGeneration owner : Action Memory Nat) m
      = (.ok (m.generation owner + 1), m.stamp owner) := rfl

/-- A node that points nowhere takes any update. -/
theorem update_of_forward_eq_none {m : Memory} {n : Node} (found : m.node? n.id = some n)
    (hn : n.forward = none) (u : Update) :
    (update n.id u : Action Memory Unit) m = (.ok (), m.modifyNode n.id u.applyTo) := by
  have hget : (getThe Memory : Action Memory Memory) m = (.ok m, m) := rfl
  refine (bind_eq_of_ok hget).trans ?_
  simp only [found, hn, Option.isSome_none, Bool.and_false]
  rfl

/-- Forwarding fails at its stamp, or at its update, or is done. -/
theorem forwards_of_forwardInto {n target : Node} {arcs : List Arc}
    (may : run.view.store.MayForward n target)
    (h : forwardInto n target.id arcs run = (r, run')) :
    Forwards (fails σ) n target arcs run.view r run'.view := by
  rw [forwardInto] at h
  rcases serves_bind_cases (serves_nextGeneration n.owner) h with
    ⟨e, he, rfl, hview⟩ | ⟨e, he, -⟩ | ⟨generation, stamped, hanswer, hstamped, h⟩
  · rw [hview]
    exact .unstamped he
  · cases he
  rw [nextGeneration_eq] at hanswer hstamped
  cases hanswer
  have found : stamped.view.store.node? n.id = some n := by
    rw [hstamped]
    exact may.found
  rcases serves_bind_cases (serves_update n.id _) h with
    ⟨e, he, rfl, hview⟩ | ⟨e, he, -⟩ | ⟨_, written, -, hwritten, h⟩
  · rw [hview, hstamped]
    exact .unwritten he
  · rw [update_of_forward_eq_none found may.forward_eq_none] at he
    cases he
  rw [update_of_forward_eq_none found may.forward_eq_none, hstamped] at hwritten
  cases h
  have hview : view { written with forwarded := written.forwarded ++
      [⟨n.id, target.id, run.view.store.generation n.owner + 1, arcs.length⟩] }
        = run.view.forward n target arcs := by
    calc _ = { written.view with forwarded := written.view.forwarded ++
          [⟨n.id, target.id, run.view.store.generation n.owner + 1, arcs.length⟩] } := rfl
      _ = run.view.forward n target arcs := by rw [hwritten]; rfl
  rw [hview]
  exact .done

/-! ### The recursion -/

/-- With a pair left for each of its calls, `unify` runs a course. -/
def Follows (depth : Nat) (unify : NodeId → NodeId → RunM σ Unit) : Prop :=
  ∀ {run run' : Run σ} {a b : NodeId} {r : Except EngineError Unit},
    Ready depth run.view → unify a b run = (r, run') →
      Course (fails σ) (.nodes a b) run.view r run'.view

variable {depth : Nat} {unify : NodeId → NodeId → RunM σ Unit}

/-- What two nodes refer to is unified arc by arc. -/
theorem course_of_unifyShared (hrec : Follows depth unify) (ours : List Arc) :
    ∀ (theirs : List Arc) {run run' : Run σ} {r : Except EngineError Unit},
      Ready depth run.view → unifyShared unify ours theirs run = (r, run') →
        Course (fails σ) (.arcs ours theirs) run.view r run'.view := by
  intro theirs
  induction theirs with
  | nil =>
      intro run run' r _ h
      cases h
      exact .nil
  | cons arc rest ih =>
      intro run run' r ready h
      rw [unifyShared] at h
      cases hx : (Arcs.find? arc.label ours).bind (·.value.node?) with
      | none =>
          simp only [hx] at h
          exact .skip (Or.inl hx) (ih ready h)
      | some x =>
          cases hy : arc.value.node? with
          | none =>
              simp only [hx, hy] at h
              exact .skip (Or.inr hy) (ih ready h)
          | some y =>
              simp only [hx, hy] at h
              rcases bind_cases h with ⟨e, hhead, rfl⟩ | ⟨_, mid, hhead, htail⟩
              · exact .arcFails hx hy (hrec ready hhead)
              · have head := hrec ready hhead
                exact .arc hx hy head (ih (ready.steps head.steps_of_ok) htail)

/-- Two complex nodes are opened, if they share a label, and then read again. -/
theorem course_of_unifyComplex (hrec : Follows depth unify) {a b : NodeId} {n k : Node}
    (ready : Ready (depth + 1) run.view) (meet : Meeting run.view a b n k)
    (hn : n.isLeaf = false) (hk : k.isLeaf = false)
    (h : unifyComplex unify n k run = (r, run')) :
    Course (fails σ) (.nodes a b) run.view r run'.view := by
  rw [unifyComplex] at h
  cases hshares : (Arcs.intersect n.arcs k.arcs).isEmpty with
  | true =>
      simp only [hshares, if_true] at h
      have which := AtOnce.disjoint hn hk hshares
      exact .atOnce meet which (forwards_of_forwardInto (which.mayForward meet) h)
  | false =>
      simp only [hshares, Bool.false_eq_true, if_false] at h
      have op : Opening run.view a b n k := ⟨meet, hn, hk, hshares⟩
      rcases bind_cases h with ⟨e, hmodify, -⟩ | ⟨_, entered, hmodify, h⟩
      · cases hmodify
      cases hmodify
      have readyInside :
          Ready depth (view ({ run with opened := (n.id, k.id) :: run.opened } : Run σ)) :=
        ready.enter op
      rcases bind_cases h with ⟨e, hinside, rfl⟩ | ⟨_, mid, hinside, h⟩
      · exact .failsInside op (course_of_unifyShared hrec n.arcs _ readyInside hinside)
      have inside : Course (fails σ) (.arcs n.arcs (Arcs.intersect n.arcs k.arcs))
          (run.view.enter n k) (.ok ()) mid.view :=
        course_of_unifyShared hrec n.arcs _ readyInside hinside
      -- Both nodes are still stored, and are read as what they have become.
      have steps := inside.steps_of_ok
      obtain ⟨n', left, -⟩ := steps.evolves.found op.left.found
      obtain ⟨k', right, -⟩ := steps.evolves.found op.right.found
      have hnid : n'.id = n.id := Memory.id_of_node? left
      have hkid : k'.id = k.id := Memory.id_of_node? right
      rcases require_bind_cases left h with ⟨e, he, rfl, hview⟩ | ⟨mid', hview, h⟩
      · rw [hview]
        exact .unreadAgain op inside he
      rw [← hview] at right
      rcases require_bind_cases right h with ⟨e, he, rfl, hview'⟩ | ⟨mid'', hview', h⟩
      · rw [hview', hview]
        exact .unreadAgain op inside he
      rw [hview] at right
      have hsame : mid''.view = mid.view := hview'.trans hview
      have readyAgain : Ready depth mid''.view := hsame ▸ (ready.enter op).steps steps
      cases hmerged : n'.isSuperseded || k'.isSuperseded with
      | true =>
          rw [hmerged, if_pos rfl, hnid, hkid] at h
          have again := hrec readyAgain h
          rw [hsame] at again
          exact .restarts op inside left right (Bool.or_eq_true _ _ ▸ hmerged) again
      | false =>
          rw [hmerged, if_neg Bool.false_ne_true] at h
          obtain ⟨hn', hk'⟩ := Bool.or_eq_false_iff.mp hmerged
          have hn' : n'.forward = none := Node.isSuperseded_eq_false_iff.mp hn'
          have hk' : k'.forward = none := Node.isSuperseded_eq_false_iff.mp hk'
          have may := op.mayForward steps left right hn' hk'
          rw [← hsame] at may
          have forwards := forwards_of_forwardInto may h
          rw [hsame] at forwards
          exact .joins op inside left right hn' hk' forwards

/-- Two ids are followed, and what they lead to is compared. -/
theorem course_of_unifyStep (hrec : Follows depth unify) :
    Follows (depth + 1) (unifyStep unify) := by
  intro run run' a b r ready h
  rw [unifyStep] at h
  rcases reads_bind_cases (reads_dereference a) h with
    ⟨e, he, rfl, hview⟩ | ⟨n, mid, hn, hview, h⟩
  · rw [hview]
    exact .unread (Or.inl rfl) he
  have left := Memory.dereference_eq_ok_iff.mp hn
  rcases reads_bind_cases (reads_dereference b) h with
    ⟨e, he, rfl, hview'⟩ | ⟨k, mid', hk, hview', h⟩
  · rw [hview] at he
    rw [hview', hview]
    exact .unread (Or.inr rfl) he
  rw [hview] at hk
  have right := Memory.dereference_eq_ok_iff.mp hk
  have hsame : mid'.view = run.view := hview'.trans hview
  rcases bind_cases h with ⟨e, hget, -⟩ | ⟨now, mid'', hget, h⟩
  · cases hget
  cases hget
  rw [← hsame] at left right ready ⊢
  by_cases hknown : n.id = k.id ∨ (n.id, k.id) ∈ mid'.opened
  · rw [if_pos hknown] at h
    cases h
    exact .known left right hknown
  rw [if_neg hknown] at h
  have meet : Meeting mid'.view a b n k :=
    ⟨left, right, fun he => hknown (Or.inl he), fun he => hknown (Or.inr he)⟩
  cases hn : n.isLeaf with
  | true =>
      cases hk : k.isLeaf with
      | true =>
          simp only [hn, hk] at h
          by_cases hname : n.name = k.name
          · rw [if_neg (not_not.mpr hname)] at h
            cases h
            exact .agree meet hn hk hname
          · rw [if_pos hname] at h
            cases h
            exact .clash meet hn hk hname
      | false =>
          simp only [hn, hk] at h
          have which := AtOnce.leafInto hn hk
          exact .atOnce meet which (forwards_of_forwardInto (which.mayForward meet) h)
  | false =>
      cases hk : k.isLeaf with
      | true =>
          simp only [hn, hk] at h
          have which := AtOnce.takesLeaf hn hk
          exact .atOnce meet which (forwards_of_forwardInto (which.mayForward meet) h)
      | false =>
          simp only [hn, hk] at h
          exact course_of_unifyComplex hrec ready meet hn hk h

/-- With a pair left for each call, the bound on the depth is not met. -/
theorem course_of_unifyWithin (depth : Nat) :
    Follows depth (unifyWithin depth : NodeId → NodeId → RunM σ Unit) := by
  induction depth with
  | zero =>
      intro run run' a b r ready _
      exact absurd ready not_ready_zero
  | succ depth ih => exact course_of_unifyStep ih

/-- Nothing is opened at the start, and there is more depth than there are pairs. -/
theorem ready_start (m : Memory) :
    Ready (m.nodes.length * m.nodes.length + 1) { store := m } := by
  refine ⟨⟨List.nodup_nil, ?_⟩, ?_⟩
  · intro p hp
    cases hp
  · exact Nat.lt_succ_self _

/-- A unification runs a course from a fresh start. -/
theorem course_of_unify {s : σ} {a b : NodeId} {r : Except EngineError Unit} {run : Run σ}
    (h : Run.unify s a b = (r, run)) :
    Course (fails σ) (.nodes a b) { store := contents s } r run.view := by
  have hcount : nodeCount s = (contents s).nodes.length := nodeCount_eq s
  rw [Run.unify, hcount] at h
  exact course_of_unifyWithin _ (ready_start (contents s)) h

end Ideas.Run
