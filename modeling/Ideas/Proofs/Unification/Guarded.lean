/-
A unification forwards a node only where it may.

A frame of the recursion holds two nodes as they were read, and the calls inside it may have
forwarded either of them by the time it forwards one itself.  That it does so only where the
node is still stored as it was read, points nowhere and differs from its target is shown by
leaving open how nodes are forwarded: `unifyBy forward` unifies like `unify`, and forwards by
`forward`.  If that does what forwarding does wherever a node may be forwarded (`Suffices`),
then whatever it does elsewhere makes no difference (`unifyBy_eq`).

The recursion is compared call by call.  The calls inside a pair are a course, and from the
course it is known what has become of the pair when it is read again.
-/
import Ideas.Proofs.Unification.Depth

namespace Ideas

open NodeStore Backed

/-- An answer of a store names a node that is stored. -/
theorem found_of_require {σ : Type} [NodeStore σ] [Backed σ] {s s' : σ} {id : NodeId} {n : Node}
    (h : require id s = (.ok n, s')) :
    (contents s).node? id = some n ∧ contents s' = contents s := by
  obtain ⟨hsame, ⟨_, -, hr⟩ | hr⟩ := (reads_require id).cases h
  · cases hr
  · refine ⟨?_, hsame⟩
    cases found : (contents s).node? id with
    | none =>
        rw [Memory.require_of_missing found] at hr
        cases hr
    | some x =>
        rw [Memory.require_of_found found] at hr
        cases hr
        rfl

namespace Run

variable {σ : Type} [NodeStore σ]

/-! ### Forwarding left open -/

/-- The pairs that were opened are compared id by id. -/
local instance lawfulBEq_pair : LawfulBEq (NodeId × NodeId) := inferInstance

/-- Unify two complex canonical nodes, with `forward` to forward a node. -/
def unifyComplexBy (forward : Node → NodeId → List Arc → RunM σ Unit)
    (unify : NodeId → NodeId → RunM σ Unit) (n m : Node) : RunM σ Unit := do
  let shared := Arcs.intersect n.arcs m.arcs
  if shared.isEmpty then
    forward n m.id (Arcs.complement m.arcs n.arcs)
  else
    modify fun run => { run with opened := (n.id, m.id) :: run.opened }
    unifyShared unify n.arcs shared
    let n ← onStore (require n.id)
    let m ← onStore (require m.id)
    if n.isSuperseded || m.isSuperseded then unify n.id m.id
    else forward n m.id (Arcs.complement m.arcs n.arcs)

/-- Unify two nodes, with `forward` to forward a node. -/
def unifyStepBy (forward : Node → NodeId → List Arc → RunM σ Unit)
    (unify : NodeId → NodeId → RunM σ Unit) (a b : NodeId) : RunM σ Unit := do
  let n ← onStore (dereference a)
  let m ← onStore (dereference b)
  if n.id = m.id ∨ (n.id, m.id) ∈ (← getThe (Run σ)).opened then
    return ()
  match n.isLeaf, m.isLeaf with
  | true, true =>
    if n.name ≠ m.name then
      throw (.incompatibleLeaves n.displayName m.displayName)
  | true, false => forward n m.id []
  | false, true => forward m n.id []
  | false, false => unifyComplexBy forward unify n m

/-- Unify two nodes with at most `depth` calls inside one another, and `forward` to forward a
node. -/
def unifyWithinBy (forward : Node → NodeId → List Arc → RunM σ Unit) :
    Nat → NodeId → NodeId → RunM σ Unit
  | 0, a, _ => throw (.cycleDetected a)
  | depth + 1, a, b => unifyStepBy forward (unifyWithinBy forward depth) a b

/-- Unify two nodes from a fresh start on a store, with `forward` to forward a node. -/
def unifyBy (forward : Node → NodeId → List Arc → RunM σ Unit) (store : σ) (a b : NodeId) :
    Except EngineError Unit × Run σ :=
  let count := nodeCount store
  unifyWithinBy forward (count * count + 1) a b { store }

variable [Backed σ]

/-- Wherever a node may be forwarded, this forwards it; elsewhere it may do anything. -/
def Suffices (forward : Node → NodeId → List Arc → RunM σ Unit) : Prop :=
  ∀ (run : Run σ) (n k : Node) (arcs : List Arc), (contents run.store).MayForward n k →
    forward n k.id arcs run = forwardInto n k.id arcs run

theorem suffices_forwardInto : Suffices (forwardInto : _ → _ → _ → RunM σ Unit) :=
  fun _ _ _ _ _ => rfl

/-- With a pair left for each of their calls, the two do the same. -/
def Agree (depth : Nat) (unify unify' : NodeId → NodeId → RunM σ Unit) : Prop :=
  ∀ {run : Run σ} {a b : NodeId}, Ready depth run.view → unify a b run = unify' a b run

/-! ### The recursion, call by call -/

variable {forward : Node → NodeId → List Arc → RunM σ Unit} {depth : Nat}
  {unify unify' : NodeId → NodeId → RunM σ Unit} {run : Run σ}

theorem found_of_onStore {id : NodeId} {n : Node} {mid : Run σ}
    (h : onStore (require id) run = (.ok n, mid)) : run.view.store.node? id = some n := by
  obtain ⟨store, hrun, -⟩ := onStore_cases h
  exact (found_of_require hrun).1

theorem unifyShared_eq (hrec : Follows depth unify) (h : Agree depth unify unify')
    (ours : List Arc) : ∀ (theirs : List Arc) {run : Run σ}, Ready depth run.view →
      unifyShared unify ours theirs run = unifyShared unify' ours theirs run := by
  intro theirs
  induction theirs with
  | nil => intro run _; rfl
  | cons arc rest ih =>
      intro run ready
      rw [unifyShared, unifyShared]
      cases hx : (Arcs.find? arc.label ours).bind (·.value.node?) with
      | none => exact ih ready
      | some x =>
          cases hy : arc.value.node? with
          | none => exact ih ready
          | some y =>
              refine bind_eq_bind (h ready) fun _ mid hhead => ?_
              exact ih (ready.steps (hrec ready hhead).steps_of_ok)

/-- The nodes of a pair may be joined if they were not merged by the time they are read again. -/
theorem mayForward_again {a b : NodeId} {n k n' k' : Node} {mid mid' mid'' : Run σ}
    (op : Opening run.view a b n k) (steps : Steps (run.view.enter n k) mid.view)
    (hleft : onStore (require n.id) mid = (.ok n', mid'))
    (hright : onStore (require k.id) mid' = (.ok k', mid''))
    (hmerged : (n'.isSuperseded || k'.isSuperseded) = false) :
    mid''.view.store.MayForward n' k' := by
  have hview : mid'.view = mid.view := view_of_reads (reads_require n.id) hleft
  have hsame : mid''.view = mid.view := (view_of_reads (reads_require k.id) hright).trans hview
  have left := found_of_onStore hleft
  have right := found_of_onStore hright
  obtain ⟨hn, hk⟩ := Bool.or_eq_false_iff.mp hmerged
  rw [hview] at right
  rw [hsame]
  exact op.mayForward steps left right (Node.isSuperseded_eq_false_iff.mp hn)
    (Node.isSuperseded_eq_false_iff.mp hk)

theorem unifyComplexBy_eq (hforward : Suffices forward) (hrec : Follows depth unify)
    (h : Agree depth unify unify') {a b : NodeId} {n k : Node}
    (ready : Ready (depth + 1) run.view) (meet : Meeting run.view a b n k)
    (hn : n.isLeaf = false) (hk : k.isLeaf = false) :
    unifyComplex unify n k run = unifyComplexBy forward unify' n k run := by
  rw [unifyComplex, unifyComplexBy]
  cases hshares : (Arcs.intersect n.arcs k.arcs).isEmpty with
  | true =>
      simp only [if_true]
      exact (hforward run n k _ ((AtOnce.disjoint hn hk hshares).mayForward meet)).symm
  | false =>
      simp only [Bool.false_eq_true, if_false]
      have op : Opening run.view a b n k := ⟨meet, hn, hk, hshares⟩
      refine bind_eq_bind rfl fun _ entered hopen => ?_
      cases hopen
      have readyInside :
          Ready depth (view ({ run with opened := (n.id, k.id) :: run.opened } : Run σ)) :=
        ready.enter op
      refine bind_eq_bind (unifyShared_eq hrec h n.arcs _ readyInside) fun _ mid hinside => ?_
      have steps := (course_of_unifyShared hrec n.arcs _ readyInside hinside).steps_of_ok
      refine bind_eq_bind rfl fun n' mid' hleft => ?_
      refine bind_eq_bind rfl fun k' mid'' hright => ?_
      cases hmerged : n'.isSuperseded || k'.isSuperseded with
      | true =>
          have hsame : mid''.view = mid.view :=
            (view_of_reads (reads_require k.id) hright).trans
              (view_of_reads (reads_require n.id) hleft)
          rw [if_pos rfl, if_pos rfl]
          exact h (hsame ▸ readyInside.steps steps)
      | false =>
          rw [if_neg Bool.false_ne_true, if_neg Bool.false_ne_true]
          exact (hforward mid'' n' k' _ (mayForward_again op steps hleft hright hmerged)).symm

theorem unifyStepBy_eq (hforward : Suffices forward) (hrec : Follows depth unify)
    (h : Agree depth unify unify') :
    Agree (depth + 1) (unifyStep unify) (unifyStepBy forward unify') := by
  intro run a b ready
  rw [unifyStep, unifyStepBy]
  refine bind_eq_bind rfl fun n mid hleft => ?_
  refine bind_eq_bind rfl fun k mid' hright => ?_
  obtain ⟨hsame, left, right⟩ := canonical_of_dereferences hleft hright
  refine bind_eq_bind rfl fun now mid'' hget => ?_
  cases hget
  rw [← hsame] at ready
  by_cases hknown : n.id = k.id ∨ (n.id, k.id) ∈ mid'.opened
  · rw [if_pos hknown, if_pos hknown]
  rw [if_neg hknown, if_neg hknown]
  have meet : Meeting mid'.view a b n k :=
    ⟨left, right, fun he => hknown (Or.inl he), fun he => hknown (Or.inr he)⟩
  cases hn : n.isLeaf with
  | true =>
      cases hk : k.isLeaf with
      | true => rfl
      | false => exact (hforward mid' n k [] ((AtOnce.leafInto hn hk).mayForward meet)).symm
  | false =>
      cases hk : k.isLeaf with
      | true => exact (hforward mid' k n [] ((AtOnce.takesLeaf hn hk).mayForward meet)).symm
      | false => exact unifyComplexBy_eq hforward hrec h ready meet hn hk

theorem unifyWithinBy_eq (hforward : Suffices forward) (depth : Nat) :
    Agree depth (unifyWithin depth) (unifyWithinBy forward depth) := by
  induction depth with
  | zero =>
      intro run a b ready
      exact absurd ready not_ready_zero
  | succ depth ih => exact unifyStepBy_eq hforward (course_of_unifyWithin depth) ih

/-- What is done where a node may not be forwarded makes no difference to a unification. -/
theorem unifyBy_eq (hforward : Suffices forward) (store : σ) (a b : NodeId) :
    unifyBy forward store a b = Run.unify store a b := by
  have ready : Ready (nodeCount store * nodeCount store + 1) (view { store }) := by
    rw [nodeCount_eq]
    exact ready_start (contents store)
  exact (unifyWithinBy_eq hforward _ ready).symm

end Run

end Ideas
