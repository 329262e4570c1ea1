/-
A unification comes to an end by itself.

The recursion of `unify` and the walk along forward references are written with a bound
on their depth.  That neither of them needs it is shown by leaving open what is done once
the bound is met: `unifyThen rest depth` unifies with `depth` calls inside one another and
goes on with `rest`, and with as much depth as `unify` takes, `rest` makes no difference.
The same holds of the walk (`followForwardThen`).

On the way no pair of nodes is opened twice and each forward reference is written from a
node of its own, so the size of the data bounds both, and with them the number of requests
that are made of the store: `unification_ends`.
-/
import Mathlib.Tactic.Ring
import Ideas.Proofs.Unification.Guarded
import Ideas.Proofs.Unification.Report
import Ideas.Proofs.Unification.Requests

namespace Ideas

open NodeStore Backed

variable {σ : Type} [NodeStore σ]

/-! ### The walk along forward references -/

/-- Follow forward references for `steps` nodes, and go on with `rest`. -/
def followForwardThen (rest : List NodeId → NodeId → Action σ (List Node)) :
    Nat → List NodeId → NodeId → Action σ (List Node)
  | 0, seen, current => rest seen current
  | steps + 1, seen, current => do
    if current ∈ seen then throw (.cycleDetected current)
    let node ← require current
    match node.forward with
    | none => return [node]
    | some next => return node :: (← followForwardThen rest steps (current :: seen) next)

variable [Backed σ]

/-- While more steps are left than there are nodes that were not met, what comes after them makes
no difference. -/
theorem followForwardThen_eq (rest : List NodeId → NodeId → Action σ (List Node)) :
    ∀ (steps : Nat) {seen : List NodeId} {id : NodeId} {s : σ}, seen.Nodup →
      seen ⊆ (contents s).nodes.map Node.id →
        (contents s).nodes.length < steps + seen.length →
          followForwardThen rest steps seen id s = followForward steps seen id s := by
  intro steps
  induction steps with
  | zero =>
      intro seen id s hnodup hstored hroom
      have hle := hnodup.length_le_of_subset hstored
      rw [List.length_map] at hle
      omega
  | succ steps ih =>
      intro seen id s hnodup hstored hroom
      rw [followForwardThen, followForward]
      by_cases hseen : id ∈ seen
      · rw [if_pos hseen, if_pos hseen]
        rfl
      rw [if_neg hseen, if_neg hseen]
      refine bind_eq_bind rfl fun n mid hread => ?_
      obtain ⟨found, hsame⟩ := found_of_require hread
      cases n.forward with
      | none => rfl
      | some next =>
          refine bind_eq_bind (ih (List.nodup_cons.mpr ⟨hseen, hnodup⟩) ?_ ?_) fun _ _ _ => rfl
          · rw [hsame]
            exact List.cons_subset.mpr ⟨Memory.mem_ids_of_node? found, hstored⟩
          · rw [hsame, List.length_cons]
            omega

namespace Run

/-! ### The recursion -/

/-- Unify two nodes with `depth` calls inside one another, and go on with `rest`. -/
def unifyThen (rest : NodeId → NodeId → RunM σ Unit) : Nat → NodeId → NodeId → RunM σ Unit
  | 0 => rest
  | depth + 1 => unifyStep (unifyThen rest depth)

/-- The bound on the depth is not met. -/
theorem unifyWithin_eq (rest : NodeId → NodeId → RunM σ Unit) (depth : Nat) :
    Agree depth (unifyWithin depth) (unifyThen rest depth) := by
  induction depth with
  | zero =>
      intro run a b ready
      exact absurd ready not_ready_zero
  | succ depth ih => exact unifyStepBy_eq suffices_forwardInto (course_of_unifyWithin depth) ih

theorem Tidy.ends {r : Except EngineError Unit} {mid run' : Run Memory} (h : Tidy mid)
    (ends : Ends r mid run') : Tidy run' := by
  rcases ends with rfl | ⟨_, _, -, rfl⟩
  · exact h
  · exact ⟨h.nodup, h.stored⟩

theorem Ends.ids_eq {r : Except EngineError Unit} {mid run' : Run Memory}
    (ends : Ends r mid run') : run'.store.nodes.map Node.id = mid.store.nodes.map Node.id := by
  rcases ends with rfl | ⟨_, _, -, rfl⟩ <;> rfl

theorem ids_unify (s : σ) (a b : NodeId) :
    (contents (Run.unify s a b).2.store).nodes.map Node.id
      = (contents s).nodes.map Node.id := by
  rcases hrun : Run.unify s a b with ⟨r, run⟩
  obtain ⟨mid, steps, ends⟩ := (course_of_unify hrun).steps
  exact ends.ids_eq.trans steps.ids_eq

theorem length_nodes_unify (s : σ) (a b : NodeId) :
    (contents (Run.unify s a b).2.store).nodes.length = nodeCount s := by
  have hlen := congrArg List.length (ids_unify s a b)
  rw [List.length_map, List.length_map] at hlen
  rw [nodeCount_eq]
  exact hlen

/-- However a unification ends, the pairs it opened are pairs of stored nodes, each opened once. -/
theorem tidy_unify (s : σ) (a b : NodeId) : Tidy (Run.unify s a b).2.view := by
  rcases hrun : Run.unify s a b with ⟨r, run⟩
  obtain ⟨mid, steps, ends⟩ := (course_of_unify hrun).steps
  exact ((ready_start (contents s)).toTidy.steps steps).ends ends

theorem length_opened_le (s : σ) (a b : NodeId) :
    (Run.unify s a b).2.opened.length ≤ nodeCount s * nodeCount s := by
  have hle := (tidy_unify s a b).length_le
  rw [show (Run.unify s a b).2.view.store.nodes.length = nodeCount s from
    length_nodes_unify s a b] at hle
  exact hle

end Run

/-- Each forward reference is written from a node of its own. -/
theorem length_forwarded_le (s : σ) (a b : NodeId) :
    (Run.unify s a b).2.forwarded.length ≤ nodeCount s := by
  rcases hcall : unifyCore a b s with ⟨r, s'⟩
  obtain ⟨mid, hwrites, -⟩ := unifyCore_writes hcall
  have accounts := hwrites.accounts
  have hsub : (Run.unify s a b).2.forwarded.map Forwarding.node
      ⊆ (contents s).nodes.map Node.id := by
    intro id hid
    obtain ⟨f, hf, rfl⟩ := List.mem_map.mp hid
    obtain ⟨_, _, found, -⟩ := accounts.forwarded f hf
    exact Memory.mem_ids_of_node? found
  have hle := accounts.nodup.length_le_of_subset hsub
  rw [List.length_map, List.length_map] at hle
  rw [nodeCount_eq]
  exact hle

/-! ### All requests of a call -/

/-- How many requests a unification makes at most, among `count` nodes with `arcs` arcs. -/
def requestBound (count arcs : Nat) : Nat :=
  (2 * count + 6) * (1 + (arcs + 1) * (count * count))

theorem costs_unifyCore (m : Monitored σ) (a b : NodeId) :
    Costs asked (requestBound (nodeCount m) (contents m).arcCount) (unifyCore a b) m := by
  have hasked := Run.asked_unify_le m a b
  have hopened : ((Run.unify m a b).2.opened.length : Int) ≤ nodeCount m * nodeCount m := by
    exact_mod_cast Run.length_opened_le m a b
  have hprice : 0 ≤ Run.pairCost (nodeCount m) (contents m).arcCount :=
    Int.mul_nonneg (Run.ownCost_nonneg _) (by omega)
  have hpaid := Int.mul_le_mul_of_nonneg_left hopened hprice
  have hbound : (requestBound (nodeCount m) (contents m).arcCount : Int)
      = Run.ownCost (nodeCount m)
        + Run.pairCost (nodeCount m) (contents m).arcCount * (nodeCount m * nodeCount m) := by
    rw [requestBound, Run.pairCost, Run.ownCost]
    push_cast
    ring
  show asked (Run.unify m a b).2.store ≤ asked m + _
  omega

/-- What follows on a unification is one more walk, and at most one merged view. -/
theorem costs_unify (m : Monitored σ) (copy a b : NodeId) :
    Costs asked (requestBound (nodeCount m) (contents m).arcCount + (2 * nodeCount m + 4))
      (unify copy a b) m := by
  refine (costs_unifyCore m a b).bind (by omega) fun fs mid hcore => ?_
  have hcount : nodeCount mid = nodeCount m := by
    rw [show mid = (unifyCore a b m).2 by rw [hcore], nodeCount_eq]
    exact Run.length_nodes_unify m a b
  refine ((costs_dereference a).bind (j := nodeCount m + 3) (by omega)
    fun canonical mid' hread => ?_).le (by rw [hcount]; omega)
  have hcount' : nodeCount mid' = nodeCount m := by
    rw [nodeCount_eq, ((reads_dereference a).cases hread).1, ← nodeCount_eq]
    exact hcount
  cases hempty : fs.isEmpty with
  | true =>
      simp only [if_true]
      refine ((costs_existingCopy a).bind (j := 0) (Int.le_refl 0) fun _ _ _ => ?_).le (by omega)
      exact costs_pure _
  | false =>
      simp only [Bool.false_eq_true, if_false]
      refine ((costs_materialize copy a).bind (j := 0) (Int.le_refl 0) fun _ _ _ => ?_).le ?_
      · exact costs_pure _
      · rw [hcount']
        omega

/-- A unification of any two ids comes to an end by itself, whatever the data are: neither its
recursion nor a walk along forward references gets to its bound.  It looks into no ordered
pair of stored nodes twice, writes at most one forward reference for each node, and makes a
number of requests that the size of the data bounds, also where one of them fails. -/
theorem unification_ends (s : σ) (copy a b : NodeId) :
    (∀ id rest, followForwardThen rest (nodeCount s + 1) [] id s = forwardChain id s) ∧
    (∀ rest, Run.unifyThen rest (nodeCount s * nodeCount s + 1) a b { store := s }
      = Run.unify s a b) ∧
    (Run.unify s a b).2.opened.Nodup ∧
    (∀ p ∈ (Run.unify s a b).2.opened,
      p.1 ∈ (contents s).nodes.map Node.id ∧ p.2 ∈ (contents s).nodes.map Node.id) ∧
    (Run.unify s a b).2.opened.length ≤ nodeCount s * nodeCount s ∧
    (Run.unify s a b).2.forwarded.length ≤ nodeCount s ∧
    ∀ fault, (unifyCore a b (⟨s, [], fault⟩ : Monitored σ)).2.requests.length
        ≤ requestBound (nodeCount s) (contents s).arcCount ∧
      (unify copy a b (⟨s, [], fault⟩ : Monitored σ)).2.requests.length
        ≤ requestBound (nodeCount s) (contents s).arcCount + (2 * nodeCount s + 4) := by
  refine ⟨?_, ?_, (Run.tidy_unify s a b).nodup, ?_, Run.length_opened_le s a b,
    length_forwarded_le s a b, ?_⟩
  · intro id rest
    refine followForwardThen_eq rest _ List.nodup_nil (List.nil_subset _) ?_
    rw [nodeCount_eq]
    exact Nat.lt_succ_self _
  · intro rest
    refine (Run.unifyWithin_eq rest _ ?_).symm
    rw [nodeCount_eq]
    exact Run.ready_start (contents s)
  · rw [← Run.ids_unify s a b]
    exact (Run.tidy_unify s a b).stored
  · intro fault
    have hcore : asked (unifyCore a b (⟨s, [], fault⟩ : Monitored σ)).2
        ≤ asked (⟨s, [], fault⟩ : Monitored σ) + _ := costs_unifyCore ⟨s, [], fault⟩ a b
    have hfull : asked (unify copy a b (⟨s, [], fault⟩ : Monitored σ)).2
        ≤ asked (⟨s, [], fault⟩ : Monitored σ) + _ := costs_unify ⟨s, [], fault⟩ copy a b
    have hnone : asked (⟨s, [], fault⟩ : Monitored σ) = 0 := rfl
    rw [hnone, Int.zero_add] at hcore hfull
    exact ⟨Int.ofNat_le.mp hcore, Int.ofNat_le.mp (hfull.trans (by push_cast; exact le_rfl))⟩

end Ideas
