/-
How many requests a unification makes.

A watched store notes each request that is made of it, and what is counted here is the
length of that note, whatever the fault of the store is and wherever it strikes.  A walk
along forward references reads each stored node at most once, and one call of the
recursion makes two walks, and four requests more at most.

How many calls there are is a matter of the pairs that are opened.  A pair pays for all
calls that are made from inside it: one for each arc of its second node, and one to start
again.  `spent` is therefore what was asked for less what the open pairs have paid, and a
call adds to it no more than its own requests (`Frugal`).  Since no pair is opened twice,
that bounds the requests of a unification by the size of the data alone
(`requests_unifyCore_le`).
-/
import Mathlib.Algebra.GroupWithZero.Nat
import Mathlib.Algebra.Order.BigOperators.Group.List
import Mathlib.Algebra.Order.Group.Nat
import Ideas.Proofs.Unification.Call

namespace Ideas

open NodeStore Backed

/-! ### What an action costs -/

section

variable {ε τ α β : Type} {cost : τ → Int} {i j : Int} {t : τ}

/-- From the state `t` an action adds at most `k` to what the states have cost. -/
def Costs (cost : τ → Int) (k : Int) (act : ExceptT ε (StateM τ) α) (t : τ) : Prop :=
  cost (act t).2 ≤ cost t + k

theorem Costs.le {act : ExceptT ε (StateM τ) α} (h : Costs cost i act t) (hij : i ≤ j) :
    Costs cost j act t := by
  have hle : cost (act t).2 ≤ cost t + i := h
  show cost (act t).2 ≤ cost t + j
  omega

theorem costs_pure (a : α) : Costs cost 0 (pure a : ExceptT ε (StateM τ) α) t :=
  Int.le_of_eq (Int.add_zero _).symm

theorem costs_throw (e : ε) : Costs cost 0 (throw e : ExceptT ε (StateM τ) α) t :=
  Int.le_of_eq (Int.add_zero _).symm

/-- Two parts cost what the first and the second cost; the second may not come to its turn. -/
theorem Costs.bind {act : ExceptT ε (StateM τ) α} {f : α → ExceptT ε (StateM τ) β}
    (h : Costs cost i act t) (hj : 0 ≤ j)
    (hf : ∀ a mid, act t = (.ok a, mid) → Costs cost j (f a) mid) :
    Costs cost (i + j) (act >>= f) t := by
  have hfirst : cost (act t).2 ≤ cost t + i := h
  show cost ((act >>= f) t).2 ≤ cost t + (i + j)
  rcases hact : act t with ⟨e | a, mid⟩
  · rw [bind_eq_of_error hact]
    rw [hact] at hfirst
    have hfirst : cost mid ≤ cost t + i := hfirst
    show cost mid ≤ cost t + (i + j)
    omega
  · rw [bind_eq_of_ok hact]
    rw [hact] at hfirst
    have hfirst : cost mid ≤ cost t + i := hfirst
    have hsecond : cost (f a mid).2 ≤ cost mid + j := hf a mid hact
    omega

end

/-! ### Requests of a watched store -/

variable {σ : Type} {m : Monitored σ}

/-- How often a watched store was asked for something. -/
def asked (m : Monitored σ) : Int :=
  m.requests.length

/-- A request is one request, whether the fault strikes it or not. -/
theorem costs_pass {α : Type} (operation : Operation) (act : Action σ α) :
    Costs asked 1 (Monitored.pass operation act) m := by
  have hnoted : (Monitored.pass operation act m).2.requests = operation :: m.requests := by
    rcases hstrike : Monitored.strike operation m.fault with ⟨struck, fault⟩
    cases struck with
    | true => rw [Monitored.pass_of_strike act hstrike]
    | false =>
        rw [Monitored.pass, hstrike]
        rfl
  show asked (Monitored.pass operation act m).2 ≤ asked m + 1
  rw [asked, asked, hnoted, List.length_cons]
  omega

variable [NodeStore σ]

theorem costs_get (id : NodeId) : Costs asked 1 (get id : Action (Monitored σ) _) m :=
  costs_pass .get _

theorem costs_require (id : NodeId) : Costs asked 1 (require id : Action (Monitored σ) _) m := by
  refine (costs_get id).bind (j := 0) (Int.le_refl 0) fun found mid _ => ?_
  cases found with
  | none => exact costs_throw _
  | some n => exact costs_pure _

/-- A walk reads one node at each of its steps. -/
theorem costs_followForward : ∀ (steps : Nat) (seen : List NodeId) (id : NodeId) (m : Monitored σ),
    Costs asked steps (followForward steps seen id) m := by
  intro steps
  induction steps with
  | zero => intro seen id m; exact costs_throw _
  | succ steps ih =>
      intro seen id m
      by_cases hseen : id ∈ seen
      · rw [followForward, if_pos hseen]
        exact (costs_throw _).le (Int.natCast_nonneg _)
      · rw [followForward_of_notMem hseen]
        have hsteps : (0 : Int) ≤ steps := Int.natCast_nonneg steps
        refine ((costs_require id).bind (j := steps) hsteps fun n mid _ => ?_).le ?_
        · cases n.forward with
          | none => exact (costs_pure _).le hsteps
          | some next =>
              refine ((ih _ next mid).bind (j := 0) (Int.le_refl 0) fun rest last _ => ?_).le ?_
              · exact costs_pure _
              · omega
        · push_cast
          omega

theorem costs_forwardChain (id : NodeId) :
    Costs asked (nodeCount m + 1) (forwardChain id) m :=
  costs_followForward (nodeCount m + 1) [] id m

theorem costs_dereference (id : NodeId) : Costs asked (nodeCount m + 1) (dereference id) m := by
  refine ((costs_forwardChain id).bind (j := 0) (Int.le_refl 0) fun chain mid _ => ?_).le ?_
  · cases chain.getLast? with
    | none => exact costs_throw _
    | some n => exact costs_pure _
  · omega

theorem costs_existingCopy (id : NodeId) : Costs asked 2 (existingCopy id) m := by
  refine (costs_require id).bind (j := 1) (by omega) fun n mid _ => ?_
  cases n.copy with
  | none => exact (costs_pure _).le (by omega)
  | some copy =>
      refine ((costs_get copy).bind (j := 0) (Int.le_refl 0) fun found last _ => ?_).le ?_
      · exact costs_pure _
      · omega

theorem costs_materialize (copy id : NodeId) :
    Costs asked (nodeCount m + 3) (materialize copy id) m := by
  refine ((costs_forwardChain id).bind (j := 2) (by omega) fun chain mid _ => ?_).le (by omega)
  cases hhead : chain.head? with
  | none => exact (costs_throw _).le (by omega)
  | some input =>
      cases hlast : chain.getLast? with
      | none => exact (costs_throw _).le (by omega)
      | some canonical =>
          refine ((costs_pass .create _).bind (j := 1) (by omega) fun _ created _ => ?_).le ?_
          · refine ((costs_pass .update _).bind (j := 0) (Int.le_refl 0) fun _ last _ => ?_).le ?_
            · exact costs_pure _
            · omega
          · omega

/-! ### The data keep their size -/

/-- There are `count` nodes, and none has more than `width` arcs. -/
structure Memory.Sized (count width : Nat) (m : Memory) : Prop where
  count_eq : m.nodes.length = count
  width_le : ∀ {id : NodeId} {n : Node}, m.node? id = some n → n.arcs.length ≤ width

theorem Memory.Sized.steps {count width : Nat} {run run' : Run Memory}
    (h : run.store.Sized count width) (hsteps : Run.Steps run run') :
    run'.store.Sized count width := by
  refine ⟨?_, ?_⟩
  · have hlen := congrArg List.length hsteps.ids_eq
    rw [List.length_map, List.length_map] at hlen
    exact hlen.trans h.count_eq
  · intro id n found
    obtain ⟨n₀, found₀, hevolves⟩ := hsteps.evolves.found_before found
    rw [hevolves.arcs_eq]
    exact h.width_le found₀

/-- How many arcs there are. -/
def Memory.arcCount (m : Memory) : Nat :=
  (m.nodes.map fun n => n.arcs.length).sum

/-- No node has more arcs than there are. -/
theorem Memory.sized (m : Memory) : m.Sized m.nodes.length m.arcCount := by
  refine ⟨rfl, ?_⟩
  intro id n found
  exact List.single_le_sum (fun _ _ => Nat.zero_le _) _
    (List.mem_map.mpr ⟨n, List.mem_of_find?_eq_some found, rfl⟩)

namespace Run

/-! ### Requests within a run -/

variable {run : Run (Monitored σ)} {price k : Int}

/-- What was asked for, less what the pairs opened have paid. -/
def spent (price : Int) (run : Run (Monitored σ)) : Int :=
  asked run.store - price * run.opened.length

omit [NodeStore σ] in
theorem costs_onStore {α : Type} {act : Action (Monitored σ) α} (h : Costs asked k act run.store) :
    Costs (spent price) k (onStore act) run := by
  have hle : asked (act run.store).2 ≤ asked run.store + k := h
  show asked (act run.store).2 - price * run.opened.length
    ≤ asked run.store - price * run.opened.length + k
  omega

theorem costs_forwardInto (n : Node) (target : NodeId) (arcs : List Arc) :
    Costs (spent price) 2 (forwardInto n target arcs) run := by
  refine (costs_onStore (costs_pass .nextGeneration _)).bind (j := 1) (by omega) ?_
  intro generation stamped _
  refine ((costs_onStore (costs_pass .update _)).bind (j := 0) (Int.le_refl 0) ?_).le (by omega)
  intro _ written _
  exact costs_pure ()

omit [NodeStore σ] in
/-- A pair that is opened pays its price. -/
theorem costs_open (p : NodeId × NodeId) :
    Costs (spent price) (-price)
      (modify fun run => { run with opened := p :: run.opened } : RunM (Monitored σ) Unit) run := by
  show asked run.store - price * (p :: run.opened).length
    ≤ asked run.store - price * run.opened.length + -price
  rw [List.length_cons, Int.natCast_succ, Int.mul_add, Int.mul_one]
  omega

/-! ### The recursion -/

variable [Backed σ] {count width : Nat}

/-- What a call costs by itself: two walks, and four requests. -/
def ownCost (count : Nat) : Int :=
  2 * count + 6

/-- What a pair pays: the calls for the arcs of one node, and the one that starts again. -/
def pairCost (count width : Nat) : Int :=
  ownCost count * (width + 1)

/-- With a pair left for each of its calls, `unify` costs no more than one call by itself. -/
def Frugal (count width depth : Nat)
    (unify : NodeId → NodeId → RunM (Monitored σ) Unit) : Prop :=
  ∀ {run : Run (Monitored σ)} {a b : NodeId}, Ready depth run.view →
    run.view.store.Sized count width →
      Costs (spent (pairCost count width)) (ownCost count) (unify a b) run

variable {depth : Nat} {unify : NodeId → NodeId → RunM (Monitored σ) Unit}

theorem ownCost_nonneg (count : Nat) : 0 ≤ ownCost count := by
  rw [ownCost]
  omega

/-- The arcs of two nodes cost one call each at most. -/
theorem costs_unifyShared (hrec : Follows depth unify) (hcost : Frugal count width depth unify)
    (ours : List Arc) : ∀ (theirs : List Arc) {run : Run (Monitored σ)}, Ready depth run.view →
      run.view.store.Sized count width →
        Costs (spent (pairCost count width)) (ownCost count * theirs.length)
          (unifyShared unify ours theirs) run := by
  intro theirs
  induction theirs with
  | nil =>
      intro run _ _
      exact (costs_pure ()).le (by simp)
  | cons arc rest ih =>
      intro run ready sized
      have hown := ownCost_nonneg count
      have hrest : 0 ≤ ownCost count * rest.length :=
        Int.mul_nonneg hown (Int.natCast_nonneg _)
      have hsum : ownCost count * (arc :: rest).length
          = ownCost count + ownCost count * rest.length := by
        rw [List.length_cons, Int.natCast_succ, Int.mul_add, Int.mul_one, Int.add_comm]
      rw [unifyShared, hsum]
      cases hx : (Arcs.find? arc.label ours).bind (·.value.node?) with
      | none =>
          simp only
          exact (ih ready sized).le (by omega)
      | some x =>
          cases hy : arc.value.node? with
          | none =>
              simp only
              exact (ih ready sized).le (by omega)
          | some y =>
              simp only
              refine (hcost ready sized).bind hrest fun _ mid hhead => ?_
              have steps := (hrec ready hhead).steps_of_ok
              exact ih (ready.steps steps) (sized.steps steps)

/-- Two complex nodes make at most four requests of their own; their calls are paid for by the
pair. -/
theorem costs_unifyComplex (hrec : Follows depth unify) (hcost : Frugal count width depth unify)
    {a b : NodeId} {n k : Node} (ready : Ready (depth + 1) run.view)
    (sized : run.view.store.Sized count width) (meet : Meeting run.view a b n k)
    (hn : n.isLeaf = false) (hk : k.isLeaf = false) :
    Costs (spent (pairCost count width)) 4 (unifyComplex unify n k) run := by
  have hown := ownCost_nonneg count
  rw [unifyComplex]
  cases hshares : (Arcs.intersect n.arcs k.arcs).isEmpty with
  | true =>
      simp only [if_true]
      exact (costs_forwardInto n k.id _).le (by omega)
  | false =>
      simp only [Bool.false_eq_true, if_false]
      have op : Opening run.view a b n k := ⟨meet, hn, hk, hshares⟩
      -- The shared arcs are arcs of the second node, so the price of the pair covers them.
      have hwidth : (Arcs.intersect n.arcs k.arcs).length ≤ width :=
        Nat.le_trans (List.length_filter_le _ _) (sized.width_le op.right.found)
      have hpaid : ownCost count * (Arcs.intersect n.arcs k.arcs).length + ownCost count
          ≤ pairCost count width := by
        have hmul : ownCost count * (Arcs.intersect n.arcs k.arcs).length
            ≤ ownCost count * width :=
          Int.mul_le_mul_of_nonneg_left (by omega) hown
        rw [pairCost, Int.mul_add, Int.mul_one]
        omega
      have hshared : 0 ≤ ownCost count * (Arcs.intersect n.arcs k.arcs).length :=
        Int.mul_nonneg hown (Int.natCast_nonneg _)
      refine ((costs_open (n.id, k.id)).bind
        (j := ownCost count * (Arcs.intersect n.arcs k.arcs).length + ownCost count + 4)
        (by omega) fun _ entered hopen => ?_).le (by omega)
      cases hopen
      have readyInside :
          Ready depth (view ({ run with opened := (n.id, k.id) :: run.opened } : Run _)) :=
        ready.enter op
      have sizedInside : (view ({ run with opened := (n.id, k.id) :: run.opened } :
          Run (Monitored σ))).store.Sized count width := sized
      refine ((costs_unifyShared hrec hcost n.arcs _ readyInside sizedInside).bind
        (j := ownCost count + 4) (by omega) fun _ mid hinside => ?_).le (by omega)
      have steps := (course_of_unifyShared hrec n.arcs _ readyInside hinside).steps_of_ok
      have readyAgain := readyInside.steps steps
      have sizedAgain := sizedInside.steps steps
      refine ((costs_onStore (costs_require n.id)).bind (j := ownCost count + 3) (by omega)
        fun n' mid' hleft => ?_).le (by omega)
      refine ((costs_onStore (costs_require k.id)).bind (j := ownCost count + 2) (by omega)
        fun k' mid'' hright => ?_).le (by omega)
      have hsame : mid''.view = mid.view :=
        (view_of_reads (reads_require k.id) hright).trans
          (view_of_reads (reads_require n.id) hleft)
      rw [← hsame] at readyAgain sizedAgain
      split
      · exact (hcost readyAgain sizedAgain).le (by omega)
      · exact (costs_forwardInto n' k'.id _).le (by omega)

/-- A call costs two walks and four requests at most, besides what is paid for by pairs. -/
theorem costs_unifyStep (hrec : Follows depth unify) (hcost : Frugal count width depth unify) :
    Frugal count width (depth + 1) (unifyStep unify) := by
  intro run a b ready sized
  have hcount : nodeCount run.store = count := (nodeCount_eq run.store).trans sized.count_eq
  rw [unifyStep]
  refine ((costs_onStore (costs_dereference a)).bind (j := count + 5) (by omega)
    fun n mid hleft => ?_).le (by rw [hcount, ownCost]; omega)
  have hview := view_of_reads (reads_dereference a) hleft
  have hcount' : nodeCount mid.store = count := by
    have hsame : contents mid.store = contents run.store := congrArg Run.store hview
    rw [nodeCount_eq, hsame, ← nodeCount_eq]
    exact hcount
  refine ((costs_onStore (costs_dereference b)).bind (j := 4) (by omega)
    fun k mid' hright => ?_).le (by rw [hcount']; omega)
  obtain ⟨hsame, left, right⟩ := canonical_of_dereferences hleft hright
  rw [← hsame] at ready sized
  have hopened : Costs (spent (pairCost count width)) 0
      (getThe (Run (Monitored σ)) : RunM (Monitored σ) (Run (Monitored σ))) mid' :=
    Int.le_of_eq (Int.add_zero _).symm
  refine (hopened.bind (j := 4) (by omega) fun now mid'' hget => ?_).le (by omega)
  cases hget
  by_cases hknown : n.id = k.id ∨ (n.id, k.id) ∈ mid'.opened
  · rw [if_pos hknown]
    exact (costs_pure ()).le (by omega)
  rw [if_neg hknown]
  have meet : Meeting mid'.view a b n k :=
    ⟨left, right, fun he => hknown (Or.inl he), fun he => hknown (Or.inr he)⟩
  cases hn : n.isLeaf with
  | true =>
      cases hk : k.isLeaf with
      | true =>
          simp only
          split
          · exact (costs_throw _).le (by omega)
          · exact (costs_pure ()).le (by omega)
      | false => exact (costs_forwardInto n k.id _).le (by omega)
  | false =>
      cases hk : k.isLeaf with
      | true => exact (costs_forwardInto k n.id _).le (by omega)
      | false => exact costs_unifyComplex hrec hcost ready sized meet hn hk

theorem costs_unifyWithin (count width depth : Nat) :
    Frugal count width depth
      (unifyWithin depth : NodeId → NodeId → RunM (Monitored σ) Unit) := by
  induction depth with
  | zero =>
      intro run a b ready _
      exact absurd ready not_ready_zero
  | succ depth ih => exact costs_unifyStep (course_of_unifyWithin depth) ih

/-- A unification asks for what one call asks for, and for what its pairs have paid. -/
theorem asked_unify_le (m : Monitored σ) (a b : NodeId) :
    asked (Run.unify m a b).2.store ≤ asked m + ownCost (nodeCount m)
      + pairCost (nodeCount m) (contents m).arcCount * (Run.unify m a b).2.opened.length := by
  have hcount : nodeCount m = (contents m).nodes.length := nodeCount_eq m
  have start : Costs (spent (pairCost (nodeCount m) (contents m).arcCount)) (ownCost (nodeCount m))
      (unifyWithin (nodeCount m * nodeCount m + 1) a b) ({ store := m } : Run (Monitored σ)) := by
    rw [hcount]
    exact costs_unifyWithin _ _ _ (ready_start (contents m)) (contents m).sized
  have hle : asked (Run.unify m a b).2.store
      - pairCost (nodeCount m) (contents m).arcCount * (Run.unify m a b).2.opened.length
        ≤ asked m - pairCost (nodeCount m) (contents m).arcCount * 0 + ownCost (nodeCount m) :=
    start
  omega

end Run

end Ideas
