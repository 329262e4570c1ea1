/-
A unification fails only where the data give grounds for it.

An id may not be stored, the forward references from an id may lead back to it, and two leaves
that have to be one may have different names (`Memory.Grounds`).  Nothing else stops a
unification of nodes in a memory, or the making of a merged view under an unused id: no request
is refused, and no bound on a recursion is met (`unification_unhindered`).

The walk knows which ids it has met, each of which leads to where it is (`Visited`).  An id that
it meets again is therefore on a cycle.  In the course of a unification it is a later memory that
is walked, but no later memory gives grounds that the first one does not (`Grounds.of_later`): no
id goes missing, and a node that was forwarded on the way leads to a node that points nowhere,
which no id on a cycle does.
-/
import Mathlib.Logic.Relation
import Ideas.Proofs.Unification.Demand
import Ideas.Proofs.Unification.Guarded

namespace Ideas

open NodeStore

namespace Memory

/-- A node points at another one. -/
def Points (m : Memory) (x y : NodeId) : Prop :=
  m.forward? x = some y

/-- The forward references from an id lead back to it. -/
def OnCycle (m : Memory) (x : NodeId) : Prop :=
  Relation.TransGen m.Points x x

/-- The data give grounds for an error: an id is not stored, or lies on a cycle of forward
references, or two leaves have different names. -/
inductive Grounds (m : Memory) : EngineError → Prop
  | missing {x : NodeId} (h : m.node? x = none) : Grounds m (.nodeNotFound x)
  | cycle {x : NodeId} (h : m.OnCycle x) : Grounds m (.cycleDetected x)
  | clash {n k : Node} (left : m.node? n.id = some n) (right : m.node? k.id = some k)
      (hn : n.isLeaf = true) (hk : k.isLeaf = true) (hname : n.name ≠ k.name) :
      Grounds m (.incompatibleLeaves n.displayName k.displayName)

variable {m now : Memory} {a b id x y fresh : NodeId} {n last : Node} {path : List Node}
  {seen : List NodeId} {e : EngineError}

theorem points_iff : m.Points x y ↔ ∃ n, m.node? x = some n ∧ n.forward = some y :=
  Option.bind_eq_some_iff

/-! ### Cycles -/

theorem Canonical.of_points (hn : m.Canonical y n) (h : m.Points x y) : m.Canonical x n := by
  obtain ⟨path, hpath⟩ := hn
  obtain ⟨k, found, hk⟩ := points_iff.mp h
  exact ⟨k :: path, .go found hk hpath⟩

theorem Canonical.of_transGen (hn : m.Canonical y n) (h : Relation.TransGen m.Points x y) :
    m.Canonical x n := by
  induction h with
  | single hxy => exact hn.of_points hxy
  | tail _ hyz ih => exact ih (hn.of_points hyz)

/-- A step on a path leaves less of it. -/
theorem Path.rest (h : m.Path x path last) (hxy : m.Points x y) :
    ∃ rest, m.Path y rest last ∧ rest.length < path.length := by
  obtain ⟨k, found, hk⟩ := points_iff.mp hxy
  cases h with
  | stop found' hn =>
      rw [Option.some.inj (found'.symm.trans found), hk] at hn
      cases hn
  | go found' hn rest =>
      obtain rfl := Option.some.inj (found'.symm.trans found)
      obtain rfl := Option.some.inj (hn.symm.trans hk)
      exact ⟨_, rest, Nat.lt_succ_self _⟩

theorem Path.rest_of_transGen (h : m.Path x path last) (hxy : Relation.TransGen m.Points x y) :
    ∃ rest, m.Path y rest last ∧ rest.length < path.length := by
  induction hxy with
  | single hxy => exact h.rest hxy
  | tail _ hyz ih =>
      obtain ⟨rest, hrest, hlt⟩ := ih
      obtain ⟨rest', hrest', hlt'⟩ := hrest.rest hyz
      exact ⟨rest', hrest', Nat.lt_trans hlt' hlt⟩

/-- An id on a cycle leads to no node that points nowhere. -/
theorem OnCycle.not_canonical (h : m.OnCycle x) : ¬ m.Canonical x n := by
  rintro ⟨path, hpath⟩
  obtain ⟨rest, hrest, hlt⟩ := hpath.rest_of_transGen h
  rw [(hpath.unique hrest).1] at hlt
  exact absurd hlt (Nat.lt_irrefl _)

/-- An id that leads nowhere has pointed where it points all along. -/
theorem Points.of_later (h : now.Points x y) (evolves : m.Evolves now) (grows : m.Extends now)
    (hx : ∀ n, ¬ now.Canonical x n) : m.Points x y := by
  obtain ⟨n', found', hn'⟩ := points_iff.mp h
  obtain ⟨n, found, hevolves⟩ := evolves.found_before found'
  cases hn : n.forward with
  | none =>
      obtain ⟨k, hk, -⟩ := grows.canonical ⟨[], .stop found hn⟩
      exact absurd hk (hx k)
  | some next =>
      obtain rfl := hevolves.eq_of_forward hn
      exact points_iff.mpr ⟨n', found, hn'⟩

theorem OnCycle.of_later (h : now.OnCycle x) (evolves : m.Evolves now) (grows : m.Extends now) :
    m.OnCycle x := by
  suffices ∀ y, Relation.TransGen now.Points x y → Relation.TransGen m.Points x y from this x h
  intro y hxy
  induction hxy with
  | single hxy => exact .single (hxy.of_later evolves grows fun _ => h.not_canonical)
  | tail hxy hyz ih =>
      exact ih.tail (hyz.of_later evolves grows fun _ hn => h.not_canonical (hn.of_transGen hxy))

/-- What a node is called does not change, nor whether it is a leaf. -/
theorem Evolves.named_before (h : m.Evolves now) (found : now.node? n.id = some n) :
    ∃ n₀, m.node? n₀.id = some n₀ ∧ n₀.isLeaf = n.isLeaf ∧ n₀.name = n.name ∧
      n₀.displayName = n.displayName := by
  obtain ⟨n₀, found₀, hevolves⟩ := h.found_before found
  have hid : n₀.id = n.id := id_of_node? found₀
  refine ⟨n₀, hid.symm ▸ found₀, ?_⟩
  rcases hevolves with rfl | ⟨-, _, _, _, -, rfl⟩ <;> exact ⟨rfl, rfl, rfl⟩

/-- No later memory gives grounds that the first one does not. -/
theorem Grounds.of_later (h : now.Grounds e) (evolves : m.Evolves now) (grows : m.Extends now) :
    m.Grounds e := by
  cases h with
  | missing hx => exact .missing (evolves.node?_eq_none_iff.mp hx)
  | cycle hx => exact .cycle (hx.of_later evolves grows)
  | clash left right hn hk hname =>
      obtain ⟨n₀, left₀, hn₀, hname₀, hshown⟩ := evolves.named_before left
      obtain ⟨k₀, right₀, hk₀, hname₀', hshown'⟩ := evolves.named_before right
      rw [← hshown, ← hshown']
      rw [← hname₀, ← hname₀'] at hname
      exact .clash left₀ right₀ (hn₀.trans hn) (hk₀.trans hk) hname

/-! ### Walks -/

/-- The ids that a walk has met before it comes to `id`. -/
structure Visited (m : Memory) (seen : List NodeId) (id : NodeId) : Prop where
  nodup : seen.Nodup
  stored : seen ⊆ m.nodes.map Node.id
  leads : ∀ x ∈ seen, Relation.TransGen m.Points x id

theorem visited_nil (m : Memory) (id : NodeId) : m.Visited [] id :=
  ⟨List.nodup_nil, List.nil_subset _, fun _ hx => (List.not_mem_nil hx).elim⟩

theorem Visited.length_le (h : m.Visited seen id) : seen.length ≤ m.nodes.length := by
  have hle := h.nodup.length_le_of_subset h.stored
  rwa [List.length_map] at hle

theorem Visited.go (h : m.Visited seen x) (hx : x ∉ seen) (hxy : m.Points x y) :
    m.Visited (x :: seen) y := by
  obtain ⟨n, found, -⟩ := points_iff.mp hxy
  refine ⟨List.nodup_cons.mpr ⟨hx, h.nodup⟩,
    List.cons_subset.mpr ⟨mem_ids_of_node? found, h.stored⟩, fun z hz => ?_⟩
  rcases List.mem_cons.mp hz with rfl | hz
  · exact .single hxy
  · exact (h.leads z hz).tail hxy

/-- A walk that is not cut off fails at an id that is missing, or on a cycle. -/
theorem Visited.grounds : ∀ (steps : Nat) {seen : List NodeId} {id : NodeId}, m.Visited seen id →
    m.nodes.length < steps + seen.length → (followForward steps seen id m).1 = .error e →
      m.Grounds e := by
  intro steps
  induction steps with
  | zero =>
      intro seen id visited hroom _
      have hle := visited.length_le
      omega
  | succ steps ih =>
      intro seen id visited hroom h
      rcases followForward_cases m steps seen id with
        ⟨hseen, hwalk⟩ | ⟨missing, hwalk⟩ | ⟨n, -, -, hwalk⟩ | ⟨n, next, hseen, found, hn, hwalk⟩
      · cases hwalk.symm.trans h
        exact .cycle (visited.leads id hseen)
      · cases hwalk.symm.trans h
        exact .missing missing
      · cases hwalk.symm.trans h
      · rw [hwalk] at h
        cases hrest : (followForward steps (id :: seen) next m).1 with
        | ok rest =>
            rw [hrest] at h
            cases h
        | error e' =>
            rw [hrest] at h
            cases h
            refine ih (visited.go hseen (points_iff.mpr ⟨n, found, hn⟩)) ?_ hrest
            rw [List.length_cons]
            omega

theorem grounds_of_forwardChain (h : (forwardChain id m).1 = .error e) : m.Grounds e :=
  (visited_nil m id).grounds (m.nodes.length + 1) (Nat.lt_succ_self _) h

theorem grounds_of_dereference (h : (dereference id m).1 = .error e) : m.Grounds e := by
  rw [dereference] at h
  rcases hchain : forwardChain id m with ⟨e' | chain, m'⟩
  · rw [bind_eq_of_error hchain] at h
    cases h
    exact grounds_of_forwardChain (congrArg Prod.fst hchain)
  · -- A chain has a last node.
    obtain ⟨path, last, rfl, -⟩ := forwardChain_eq_ok_iff.mp (congrArg Prod.fst hchain)
    rw [bind_eq_of_ok hchain, List.getLast?_concat] at h
    cases h

theorem grounds_of_existingCopy (h : (existingCopy id m).1 = .error e) : m.Grounds e := by
  rw [existingCopy] at h
  cases found : m.node? id with
  | none =>
      rw [bind_eq_of_error (require_of_missing found)] at h
      cases h
      exact .missing found
  | some n =>
      rw [bind_eq_of_ok (require_of_found found)] at h
      cases hcopy : n.copy with
      | none =>
          simp only [hcopy] at h
          cases h
      | some copy =>
          simp only [hcopy] at h
          cases h

/-- A merged view under an unused id is written if there is a chain to make it of. -/
theorem grounds_of_materialize (unused : m.node? fresh = none)
    (h : (materialize fresh id m).1 = .error e) : m.Grounds e := by
  rcases hchain : forwardChain id m with ⟨e' | chain, m'⟩
  · rw [materialize, bind_eq_of_error hchain] at h
    cases h
    exact grounds_of_forwardChain (congrArg Prod.fst hchain)
  · obtain ⟨view, hview, -⟩ := materialize_eq_ok (congrArg Prod.fst hchain) unused
    cases h.symm.trans hview

/-! ### Unifications -/

theorem Obstacle.grounds {R : NodeId → NodeId → Prop} (h : m.Obstacle R m e) : m.Grounds e := by
  cases h with
  | unread _ evolves grows he => exact (grounds_of_dereference he).of_later evolves grows
  | names _ left right hn hk hname => exact .clash left.found right.found hn hk hname

theorem propagates_true (m : Memory) : m.Propagates fun _ _ => True where
  symm _ := trivial
  trans _ _ := trivial
  points _ _ := trivial
  shares _ _ _ _ _ _ _ _ _ _ := trivial

theorem grounds_of_unifyCore (h : (unifyCore a b m).1 = .error e) : m.Grounds e := by
  rcases hrun : Run.unify m a b with ⟨outcome, run⟩
  rw [unifyCore_eq hrun] at h
  cases outcome with
  | ok _ => cases h
  | error e' =>
      cases h
      obtain ⟨-, hstops⟩ :=
        (Run.course_of_unify hrun).along (propagates_true m) trivial (along_refl m _)
      exact (hstops e rfl).elim False.elim Obstacle.grounds

theorem grounds_of_unify (unused : m.node? fresh = none)
    (h : (unify fresh a b m).1 = .error e) : m.Grounds e := by
  rcases hcall : unify fresh a b m with ⟨r, m'⟩
  obtain rfl : r = .error e := (congrArg Prod.fst hcall).symm.trans h
  rw [unify] at hcall
  rcases bind_cases hcall with ⟨_, hcore, ⟨⟩⟩ | ⟨fs, mid, hcore, hcall⟩
  · exact grounds_of_unifyCore (congrArg Prod.fst hcore)
  obtain ⟨run, course, -, hstore⟩ := course_of_unifyCore hcore
  obtain rfl : run.store = mid := hstore
  have evolves : m.Evolves run.store := course.steps_of_ok.evolves
  have grows : m.Extends run.store := course.steps_of_ok.extends
  have unused' : run.store.node? fresh = none := evolves.node?_eq_none_iff.mpr unused
  refine Grounds.of_later ?_ evolves grows
  rcases bind_cases hcall with ⟨_, hread, ⟨⟩⟩ | ⟨canonical, mid', hread, hcall⟩
  · exact grounds_of_dereference (congrArg Prod.fst hread)
  obtain rfl : mid' = run.store := ((reads_dereference (σ := Memory) a).cases hread).1
  cases hempty : fs.isEmpty with
  | true =>
      simp only [hempty, if_true] at hcall
      rcases bind_cases hcall with ⟨_, hcopy, ⟨⟩⟩ | ⟨_, _, -, hcall⟩
      · exact grounds_of_existingCopy (congrArg Prod.fst hcopy)
      · cases hcall
  | false =>
      simp only [hempty, Bool.false_eq_true, if_false] at hcall
      rcases bind_cases hcall with ⟨_, hmade, ⟨⟩⟩ | ⟨_, _, -, hcall⟩
      · exact grounds_of_materialize unused' (congrArg Prod.fst hmade)
      · cases hcall

end Memory

/-! ### Forwarding that is checked -/

/-- Forward a node, unless it was read as one that points somewhere, or points somewhere by now, or
is its own target. -/
def Run.forwardChecked (broken : EngineError) (n : Node) (target : NodeId) (arcs : List Arc) :
    RunM Memory Unit := do
  let run ← getThe (Run Memory)
  if n.forward.isSome || (run.store.forward? n.id).isSome || n.id = target then throw broken
  forwardInto n target arcs

theorem Run.suffices_forwardChecked (broken : EngineError) : Suffices (forwardChecked broken) := by
  intro run n k arcs may
  have hget : (getThe (Run Memory) : RunM Memory (Run Memory)) run = (.ok run, run) := rfl
  have hstored : run.store.forward? n.id = none := by
    rw [Memory.forward?, show run.store.node? n.id = some n from may.found]
    exact may.forward_eq_none
  rw [forwardChecked, bind_eq_of_ok hget]
  simp only [may.forward_eq_none, hstored, Option.isSome_none, Bool.or_self, may.ne, decide_false]
  rfl

/-- In a memory that nothing else writes to, the unification of two ids, and the making of a merged
view under an unused id, fail only where the data give grounds for it.  Each node that a
unification forwards was read as one that points nowhere, points nowhere still, and is not its
own target: to check this first, and to fail with any error `broken` if it does not hold, makes no
difference. -/
theorem unification_unhindered (m : Memory) (a b : NodeId) :
    (∀ e, (unifyCore a b m).1 = .error e → m.Grounds e) ∧
    (∀ fresh, m.node? fresh = none →
      (∀ e, (unify fresh a b m).1 = .error e → m.Grounds e) ∧
      ∀ e, (materialize fresh a m).1 = .error e → m.Grounds e) ∧
    ∀ broken, Run.unifyBy (Run.forwardChecked broken) m a b = Run.unify m a b :=
  ⟨fun _ => Memory.grounds_of_unifyCore,
    fun _ unused => ⟨fun _ => Memory.grounds_of_unify unused,
      fun _ => Memory.grounds_of_materialize unused⟩,
    fun broken => Run.unifyBy_eq (Run.suffices_forwardChecked broken) m a b⟩

/-- Two nodes that refer to each other, two that point at each other, and one that points at nothing
that is stored. -/
def tangled : Memory where
  nodes := [.complex ⟨1⟩ "ann" [⟨"next", .node ⟨2⟩⟩], .complex ⟨2⟩ "ann" [⟨"next", .node ⟨1⟩⟩],
    { Node.leaf ⟨3⟩ "ann" "tea" with forward := some ⟨4⟩ },
    { Node.leaf ⟨4⟩ "ann" "tea" with forward := some ⟨3⟩ },
    { Node.leaf ⟨5⟩ "ann" "mate" with forward := some ⟨6⟩ }]

/-- The walk that comes back does so on a cycle, the one that ends nowhere does so at an id that is
not stored, and of the two that refer to each other one is forwarded where that is checked. -/
theorem unification_unhindered_tangled :
    tangled.node? ⟨9⟩ = none ∧
    (unify ⟨9⟩ ⟨1⟩ ⟨3⟩ tangled).1 = .error (.cycleDetected ⟨3⟩) ∧ tangled.OnCycle ⟨3⟩ ∧
    (materialize ⟨9⟩ ⟨5⟩ tangled).1 = .error (.nodeNotFound ⟨6⟩) ∧ tangled.node? ⟨6⟩ = none ∧
    (Run.unifyBy (Run.forwardChecked (.cycleDetected ⟨1⟩)) tangled ⟨1⟩ ⟨2⟩).2.forwarded
      = [⟨⟨2⟩, ⟨1⟩, 11, 0⟩] := by
  have hcycle : (unify ⟨9⟩ ⟨1⟩ ⟨3⟩ tangled).1 = .error (.cycleDetected ⟨3⟩) := by rfl
  have hmissing : (materialize ⟨9⟩ ⟨5⟩ tangled).1 = .error (.nodeNotFound ⟨6⟩) := by rfl
  refine ⟨rfl, hcycle, ?_, hmissing, ?_, ?_⟩
  · obtain ⟨-, hunused, -⟩ := unification_unhindered tangled ⟨1⟩ ⟨3⟩
    cases (hunused ⟨9⟩ rfl).1 _ hcycle with
    | cycle h => exact h
  · obtain ⟨-, hunused, -⟩ := unification_unhindered tangled ⟨5⟩ ⟨5⟩
    cases (hunused ⟨9⟩ rfl).2 _ hmissing with
    | missing h => exact h
  · rw [(unification_unhindered tangled ⟨1⟩ ⟨2⟩).2.2]
    decide +kernel

end Ideas
