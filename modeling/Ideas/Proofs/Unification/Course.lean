/-
The course of a unification.

`Course` tells what a unification does as a relation between the run before and the run
after it, on the data alone.  Its rules are the branches of the algorithm: where two
nodes have got to, which of them is forwarded at once, what happens inside a pair that
is opened, and at which requests it may break off.  It knows no bound on the depth, so
that an induction on it follows the algorithm and nothing else.

Seen from outside a course is a sequence of single steps: a pair is opened, or a node is
forwarded where it may be.  Only a course that fails can leave something more behind,
namely a stamp without its forward reference (`Course.steps`).  Whatever one step
preserves is therefore preserved by every course.
-/
import Mathlib.Logic.Relation
import Ideas.Proofs.Unification.Forwarding

namespace Ideas

namespace Run

/-- The run once a pair was opened. -/
def enter (run : Run Memory) (n k : Node) : Run Memory :=
  { run with opened := (n.id, k.id) :: run.opened }

/-- The run once a node was forwarded. -/
def forward (run : Run Memory) (n target : Node) (arcs : List Arc) : Run Memory :=
  { run with
    store := run.store.forwardNode n target.id arcs
    forwarded := run.forwarded ++
      [⟨n.id, target.id, run.store.generation n.owner + 1, arcs.length⟩] }

/-- The run once a stamp was issued that no forward reference came to carry. -/
def waste (run : Run Memory) (owner : String) : Run Memory :=
  { run with store := run.store.stamp owner }

/-- What is to be unified. -/
inductive Task where
  /-- Two nodes. -/
  | nodes (a b : NodeId)
  /-- What the arcs of two nodes refer to under a common label. -/
  | arcs (ours theirs : List Arc)

/-- Two ids have led to two nodes that differ and were not looked into. -/
structure Meeting (run : Run Memory) (a b : NodeId) (n k : Node) : Prop where
  left : run.store.Canonical a n
  right : run.store.Canonical b k
  ne : n.id ≠ k.id
  new : (n.id, k.id) ∉ run.opened

/-- The two nodes have arcs under common labels. -/
structure Opening (run : Run Memory) (a b : NodeId) (n k : Node) : Prop
    extends Meeting run a b n k where
  left_complex : n.isLeaf = false
  right_complex : k.isLeaf = false
  shares : (Arcs.intersect n.arcs k.arcs).isEmpty = false

/-- Of the nodes `n` and `k` the node `x` is forwarded into `y` at once, with some arcs. -/
inductive AtOnce : (n k x y : Node) → List Arc → Prop
  | leafInto {n k : Node} (hn : n.isLeaf = true) (hk : k.isLeaf = false) : AtOnce n k n k []
  | takesLeaf {n k : Node} (hn : n.isLeaf = false) (hk : k.isLeaf = true) : AtOnce n k k n []
  | disjoint {n k : Node} (hn : n.isLeaf = false) (hk : k.isLeaf = false)
      (apart : (Arcs.intersect n.arcs k.arcs).isEmpty = true) :
      AtOnce n k n k (Arcs.complement k.arcs n.arcs)

/-- How it ends to forward a node: without a stamp, with a stamp that is wasted, or well. -/
inductive Forwards (fails : EngineError → Prop) (n target : Node) (arcs : List Arc)
    (run : Run Memory) : Except EngineError Unit → Run Memory → Prop
  | unstamped {e : EngineError} (he : fails e) : Forwards fails n target arcs run (.error e) run
  | unwritten {e : EngineError} (he : fails e) :
      Forwards fails n target arcs run (.error e) (run.waste n.owner)
  | done : Forwards fails n target arcs run (.ok ()) (run.forward n target arcs)

/-- How a task is done, on a store whose requests may fail with the errors `fails`. -/
inductive Course (fails : EngineError → Prop) :
    Task → Run Memory → Except EngineError Unit → Run Memory → Prop
  /-- One of the two ids leads nowhere. -/
  | unread {a b id : NodeId} {run : Run Memory} {e : EngineError} (hid : id = a ∨ id = b)
      (he : fails e ∨ (dereference id run.store).1 = .error e) :
      Course fails (.nodes a b) run (.error e) run
  /-- Both lead to one node, or to a pair that was opened before. -/
  | known {a b : NodeId} {n k : Node} {run : Run Memory} (left : run.store.Canonical a n)
      (right : run.store.Canonical b k) (h : n.id = k.id ∨ (n.id, k.id) ∈ run.opened) :
      Course fails (.nodes a b) run (.ok ()) run
  | agree {a b : NodeId} {n k : Node} {run : Run Memory} (meet : Meeting run a b n k)
      (hn : n.isLeaf = true) (hk : k.isLeaf = true) (hname : n.name = k.name) :
      Course fails (.nodes a b) run (.ok ()) run
  | clash {a b : NodeId} {n k : Node} {run : Run Memory} (meet : Meeting run a b n k)
      (hn : n.isLeaf = true) (hk : k.isLeaf = true) (hname : n.name ≠ k.name) :
      Course fails (.nodes a b) run (.error (.incompatibleLeaves n.displayName k.displayName)) run
  | atOnce {a b : NodeId} {n k x y : Node} {arcs : List Arc} {run run' : Run Memory}
      {r : Except EngineError Unit} (meet : Meeting run a b n k) (which : AtOnce n k x y arcs)
      (h : Forwards fails x y arcs run r run') : Course fails (.nodes a b) run r run'
  /-- What the two nodes refer to does not unify. -/
  | failsInside {a b : NodeId} {n k : Node} {run run' : Run Memory} {e : EngineError}
      (op : Opening run a b n k)
      (inside : Course fails (.arcs n.arcs (Arcs.intersect n.arcs k.arcs)) (run.enter n k)
        (.error e) run') :
      Course fails (.nodes a b) run (.error e) run'
  /-- The two nodes cannot be read again. -/
  | unreadAgain {a b : NodeId} {n k : Node} {run run' : Run Memory} {e : EngineError}
      (op : Opening run a b n k)
      (inside : Course fails (.arcs n.arcs (Arcs.intersect n.arcs k.arcs)) (run.enter n k)
        (.ok ()) run')
      (he : fails e) : Course fails (.nodes a b) run (.error e) run'
  /-- One of the two nodes was merged in the meantime. -/
  | restarts {a b : NodeId} {n k n' k' : Node} {run mid run' : Run Memory}
      {r : Except EngineError Unit} (op : Opening run a b n k)
      (inside : Course fails (.arcs n.arcs (Arcs.intersect n.arcs k.arcs)) (run.enter n k)
        (.ok ()) mid)
      (left : mid.store.node? n.id = some n') (right : mid.store.node? k.id = some k')
      (merged : n'.isSuperseded = true ∨ k'.isSuperseded = true)
      (again : Course fails (.nodes n.id k.id) mid r run') : Course fails (.nodes a b) run r run'
  | joins {a b : NodeId} {n k n' k' : Node} {run mid run' : Run Memory}
      {r : Except EngineError Unit} (op : Opening run a b n k)
      (inside : Course fails (.arcs n.arcs (Arcs.intersect n.arcs k.arcs)) (run.enter n k)
        (.ok ()) mid)
      (left : mid.store.node? n.id = some n') (right : mid.store.node? k.id = some k')
      (hn : n'.forward = none) (hk : k'.forward = none)
      (h : Forwards fails n' k' (Arcs.complement k'.arcs n'.arcs) mid r run') :
      Course fails (.nodes a b) run r run'
  | nil {ours : List Arc} {run : Run Memory} : Course fails (.arcs ours []) run (.ok ()) run
  /-- Values that are not both references are let be. -/
  | skip {ours rest : List Arc} {theirs : Arc} {run run' : Run Memory}
      {r : Except EngineError Unit}
      (h : (Arcs.find? theirs.label ours).bind (·.value.node?) = none ∨ theirs.value.node? = none)
      (tail : Course fails (.arcs ours rest) run r run') :
      Course fails (.arcs ours (theirs :: rest)) run r run'
  | arcFails {ours rest : List Arc} {theirs : Arc} {x y : NodeId} {run run' : Run Memory}
      {e : EngineError} (hx : (Arcs.find? theirs.label ours).bind (·.value.node?) = some x)
      (hy : theirs.value.node? = some y) (head : Course fails (.nodes x y) run (.error e) run') :
      Course fails (.arcs ours (theirs :: rest)) run (.error e) run'
  | arc {ours rest : List Arc} {theirs : Arc} {x y : NodeId} {run mid run' : Run Memory}
      {r : Except EngineError Unit}
      (hx : (Arcs.find? theirs.label ours).bind (·.value.node?) = some x)
      (hy : theirs.value.node? = some y) (head : Course fails (.nodes x y) run (.ok ()) mid)
      (tail : Course fails (.arcs ours rest) mid r run') :
      Course fails (.arcs ours (theirs :: rest)) run r run'

/-! ### Single steps -/

/-- A single step of a unification. -/
inductive Step : Run Memory → Run Memory → Prop
  | enter {run : Run Memory} {n k : Node} (left : run.store.node? n.id = some n)
      (right : run.store.node? k.id = some k) (new : (n.id, k.id) ∉ run.opened) :
      Step run (run.enter n k)
  | forward {run : Run Memory} {n k : Node} {arcs : List Arc} (may : run.store.MayForward n k)
      (hnew : ∀ arc ∈ arcs, arc.label ∉ Arcs.labels n.arcs) : Step run (run.forward n k arcs)

/-- Any number of steps. -/
abbrev Steps : Run Memory → Run Memory → Prop :=
  Relation.ReflTransGen Step

theorem Step.evolves {run run' : Run Memory} (h : Step run run') :
    run.store.Evolves run'.store := by
  cases h with
  | enter => exact Memory.Evolves.refl _
  | forward may hnew =>
      exact Memory.evolves_forwardNode may.found may.forward_eq_none _ hnew

theorem Step.extends {run run' : Run Memory} (h : Step run run') :
    run.store.Extends run'.store := by
  cases h with
  | enter => exact Memory.Extends.refl _
  | forward may _ => exact may.extends _

theorem Step.ids_eq {run run' : Run Memory} (h : Step run run') :
    run'.store.nodes.map Node.id = run.store.nodes.map Node.id := by
  cases h with
  | enter => rfl
  | forward => exact Memory.ids_forwardNode _ _ _ _

theorem Step.opened_suffix {run run' : Run Memory} (h : Step run run') :
    run.opened <:+ run'.opened := by
  cases h with
  | enter => exact List.suffix_cons _ _
  | forward => exact List.suffix_refl _

variable {run run' : Run Memory}

theorem Steps.evolves (h : Steps run run') : run.store.Evolves run'.store := by
  induction h with
  | refl => exact Memory.Evolves.refl _
  | tail _ hstep ih => exact ih.trans hstep.evolves

theorem Steps.extends (h : Steps run run') : run.store.Extends run'.store := by
  induction h with
  | refl => exact Memory.Extends.refl _
  | tail _ hstep ih => exact ih.trans hstep.extends

theorem Steps.ids_eq (h : Steps run run') :
    run'.store.nodes.map Node.id = run.store.nodes.map Node.id := by
  induction h with
  | refl => rfl
  | tail _ hstep ih => exact hstep.ids_eq.trans ih

theorem Steps.opened_suffix (h : Steps run run') : run.opened <:+ run'.opened := by
  induction h with
  | refl => exact List.suffix_refl _
  | tail _ hstep ih => exact ih.trans hstep.opened_suffix

/-! ### A course is made of steps -/

/-- A course ends where its steps have led; only one that fails may leave a stamp behind. -/
def Ends (r : Except EngineError Unit) (mid run' : Run Memory) : Prop :=
  run' = mid ∨ ∃ e owner, r = .error e ∧ run' = mid.waste owner

theorem Ends.eq_of_ok {mid : Run Memory} (h : Ends (.ok ()) mid run') : run' = mid := by
  rcases h with rfl | ⟨e, owner, hr, -⟩
  · rfl
  · cases hr

/-- The node that is forwarded at once may be. -/
theorem AtOnce.mayForward {n k x y : Node} {arcs : List Arc} (h : AtOnce n k x y arcs)
    {a b : NodeId} (meet : Meeting run a b n k) : run.store.MayForward x y := by
  obtain ⟨left, right, ne, -⟩ := meet
  cases h with
  | leafInto _ hk | disjoint _ hk _ =>
      exact ⟨left.found, left.forward_eq_none, right.found, right.forward_eq_none,
        Node.isLeaf_eq_false_iff.mp hk, ne⟩
  | takesLeaf hn _ =>
      exact ⟨right.found, right.forward_eq_none, left.found, left.forward_eq_none,
        Node.isLeaf_eq_false_iff.mp hn, Ne.symm ne⟩

/-- No arc has a label of its own complement. -/
theorem label_notMem_of_mem_complement {ours theirs : List Arc} :
    ∀ arc ∈ Arcs.complement ours theirs, arc.label ∉ Arcs.labels theirs := by
  intro arc harc
  exact of_decide_eq_true (List.mem_filter.mp harc).2

theorem AtOnce.label_notMem {n k x y : Node} {arcs : List Arc} (h : AtOnce n k x y arcs) :
    ∀ arc ∈ arcs, arc.label ∉ Arcs.labels x.arcs := by
  cases h with
  | leafInto | takesLeaf => intro arc harc; cases harc
  | disjoint => exact label_notMem_of_mem_complement

theorem Forwards.steps {fails : EngineError → Prop} {n target : Node} {arcs : List Arc}
    {r : Except EngineError Unit} (h : Forwards fails n target arcs run r run')
    (may : run.store.MayForward n target)
    (hnew : ∀ arc ∈ arcs, arc.label ∉ Arcs.labels n.arcs) :
    ∃ mid, Steps run mid ∧ Ends r mid run' := by
  cases h with
  | unstamped => exact ⟨run, .refl, Or.inl rfl⟩
  | unwritten he => exact ⟨run, .refl, Or.inr ⟨_, _, rfl, rfl⟩⟩
  | done => exact ⟨_, .single (.forward may hnew), Or.inl rfl⟩

/-- The nodes that were opened may be joined when they are read again and point nowhere. -/
theorem Opening.mayForward {a b : NodeId} {n k n' k' : Node} {mid : Run Memory}
    (op : Opening run a b n k) (steps : Steps (run.enter n k) mid)
    (left : mid.store.node? n.id = some n') (right : mid.store.node? k.id = some k')
    (hn : n'.forward = none) (hk : k'.forward = none) : mid.store.MayForward n' k' := by
  have hnid : n'.id = n.id := Memory.id_of_node? left
  have hkid : k'.id = k.id := Memory.id_of_node? right
  obtain ⟨x, hx, hevolves⟩ := steps.evolves.found op.right.found
  obtain rfl := Option.some.inj (hx.symm.trans right)
  refine ⟨hnid ▸ left, hn, hkid ▸ right, hk, ?_, ?_⟩
  · rw [hevolves.kind_eq]
    exact Node.isLeaf_eq_false_iff.mp op.right_complex
  · rw [hnid, hkid]
    exact op.ne

theorem Opening.step {a b : NodeId} {n k : Node} (op : Opening run a b n k) :
    Step run (run.enter n k) :=
  .enter op.left.found op.right.found op.new

/-- A course is a sequence of steps, and at most a wasted stamp if it fails. -/
theorem Course.steps {fails : EngineError → Prop} {t : Task} {r : Except EngineError Unit}
    (h : Course fails t run r run') : ∃ mid, Steps run mid ∧ Ends r mid run' := by
  induction h with
  | unread | known | agree | clash | nil => exact ⟨_, .refl, Or.inl rfl⟩
  | atOnce meet which h => exact h.steps (which.mayForward meet) which.label_notMem
  | failsInside op _ ih =>
      obtain ⟨mid, steps, ends⟩ := ih
      exact ⟨mid, .head op.step steps, ends⟩
  | unreadAgain op _ he ih =>
      obtain ⟨mid, steps, ends⟩ := ih
      exact ⟨mid, .head op.step steps, Or.inl ends.eq_of_ok⟩
  | restarts op _ _ _ _ _ ih ihAgain =>
      obtain ⟨mid, steps, ends⟩ := ih
      obtain rfl := ends.eq_of_ok
      obtain ⟨last, steps', ends'⟩ := ihAgain
      exact ⟨last, .head op.step (steps.trans steps'), ends'⟩
  | joins op _ left right hn hk h ih =>
      obtain ⟨mid, steps, ends⟩ := ih
      obtain rfl := ends.eq_of_ok
      obtain ⟨last, steps', ends'⟩ :=
        h.steps (op.mayForward steps left right hn hk) label_notMem_of_mem_complement
      exact ⟨last, .head op.step (steps.trans steps'), ends'⟩
  | skip _ _ ih => exact ih
  | arcFails _ _ _ ih => exact ih
  | arc _ _ _ _ ih ihTail =>
      obtain ⟨mid, steps, ends⟩ := ih
      obtain rfl := ends.eq_of_ok
      obtain ⟨last, steps', ends'⟩ := ihTail
      exact ⟨last, steps.trans steps', ends'⟩

/-- A course that succeeds is a sequence of steps. -/
theorem Course.steps_of_ok {fails : EngineError → Prop} {t : Task}
    (h : Course fails t run (.ok ()) run') : Steps run run' := by
  obtain ⟨mid, steps, ends⟩ := h.steps
  rw [ends.eq_of_ok]
  exact steps

end Run

end Ideas
