/-
A unification stays inside any relation that the data close.

What has to be brought together is given by the memory as it was at first: where a node points,
and what two complex nodes refer to under a common label.  A relation `Propagates` if it follows
the data in this way.  The unification itself reads nodes that it has forwarded, and ids that
lead elsewhere by now.

What carries over is `Along`: no node has changed but by being forwarded, and only into one that
it is related to.  Where a related id leads is then related as well (`Along.canonical`), and so is
what arcs refer to, since arcs do not change.  Every course keeps this, whether it succeeds or
fails, and what stops it is an `Obstacle` among what is related (`Run.Course.along`).
-/
import Ideas.Proofs.Unification.Call

namespace Ideas

open NodeStore

theorem ArcValue.node?_eq_some_iff {value : ArcValue} {id : NodeId} :
    value.node? = some id ↔ value = .node id := by
  cases value <;> simp [ArcValue.node?]

namespace Memory

/-- A node is stored and points nowhere. -/
structure Stands (m : Memory) (n : Node) : Prop where
  found : m.node? n.id = some n
  forward_eq_none : n.forward = none

/-- What is related brings with it what it points at and refers to. -/
structure Propagates (m : Memory) (R : NodeId → NodeId → Prop) : Prop where
  symm : ∀ {x y : NodeId}, R x y → R y x
  trans : ∀ {x y z : NodeId}, R x y → R y z → R x z
  points : ∀ {x y next : NodeId}, R x y → m.forward? y = some next → R x next
  /-- The first arc of the one node with a label that any arc of the other node has. -/
  shares : ∀ {n k : Node} {x y : NodeId} {ours theirs : Arc}, R n.id k.id → m.Stands n →
    m.Stands k → n.id ≠ k.id → n.isLeaf = false → k.isLeaf = false →
    Arcs.find? theirs.label n.arcs = some ours → theirs ∈ k.arcs → ours.value = .node x →
    theirs.value = .node y → R x y

/-- Nodes have only been forwarded, and only into such as were related. -/
structure Along (m : Memory) (R : NodeId → NodeId → Prop) (now : Memory) : Prop where
  evolves : m.Evolves now
  points : ∀ id next, now.forward? id = some next → m.forward? id = some next ∨ R id next

/-- A related id leads nowhere in a memory that came from these two, or two related leaves have
different names. -/
inductive Obstacle (m : Memory) (R : NodeId → NodeId → Prop) (start : Memory) :
    EngineError → Prop
  | unread {id : NodeId} {now : Memory} {e : EngineError} (h : R id id)
      (evolves : m.Evolves now) (grows : start.Extends now) (he : (dereference id now).1 = .error e) :
      Obstacle m R start e
  | names {n k : Node} (h : R n.id k.id) (left : m.Stands n) (right : m.Stands k)
      (hn : n.isLeaf = true) (hk : k.isLeaf = true) (hname : n.name ≠ k.name) :
      Obstacle m R start (.incompatibleLeaves n.displayName k.displayName)

variable {m now start start' : Memory} {R : NodeId → NodeId → Prop} {x y : NodeId}
  {n k : Node} {e : EngineError}

theorem Canonical.stands (h : m.Canonical x n) : m.Stands n :=
  ⟨h.found, h.forward_eq_none⟩

theorem Stands.canonical (h : m.Stands n) : m.Canonical n.id n :=
  canonical_self h.found h.forward_eq_none

theorem Stands.unique (h : m.Stands n) (h' : m.Stands k) (hid : n.id = k.id) : n = k :=
  Option.some.inj (h.found.symm.trans (hid ▸ h'.found))

theorem Propagates.refl_left (hR : m.Propagates R) (h : R x y) : R x x :=
  hR.trans h (hR.symm h)

theorem Obstacle.of_later (h : m.Obstacle R start' e) (grows : start.Extends start') :
    m.Obstacle R start e := by
  cases h with
  | unread h evolves grows' he => exact .unread h evolves (grows.trans grows') he
  | names h left right hn hk hname => exact .names h left right hn hk hname

theorem along_refl (m : Memory) (R : NodeId → NodeId → Prop) : m.Along R m :=
  ⟨Evolves.refl m, fun _ _ h => Or.inl h⟩

theorem Along.stands (h : m.Along R now) (hn : now.Canonical x n) : m.Stands n :=
  ⟨h.evolves.found_of_canonical hn, hn.forward_eq_none⟩

/-- Where a related id leads is related. -/
theorem Along.canonical (h : m.Along R now) (hR : m.Propagates R) (hn : now.Canonical x n)
    (hx : R y x) : R y n.id := by
  obtain ⟨path, hpath⟩ := hn
  induction hpath with
  | stop found _ => exact (id_of_node? found).symm ▸ hx
  | @go id next k _ _ found hk _ ih =>
      have hpoints : now.forward? id = some next := by
        rw [forward?, found]
        exact hk
      rcases h.points id next hpoints with hold | hnew
      · exact ih (hR.points hx hold)
      · exact ih (hR.trans hx hnew)

theorem Along.stamp (h : m.Along R now) (owner : String) : m.Along R (now.stamp owner) :=
  ⟨h.evolves.trans (evolves_stamp now owner), h.points⟩

theorem Along.forwardNode (h : m.Along R now) (may : now.MayForward n k) {arcs : List Arc}
    (hnew : ∀ arc ∈ arcs, arc.label ∉ Arcs.labels n.arcs) (hrel : R n.id k.id) :
    m.Along R (now.forwardNode n k.id arcs) := by
  refine ⟨h.evolves.trans (evolves_forwardNode may.found may.forward_eq_none _ hnew), ?_⟩
  intro id next hnext
  rw [forward?, node?_forwardNode may.found] at hnext
  by_cases hid : id = n.id
  · rw [if_pos hid] at hnext
    cases hnext
    exact Or.inr (hid ▸ hrel)
  · rw [if_neg hid] at hnext
    exact h.points id next hnext

end Memory

namespace Run

variable {m : Memory} {R : NodeId → NodeId → Prop} {x y : NodeId} {n k : Node}
  {fails : EngineError → Prop} {run run' : Run Memory}

/-- What is to be unified is related. -/
def Task.Related (R : NodeId → NodeId → Prop) : Task → Prop
  | .nodes x y => R x y
  | .arcs ours theirs => ∀ arc ∈ theirs, ∀ x y,
      (Arcs.find? arc.label ours).bind (·.value.node?) = some x → arc.value.node? = some y → R x y

/-- Where two related ids have met, the two nodes are related. -/
theorem Meeting.related (meet : Meeting run x y n k) (hR : m.Propagates R)
    (along : m.Along R run.store) (h : R x y) : R n.id k.id := by
  have left : R y n.id := along.canonical hR meet.left (hR.symm h)
  exact along.canonical hR meet.right (hR.symm left)

/-- So is what is unified inside them. -/
theorem Opening.related (op : Opening run x y n k) (hR : m.Propagates R)
    (along : m.Along R run.store) (h : R x y) :
    (Task.arcs n.arcs (Arcs.intersect n.arcs k.arcs)).Related R := by
  intro arc harc x' y' hx hy
  obtain ⟨ours, hours, hx⟩ := Option.bind_eq_some_iff.mp hx
  exact hR.shares (op.toMeeting.related hR along h) (along.stands op.left)
    (along.stands op.right) op.ne op.left_complex op.right_complex hours
    (List.mem_of_mem_filter harc) (ArcValue.node?_eq_some_iff.mp hx)
    (ArcValue.node?_eq_some_iff.mp hy)

theorem Forwards.along {arcs : List Arc} {r : Except EngineError Unit}
    (h : Forwards fails n k arcs run r run') (may : run.store.MayForward n k)
    (hnew : ∀ arc ∈ arcs, arc.label ∉ Arcs.labels n.arcs) (hrel : R n.id k.id)
    (along : m.Along R run.store) :
    m.Along R run'.store ∧ ∀ e, r = .error e → fails e := by
  cases h with
  | unstamped he => exact ⟨along, fun _ hr => Except.error.inj hr ▸ he⟩
  | unwritten he => exact ⟨along.stamp n.owner, fun _ hr => Except.error.inj hr ▸ he⟩
  | done => exact ⟨along.forwardNode may hnew hrel, fun _ hr => nomatch hr⟩

/-- A course meets only what is related, and only an obstacle stops it. -/
theorem Course.along {t : Task} {r : Except EngineError Unit} (h : Course fails t run r run')
    (hR : m.Propagates R) (hrel : t.Related R) (along : m.Along R run.store) :
    m.Along R run'.store ∧ ∀ e, r = .error e → fails e ∨ m.Obstacle R run.store e := by
  induction h with
  | @unread x y id run e hid he =>
      refine ⟨along, ?_⟩
      rintro _ ⟨⟩
      refine he.imp_right fun he => ?_
      have hself : R id id := by
        rcases hid with rfl | rfl
        · exact hR.refl_left hrel
        · exact hR.refl_left (hR.symm hrel)
      exact .unread hself along.evolves (Memory.Extends.refl _) he
  | known | agree | nil => exact ⟨along, fun _ hr => nomatch hr⟩
  | clash meet hn hk hname =>
      refine ⟨along, ?_⟩
      rintro _ ⟨⟩
      exact Or.inr (.names (meet.related hR along hrel) (along.stands meet.left)
        (along.stands meet.right) hn hk hname)
  | atOnce meet which h =>
      have hpair := meet.related hR along hrel
      have hends := h.along (which.mayForward meet) which.label_notMem
        (by cases which with
          | leafInto | disjoint => exact hpair
          | takesLeaf => exact hR.symm hpair) along
      exact ⟨hends.1, fun e hr => Or.inl (hends.2 e hr)⟩
  | failsInside op _ ih => exact ih (op.related hR along hrel) along
  | unreadAgain op _ he ih =>
      refine ⟨(ih (op.related hR along hrel) along).1, ?_⟩
      rintro _ ⟨⟩
      exact Or.inl he
  | restarts op inside _ _ _ _ ih ihAgain =>
      have after := (ih (op.related hR along hrel) along).1
      obtain ⟨along', hstops⟩ := ihAgain (op.toMeeting.related hR along hrel) after
      exact ⟨along', fun e hr => (hstops e hr).imp_right (·.of_later inside.steps_of_ok.extends)⟩
  | joins op inside left right hn hk h ih =>
      have hends := h.along (op.mayForward inside.steps_of_ok left right hn hk)
        label_notMem_of_mem_complement
        (by
          rw [Memory.id_of_node? left, Memory.id_of_node? right]
          exact op.toMeeting.related hR along hrel)
        (ih (op.related hR along hrel) along).1
      exact ⟨hends.1, fun e hr => Or.inl (hends.2 e hr)⟩
  | skip _ _ ih => exact ih (fun arc harc => hrel arc (List.mem_cons_of_mem _ harc)) along
  | arcFails hx hy _ ih => exact ih (hrel _ List.mem_cons_self _ _ hx hy) along
  | arc hx hy inside _ ih ihTail =>
      have head := (ih (hrel _ List.mem_cons_self _ _ hx hy) along).1
      obtain ⟨along', hstops⟩ :=
        ihTail (fun arc harc => hrel arc (List.mem_cons_of_mem _ harc)) head
      exact ⟨along', fun e hr => (hstops e hr).imp_right (·.of_later inside.steps_of_ok.extends)⟩

end Run

end Ideas
