/-
A unification that succeeds has unified the two nodes.

A pair that was opened before counts as done when it is met again, although nothing says
that its two nodes were joined.  Inside the pair itself this is as it should be, for it
will be joined once all inside it is done.  What has to be shown is that it happens
nowhere else: one of the two nodes of a pair that is open no longer points on, so that no
id leads to it and the pair is not met again.

`Settled live` is the invariant: each pair that was opened is one of those that are
still open, the `live` ones, or has a node that was merged.  A course that succeeds keeps
it for every `live` (`Course.settled`), also where a pair starts again.  From a fresh
start no pair is live, and so the answer is never that of a pair that was met again
(`Course.joined`).
-/
import Ideas.Proofs.Unification.Call

namespace Ideas

open Backed

namespace Memory

variable {m m' : Memory} {a b : NodeId} {n k : Node}

/-- The node was merged into another one. -/
def Superseded (m : Memory) (id : NodeId) : Prop :=
  ∃ n, m.node? id = some n ∧ n.isSuperseded = true

/-- Two ids lead to one node. -/
def Meets (m : Memory) (a b : NodeId) : Prop :=
  ∃ n, m.Canonical a n ∧ m.Canonical b n

/-- Two ids lead to one node, or to two leaves with one name. -/
def Joined (m : Memory) (a b : NodeId) : Prop :=
  ∃ n k, m.Canonical a n ∧ m.Canonical b k ∧
    (n = k ∨ n.isLeaf = true ∧ k.isLeaf = true ∧ n.name = k.name)

/-- No id leads to a node that was merged. -/
theorem Canonical.not_superseded (h : m.Canonical a n) : ¬ m.Superseded n.id := by
  rintro ⟨x, found, hx⟩
  obtain rfl := Option.some.inj (found.symm.trans h.found)
  rw [Node.isSuperseded_eq_false_iff.mpr h.forward_eq_none] at hx
  cases hx

theorem Superseded.evolves {id : NodeId} (h : m.Superseded id) (he : m.Evolves m') :
    m'.Superseded id := by
  obtain ⟨x, found, hx⟩ := h
  obtain ⟨x', found', hevolves⟩ := he.found found
  obtain ⟨target, htarget⟩ := Option.isSome_iff_exists.mp hx
  rw [hevolves.eq_of_forward htarget] at found'
  exact ⟨x, found', hx⟩

theorem superseded_forwardNode (found : m.node? n.id = some n) (target : NodeId)
    (arcs : List Arc) : (m.forwardNode n target arcs).Superseded n.id := by
  refine ⟨n.forwarded target arcs (m.generation n.owner + 1), ?_, rfl⟩
  rw [node?_forwardNode found, if_pos rfl]

theorem Joined.symm (h : m.Joined a b) : m.Joined b a := by
  obtain ⟨n, k, left, right, rfl | ⟨hn, hk, hname⟩⟩ := h
  · exact ⟨n, n, right, left, Or.inl rfl⟩
  · exact ⟨k, n, right, left, Or.inr ⟨hk, hn, hname.symm⟩⟩

/-- What two ids led to was joined, and so they are. -/
theorem Joined.of_canonical (h : m'.Joined n.id k.id) (grows : m.Extends m')
    (left : m.Canonical a n) (right : m.Canonical b k) : m'.Joined a b := by
  obtain ⟨x, y, hx, hy, hxy⟩ := h
  obtain ⟨x', hleft, hself⟩ := grows.canonical left
  obtain ⟨y', hright, hself'⟩ := grows.canonical right
  obtain rfl := hself.unique hx
  obtain rfl := hself'.unique hy
  exact ⟨x', y', hleft, hright, hxy⟩

theorem Meets.joined (h : m.Meets a b) : m.Joined a b := by
  obtain ⟨n, left, right⟩ := h
  exact ⟨n, n, left, right, Or.inl rfl⟩

/-- A node that is forwarded into another one leads where that one does. -/
theorem MayForward.meets (may : m.MayForward n k) (arcs : List Arc) :
    (m.forwardNode n k.id arcs).Meets n.id k.id := by
  have hk : (m.forwardNode n k.id arcs).Path k.id [] k := by
    refine .stop ?_ may.target_forward_eq_none
    rw [node?_forwardNode may.found, if_neg (Ne.symm may.ne)]
    exact may.target_found
  have hn : (m.forwardNode n k.id arcs).node? n.id
      = some (n.forwarded k.id arcs (m.generation n.owner + 1)) := by
    rw [node?_forwardNode may.found, if_pos rfl]
  exact ⟨k, ⟨_, .go hn rfl hk⟩, ⟨_, hk⟩⟩

/-- To forward a node into another one joins them. -/
theorem MayForward.joined (may : m.MayForward n k) (arcs : List Arc) :
    (m.forwardNode n k.id arcs).Joined n.id k.id :=
  (may.meets arcs).joined

end Memory

namespace Run

variable {run run' : Run Memory} {fails : EngineError → Prop}

/-- Each pair that was opened is live, or one of its nodes was merged. -/
def Settled (live : List (NodeId × NodeId)) (run : Run Memory) : Prop :=
  ∀ p ∈ run.opened, p ∈ live ∨ run.store.Superseded p.1 ∨ run.store.Superseded p.2

variable {live : List (NodeId × NodeId)} {n k : Node}

/-- At a fresh start no pair was opened. -/
theorem settled_start (m : Memory) : Settled [] { store := m } := by
  intro p hp
  cases hp

theorem Settled.forward (h : Settled live run) (may : run.store.MayForward n k)
    {arcs : List Arc} (hnew : ∀ arc ∈ arcs, arc.label ∉ Arcs.labels n.arcs) :
    Settled live (run.forward n k arcs) := by
  have evolves := (Step.forward may hnew).evolves
  intro p hp
  rcases h p hp with hlive | hleft | hright
  · exact Or.inl hlive
  · exact Or.inr (Or.inl (hleft.evolves evolves))
  · exact Or.inr (Or.inr (hright.evolves evolves))

theorem Settled.enter (h : Settled live run) (n k : Node) :
    Settled ((n.id, k.id) :: live) (run.enter n k) := by
  intro p hp
  rcases List.mem_cons.mp hp with rfl | hp
  · exact Or.inl List.mem_cons_self
  · exact (h p hp).imp_left (List.mem_cons_of_mem _)

/-- A pair is left once one of its nodes was merged. -/
theorem Settled.leave {p : NodeId × NodeId} (h : Settled (p :: live) run)
    (hp : run.store.Superseded p.1 ∨ run.store.Superseded p.2) : Settled live run := by
  intro q hq
  rcases h q hq with hlive | hmerged
  · rcases List.mem_cons.mp hlive with rfl | hlive
    · exact Or.inr hp
    · exact Or.inl hlive
  · exact Or.inr hmerged

theorem Forwards.eq_of_ok {arcs : List Arc} (h : Forwards fails n k arcs run (.ok ()) run') :
    run' = run.forward n k arcs := by
  cases h with
  | done => rfl

/-- One of the nodes of the pair was merged in the meantime. -/
theorem superseded_of_merged {mid : Run Memory} {n' k' : Node}
    (left : mid.store.node? n.id = some n') (right : mid.store.node? k.id = some k')
    (merged : n'.isSuperseded = true ∨ k'.isSuperseded = true) :
    mid.store.Superseded n.id ∨ mid.store.Superseded k.id :=
  merged.imp (fun hn => ⟨n', left, hn⟩) (fun hk => ⟨k', right, hk⟩)

/-- A course that succeeds leaves no pair open that it opened. -/
theorem Course.settled {t : Task} {r : Except EngineError Unit} (h : Course fails t run r run')
    (hr : r = .ok ()) :
    ∀ {live : List (NodeId × NodeId)}, Settled live run → Settled live run' := by
  induction h with
  | unread | clash | failsInside | unreadAgain | arcFails => cases hr
  | known | agree | nil => exact id
  | atOnce meet which h =>
      subst hr
      intro live hlive
      rw [h.eq_of_ok]
      exact hlive.forward (which.mayForward meet) which.label_notMem
  | restarts op _ left right merged _ ih ihAgain =>
      intro live hlive
      have inside := ih rfl (hlive.enter _ _)
      exact ihAgain hr (inside.leave (superseded_of_merged left right merged))
  | joins op inside left right hn hk h ih =>
      subst hr
      intro live hlive
      have may := op.mayForward inside.steps_of_ok left right hn hk
      rw [h.eq_of_ok]
      refine Settled.leave ((ih rfl (hlive.enter _ _)).forward may
        label_notMem_of_mem_complement) (Or.inl ?_)
      rw [← Memory.id_of_node? left]
      exact Memory.superseded_forwardNode may.found _ _
  | skip _ _ ih => exact ih hr
  | arc _ _ _ _ ih ihTail => exact fun hlive => ihTail hr (ih rfl hlive)

/-- A course that succeeds where no pair is live has joined what it was to unify. -/
theorem Course.joined {t : Task} {r : Except EngineError Unit} (h : Course fails t run r run')
    (hr : r = .ok ()) (hsettled : Settled [] run) :
    ∀ {a b : NodeId}, t = .nodes a b → run'.store.Joined a b := by
  induction h with
  | unread | clash | failsInside | unreadAgain | arcFails => cases hr
  | @known a b n k run left right h =>
      rintro _ _ ⟨⟩
      refine ⟨n, k, left, right, Or.inl ?_⟩
      rcases h with hid | hopened
      · have found := right.found
        rw [← hid] at found
        exact Option.some.inj (left.found.symm.trans found)
      · -- A pair that was opened is not met again where no pair is live.
        rcases hsettled _ hopened with hlive | hmerged | hmerged
        · cases hlive
        · exact absurd hmerged left.not_superseded
        · exact absurd hmerged right.not_superseded
  | agree meet hn hk hname =>
      rintro _ _ ⟨⟩
      exact ⟨_, _, meet.left, meet.right, Or.inr ⟨hn, hk, hname⟩⟩
  | atOnce meet which h =>
      subst hr
      rintro _ _ ⟨⟩
      rw [h.eq_of_ok]
      have may := which.mayForward meet
      refine Memory.Joined.of_canonical ?_ (may.extends _) meet.left meet.right
      cases which with
      | leafInto | disjoint => exact may.joined _
      | takesLeaf => exact (may.joined _).symm
  | restarts op inside left right merged again _ ihAgain =>
      subst hr
      rintro _ _ ⟨⟩
      have settled := (inside.settled rfl (hsettled.enter _ _)).leave
        (superseded_of_merged left right merged)
      have steps : Steps _ _ := .trans (.head op.step inside.steps_of_ok) again.steps_of_ok
      exact (ihAgain rfl settled rfl).of_canonical steps.extends op.left op.right
  | joins op inside left right hn hk h _ =>
      subst hr
      rintro _ _ ⟨⟩
      rw [h.eq_of_ok]
      have may := op.mayForward inside.steps_of_ok left right hn hk
      have steps : Steps _ _ := .head op.step inside.steps_of_ok
      refine Memory.Joined.of_canonical ?_ (steps.extends.trans (may.extends _)) op.left op.right
      rw [← Memory.id_of_node? left, ← Memory.id_of_node? right]
      exact may.joined _
  | nil | skip | arc => rintro _ _ ⟨⟩

end Run

variable {σ : Type} [NodeStore σ] [Backed σ] {s : σ} {a b : NodeId}

/-- If two nodes unify, their ids lead to one node, or to two leaves with one name: also where
nodes refer to themselves, and where pairs are met again or start again. -/
theorem unified_of_ok {fs : List Forwarding} (h : (unifyCore a b s).1 = .ok fs) :
    ∃ n k, (dereference a (contents (unifyCore a b s).2)).1 = .ok n ∧
      (dereference b (contents (unifyCore a b s).2)).1 = .ok k ∧
      (n = k ∨ n.isLeaf = true ∧ k.isLeaf = true ∧ n.name = k.name) := by
  rcases hrun : Run.unify s a b with ⟨outcome, run⟩
  rw [unifyCore_eq hrun] at h ⊢
  cases outcome with
  | error e => cases h
  | ok _ =>
      have settled : Run.Settled [] { store := contents s } := by
        intro p hp
        cases hp
      obtain ⟨n, k, hn, hk, hnk⟩ := (Run.course_of_unify hrun).joined rfl settled rfl
      exact ⟨n, k, Memory.dereference_eq_ok_iff.mpr hn, Memory.dereference_eq_ok_iff.mpr hk, hnk⟩

/-- Two nodes that refer to each other. -/
def crossReferring : Memory :=
  { nodes := [.complex ⟨1⟩ "ann" [⟨"next", .node ⟨2⟩⟩], .complex ⟨2⟩ "ann" [⟨"next", .node ⟨1⟩⟩]] }

/-- The pair is met again the other way round and is joined there, so that it starts again with a
node that was merged. -/
theorem unified_of_ok_crossReferring :
    (unifyCore ⟨1⟩ ⟨2⟩ crossReferring).1.toOption = some [⟨⟨2⟩, ⟨1⟩, 11, 0⟩] ∧
      ∃ n k, (dereference ⟨1⟩ (contents (unifyCore ⟨1⟩ ⟨2⟩ crossReferring).2)).1 = .ok n ∧
        (dereference ⟨2⟩ (contents (unifyCore ⟨1⟩ ⟨2⟩ crossReferring).2)).1 = .ok k ∧
        (n = k ∨ n.isLeaf = true ∧ k.isLeaf = true ∧ n.name = k.name) := by
  have hreport : (unifyCore ⟨1⟩ ⟨2⟩ crossReferring).1.toOption
      = some [⟨⟨2⟩, ⟨1⟩, 11, 0⟩] := by decide +kernel
  cases h : (unifyCore ⟨1⟩ ⟨2⟩ crossReferring).1 with
  | error e =>
      rw [h] at hreport
      cases hreport
  | ok fs =>
      rw [h] at hreport
      exact ⟨hreport, unified_of_ok h⟩

end Ideas
