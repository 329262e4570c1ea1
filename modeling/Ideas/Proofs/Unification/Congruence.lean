/-
What forwarded nodes refer to is unified along with them.

Two nodes that become one refer to the same thing under each label that they share, and
so a unification first unifies what they refer to.  But of two answers that it accepts
nothing is left behind which would say so later.

A pair that is met again is accepted because it is still open, and will be joined once all
inside it is done.  `Bound` is what is known of such a pair: its ids have met, or they
lead to a pair that is open.  When that pair is left, they have met (`Bound.leave`).

Two leaves with one name are accepted and nothing is written.  No leaf becomes the end of
a forward path later, because nodes are only forwarded into complex ones (`Since`), so
these leaves were there before the call.  But one of them may still be forwarded in the
same call, when it is met again beside a complex node, and the other one is not told.
That is the only way in which what was accepted comes apart (`shared_arcs_joined`), and it
does happen (`twin_left_behind`).
-/
import Ideas.Proofs.Unification.Retention

namespace Ideas

open NodeStore Backed

/-- The first arc with a label is the only one where labels do not repeat. -/
theorem Arcs.find?_of_mem {arcs : List Arc} (hnodup : (labels arcs).Nodup) {arc : Arc}
    (harc : arc ∈ arcs) : find? arc.label arcs = some arc := by
  induction arcs with
  | nil => cases harc
  | cons first rest ih =>
      obtain ⟨hnew, hrest⟩ := List.nodup_cons.mp hnodup
      rcases List.mem_cons.mp harc with rfl | harc
      · exact List.find?_cons_of_pos (decide_eq_true rfl)
      · have hne : first.label ≠ arc.label := by
          intro heq
          exact hnew (heq ▸ mem_labels.mpr ⟨arc, harc, rfl⟩)
        rw [find?, List.find?_cons_of_neg (by simpa using hne)]
        exact ih hrest harc

namespace Memory

variable {m m' now : Memory} {x y z : NodeId} {n k : Node}

theorem Meets.symm (h : m.Meets x y) : m.Meets y x := by
  obtain ⟨n, hx, hy⟩ := h
  exact ⟨n, hy, hx⟩

theorem Meets.trans (h : m.Meets x y) (h' : m.Meets y z) : m.Meets x z := by
  obtain ⟨n, hx, hy⟩ := h
  obtain ⟨k, hy', hz⟩ := h'
  obtain rfl := hy.unique hy'
  exact ⟨n, hx, hz⟩

/-- Ids that have met stay together. -/
theorem Extends.meets (grows : m.Extends m') (h : m.Meets x y) : m'.Meets x y := by
  obtain ⟨n, hx, hy⟩ := h
  obtain ⟨k, hx', hself⟩ := grows.canonical hx
  obtain ⟨k', hy', hself'⟩ := grows.canonical hy
  obtain rfl := hself.unique hself'
  exact ⟨k, hx', hy'⟩

/-- Two ids lead to two leaves with one name. -/
def Alike (m : Memory) (x y : NodeId) : Prop :=
  ∃ p q, m.Canonical x p ∧ m.Canonical y q ∧ p.isLeaf = true ∧ q.isLeaf = true ∧ p.name = q.name

/-- All that happened since is that nodes were forwarded, and none of them into a leaf. -/
structure Since (m now : Memory) : Prop where
  evolves : m.Evolves now
  leaf : ∀ {id : NodeId} {p : Node}, now.Canonical id p → p.isLeaf = true → m.Canonical id p

theorem since_refl (m : Memory) : m.Since m :=
  ⟨Evolves.refl m, fun hp _ => hp⟩

/-- A path that ends at a leaf does not pass a node that was forwarded into a complex one. -/
theorem Since.forwardNode (h : m.Since now) (may : now.MayForward n k) {arcs : List Arc}
    (hnew : ∀ arc ∈ arcs, arc.label ∉ Arcs.labels n.arcs) :
    m.Since (now.forwardNode n k.id arcs) := by
  refine ⟨h.evolves.trans (evolves_forwardNode may.found may.forward_eq_none _ hnew), ?_⟩
  intro id p hp hleaf
  refine h.leaf ?_ hleaf
  obtain ⟨path, hpath⟩ := hp
  induction hpath with
  | @stop id p found hforward =>
      rw [node?_forwardNode may.found] at found
      split at found
      · cases found
        cases hforward
      · exact ⟨[], .stop found hforward⟩
  | @go id next q p path found hforward _ ih =>
      obtain ⟨rest, hrest⟩ := ih hleaf
      rw [node?_forwardNode may.found] at found
      split at found
      · cases found
        cases hforward
        have hk : now.Canonical k.id k := canonical_self may.target_found may.target_forward_eq_none
        obtain rfl := hk.unique ⟨rest, hrest⟩
        rw [Node.isLeaf_eq_false_iff.mpr may.target_complex] at hleaf
        cases hleaf
      · exact ⟨_, .go found hforward hrest⟩

end Memory

namespace Run

variable {m now now' : Memory} {live : List (NodeId × NodeId)} {x y : NodeId} {n k : Node}
  {run run' : Run Memory} {fails : EngineError → Prop}

theorem Step.since {run run' : Run Memory} (h : Step run run') (hsince : m.Since run.store) :
    m.Since run'.store := by
  cases h with
  | enter => exact hsince
  | forward may hnew => exact hsince.forwardNode may hnew

theorem Steps.since {run run' : Run Memory} (h : Steps run run') (hsince : m.Since run.store) :
    m.Since run'.store := by
  induction h with
  | refl => exact hsince
  | tail _ hstep ih => exact hstep.since ih

/-! ### Pairs that are bound to meet -/

/-- Two ids have met, or they lead to the two nodes of a pair that is still open. -/
def Bound (live : List (NodeId × NodeId)) (now : Memory) (x y : NodeId) : Prop :=
  now.Meets x y ∨ ∃ p ∈ live, now.Meets x p.1 ∧ now.Meets y p.2

theorem Bound.grow (h : Bound live now x y) (grows : now.Extends now') : Bound live now' x y := by
  rcases h with hmeets | ⟨p, hp, hx, hy⟩
  · exact Or.inl (grows.meets hmeets)
  · exact Or.inr ⟨p, hp, grows.meets hx, grows.meets hy⟩

/-- What led to a pair is bound as that pair is. -/
theorem Bound.of_meets {x' y' : NodeId} (h : Bound live now x' y') (hx : now.Meets x x')
    (hy : now.Meets y y') : Bound live now x y := by
  rcases h with hmeets | ⟨p, hp, hx', hy'⟩
  · exact Or.inl ((hx.trans hmeets).trans hy.symm)
  · exact Or.inr ⟨p, hp, hx.trans hx', hy.trans hy'⟩

/-- A pair may be left once its own nodes are bound. -/
theorem Bound.leave {p : NodeId × NodeId} (h : Bound (p :: live) now x y)
    (hp : Bound live now p.1 p.2) : Bound live now x y := by
  rcases h with hmeets | ⟨q, hq, hx, hy⟩
  · exact Or.inl hmeets
  · rcases List.mem_cons.mp hq with rfl | hq
    · exact hp.of_meets hx hy
    · exact Or.inr ⟨q, hq, hx, hy⟩

/-- A pair that was opened before and is met again is still open. -/
theorem Settled.bound (h : Settled live run) (left : run.store.Canonical x n)
    (right : run.store.Canonical y k) (hknown : n.id = k.id ∨ (n.id, k.id) ∈ run.opened) :
    Bound live run.store x y := by
  rcases hknown with hid | hopened
  · obtain rfl : n = k := Option.some.inj (left.found.symm.trans (hid ▸ right.found))
    exact Or.inl ⟨n, left, right⟩
  · rcases h _ hopened with hlive | hmerged | hmerged
    · refine Or.inr ⟨_, hlive, ⟨n, left, ?_⟩, ⟨k, right, ?_⟩⟩
      · exact Memory.canonical_self left.found left.forward_eq_none
      · exact Memory.canonical_self right.found right.forward_eq_none
    · exact absurd hmerged left.not_superseded
    · exact absurd hmerged right.not_superseded

/-! ### What was accepted -/

/-- Two ids are bound to meet, or they led to two leaves with one name before the call. -/
def Accepted (m : Memory) (live : List (NodeId × NodeId)) (now : Memory) (x y : NodeId) : Prop :=
  Bound live now x y ∨ m.Alike x y

/-- What was to be unified is accepted. -/
def Task.Accepted (m : Memory) (live : List (NodeId × NodeId)) (now : Memory) : Task → Prop
  | .nodes x y => Run.Accepted m live now x y
  | .arcs ours theirs => ∀ arc ∈ theirs, ∀ x y,
      (Arcs.find? arc.label ours).bind (·.value.node?) = some x → arc.value.node? = some y →
        Run.Accepted m live now x y

/-- What the two nodes of a forwarding refer to under a common label is accepted. -/
def Congruent (m : Memory) (live : List (NodeId × NodeId)) (now : Memory) (f : Forwarding) :
    Prop :=
  ∀ n k, m.node? f.node = some n → m.node? f.target = some k → n.kind = .complex →
    ∀ label x y, ⟨label, .node x⟩ ∈ n.arcs → ⟨label, .node y⟩ ∈ k.arcs → Accepted m live now x y

theorem Accepted.grow (h : Accepted m live now x y) (grows : now.Extends now') :
    Accepted m live now' x y :=
  h.imp_left fun hbound => hbound.grow grows

theorem Accepted.leave {p : NodeId × NodeId} (h : Accepted m (p :: live) now x y)
    (hp : Bound live now p.1 p.2) : Accepted m live now x y :=
  h.imp_left fun hbound => hbound.leave hp

theorem Congruent.grow {f : Forwarding} (h : Congruent m live now f) (grows : now.Extends now') :
    Congruent m live now' f := by
  intro n k hn hk hcomplex label x y hx hy
  exact (h n k hn hk hcomplex label x y hx hy).grow grows

theorem Congruent.leave {p : NodeId × NodeId} {f : Forwarding}
    (h : Congruent m (p :: live) now f) (hp : Bound live now p.1 p.2) :
    Congruent m live now f := by
  intro n k hn hk hcomplex label x y hx hy
  exact (h n k hn hk hcomplex label x y hx hy).leave hp

/-- A node that is forwarded at once shares no label with its target, or is a leaf. -/
theorem AtOnce.congruent {a b : NodeId} {x y : Node} {arcs : List Arc} {generation received : Nat}
    (h : AtOnce n k x y arcs) (meet : Meeting run a b n k) (hsince : m.Since run.store) :
    Congruent m live now ⟨x.id, y.id, generation, received⟩ := by
  have left := hsince.evolves.found_of_canonical meet.left
  have right := hsince.evolves.found_of_canonical meet.right
  intro x' y' hx hy hcomplex label i j hi hj
  have hcomplex := Node.isLeaf_eq_false_iff.mpr hcomplex
  cases h with
  | leafInto hn _ =>
      obtain rfl := Option.some.inj (hx.symm.trans left)
      rw [hn] at hcomplex
      cases hcomplex
  | takesLeaf _ hk =>
      obtain rfl := Option.some.inj (hx.symm.trans right)
      rw [hk] at hcomplex
      cases hcomplex
  | disjoint _ _ apart =>
      obtain rfl := Option.some.inj (hx.symm.trans left)
      obtain rfl := Option.some.inj (hy.symm.trans right)
      have hshared : label ∈ Arcs.labels (Arcs.intersect x'.arcs y'.arcs) :=
        Arcs.mem_labels_intersect.mpr
          ⟨Arcs.mem_labels.mpr ⟨_, hi, rfl⟩, Arcs.mem_labels.mpr ⟨_, hj, rfl⟩⟩
      rw [List.isEmpty_iff.mp apart] at hshared
      cases hshared

/-- What a node refers to under a label is unified with what the other one refers to under it. -/
theorem Opening.congruent {a b : NodeId} {f : Forwarding} (op : Opening run a b n k)
    (hm : m.WellFormed) (hsince : m.Since run.store) (hnode : f.node = n.id)
    (htarget : f.target = k.id)
    (h : (Task.arcs n.arcs (Arcs.intersect n.arcs k.arcs)).Accepted m live now) :
    Congruent m live now f := by
  have left := hsince.evolves.found_of_canonical op.left
  have right := hsince.evolves.found_of_canonical op.right
  intro n' k' hn hk _ label x y hx hy
  obtain rfl := Option.some.inj ((hnode ▸ hn).symm.trans left)
  obtain rfl := Option.some.inj ((htarget ▸ hk).symm.trans right)
  have hshared : (⟨label, .node y⟩ : Arc) ∈ Arcs.intersect n'.arcs k'.arcs :=
    List.mem_filter.mpr ⟨hy, decide_eq_true (Arcs.mem_labels.mpr ⟨_, hx, rfl⟩)⟩
  have hfirst : Arcs.find? label n'.arcs = some ⟨label, .node x⟩ :=
    Arcs.find?_of_mem (hm n'.id n' left).nodup_labels hx
  refine h _ hshared x y ?_ rfl
  rw [hfirst]
  rfl

/-! ### Every course -/

/-- What a course was to unify is accepted, and so is what its forwardings make one. -/
structure Covers (m : Memory) (live : List (NodeId × NodeId)) (t : Task) (run run' : Run Memory) :
    Prop where
  task : t.Accepted m live run'.store
  forwarded : ∀ f ∈ run'.forwarded, f ∈ run.forwarded ∨ Congruent m live run'.store f

/-- A pair that was opened is left when its two nodes are bound. -/
theorem Opening.covers {a b : NodeId} {mid : Run Memory} (op : Opening run a b n k)
    (grows : run.store.Extends mid.store) (growsOn : mid.store.Extends run'.store)
    (hinside : ∀ f ∈ mid.forwarded,
      f ∈ run.forwarded ∨ Congruent m ((n.id, k.id) :: live) mid.store f)
    (hpair : Bound live run'.store n.id k.id)
    (hafter : ∀ f ∈ run'.forwarded, f ∈ mid.forwarded ∨ Congruent m live run'.store f) :
    Covers m live (.nodes a b) run run' := by
  have grows := grows.trans growsOn
  refine ⟨Or.inl (hpair.of_meets (grows.canonical op.left) (grows.canonical op.right)), ?_⟩
  intro f hf
  rcases hafter f hf with hf | hcongruent
  · exact (hinside f hf).imp_right fun hcongruent => (hcongruent.grow growsOn).leave hpair
  · exact Or.inr hcongruent

/-- Two complex nodes were not accepted as leaves. -/
theorem Opening.not_alike {a b : NodeId} (op : Opening run a b n k) (hsince : m.Since run.store) :
    ¬ m.Alike n.id k.id := by
  rintro ⟨p, _, hp, -, hleaf, -⟩
  have hself : m.Canonical n.id n := Memory.canonical_self
    (hsince.evolves.found_of_canonical op.left) op.left.forward_eq_none
  obtain rfl := hself.unique hp
  rw [op.left_complex] at hleaf
  cases hleaf

/-- A course that succeeds accepts only what is bound to meet, and leaves with one name. -/
theorem Course.covers {t : Task} {r : Except EngineError Unit} (h : Course fails t run r run')
    (hr : r = .ok ()) (hm : m.WellFormed) :
    ∀ {live : List (NodeId × NodeId)}, Settled live run → m.Since run.store →
      Covers m live t run run' := by
  induction h with
  | unread | clash | failsInside | unreadAgain | arcFails => cases hr
  | known left right h =>
      intro live hsettled _
      exact ⟨Or.inl (hsettled.bound left right h), fun _ hf => Or.inl hf⟩
  | @agree a b n k run meet hn hk hname =>
      intro live _ hsince
      have halike : m.Alike a b :=
        ⟨n, k, hsince.leaf meet.left hn, hsince.leaf meet.right hk, hn, hk, hname⟩
      exact ⟨Or.inr halike, fun _ hf => Or.inl hf⟩
  | @atOnce a b n k x y arcs run run' r meet which h =>
      subst hr
      intro live _ hsince
      have may := which.mayForward meet
      have grows := may.extends arcs
      have hmeets : (run.store.forwardNode x y.id arcs).Meets n.id k.id := by
        cases which with
        | leafInto | disjoint => exact may.meets _
        | takesLeaf => exact (may.meets _).symm
      have hpair : Bound live (run.store.forwardNode x y.id arcs) n.id k.id := Or.inl hmeets
      rw [h.eq_of_ok]
      refine ⟨Or.inl (hpair.of_meets (grows.canonical meet.left) (grows.canonical meet.right)), ?_⟩
      intro f hf
      rcases List.mem_append.mp hf with hf | hf
      · exact Or.inl hf
      · rw [List.mem_singleton.mp hf]
        exact Or.inr (which.congruent meet hsince)
  | @restarts a b n k n' k' run mid run' r op inside left right merged again ih ihAgain =>
      subst hr
      intro live hsettled hsince
      have steps : Steps run mid := .head op.step inside.steps_of_ok
      have settled := (inside.settled rfl (hsettled.enter n k)).leave
        (superseded_of_merged left right merged)
      obtain ⟨-, hinside⟩ := ih rfl (hsettled.enter n k) hsince
      obtain ⟨htask, hafter⟩ := ihAgain rfl settled (steps.since hsince)
      exact op.covers steps.extends again.steps_of_ok.extends hinside
        (htask.resolve_right (op.not_alike hsince)) hafter
  | @joins a b n k n' k' run mid run' r op inside left right hn hk h ih =>
      subst hr
      intro live hsettled hsince
      have steps : Steps run mid := .head op.step inside.steps_of_ok
      have may := op.mayForward inside.steps_of_ok left right hn hk
      have grows := may.extends (Arcs.complement k'.arcs n'.arcs)
      have hnid : n'.id = n.id := Memory.id_of_node? left
      have hkid : k'.id = k.id := Memory.id_of_node? right
      have hmeets := may.meets (Arcs.complement k'.arcs n'.arcs)
      rw [h.eq_of_ok]
      have hpair : Bound live (mid.forward n' k' (Arcs.complement k'.arcs n'.arcs)).store
          n.id k.id := Or.inl (hnid ▸ hkid ▸ hmeets)
      obtain ⟨htask, hinside⟩ := ih rfl (hsettled.enter n k) hsince
      refine op.covers steps.extends grows hinside hpair ?_
      intro f hf
      rcases List.mem_append.mp hf with hf | hf
      · exact Or.inl hf
      · have hcongruent : Congruent m ((n.id, k.id) :: live) mid.store f := by
          rw [List.mem_singleton.mp hf]
          exact op.congruent hm hsince hnid hkid htask
        exact Or.inr ((hcongruent.grow grows).leave hpair)
  | nil =>
      intro live _ _
      exact ⟨fun _ harc => absurd harc List.not_mem_nil, fun _ hf => Or.inl hf⟩
  | skip hskip _ ih =>
      intro live hsettled hsince
      obtain ⟨htask, hforwarded⟩ := ih hr hsettled hsince
      refine ⟨?_, hforwarded⟩
      intro arc harc x y hx hy
      rcases List.mem_cons.mp harc with rfl | harc
      · rcases hskip with hnone | hnone
        · cases hnone.symm.trans hx
        · cases hnone.symm.trans hy
      · exact htask arc harc x y hx hy
  | arc hx hy head tail ih ihTail =>
      subst hr
      intro live hsettled hsince
      obtain ⟨hhead, hmid⟩ := ih rfl hsettled hsince
      obtain ⟨htask, hforwarded⟩ := ihTail rfl (head.settled rfl hsettled)
        (head.steps_of_ok.since hsince)
      have grows := tail.steps_of_ok.extends
      refine ⟨?_, ?_⟩
      · intro arc harc x' y' hx' hy'
        rcases List.mem_cons.mp harc with rfl | harc
        · obtain rfl := Option.some.inj (hx.symm.trans hx')
          obtain rfl := Option.some.inj (hy.symm.trans hy')
          exact hhead.grow grows
        · exact htask arc harc x' y' hx' hy'
      · intro f hf
        rcases hforwarded f hf with hf | hcongruent
        · exact (hmid f hf).imp_right fun hcongruent => hcongruent.grow grows
        · exact Or.inr hcongruent

end Run

/-! ### Calls -/

section

variable {σ : Type} [NodeStore σ] [Backed σ] {s s' : σ} {a b x y : NodeId} {fs : List Forwarding}

/-- What the nodes of a forwarding refer to under a common label has met, or led to two leaves with
one name before the call. -/
theorem unifyCore_congruent (h : unifyCore a b s = (.ok fs, s'))
    (hs : (contents s).WellFormed) :
    ∀ f ∈ fs, Run.Congruent (contents s) [] (contents s') f := by
  obtain ⟨run, hcourse, hforwarded, hstore⟩ := course_of_unifyCore h
  have hcovers := hcourse.covers rfl hs (Run.settled_start _) (Memory.since_refl _)
  rw [← hforwarded, ← hstore]
  intro f hf
  rcases hcovers.forwarded f hf with hnone | hcongruent
  · cases hnone
  · exact hcongruent

/-- Ids that were accepted are joined, unless one of two leaves with one name was forwarded. -/
theorem Run.Accepted.joined {m m' : Memory} (h : Run.Accepted m [] m' x y)
    (hwrites : m.Writes fs m') :
    m'.Joined x y ∨ ∃ p q, m.Canonical x p ∧ m.Canonical y q ∧ p.id ≠ q.id ∧
      p.isLeaf = true ∧ q.isLeaf = true ∧ p.name = q.name ∧
      (p.id ∈ fs.map Forwarding.node ∨ q.id ∈ fs.map Forwarding.node) := by
  rcases h with (hmeets | ⟨_, hlive, -⟩) | ⟨p, q, hp, hq, hpleaf, hqleaf, hname⟩
  · exact Or.inl hmeets.joined
  · cases hlive
  by_cases hid : p.id = q.id
  · obtain rfl : p = q := Option.some.inj (hp.found.symm.trans (hid ▸ hq.found))
    have hmeets : m.Meets x y := ⟨p, hp, hq⟩
    exact Or.inl (hwrites.extends.meets hmeets).joined
  by_cases hforwarded : p.id ∈ fs.map Forwarding.node ∨ q.id ∈ fs.map Forwarding.node
  · exact Or.inr ⟨p, q, hp, hq, hid, hpleaf, hqleaf, hname, hforwarded⟩
  · obtain ⟨hpnot, hqnot⟩ := not_or.mp hforwarded
    exact Or.inl ⟨p, q, hwrites.canonical_of_notMem hp hpnot,
      hwrites.canonical_of_notMem hq hqnot, Or.inr ⟨hpleaf, hqleaf, hname⟩⟩

/-- Where a unification has forwarded a complex node into another one, what the two refer to under a
common label leads to one node, or to two leaves with one name.  The only exception are ids
that led to two leaves with one name before the call, of which it has forwarded one. -/
theorem shared_arcs_joined (arisen : Arisen (contents s)) (hfs : (unifyCore a b s).1 = .ok fs) :
    ∀ f ∈ fs, ∀ n k, (contents s).node? f.node = some n → (contents s).node? f.target = some k →
      n.kind = .complex →
      ∀ label x y, ⟨label, .node x⟩ ∈ n.arcs → ⟨label, .node y⟩ ∈ k.arcs →
        (∃ p q, (dereference x (contents (unifyCore a b s).2)).1 = .ok p ∧
          (dereference y (contents (unifyCore a b s).2)).1 = .ok q ∧
          (p = q ∨ p.isLeaf = true ∧ q.isLeaf = true ∧ p.name = q.name)) ∨
        ∃ p q, (dereference x (contents s)).1 = .ok p ∧ (dereference y (contents s)).1 = .ok q ∧
          p.id ≠ q.id ∧ p.isLeaf = true ∧ q.isLeaf = true ∧ p.name = q.name ∧
          (p.id ∈ fs.map Forwarding.node ∨ q.id ∈ fs.map Forwarding.node) := by
  intro f hf n k hn hk hcomplex label x y hx hy
  have hcall : unifyCore a b s = (.ok fs, (unifyCore a b s).2) := Prod.ext hfs rfl
  have hcongruent := unifyCore_congruent hcall arisen.wellFormed f hf
  have haccepted := hcongruent n k hn hk hcomplex label x y hx hy
  simp only [Memory.dereference_eq_ok_iff]
  exact haccepted.joined (unifyCore_accounts hcall).1

end

/-- Two leaves with one name; of two other nodes the first refers to the one of them under two
labels, and the second to the other one and to a complex node. -/
def twins : Memory :=
  { nodes := [.leaf ⟨3⟩ "ann" "x", .leaf ⟨4⟩ "ann" "x", .complex ⟨5⟩ "ann" [],
      .complex ⟨1⟩ "ann" [⟨"a", .node ⟨3⟩⟩, ⟨"b", .node ⟨3⟩⟩],
      .complex ⟨2⟩ "ann" [⟨"a", .node ⟨4⟩⟩, ⟨"b", .node ⟨5⟩⟩]] }

theorem reached_twins : Reached Call.IsUnifyCore twins := by
  have first : Reached Call.IsUnifyCore _ := Reached.empty.create (.leaf ⟨3⟩ "ann" "x")
  have second := first.create (.leaf ⟨4⟩ "ann" "x")
  have third := second.create (.complex ⟨5⟩ "ann" [])
  have fourth := third.create (.complex ⟨1⟩ "ann" [⟨"a", .node ⟨3⟩⟩, ⟨"b", .node ⟨3⟩⟩])
  exact fourth.create (.complex ⟨2⟩ "ann" [⟨"a", .node ⟨4⟩⟩, ⟨"b", .node ⟨5⟩⟩])

/-- Under the second label the leaf is forwarded into the complex node, and both lead there. -/
theorem shared_arcs_joined_twins :
    (unifyCore ⟨1⟩ ⟨2⟩ twins).1 = .ok [⟨⟨3⟩, ⟨5⟩, 11, 0⟩, ⟨⟨1⟩, ⟨2⟩, 12, 0⟩] ∧
      ((∃ p q, (dereference ⟨3⟩ (unifyCore ⟨1⟩ ⟨2⟩ twins).2).1 = .ok p ∧
        (dereference ⟨5⟩ (unifyCore ⟨1⟩ ⟨2⟩ twins).2).1 = .ok q ∧
        (p = q ∨ p.isLeaf = true ∧ q.isLeaf = true ∧ p.name = q.name)) ∨
      ∃ p q, (dereference ⟨3⟩ twins).1 = .ok p ∧ (dereference ⟨5⟩ twins).1 = .ok q ∧
        p.id ≠ q.id ∧ p.isLeaf = true ∧ q.isLeaf = true ∧ p.name = q.name ∧
        (p.id ∈ [⟨3⟩, ⟨1⟩] ∨ q.id ∈ [⟨3⟩, ⟨1⟩])) := by
  have hcall : (unifyCore ⟨1⟩ ⟨2⟩ twins).1
      = .ok [⟨⟨3⟩, ⟨5⟩, 11, 0⟩, ⟨⟨1⟩, ⟨2⟩, 12, 0⟩] := by cbv
  refine ⟨hcall, shared_arcs_joined (s := twins) reached_twins.arisen hcall ⟨⟨1⟩, ⟨2⟩, 12, 0⟩ ?_
    _ _ rfl rfl rfl "b" ⟨3⟩ ⟨5⟩ ?_ ?_⟩
  · exact List.mem_cons_of_mem _ List.mem_cons_self
  · exact List.mem_cons_of_mem _ List.mem_cons_self
  · exact List.mem_cons_of_mem _ List.mem_cons_self

/-- A unification joins all that the nodes of its forwardings refer to under a common label. -/
def JoinsShared (m : Memory) (a b : NodeId) : Prop :=
  ∀ fs, (unifyCore a b m).1 = .ok fs → ∀ f ∈ fs, ∀ n k,
    m.node? f.node = some n → m.node? f.target = some k → n.kind = .complex →
    ∀ label x y, ⟨label, .node x⟩ ∈ n.arcs → ⟨label, .node y⟩ ∈ k.arcs →
      ∃ p q, (dereference x (unifyCore a b m).2).1 = .ok p ∧
        (dereference y (unifyCore a b m).2).1 = .ok q ∧
        (p = q ∨ p.isLeaf = true ∧ q.isLeaf = true ∧ p.name = q.name)

/-- Not all that is shared is joined: under the first label two leaves with one name were accepted,
and when the one is forwarded under the second label, the other one is left behind. -/
theorem twin_left_behind :
    ¬ ∀ m, Reached Call.IsUnifyCore m → ∀ a b, JoinsShared m a b := by
  intro hjoins
  have hcall : (unifyCore ⟨1⟩ ⟨2⟩ twins).1
      = .ok [⟨⟨3⟩, ⟨5⟩, 11, 0⟩, ⟨⟨1⟩, ⟨2⟩, 12, 0⟩] := by cbv
  have hleft : (dereference ⟨3⟩ (unifyCore ⟨1⟩ ⟨2⟩ twins).2).1
      = .ok (.complex ⟨5⟩ "ann" []) := by cbv
  have hright : (dereference ⟨4⟩ (unifyCore ⟨1⟩ ⟨2⟩ twins).2).1
      = .ok (.leaf ⟨4⟩ "ann" "x") := by cbv
  obtain ⟨p, q, hp, hq, hpq⟩ := hjoins twins reached_twins ⟨1⟩ ⟨2⟩ _ hcall ⟨⟨1⟩, ⟨2⟩, 12, 0⟩
    (List.mem_cons_of_mem _ List.mem_cons_self) _ _ rfl rfl rfl "a" ⟨3⟩ ⟨4⟩
    List.mem_cons_self List.mem_cons_self
  obtain rfl := Except.ok.inj (hleft.symm.trans hp)
  obtain rfl := Except.ok.inj (hright.symm.trans hq)
  rcases hpq with hsame | ⟨hleaf, -, -⟩
  · exact absurd (congrArg Node.id hsame) (by decide)
  · cases hleaf

end Ideas
