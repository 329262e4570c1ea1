/-
Whether two nodes unify may depend on which of them comes first.

What the first one refers to is met in the order of the arcs of the second.  The order decides
what a node has become by the time that it is met again: two leaves with different names are in
conflict when they meet, but not if one of them was forwarded into a complex node before
(`order_matters`).  And of two complex nodes that become one only the arcs of the one that stays
are looked into when it meets a third.

`Due` are the ids that the data before the call demand to be brought together, whatever the
order.  If they can be (there is no `Contradiction`), then the nodes unify in both orders: a
course only meets ids that are due, and it fails only over a contradiction (`Run.Course.along`).
If they cannot, it matters whether a `Crowd` is involved, that is, whether more than two nodes
are due to become one.  A node that is in no crowd has only one other to be merged with, and so
a course that succeeds has met all that is due without looking into crowds.  Among that there
was no contradiction then (`Memory.Unifies.consistent`), and so a contradiction that needs no
crowd fails both orders.
-/
import Ideas.Proofs.Unification.Congruence
import Ideas.Proofs.Unification.Demand
import Ideas.Proofs.Unification.Idempotence

namespace Ideas

open NodeStore Backed

namespace Memory

/-! ### What is due to meet -/

/-- The ids that a unification of `a` and `b` has to bring together, as far as only such nodes
are looked into whose ids are `looked` into.  An id is due with itself only if it is due at
all. -/
inductive DueWhere (m : Memory) (a b : NodeId) (looked : NodeId → Prop) : NodeId → NodeId → Prop
  | asked : DueWhere m a b looked a b
  | points {id id' next : NodeId} (h : DueWhere m a b looked id id')
      (hnext : m.forward? id = some next) : DueWhere m a b looked id next
  /-- The first arc of the one node with a label that any arc of the other node has. -/
  | shares {n k : Node} {x y : NodeId} {ours theirs : Arc} (h : DueWhere m a b looked n.id k.id)
      (hlooked : looked n.id) (left : m.Stands n) (right : m.Stands k) (ne : n.id ≠ k.id)
      (hn : n.isLeaf = false) (hk : k.isLeaf = false)
      (first : Arcs.find? theirs.label n.arcs = some ours) (any : theirs ∈ k.arcs)
      (hx : ours.value = .node x) (hy : theirs.value = .node y) : DueWhere m a b looked x y
  | symm {x y : NodeId} (h : DueWhere m a b looked x y) : DueWhere m a b looked y x
  | trans {x y z : NodeId} (h : DueWhere m a b looked x y) (h' : DueWhere m a b looked y z) :
      DueWhere m a b looked x z

/-- The ids that are due, whatever has to be looked into. -/
abbrev Due (m : Memory) (a b : NodeId) : NodeId → NodeId → Prop :=
  m.DueWhere a b fun _ => True

/-- What is due cannot be brought together: an id is not stored, or two leaves have different
names. -/
inductive Contradiction (m : Memory) (a b : NodeId) (looked : NodeId → Prop) : Prop
  | missing {id : NodeId} (h : m.DueWhere a b looked id id) (missing : m.node? id = none)
  | names {p q : Node} (h : m.DueWhere a b looked p.id q.id) (hlooked : looked p.id)
      (left : m.Stands p) (right : m.Stands q) (hp : p.isLeaf = true) (hq : q.isLeaf = true)
      (hname : p.name ≠ q.name)

end Memory

/-- Two nodes differ, and are not two leaves with one name. -/
structure Node.Apart (n k : Node) : Prop where
  ne : n.id ≠ k.id
  not_alike : ¬(n.isLeaf = true ∧ k.isLeaf = true ∧ n.name = k.name)

theorem Node.Apart.of_complex {n k : Node} (hn : n.isLeaf = false) (ne : n.id ≠ k.id) :
    n.Apart k :=
  ⟨ne, fun h => Bool.false_ne_true (hn.symm.trans h.1)⟩

namespace Memory

/-- Three nodes are due with an id, and one of them is complex; each two of them are apart. -/
structure Crowd (m : Memory) (a b id : NodeId) (n k j : Node) : Prop where
  first : m.Stands n
  second : m.Stands k
  third : m.Stands j
  complex : n.isLeaf = false
  due_first : m.Due a b id n.id
  due_second : m.Due a b id k.id
  due_third : m.Due a b id j.id
  apart_first : n.Apart k
  apart_second : n.Apart j
  apart_third : k.Apart j

/-- An id is in a crowd. -/
def Crowded (m : Memory) (a b id : NodeId) : Prop :=
  ∃ n k j, m.Crowd a b id n k j

/-- What is due where no crowds are looked into. -/
abbrev Uncrowded (m : Memory) (a b id : NodeId) : Prop :=
  ¬ m.Crowded a b id

variable {m m' now : Memory} {a b x y z : NodeId} {n k p : Node} {fs : List Forwarding}
  {looked looked' : NodeId → Prop}

theorem DueWhere.refl_left (h : m.DueWhere a b looked x y) : m.DueWhere a b looked x x :=
  h.trans h.symm

theorem DueWhere.mono (h : m.DueWhere a b looked x y) (hlooked : ∀ id, looked id → looked' id) :
    m.DueWhere a b looked' x y := by
  induction h with
  | asked => exact .asked
  | points _ hnext ih => exact ih.points hnext
  | shares _ hn left right ne hnleaf hkleaf first any hx hy ih =>
      exact ih.shares (hlooked _ hn) left right ne hnleaf hkleaf first any hx hy
  | symm _ ih => exact ih.symm
  | trans _ _ ih ih' => exact ih.trans ih'

theorem DueWhere.due (h : m.DueWhere a b looked x y) : m.Due a b x y :=
  h.mono fun _ _ => trivial

/-- The same ids are due in the other order. -/
theorem DueWhere.swap (h : m.DueWhere a b looked x y) : m.DueWhere b a looked x y := by
  induction h with
  | asked => exact DueWhere.asked.symm
  | points _ hnext ih => exact ih.points hnext
  | shares _ hlooked left right ne hn hk first any hx hy ih =>
      exact ih.shares hlooked left right ne hn hk first any hx hy
  | symm _ ih => exact ih.symm
  | trans _ _ ih ih' => exact ih.trans ih'

theorem Contradiction.mono (h : m.Contradiction a b looked)
    (hlooked : ∀ id, looked id → looked' id) : m.Contradiction a b looked' := by
  cases h with
  | missing h hid => exact .missing (h.mono hlooked) hid
  | names h hp left right hpleaf hqleaf hname =>
      exact .names (h.mono hlooked) (hlooked _ hp) left right hpleaf hqleaf hname

theorem Contradiction.swap (h : m.Contradiction a b looked) : m.Contradiction b a looked := by
  cases h with
  | missing h hid => exact .missing h.swap hid
  | names h hp left right hpleaf hqleaf hname =>
      exact .names h.swap hp left right hpleaf hqleaf hname

theorem Crowded.swap (h : m.Crowded a b x) : m.Crowded b a x := by
  obtain ⟨n, k, j, crowd⟩ := h
  exact ⟨n, k, j, crowd.first, crowd.second, crowd.third, crowd.complex, crowd.due_first.swap,
    crowd.due_second.swap, crowd.due_third.swap, crowd.apart_first, crowd.apart_second,
    crowd.apart_third⟩

/-- What is due with an id is in the crowd that this id is in. -/
theorem Crowded.of_due (h : m.Crowded a b x) (hdue : m.Due a b y x) : m.Crowded a b y := by
  obtain ⟨n, k, j, crowd⟩ := h
  exact ⟨n, k, j, crowd.first, crowd.second, crowd.third, crowd.complex,
    hdue.trans crowd.due_first, hdue.trans crowd.due_second, hdue.trans crowd.due_third,
    crowd.apart_first, crowd.apart_second, crowd.apart_third⟩

/-- Three nodes are needed for a crowd. -/
theorem uncrowded_of_length_lt (h : m.nodes.length < 3) (a b id : NodeId) :
    m.Uncrowded a b id := by
  rintro ⟨n, k, j, crowd⟩
  have hnodup : [n.id, k.id, j.id].Nodup := by
    simp [crowd.apart_first.ne, crowd.apart_second.ne, crowd.apart_third.ne]
  have hsub : [n.id, k.id, j.id] ⊆ m.nodes.map Node.id := by
    simp only [List.cons_subset, List.nil_subset, and_true]
    exact ⟨mem_ids_of_node? crowd.first.found, mem_ids_of_node? crowd.second.found,
      mem_ids_of_node? crowd.third.found⟩
  have hle := hnodup.length_le_of_subset hsub
  rw [List.length_map] at hle
  exact Nat.not_le_of_lt h hle

theorem propagates_due (m : Memory) (a b : NodeId) : m.Propagates (m.Due a b) where
  symm h := h.symm
  trans h h' := h.trans h'
  points h hnext := h.trans (h.symm.refl_left.points hnext)
  shares h left right ne hn hk first any hx hy :=
    h.shares trivial left right ne hn hk first any hx hy

/-! ### Every stored id leads somewhere -/

/-- Every stored id leads to a node. -/
def Whole (m : Memory) : Prop :=
  ∀ id n, m.node? id = some n → ∃ k, m.Canonical id k

end Memory

open Memory in
/-- No call makes a path that leads nowhere. -/
theorem Reached.whole {calls : Call → Prop} {m : Memory} (h : Reached calls m) : m.Whole := by
  induction h with
  | empty =>
      intro id n found
      cases found
  | @create m _ added made ih =>
      intro id n found
      rw [create_eq] at found ⊢
      split at found
      · next hold =>
          rw [if_pos hold]
          exact ih id n found
      · next hnew =>
          rw [if_neg hnew]
          have hnew : m.node? added.id = none := Option.not_isSome_iff_eq_none.mp hnew
          have hfound := (node?_addNode hnew id).symm.trans found
          split at hfound
          · cases hfound
            exact ⟨_, [], .stop found (by cases made <;> rfl)⟩
          · obtain ⟨k, hk⟩ := ih id n hfound
            obtain ⟨k', hk', -⟩ := (extends_addNode hnew).canonical hk
            exact ⟨k', hk'⟩
  | @call m _ call _ ih =>
      intro id n found
      obtain ⟨mid, hwrites, hsettles⟩ := call.writes m
      rcases hsettles.chain_or_broken hwrites found with ⟨chain, hchain⟩ | ⟨⟨k, hk⟩, e, he⟩
      · obtain ⟨path, last, -, hpath⟩ := forwardChain_eq_ok_iff.mp hchain
        exact ⟨last, path, hpath⟩
      · obtain ⟨last, path, hpath⟩ := ih id k hk
        cases (forwardChain_eq_ok_iff.mpr ⟨path, last, rfl, hpath⟩).symm.trans he

variable {m m' : Memory} {a b : NodeId}

/-! ### What can be brought together -/

/-- What stops a course is a contradiction among what is due. -/
theorem Memory.Obstacle.contradiction {e : EngineError} (h : m.Obstacle (m.Due a b) m e)
    (whole : m.Whole) : m.Contradiction a b fun _ => True := by
  cases h with
  | @unread id now _ hdue _ grows he =>
      cases found : m.node? id with
      | none => exact .missing hdue found
      | some n =>
          obtain ⟨k, hk⟩ := whole id n found
          obtain ⟨k', hk', -⟩ := grows.canonical hk
          cases he.symm.trans (dereference_eq_ok_iff.mpr hk')
  | names hdue left right hn hk hname => exact .names hdue trivial left right hn hk hname

/-- Where there is no contradiction the nodes unify. -/
theorem unifyCore_ok_of_consistent (whole : m.Whole)
    (consistent : ¬ m.Contradiction a b fun _ => True) :
    ∃ fs, (unifyCore a b m).1 = .ok fs := by
  rcases hrun : Run.unify m a b with ⟨outcome, run⟩
  rw [unifyCore_eq hrun]
  cases outcome with
  | ok _ => exact ⟨_, rfl⟩
  | error e =>
      have hcourse := Run.course_of_unify hrun
      obtain ⟨-, hstops⟩ := hcourse.along (Memory.propagates_due m a b) .asked
        (Memory.along_refl m _)
      rcases hstops e rfl with hnever | hobstacle
      · exact hnever.elim
      · exact absurd (hobstacle.contradiction whole) consistent

/-! ### What a course that succeeds has met -/

namespace Memory

variable {x y z : NodeId} {n k p : Node} {fs : List Forwarding}

/-- What is known after a call that succeeded. -/
structure Unifies (m : Memory) (a b : NodeId) (fs : List Forwarding) (m' : Memory) : Prop where
  along : m.Along (m.Due a b) m'
  since : m.Since m'
  writes : m.Writes fs m'
  joined : m'.Joined a b
  congruent : ∀ f ∈ fs, Run.Congruent m [] m' f

/-- Two ids are due, and they have met or were alike before. -/
def Linked (m : Memory) (a b : NodeId) (m' : Memory) (x y : NodeId) : Prop :=
  m.Due a b x y ∧ (m'.Meets x y ∨ m.Alike x y)

theorem Alike.symm (h : m.Alike x y) : m.Alike y x := by
  obtain ⟨p, q, hp, hq, hpleaf, hqleaf, hname⟩ := h
  exact ⟨q, p, hq, hp, hqleaf, hpleaf, hname.symm⟩

theorem Linked.symm (h : m.Linked a b m' x y) : m.Linked a b m' y x :=
  ⟨h.1.symm, h.2.imp Meets.symm Alike.symm⟩

open Relation in
theorem linked_symm (h : TransGen (m.Linked a b m') x y) : TransGen (m.Linked a b m') y x := by
  induction h with
  | single h => exact .single h.symm
  | tail _ h ih => exact .head h.symm ih

/-- A node is forwarded into another one that stood at first. -/
theorem Writes.target (h : m.Writes fs m') {f : Forwarding} (hf : f ∈ fs) :
    ∃ k, m.Stands k ∧ k.id = f.target ∧ f.node ≠ k.id := by
  induction h with
  | nil => cases hf
  | @snoc fs now n k arcs before may _ ih =>
      rcases List.mem_append.mp hf with hf | hf
      · exact ih hf
      · rw [List.mem_singleton.mp hf]
        have found := before.accounts.found_before may.target_found may.target_forward_eq_none
        exact ⟨k, ⟨found, may.target_forward_eq_none⟩, rfl, may.ne⟩

/-- Two complex nodes that are due. -/
structure Couple (m : Memory) (a b : NodeId) (n k : Node) : Prop where
  left : m.Stands n
  right : m.Stands k
  ne : n.id ≠ k.id
  left_complex : n.isLeaf = false
  right_complex : k.isLeaf = false
  due : m.Due a b n.id k.id

theorem Couple.symm (h : m.Couple a b n k) : m.Couple a b k n :=
  ⟨h.right, h.left, h.ne.symm, h.right_complex, h.left_complex, h.due.symm⟩

/-- Beside two complex nodes that are due there is no third node. -/
theorem Couple.eq_or_eq (h : m.Couple a b n k) (uncrowded : m.Uncrowded a b n.id)
    (hp : m.Stands p) (hdue : m.Due a b n.id p.id) : p = n ∨ p = k := by
  by_cases hpn : p.id = n.id
  · exact Or.inl (hp.unique h.left hpn)
  · by_cases hpk : p.id = k.id
    · exact Or.inr (hp.unique h.right hpk)
    · exact absurd ⟨n, k, p, h.left, h.right, hp, h.left_complex, h.due.refl_left, h.due, hdue,
        .of_complex h.left_complex h.ne, .of_complex h.left_complex (Ne.symm hpn),
        .of_complex h.right_complex (Ne.symm hpk)⟩ uncrowded

/-- They have met if they are linked at all. -/
theorem Couple.meets (couple : m.Couple a b n k) (h : m.Unifies a b fs m')
    (uncrowded : m.Uncrowded a b n.id)
    (linked : Relation.TransGen (m.Linked a b m') n.id k.id) : m'.Meets n.id k.id := by
  have step : ∀ x y, m.Due a b n.id x ∧ m'.Meets n.id x → m.Linked a b m' x y →
      m.Due a b n.id y ∧ m'.Meets n.id y := by
    rintro x y ⟨hx, hmeets⟩ ⟨hxy, hmet | ⟨p, -, hp, -, hleaf, -⟩⟩
    · exact ⟨hx.trans hxy, hmeets.trans hmet⟩
    · -- A leaf would be a third node.
      have hpdue := (along_refl m _).canonical (propagates_due m a b) hp hx
      rcases couple.eq_or_eq uncrowded hp.stands hpdue with rfl | rfl
      · cases couple.left_complex.symm.trans hleaf
      · cases couple.right_complex.symm.trans hleaf
  have hself : m'.Meets n.id n.id :=
    h.writes.extends.meets ⟨n, couple.left.canonical, couple.left.canonical⟩
  suffices ∀ z, Relation.TransGen (m.Linked a b m') n.id z →
      m.Due a b n.id z ∧ m'.Meets n.id z from (this k.id linked).2
  intro z hz
  induction hz with
  | single hlink => exact step n.id _ ⟨couple.due.refl_left, hself⟩ hlink
  | tail _ hlink ih => exact step _ _ ih hlink

/-- If one of them was forwarded, it was forwarded into the other one. -/
theorem Couple.target (couple : m.Couple a b n k) (h : m.Unifies a b fs m')
    (uncrowded : m.Uncrowded a b n.id) (hmem : n.id ∈ fs.map Forwarding.node) :
    ∃ f ∈ fs, f.node = n.id ∧ f.target = k.id := by
  obtain ⟨f, hf, hid⟩ := List.mem_map.mp hmem
  obtain ⟨t, ht, htarget, hne⟩ := h.writes.target hf
  obtain ⟨x, arcs, hbefore, hx, -, -, hafter⟩ := h.writes.accounts.forwarded f hf
  have hpoints : m'.forward? n.id = some t.id := by
    rw [← hid, forward?, hafter, htarget]
    rfl
  have hdue : m.Due a b n.id t.id := by
    rcases h.along.points _ _ hpoints with hold | hnew
    · rw [← hid, forward?, hbefore, Option.bind_some, hx] at hold
      cases hold
    · exact hnew
  rcases couple.eq_or_eq uncrowded ht hdue with rfl | rfl
  · exact absurd hid hne
  · exact ⟨f, hf, hid, htarget.symm⟩

/-- What they refer to under a common label is linked. -/
theorem Couple.shares (couple : m.Couple a b n k) (h : m.Unifies a b fs m')
    (uncrowded : m.Uncrowded a b n.id) (hmeets : m'.Meets n.id k.id) {label : String}
    (hx : ⟨label, .node x⟩ ∈ n.arcs) (hy : ⟨label, .node y⟩ ∈ k.arcs) :
    m'.Meets x y ∨ m.Alike x y := by
  have accepted : ∀ {x y : NodeId}, Run.Accepted m [] m' x y → m'.Meets x y ∨ m.Alike x y := by
    rintro x y ((hmet | ⟨_, hlive, -⟩) | halike)
    · exact Or.inl hmet
    · cases hlive
    · exact Or.inr halike
  by_cases hleft : n.id ∈ fs.map Forwarding.node
  · obtain ⟨f, hf, hnode, htarget⟩ := couple.target h uncrowded hleft
    exact accepted (h.congruent f hf n k (hnode ▸ couple.left.found)
      (htarget ▸ couple.right.found) (Node.isLeaf_eq_false_iff.mp couple.left_complex) label x y
      hx hy)
  · by_cases hright : k.id ∈ fs.map Forwarding.node
    · have uncrowded' : m.Uncrowded a b k.id :=
        fun crowded => uncrowded (crowded.of_due couple.due)
      obtain ⟨f, hf, hnode, htarget⟩ := couple.symm.target h uncrowded' hright
      exact (accepted (h.congruent f hf k n (hnode ▸ couple.right.found)
        (htarget ▸ couple.left.found) (Node.isLeaf_eq_false_iff.mp couple.right_complex) label y x
        hy hx)).imp Meets.symm Alike.symm
    · -- Neither was forwarded, and so they have not met.
      obtain ⟨z, hzn, hzk⟩ := hmeets
      obtain rfl := (h.writes.canonical_of_notMem couple.left.canonical hleft).unique hzn
      obtain rfl := (h.writes.canonical_of_notMem couple.right.canonical hright).unique hzk
      exact absurd rfl couple.ne

/-- All is linked that is due where no crowds are looked into. -/
theorem Unifies.linked (h : m.Unifies a b fs m') (whole : m.Whole)
    (hxy : m.DueWhere a b (m.Uncrowded a b) x y) :
    Relation.TransGen (m.Linked a b m') x y := by
  induction hxy with
  | asked =>
      refine .single ⟨.asked, ?_⟩
      obtain ⟨n, k, left, right, rfl | ⟨hn, hk, hname⟩⟩ := h.joined
      · exact Or.inl ⟨n, left, right⟩
      · exact Or.inr ⟨n, k, h.since.leaf left hn, h.since.leaf right hk, hn, hk, hname⟩
  | @points id id' next hdue hnext ih =>
      refine .single ⟨hdue.due.points hnext, Or.inl ?_⟩
      obtain ⟨n, found, hn⟩ := Option.bind_eq_some_iff.mp hnext
      obtain ⟨last, path, hpath⟩ := whole id n found
      refine h.writes.extends.meets ?_
      cases hpath with
      | stop found' hlast =>
          obtain rfl := Option.some.inj (found.symm.trans found')
          cases hn.symm.trans hlast
      | go found' hn' rest =>
          obtain rfl := Option.some.inj (found.symm.trans found')
          obtain rfl := Option.some.inj (hn.symm.trans hn')
          exact ⟨last, ⟨_, .go found hn rest⟩, ⟨_, rest⟩⟩
  | @shares n k x y ours theirs hdue uncrowded left right ne hn hk first any hx hy ih =>
      refine .single ⟨hdue.due.shares trivial left right ne hn hk first any hx hy, ?_⟩
      have couple : m.Couple a b n k := ⟨left, right, ne, hn, hk, hdue.due⟩
      have hlabel : ours.label = theirs.label := by simpa using List.find?_some first
      have hours : (⟨theirs.label, .node x⟩ : Arc) ∈ n.arcs := by
        rw [← hlabel, ← hx]
        exact List.mem_of_find?_eq_some first
      have htheirs : (⟨theirs.label, .node y⟩ : Arc) ∈ k.arcs := by
        rw [← hy]
        exact any
      exact couple.shares h uncrowded (couple.meets h uncrowded ih) hours htheirs
  | symm _ ih => exact linked_symm ih
  | trans _ _ ih ih' => exact ih.trans ih'

/-- Leaves that are linked have one name, unless they are in a crowd. -/
theorem Unifies.name_eq (h : m.Unifies a b fs m') {p q : Node} (hp : m.Stands p)
    (hq : m.Stands q) (hpleaf : p.isLeaf = true) (hqleaf : q.isLeaf = true)
    (uncrowded : m.Uncrowded a b p.id) (hdue : m.Due a b p.id q.id)
    (linked : Relation.TransGen (m.Linked a b m') p.id q.id) : p.name = q.name := by
  by_contra hname
  -- A complex node beside them would make a crowd, and so only leaves are due with them.
  have leaves : ∀ c, m.Stands c → m.Due a b p.id c.id → c.isLeaf = true := by
    intro c hc hpc
    by_contra hleaf
    have hcomplex : c.isLeaf = false := Bool.eq_false_iff.mpr hleaf
    have ne : ∀ {l : Node}, m.Stands l → l.isLeaf = true → c.id ≠ l.id := by
      intro l hl hlleaf hid
      obtain rfl := hc.unique hl hid
      exact hleaf hlleaf
    exact uncrowded ⟨c, p, q, hc, hp, hq, hcomplex, hpc, hdue.refl_left, hdue,
      .of_complex hcomplex (ne hp hpleaf), .of_complex hcomplex (ne hq hqleaf),
      ⟨fun hid => hname (congrArg Node.name (hp.unique hq hid)), fun halike => hname halike.2.2⟩⟩
  have step : ∀ x y, (m.Due a b p.id x ∧ ∃ r, m.Canonical x r ∧ r.name = p.name) →
      m.Linked a b m' x y → m.Due a b p.id y ∧ ∃ r, m.Canonical y r ∧ r.name = p.name := by
    rintro x y ⟨hx, r, hr, hrname⟩ ⟨hxy, ⟨u, hxu, hyu⟩ | ⟨s, t, hs, ht, -, -, hst⟩⟩
    · have hu := h.along.stands hxu
      have huleaf := leaves u hu (h.along.canonical (propagates_due m a b) hxu hx)
      obtain rfl := hr.unique (h.since.leaf hxu huleaf)
      exact ⟨hx.trans hxy, r, h.since.leaf hyu huleaf, hrname⟩
    · obtain rfl := hr.unique hs
      exact ⟨hx.trans hxy, t, ht, hst.symm.trans hrname⟩
  suffices ∀ z, Relation.TransGen (m.Linked a b m') p.id z →
      m.Due a b p.id z ∧ ∃ r, m.Canonical z r ∧ r.name = p.name by
    obtain ⟨-, r, hr, hrname⟩ := this q.id linked
    obtain rfl := hq.canonical.unique hr
    exact hname hrname.symm
  intro z hz
  induction hz with
  | single hlink => exact step p.id _ ⟨hdue.refl_left, p, hp.canonical, rfl⟩ hlink
  | tail _ hlink ih => exact step _ _ ih hlink

/-- Where the nodes have unified there was no contradiction that is due without crowds. -/
theorem Unifies.consistent (h : m.Unifies a b fs m') (whole : m.Whole) :
    ¬ m.Contradiction a b (m.Uncrowded a b) := by
  rintro (⟨hdue, missing⟩ | ⟨hdue, uncrowded, hp, hq, hpleaf, hqleaf, hname⟩)
  · -- What is linked is stored.
    obtain ⟨z, ⟨-, hlink⟩, -⟩ := Relation.TransGen.head'_iff.mp (h.linked whole hdue)
    rcases hlink with ⟨n, hn, -⟩ | ⟨p, -, hp, -⟩
    · obtain ⟨x, found⟩ := hn.exists_found
      obtain ⟨x', found', -⟩ := h.along.evolves.found_before found
      cases missing.symm.trans found'
    · obtain ⟨x, found⟩ := hp.exists_found
      cases missing.symm.trans found
  · exact hname (h.name_eq hp hq hpleaf hqleaf uncrowded hdue.due (h.linked whole hdue))

end Memory

/-- What a call that succeeded leaves behind. -/
theorem unifies_of_ok (wellFormed : m.WellFormed) {fs : List Forwarding}
    (h : (unifyCore a b m).1 = .ok fs) : m.Unifies a b fs (unifyCore a b m).2 := by
  have hcall : unifyCore a b m = (.ok fs, (unifyCore a b m).2) := Prod.ext h rfl
  obtain ⟨run, hcourse, -, hstore⟩ := course_of_unifyCore hcall
  have hstore : run.store = (unifyCore a b m).2 := hstore
  obtain ⟨along, -⟩ := hcourse.along (Memory.propagates_due m a b) .asked
    (Memory.along_refl m _)
  have since := hcourse.steps_of_ok.since (Memory.since_refl m)
  exact ⟨hstore ▸ along, hstore ▸ since, (unifyCore_accounts hcall).1, unifyCore_joined hcall,
    unifyCore_congruent hcall wellFormed⟩

/-- Nodes that unify in one order unify in the other, unless there is a contradiction and each
is due only by a crowd. -/
theorem ok_of_swapped (reached : Reached Call.IsUnifyCore m)
    (h : (m.Contradiction a b fun _ => True) → m.Contradiction a b (m.Uncrowded a b))
    {fs : List Forwarding} (hok : (unifyCore a b m).1 = .ok fs) :
    ∃ fs', (unifyCore b a m).1 = .ok fs' := by
  have whole := reached.whole
  have unifies := unifies_of_ok reached.arisen.wellFormed hok
  exact unifyCore_ok_of_consistent whole fun contradiction =>
    unifies.consistent whole (h contradiction.swap)

/-- Whether two nodes unify does not depend on which of them comes first, as long as either
nothing that is due is in contradiction, or something is that is due without any crowd.  In the
first case they unify in both orders, and in the second in none. -/
theorem order_is_free (reached : Reached Call.IsUnifyCore m) (a b : NodeId)
    (h : (m.Contradiction a b fun _ => True) → m.Contradiction a b (m.Uncrowded a b)) :
    (∃ fs, (unifyCore a b m).1 = .ok fs) ↔ ∃ fs, (unifyCore b a m).1 = .ok fs := by
  constructor
  · rintro ⟨fs, hok⟩
    exact ok_of_swapped reached h hok
  · rintro ⟨fs, hok⟩
    refine ok_of_swapped reached (fun contradiction => ?_) hok
    exact (h contradiction.swap).swap.mono fun id uncrowded crowded => uncrowded crowded.swap

theorem reached_crossReferring : Reached Call.IsUnifyCore crossReferring := by
  have first : Reached Call.IsUnifyCore _ := Reached.empty.create
    (.complex ⟨1⟩ "ann" [⟨"next", .node ⟨2⟩⟩])
  exact first.create (.complex ⟨2⟩ "ann" [⟨"next", .node ⟨1⟩⟩])

/-- Two nodes that refer to each other are no crowd, and unify in both orders. -/
theorem order_is_free_crossReferring :
    (unifyCore ⟨1⟩ ⟨2⟩ crossReferring).1 = .ok [⟨⟨2⟩, ⟨1⟩, 11, 0⟩] ∧
      ((∃ fs, (unifyCore ⟨1⟩ ⟨2⟩ crossReferring).1 = .ok fs) ↔
        ∃ fs, (unifyCore ⟨2⟩ ⟨1⟩ crossReferring).1 = .ok fs) := by
  have uncrowded := Memory.uncrowded_of_length_lt (m := crossReferring) (by decide) ⟨1⟩ ⟨2⟩
  exact ⟨by cbv, order_is_free reached_crossReferring ⟨1⟩ ⟨2⟩
    fun contradiction => contradiction.mono fun id _ => uncrowded id⟩

/-- Two leaves with different names, a complex node, and two nodes that refer to them under the
same labels, but in another order. -/
def crossed : Memory :=
  { nodes := [.leaf ⟨3⟩ "ann" "tea", .leaf ⟨4⟩ "ann" "mate", .complex ⟨5⟩ "ann" [],
      .complex ⟨1⟩ "ann" [⟨"a", .node ⟨3⟩⟩, ⟨"b", .node ⟨3⟩⟩],
      .complex ⟨2⟩ "ann" [⟨"b", .node ⟨4⟩⟩, ⟨"a", .node ⟨5⟩⟩]] }

theorem reached_crossed : Reached Call.IsUnifyCore crossed := by
  have first : Reached Call.IsUnifyCore _ := Reached.empty.create (.leaf ⟨3⟩ "ann" "tea")
  have second := first.create (.leaf ⟨4⟩ "ann" "mate")
  have third := second.create (.complex ⟨5⟩ "ann" [])
  have fourth := third.create (.complex ⟨1⟩ "ann" [⟨"a", .node ⟨3⟩⟩, ⟨"b", .node ⟨3⟩⟩])
  exact fourth.create (.complex ⟨2⟩ "ann" [⟨"b", .node ⟨4⟩⟩, ⟨"a", .node ⟨5⟩⟩])

/-- The order may matter: in the one order the two leaves meet at first, and in the other one
after the first of them was forwarded into the complex node. -/
theorem order_matters :
    ¬ ∀ m, Reached Call.IsUnifyCore m → ∀ a b,
      (∃ fs, (unifyCore a b m).1 = .ok fs) ↔ ∃ fs, (unifyCore b a m).1 = .ok fs := by
  intro hfree
  have hok : (unifyCore ⟨2⟩ ⟨1⟩ crossed).1
      = .ok [⟨⟨3⟩, ⟨5⟩, 11, 0⟩, ⟨⟨4⟩, ⟨5⟩, 12, 0⟩, ⟨⟨2⟩, ⟨1⟩, 13, 0⟩] := by cbv
  have herror : (unifyCore ⟨1⟩ ⟨2⟩ crossed).1 = .error (.incompatibleLeaves "tea" "mate") := by
    cbv
  obtain ⟨fs, hfs⟩ := (hfree crossed reached_crossed ⟨1⟩ ⟨2⟩).mpr ⟨_, hok⟩
  cases herror.symm.trans hfs

end Ideas
