/-
Stored nodes are well-formed.

No list of arcs repeats a label, a leaf carries no arcs and has received none, a node that
points nowhere has received nothing and bears no stamp, and a complex node that points on
has received exactly the arcs that it lacked of the node it points at, in their order.

The last one is a promise about two nodes, and it is made when the one is forwarded: by a
difference, from nodes that were read before.  It stays true because the arcs that a node
was made with never change, whatever becomes of the node later, and because a node is
forwarded once (`Node.WellFormed.carry`).  Every change of the data keeps it
(`kept_wellFormed`), and so it holds of all that comes about, also where requests fail.
-/
import Ideas.Proofs.Preservation

namespace Ideas

open NodeStore Backed

/-! ### Labels -/

namespace Arcs

theorem nodup_labels_complement {ours : List Arc} (h : (labels ours).Nodup)
    (theirs : List Arc) : (labels (complement ours theirs)).Nodup :=
  h.sublist (List.filter_sublist.map Arc.label)

/-- What one list has more than the other can follow on the other. -/
theorem nodup_labels_append_complement {ours theirs : List Arc} (hours : (labels ours).Nodup)
    (htheirs : (labels theirs).Nodup) : (labels (theirs ++ complement ours theirs)).Nodup := by
  rw [labels, List.map_append]
  refine htheirs.append (nodup_labels_complement hours theirs) ?_
  intro label hleft hright
  exact (mem_labels_complement.mp hright).2 hleft

end Arcs

/-- No label is gathered twice along a chain. -/
theorem nodup_labels_gatheredArcs (chain : List Node) :
    (Arcs.labels (gatheredArcs chain)).Nodup := by
  suffices ∀ arcs : List Arc, (Arcs.labels arcs).Nodup → (Arcs.labels (chain.foldl
      (fun arcs node => Arcs.union (Arcs.union arcs node.arcs) node.complement) arcs)).Nodup from
    this [] List.nodup_nil
  induction chain with
  | nil => exact fun _ h => h
  | cons n rest ih =>
      intro arcs h
      exact ih _ (Arcs.nodup_labels_union (Arcs.nodup_labels_union h _) _)

/-! ### Well-formed nodes -/

/-- What holds of a node by itself, and of it and the node that it points at. -/
structure Node.WellFormed (m : Memory) (n : Node) : Prop where
  nodup_labels : (Arcs.labels n.arcs).Nodup
  leaf_bare : n.isLeaf = true → n.arcs = [] ∧ n.complement = []
  untouched : n.forward = none → n.complement = [] ∧ n.generation = 0
  received : n.kind = .complex → ∀ target, n.forward = some target →
    ∃ k, m.node? target = some k ∧ n.complement = Arcs.complement k.arcs n.arcs

/-- All nodes of a memory are well-formed. -/
def Memory.WellFormed (m : Memory) : Prop :=
  ∀ id n, m.node? id = some n → n.WellFormed m

variable {m m' : Memory} {n k : Node}

/-- A node stays well-formed where the nodes that were stored are still stored with their arcs. -/
theorem Node.WellFormed.carry (h : n.WellFormed m) (hkeeps : ∀ {id : NodeId} {k : Node},
    m.node? id = some k → ∃ k', m'.node? id = some k' ∧ k'.arcs = k.arcs) : n.WellFormed m' := by
  refine ⟨h.nodup_labels, h.leaf_bare, h.untouched, ?_⟩
  intro hcomplex target htarget
  obtain ⟨k, found, hreceived⟩ := h.received hcomplex target htarget
  obtain ⟨k', found', harcs⟩ := hkeeps found
  exact ⟨k', found', harcs ▸ hreceived⟩

/-- A node that is new and bears no mark of a unification. -/
theorem Node.WellFormed.of_new (hnodup : (Arcs.labels n.arcs).Nodup)
    (hbare : n.isLeaf = true → n.arcs = []) (hcomplement : n.complement = [])
    (hforward : n.forward = none) (hgeneration : n.generation = 0) : n.WellFormed m := by
  refine ⟨hnodup, fun hn => ⟨hbare hn, hcomplement⟩, fun _ => ⟨hcomplement, hgeneration⟩, ?_⟩
  intro _ target htarget
  rw [hforward] at htarget
  cases htarget

theorem Node.Made.wellFormed (hn : n.Made) : n.WellFormed m := by
  cases hn with
  | leaf => exact .of_new List.nodup_nil (fun _ => rfl) rfl rfl rfl
  | complex _ _ arcs | namedComplex _ _ _ arcs =>
      exact .of_new (Arcs.nodup_labels_dedup arcs) (fun hleaf => nomatch hleaf) rfl rfl rfl

/-- No label stands twice among the arcs a node was made with and those it received. -/
theorem Memory.WellFormed.nodup_labels_append (h : m.WellFormed) {id : NodeId}
    (found : m.node? id = some n) : (Arcs.labels (n.arcs ++ n.complement)).Nodup := by
  have hn := h id n found
  have hnothing : n.complement = [] → (Arcs.labels (n.arcs ++ n.complement)).Nodup := by
    intro hcomplement
    rw [hcomplement, List.append_nil]
    exact hn.nodup_labels
  cases hforward : n.forward with
  | none => exact hnothing (hn.untouched hforward).1
  | some target =>
      by_cases hleaf : n.isLeaf = true
      · exact hnothing (hn.leaf_bare hleaf).2
      · have hcomplex := Node.isLeaf_eq_false_iff.mp (Bool.eq_false_iff.mpr hleaf)
        obtain ⟨k, hk, hreceived⟩ := hn.received hcomplex target hforward
        rw [hreceived]
        exact Arcs.nodup_labels_append_complement (h target k hk).nodup_labels hn.nodup_labels

/-! ### What every change keeps -/

namespace Memory.WellFormed

theorem addNode (h : m.WellFormed) (new : m.node? n.id = none)
    (hn : ∀ {m : Memory}, n.WellFormed m) : (m.addNode n).WellFormed := by
  intro id x found
  rw [node?_addNode new] at found
  split at found
  · cases found
    exact hn
  · refine (h id x found).carry fun {j k} hk => ⟨k, ?_, rfl⟩
    have hne : j ≠ n.id := by
      rintro rfl
      rw [hk] at new
      cases new
    rw [node?_addNode new, if_neg hne, hk]

/-- A node that is forwarded had received nothing before, and receives what it lacks. -/
theorem forwardNode (h : m.WellFormed) (may : m.MayForward n k) :
    (m.forwardNode n k.id (n.receives k)).WellFormed := by
  have hn := h n.id n may.found
  obtain ⟨hnothing, -⟩ := hn.untouched may.forward_eq_none
  -- The arcs that nodes were made with are what they were.
  have hkeeps : ∀ {id : NodeId} {x : Node}, m.node? id = some x →
      ∃ x', (m.forwardNode n k.id (n.receives k)).node? id = some x' ∧ x'.arcs = x.arcs := by
    intro id x hx
    rw [node?_forwardNode may.found]
    split
    · next hid =>
        subst hid
        obtain rfl := Option.some.inj (hx.symm.trans may.found)
        exact ⟨_, rfl, rfl⟩
    · exact ⟨x, hx, rfl⟩
  intro id x found
  rw [node?_forwardNode may.found] at found
  split at found
  · cases found
    refine ⟨hn.nodup_labels, ?_, fun hnone => absurd hnone (Option.some_ne_none _), ?_⟩
    · intro hleaf
      have hleaf : n.isLeaf = true := hleaf
      refine ⟨(hn.leaf_bare hleaf).1, ?_⟩
      show n.complement ++ n.receives k = []
      rw [hnothing, Node.receives, if_pos hleaf, List.nil_append]
    · intro hcomplex target htarget
      have hcomplex : n.isLeaf = false := Node.isLeaf_eq_false_iff.mpr hcomplex
      cases htarget
      obtain ⟨k', found', harcs⟩ := hkeeps may.target_found
      refine ⟨k', found', ?_⟩
      show n.complement ++ n.receives k = Arcs.complement k'.arcs n.arcs
      rw [hnothing, Node.receives, if_neg (Bool.eq_false_iff.mp hcomplex), List.nil_append, harcs]
  · exact (h id x found).carry hkeeps

theorem point (h : m.WellFormed) (id copy : NodeId) :
    (m.modifyNode id (Update.applyTo { copy := some copy })).WellFormed := by
  have hkeeps : ∀ {j : NodeId} {x : Node}, m.node? j = some x →
      ∃ x', (m.modifyNode id (Update.applyTo { copy := some copy })).node? j = some x' ∧
        x'.arcs = x.arcs := by
    intro j x hx
    rw [node?_modifyNode _ _ (Update.id_applyTo _), hx]
    split
    · exact ⟨_, rfl, rfl⟩
    · exact ⟨x, rfl, rfl⟩
  intro j x found
  rw [node?_modifyNode _ _ (Update.id_applyTo _)] at found
  split at found
  · obtain ⟨y, hy, rfl⟩ := Option.map_eq_some_iff.mp found
    obtain ⟨hnodup, hbare, huntouched, hreceived⟩ := (h j y hy).carry hkeeps
    exact ⟨hnodup, hbare, huntouched, hreceived⟩
  · exact (h j x found).carry hkeeps

/-- A merged view bears the stamp of the canonical node, and that one has none. -/
theorem addView (h : m.WellFormed) {copy id : NodeId} {view : Node}
    (isView : m.IsView copy id view) (new : m.node? view.id = none) :
    (m.addNode view).WellFormed := by
  have hbare := isView.arcs_eq_nil
  obtain ⟨chain, input, canonical, hchain, -, hlast, rfl⟩ := isView
  obtain ⟨path, last, rfl, hpath⟩ := forwardChain_eq_ok_iff.mp hchain
  obtain rfl : last = canonical := Option.some.inj (List.getLast?_concat.symm.trans hlast)
  obtain ⟨found, hforward⟩ := hpath.last_found
  have hgeneration := ((h last.id last found).untouched hforward).2
  exact h.addNode new (.of_new (nodup_labels_gatheredArcs _) hbare rfl rfl hgeneration)

end Memory.WellFormed

theorem kept_wellFormed : Memory.Kept Memory.WellFormed where
  stamp _ h id n found := (h id n found).carry fun found => ⟨_, found, rfl⟩
  forward h may := h.forwardNode may
  addView h isView new := h.addView isView new
  point id copy h := h.point id copy

theorem Arisen.wellFormed (h : Arisen m) : m.WellFormed := by
  refine h.preserves kept_wellFormed ?_ ?_ ?_
  · intro id n found
    cases found
  · intro m n hm hn new
    exact hm.addNode new hn.wellFormed
  · intro m i hm id n found
    exact (hm id n found).carry fun found => ⟨_, found, rfl⟩

/-- No leaf carries arcs. -/
def Memory.LeavesBare (m : Memory) : Prop :=
  ∀ (id : NodeId) (n : Node), m.node? id = some n → n.isLeaf = true → n.arcs = []

theorem Reached.leavesBare {calls : Call → Prop} (h : Reached calls m) : m.LeavesBare :=
  fun id n found hleaf => ((h.arisen.wellFormed id n found).leaf_bare hleaf).1

/-- All nodes that come about are well-formed, whether calls succeed or break off at any request: no
list of arcs repeats a label, leaves are bare, a node that points nowhere is as it was made, and
a complex node that points on has received what it lacked of its target, in that order.  So no
label stands twice among all the arcs of a node. -/
theorem nodes_wellFormed (h : Arisen m) :
    ∀ id n, m.node? id = some n →
      n.WellFormed m ∧ (Arcs.labels (n.arcs ++ n.complement)).Nodup := by
  intro id n found
  exact ⟨h.wellFormed id n found, h.wellFormed.nodup_labels_append found⟩

/-- Two nodes that refer to two others under one label, on a store that will refuse the second
request to update a node. -/
def refusing : Monitored Memory where
  inner := { nodes := [.complex ⟨1⟩ "ann" [⟨"in", .node ⟨3⟩⟩, ⟨"left", .text "l"⟩],
    .complex ⟨2⟩ "ann" [⟨"in", .node ⟨4⟩⟩, ⟨"right", .text "r"⟩],
    .complex ⟨3⟩ "ann" [⟨"why", .text "w"⟩], .complex ⟨4⟩ "ann" [⟨"how", .text "h"⟩]] }
  fault := some ⟨.update, 2⟩

theorem arisen_refusing : Arisen refusing.inner := by
  have first : Arisen _ := Arisen.create (s := ({} : Memory)) .empty
    (.complex ⟨1⟩ "ann" [⟨"in", .node ⟨3⟩⟩, ⟨"left", .text "l"⟩])
  have second : Arisen _ := Arisen.create (σ := Memory) first
    (.complex ⟨2⟩ "ann" [⟨"in", .node ⟨4⟩⟩, ⟨"right", .text "r"⟩])
  have third : Arisen _ := Arisen.create (σ := Memory) second
    (.complex ⟨3⟩ "ann" [⟨"why", .text "w"⟩])
  exact Arisen.create (σ := Memory) third (.complex ⟨4⟩ "ann" [⟨"how", .text "h"⟩])

/-- The call breaks off between the two forward references that it was to write: the nodes inside
are joined, and the nodes it was made for are not. -/
theorem nodes_wellFormed_refusing :
    let m := (unifyCore ⟨1⟩ ⟨2⟩ refusing).2.inner
    (unifyCore ⟨1⟩ ⟨2⟩ refusing).1.toOption = none ∧ m.forward? ⟨3⟩ = some ⟨4⟩ ∧
      m.forward? ⟨1⟩ = none ∧
      ∀ id n, m.node? id = some n →
        n.WellFormed m ∧ (Arcs.labels (n.arcs ++ n.complement)).Nodup := by
  intro m
  exact ⟨by decide +kernel, by decide +kernel, by decide +kernel,
    nodes_wellFormed (Arisen.call (s := refusing) arisen_refusing (.unifyCore ⟨1⟩ ⟨2⟩))⟩

end Ideas
