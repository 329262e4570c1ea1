/-
Which labels a merged view carries.

A full unification makes the view of the first node from its forward chain, so the view
has the labels of all nodes on that chain and no others (`mem_labels_gatheredArcs`).  The
node that the first id led to before is on the chain, and so is the one that the second
id led to, unless that node was itself forwarded: `labels_kept`.

That exception is real.  Where two nodes refer to each other, the pair is met again the
other way round and the second node is forwarded into the first.  The first node then
receives nothing, the second is not on its chain, and what only the second one had is
missing from the view (`label_lost`).
-/
import Mathlib
import Ideas.Proofs.Unification.Report
import Ideas.Proofs.Unification.Success
import Ideas.Proofs.WellFormed

namespace Ideas

open NodeStore Backed

/-! ### The labels along a chain -/

theorem mem_labels_foldl {label : String} (chain : List Node) (arcs : List Arc) :
    label ∈ Arcs.labels (chain.foldl
        (fun arcs node => Arcs.union (Arcs.union arcs node.arcs) node.complement) arcs) ↔
      label ∈ Arcs.labels arcs ∨
        ∃ n ∈ chain, label ∈ Arcs.labels n.arcs ∨ label ∈ Arcs.labels n.complement := by
  induction chain generalizing arcs with
  | nil => simp
  | cons n rest ih =>
      rw [List.foldl_cons, ih, Arcs.mem_labels_union, Arcs.mem_labels_union,
        List.exists_mem_cons_iff]
      simp only [or_assoc]

theorem mem_labels_gatheredArcs {label : String} {chain : List Node} :
    label ∈ Arcs.labels (gatheredArcs chain) ↔
      ∃ n ∈ chain, label ∈ Arcs.labels n.arcs ∨ label ∈ Arcs.labels n.complement := by
  rw [gatheredArcs, mem_labels_foldl]
  simp [Arcs.labels]

/-! ### The answer of a full unification -/

variable {σ : Type} [NodeStore σ] [Backed σ] {s s' : σ} {a b copy : NodeId}

theorem unifyCore_joined {fs : List Forwarding} (h : unifyCore a b s = (.ok fs, s')) :
    (contents s').Joined a b := by
  obtain ⟨run, hcourse, -, hstore⟩ := course_of_unifyCore h
  rw [← hstore]
  exact hcourse.joined rfl (Run.settled_start _) rfl

/-- Where something was forwarded, the answer names the merged view. -/
theorem unify_result {u : Unified} (h : unify copy a b s = (.ok u, s')) (hne : u.forwarded ≠ []) :
    ∃ core view, unifyCore a b s = (.ok u.forwarded, core) ∧
      Materializes (contents core) copy a (.ok view) (contents s') ∧ u.result = view.id := by
  obtain ⟨core, _, hcore, -, -, ⟨hnil, -⟩ | ⟨-, view, hmade, hresult⟩⟩ := unify_ok_cases h
  · exact absurd hnil hne
  · exact ⟨core, view, hcore, hmade, hresult⟩

/-! ### What is kept -/

/-- A unification of `a` and `b` that forwards something keeps the labels of both nodes: each label
that was on one of the nodes they led to is on the node that it answers with. -/
def KeepsLabels (m : Memory) (copy a b : NodeId) : Prop :=
  ∀ (u : Unified) (n k view : Node), (unify copy a b m).1 = .ok u → u.forwarded ≠ [] →
    (dereference a m).1 = .ok n → (dereference b m).1 = .ok k →
    (unify copy a b m).2.node? u.result = some view →
    Arcs.labels n.arcs ⊆ Arcs.labels view.arcs ∧ Arcs.labels k.arcs ⊆ Arcs.labels view.arcs

variable {m m' : Memory} {n k view : Node}

/-- A view carries the labels of each node that is on the chain of its id. -/
theorem Memory.IsView.labels_subset (h : m.IsView copy a view) {path : List Node} {last : Node}
    (hpath : m.Path a path last) (hn : n ∈ path ++ [last]) :
    Arcs.labels n.arcs ⊆ Arcs.labels view.arcs := by
  obtain ⟨chain, input, canonical, hchain, -, -, rfl⟩ := h
  obtain ⟨path', last', rfl, hpath'⟩ := Memory.forwardChain_eq_ok_iff.mp hchain
  obtain ⟨rfl, rfl⟩ := hpath.unique hpath'
  intro label hlabel
  exact mem_labels_gatheredArcs.mpr ⟨n, hn, Or.inl hlabel⟩

/-- Where the first id led before is on its chain afterwards, with the arcs it had. -/
theorem Memory.Writes.on_chain {fs : List Forwarding} (h : m.Writes fs m')
    (hn : m.Canonical a n) :
    ∃ path last n', m'.Path a path last ∧ n' ∈ path ++ [last] ∧ n'.arcs = n.arcs := by
  obtain ⟨path, hpath⟩ := hn
  obtain ⟨path', last', hpath', hgrown⟩ := h.extends _ _ _ hpath
  have hmem : n.id ∈ pathIds path n := List.mem_map.mpr ⟨n, by simp, rfl⟩
  obtain ⟨n', hn', hid⟩ := List.mem_map.mp (hgrown.subset hmem)
  refine ⟨path', last', n', hpath', hn', ?_⟩
  have found' : m'.node? n'.id = some n' := by
    rcases List.mem_append.mp hn' with hn' | hn'
    · exact (hpath'.from_mem n' hn').1
    · rw [List.mem_singleton.mp hn']
      exact hpath'.last_found.1
  obtain ⟨x, hx, evolves⟩ := h.evolves.found hpath.last_found.1
  rw [hid] at found'
  obtain rfl := Option.some.inj (hx.symm.trans found')
  exact evolves.arcs_eq

/-- A node that was not forwarded is still where ids lead that led there. -/
theorem Memory.Writes.canonical_of_notMem {fs : List Forwarding} (h : m.Writes fs m')
    (hk : m.Canonical b k) (hnot : k.id ∉ fs.map Forwarding.node) : m'.Canonical b k := by
  have found : m'.node? k.id = some k := by
    rw [h.accounts.others k.id hnot]
    exact hk.found
  obtain ⟨x, hx, hself⟩ := h.extends.canonical hk
  obtain rfl := hself.unique (Memory.canonical_self found hk.forward_eq_none)
  exact hx

/-- The merged view carries all labels of the node that the first id led to.  It also carries those
of the node that the second id led to, if the call did not forward that node. -/
theorem labels_kept {calls : Call → Prop} (reached : Reached calls m) {u : Unified}
    (hu : (unify copy a b m).1 = .ok u) (hne : u.forwarded ≠ [])
    (hn : (dereference a m).1 = .ok n) (hk : (dereference b m).1 = .ok k) :
    ∃ view, (unify copy a b m).2.node? u.result = some view ∧
      Arcs.labels n.arcs ⊆ Arcs.labels view.arcs ∧
      (k.id ∉ u.forwarded.map Forwarding.node → Arcs.labels k.arcs ⊆ Arcs.labels view.arcs) := by
  rcases hcall : unify copy a b m with ⟨r, m'⟩
  rw [hcall] at hu
  obtain rfl : r = .ok u := hu
  obtain ⟨core, view, hcore, hmade, hresult⟩ := unify_result hcall hne
  have hmade : Materializes core copy a (.ok view) m' := hmade
  have hwrites : m.Writes u.forwarded core := (unifyCore_accounts hcore).1
  have left := Memory.dereference_eq_ok_iff.mp hn
  have right := Memory.dereference_eq_ok_iff.mp hk
  cases hmade with
  | done isView new =>
      have hstored : (Memory.copyTo core a view).node? u.result = some view := by
        obtain ⟨x, found⟩ := isView.found
        have hne' : view.id ≠ a := by
          rintro heq
          rw [isView.id_eq] at heq
          rw [heq, found] at new
          cases new
        rw [hresult, Memory.node?_copyTo (isView.id_eq ▸ new) found, if_neg hne', if_pos rfl]
      refine ⟨view, hstored, ?_, ?_⟩
      · obtain ⟨path, last, n', hpath, hmem, harcs⟩ := hwrites.on_chain left
        rw [← harcs]
        exact isView.labels_subset hpath hmem
      · intro hnot
        have right' := hwrites.canonical_of_notMem right hnot
        obtain ⟨x, y, hx, hy, hxy⟩ := unifyCore_joined hcore
        obtain rfl := hy.unique right'
        rcases hxy with rfl | ⟨-, hleaf, -⟩
        · obtain ⟨path, hpath⟩ := hx
          exact isView.labels_subset hpath (by simp)
        · rw [reached.leavesBare _ _ right.found hleaf]
          exact List.nil_subset _

/-- Two nodes without a common label. -/
def apartPair : Memory :=
  { nodes := [.complex ⟨1⟩ "ann" [⟨"left", .text "l"⟩], .complex ⟨2⟩ "ann" [⟨"right", .text "r"⟩]] }

theorem reached_apartPair : Reached Call.IsUnify apartPair := by
  have first : Reached Call.IsUnify _ := Reached.empty.create
    (.complex ⟨1⟩ "ann" [⟨"left", .text "l"⟩])
  exact first.create (.complex ⟨2⟩ "ann" [⟨"right", .text "r"⟩])

/-- The first node is forwarded into the second, and the view has the labels of both. -/
theorem labels_kept_apartPair :
    (unify ⟨3⟩ ⟨1⟩ ⟨2⟩ apartPair).1 = .ok ⟨⟨3⟩, ⟨2⟩, [⟨⟨1⟩, ⟨2⟩, 11, 1⟩]⟩ ∧
      ∃ view, (unify ⟨3⟩ ⟨1⟩ ⟨2⟩ apartPair).2.node? ⟨3⟩ = some view ∧
        ["left"] ⊆ Arcs.labels view.arcs ∧
        ((⟨2⟩ : NodeId) ∉ [⟨1⟩] → ["right"] ⊆ Arcs.labels view.arcs) := by
  have hcall : (unify ⟨3⟩ ⟨1⟩ ⟨2⟩ apartPair).1 = .ok ⟨⟨3⟩, ⟨2⟩, [⟨⟨1⟩, ⟨2⟩, 11, 1⟩]⟩ := by cbv
  exact ⟨hcall, labels_kept reached_apartPair hcall (List.cons_ne_nil _ _) rfl rfl⟩

/-- Two nodes that refer to each other, each with a label of its own. -/
def mutualPair : Memory :=
  { nodes := [.complex ⟨1⟩ "ann" [⟨"next", .node ⟨2⟩⟩, ⟨"left", .text "l"⟩],
      .complex ⟨2⟩ "ann" [⟨"next", .node ⟨1⟩⟩, ⟨"right", .text "r"⟩]] }

theorem reached_mutualPair : Reached Call.IsUnify mutualPair := by
  have first : Reached Call.IsUnify _ := Reached.empty.create
    (.complex ⟨1⟩ "ann" [⟨"next", .node ⟨2⟩⟩, ⟨"left", .text "l"⟩])
  exact first.create (.complex ⟨2⟩ "ann" [⟨"next", .node ⟨1⟩⟩, ⟨"right", .text "r"⟩])

/-- Not all labels are kept: where two nodes refer to each other, a label that only the second of
them had is on no arc of the answer. -/
theorem label_lost :
    ¬ ∀ m, Reached Call.IsUnify m → ∀ copy a b, KeepsLabels m copy a b := by
  intro hkept
  have hreport : (unify ⟨3⟩ ⟨1⟩ ⟨2⟩ mutualPair).1.toOption
      = some ⟨⟨3⟩, ⟨1⟩, [⟨⟨2⟩, ⟨1⟩, 11, 1⟩]⟩ := by decide +kernel
  have hlabels : ((unify ⟨3⟩ ⟨1⟩ ⟨2⟩ mutualPair).2.node? ⟨3⟩).map (Arcs.labels ·.arcs)
      = some ["next", "left"] := by decide +kernel
  cases hcall : (unify ⟨3⟩ ⟨1⟩ ⟨2⟩ mutualPair).1 with
  | error e =>
      rw [hcall] at hreport
      cases hreport
  | ok u =>
      rw [hcall] at hreport
      obtain rfl : u = _ := Option.some.inj hreport
      obtain ⟨view, hview, hviewLabels⟩ := Option.map_eq_some_iff.mp hlabels
      obtain ⟨-, hright⟩ := hkept mutualPair reached_mutualPair ⟨3⟩ ⟨1⟩ ⟨2⟩ _ _ _ view hcall
        (List.cons_ne_nil _ _) rfl rfl hview
      have hmem : "right" ∈ Arcs.labels view.arcs := hright (by decide)
      rw [hviewLabels] at hmem
      exact absurd hmem (by decide)

end Ideas
