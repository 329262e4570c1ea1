/-
What the answer of a unification has to do with the merged view.

A unification that forwards something answers with the merged view as it is then.  One that
finds nothing to do writes nothing, and answers with the copy that the first node has: a
merged view that was made earlier.  The chain behind the node may have grown since then, by
calls on other ids, and then the copy lacks what was gathered in the meantime
(`stale_copy`).

It lacks nothing else.  A chain is only ever continued, so what is gathered along it later
begins with what was gathered before (`Memory.Accrues`), and every copy carries a start of what the
node that points at it would get today (`Memory.CopiesTrail`).  Where there is no copy the answer is
the canonical node, which has its own arcs and none of those that stand before it on the
chain.
-/
import Ideas.Proofs.Unification.Idempotence

namespace Ideas

open NodeStore Backed

/-! ### Lists of arcs that go on -/

namespace Arcs

variable {arcs arcs' : List Arc}

theorem union_append (arcs extra more : List Arc) :
    union arcs (extra ++ more) = union (union arcs extra) more := by
  rw [union, union, union, List.foldl_append]

/-- A union with arcs whose labels are all there adds nothing. -/
theorem union_of_labels_subset {extra : List Arc} (h : labels extra ⊆ labels arcs) :
    union arcs extra = arcs := by
  induction extra with
  | nil => rfl
  | cons arc rest ih =>
      obtain ⟨harc, hrest⟩ := List.cons_subset.mp h
      rw [union, List.foldl_cons, insertNew, if_pos harc]
      exact ih hrest

/-- A list that goes on has the same first arcs of each label, and then others. -/
theorem dedup_prefix (h : arcs <+: arcs') : dedup arcs <+: dedup arcs' := by
  obtain ⟨more, rfl⟩ := h
  rw [dedup, dedup, union_append]
  exact prefix_union _ _

/-- A union with a list that begins with the arcs that are there is that list. -/
theorem union_of_prefix (h : arcs <+: arcs') (hnodup : (labels arcs').Nodup) :
    union arcs arcs' = arcs' := by
  obtain ⟨more, rfl⟩ := h
  have hfront : (labels arcs).Nodup := hnodup.sublist ((List.sublist_append_left _ _).map _)
  calc union arcs (arcs ++ more)
      = union (union arcs arcs) more := union_append arcs arcs more
    _ = union (dedup arcs) more := by
        rw [union_of_labels_subset (List.Subset.refl _), dedup_of_nodup hfront]
    _ = dedup (arcs ++ more) := (union_append [] arcs more).symm
    _ = arcs ++ more := dedup_of_nodup hnodup

/-- A list that goes on without further labels does not go on. -/
theorem eq_of_prefix (h : arcs <+: arcs') (hnodup : (labels arcs').Nodup)
    (hlabels : labels arcs' ⊆ labels arcs) : arcs = arcs' := by
  rw [← union_of_prefix h hnodup, union_of_labels_subset hlabels]

end Arcs

/-! ### What a chain gathers -/

/-- The arcs that a chain has to gather from, those of each node before those it received. -/
def carriedArcs (chain : List Node) : List Arc :=
  chain.flatMap fun n => n.arcs ++ n.complement

theorem carriedArcs_cons (n : Node) (chain : List Node) :
    carriedArcs (n :: chain) = n.arcs ++ n.complement ++ carriedArcs chain := rfl

/-- What is gathered is the first arc of each label. -/
theorem gatheredArcs_eq_dedup (chain : List Node) :
    gatheredArcs chain = Arcs.dedup (carriedArcs chain) := by
  suffices ∀ arcs, chain.foldl
      (fun arcs node => Arcs.union (Arcs.union arcs node.arcs) node.complement) arcs
      = Arcs.union arcs (carriedArcs chain) from this []
  induction chain with
  | nil => exact fun _ => rfl
  | cons n rest ih =>
      intro arcs
      rw [List.foldl_cons, ih, ← Arcs.union_append, ← Arcs.union_append, carriedArcs_cons,
        List.append_assoc]

/-- The last node of a chain has all that the chain has gathered if the nodes before it have
gathered no more than a start of its arcs. -/
theorem gatheredArcs_concat_eq_iff {path : List Node} {last : Node}
    (hnothing : last.complement = []) (hnodup : (Arcs.labels last.arcs).Nodup) :
    last.arcs = gatheredArcs (path ++ [last]) ↔ gatheredArcs path <+: last.arcs := by
  have hlast : gatheredArcs (path ++ [last]) = Arcs.union (gatheredArcs path) last.arcs := by
    rw [gatheredArcs, List.foldl_append, List.foldl_cons, List.foldl_nil, hnothing]
    rfl
  rw [hlast]
  constructor
  · intro heq
    rw [heq]
    exact Arcs.prefix_union _ _
  · exact fun h => (Arcs.union_of_prefix h hnodup).symm

namespace Memory

variable {m m' : Memory} {id : NodeId} {n k view : Node} {path : List Node} {last : Node}

/-- Along every path of `m` there is in `m'` all that there was, and then more. -/
def Accrues (m m' : Memory) : Prop :=
  ∀ (id : NodeId) (path : List Node) (last : Node), m.Path id path last →
    ∃ path' last', m'.Path id path' last' ∧
      carriedArcs (path ++ [last]) <+: carriedArcs (path' ++ [last'])

/-- Nodes that are still there with their arcs, and point where they did, carry what they did. -/
theorem carriedArcs_of_same (h : ∀ {id : NodeId} {n : Node}, m.node? id = some n →
    ∃ n', m'.node? id = some n' ∧ n'.forward = n.forward ∧ n'.arcs = n.arcs ∧
      n'.complement = n.complement) (hpath : m.Path id path last) :
    ∃ path' last', m'.Path id path' last' ∧
      carriedArcs (path' ++ [last']) = carriedArcs (path ++ [last]) := by
  induction hpath with
  | @stop id n found hn =>
      obtain ⟨n', found', hforward, harcs, hcomplement⟩ := h found
      refine ⟨[], n', .stop found' (hforward.trans hn), ?_⟩
      simp [carriedArcs, harcs, hcomplement]
  | @go id next n last path found hn _ ih =>
      obtain ⟨n', found', hforward, harcs, hcomplement⟩ := h found
      obtain ⟨path', last', hpath', heq⟩ := ih
      refine ⟨n' :: path', last', .go found' (hforward.trans hn) hpath', ?_⟩
      rw [List.cons_append, List.cons_append, carriedArcs_cons, carriedArcs_cons, heq, harcs,
        hcomplement]

theorem accrues_of_same (h : ∀ {id : NodeId} {n : Node}, m.node? id = some n →
    ∃ n', m'.node? id = some n' ∧ n'.forward = n.forward ∧ n'.arcs = n.arcs ∧
      n'.complement = n.complement) : m.Accrues m' := by
  intro id path last hpath
  obtain ⟨path', last', hpath', heq⟩ := carriedArcs_of_same h hpath
  exact ⟨path', last', hpath', heq ▸ List.prefix_refl _⟩

/-- A path that ended at a node which is forwarded goes on: what the node received comes after all
that was carried before, and then what its target carries. -/
theorem accrues_forwardNode (may : m.MayForward n k) (arcs : List Arc) :
    m.Accrues (m.forwardNode n k.id arcs) := by
  have hnode := node?_forwardNode may.found k.id arcs
  have hself := (hnode n.id).trans (if_pos rfl)
  have hother : ∀ {id : NodeId}, id ≠ n.id →
      (m.forwardNode n k.id arcs).node? id = m.node? id := fun hne => (hnode _).trans (if_neg hne)
  have hk : (m.forwardNode n k.id arcs).Path k.id [] k :=
    .stop ((hother (Ne.symm may.ne)).trans may.target_found) may.target_forward_eq_none
  intro id path last hpath
  induction hpath with
  | @stop id x found hx =>
      by_cases hid : id = n.id
      · subst hid
        obtain rfl := Option.some.inj (found.symm.trans may.found)
        refine ⟨[_], k, .go hself rfl hk, arcs ++ carriedArcs [k], ?_⟩
        simp [carriedArcs, Node.forwarded]
      · exact ⟨[], x, .stop ((hother hid).trans found) hx, List.prefix_refl _⟩
  | @go id next x last path found hx _ ih =>
      have hid : id ≠ n.id := by
        rintro rfl
        rw [Option.some.inj (found.symm.trans may.found), may.forward_eq_none] at hx
        cases hx
      obtain ⟨path', last', hpath', hpre⟩ := ih
      refine ⟨x :: path', last', .go ((hother hid).trans found) hx hpath', ?_⟩
      rw [List.cons_append, List.cons_append, carriedArcs_cons, carriedArcs_cons]
      exact (List.prefix_append_right_inj _).mpr hpre

/-! ### Copies trail behind -/

/-- A stored node carries a start of what the chain of an id has gathered. -/
def Trails (m : Memory) (id copy : NodeId) : Prop :=
  ∃ view path last, m.node? copy = some view ∧ m.Path id path last ∧
    view.arcs <+: gatheredArcs (path ++ [last])

/-- Every copy trails behind the node that points at it. -/
def CopiesTrail (m : Memory) : Prop :=
  ∀ id n copy, m.node? id = some n → n.copy = some copy → m.Trails id copy

/-- A copy trails behind wherever chains only go on and no node changes its own arcs. -/
theorem Trails.carry {copy : NodeId} (h : m.Trails id copy) (accrues : m.Accrues m')
    (hkeeps : ∀ {j : NodeId} {x : Node}, m.node? j = some x →
      ∃ x', m'.node? j = some x' ∧ x'.arcs = x.arcs) : m'.Trails id copy := by
  obtain ⟨view, path, last, found, hpath, hpre⟩ := h
  obtain ⟨view', found', harcs⟩ := hkeeps found
  obtain ⟨path', last', hpath', hcarried⟩ := accrues _ _ _ hpath
  refine ⟨view', path', last', found', hpath', ?_⟩
  rw [harcs]
  refine hpre.trans ?_
  rw [gatheredArcs_eq_dedup, gatheredArcs_eq_dedup]
  exact Arcs.dedup_prefix hcarried

namespace CopiesTrail

theorem addNode (h : m.CopiesTrail) (new : m.node? n.id = none) (hn : n.copy = none) :
    (m.addNode n).CopiesTrail := by
  have hkeeps : ∀ {j : NodeId} {x : Node}, m.node? j = some x →
      (m.addNode n).node? j = some x := by
    intro j x hx
    have hne : j ≠ n.id := by
      rintro rfl
      rw [new] at hx
      cases hx
    rw [node?_addNode new, if_neg hne, hx]
  intro id x copy found hcopy
  rw [node?_addNode new] at found
  split at found
  · cases found
    rw [hn] at hcopy
    cases hcopy
  · exact (h id x copy found hcopy).carry
      (accrues_of_same fun hx => ⟨_, hkeeps hx, rfl, rfl, rfl⟩) fun hx => ⟨_, hkeeps hx, rfl⟩

theorem addIdea (h : m.CopiesTrail) (i : Idea) : (m.addIdea i).CopiesTrail := by
  intro id x copy found hcopy
  exact (h id x copy found hcopy).carry (accrues_of_same fun hx => ⟨_, hx, rfl, rfl, rfl⟩)
    fun hx => ⟨_, hx, rfl⟩

theorem stamp (h : m.CopiesTrail) (owner : String) : (m.stamp owner).CopiesTrail := by
  intro id x copy found hcopy
  exact (h id x copy found hcopy).carry (accrues_of_same fun hx => ⟨_, hx, rfl, rfl, rfl⟩)
    fun hx => ⟨_, hx, rfl⟩

theorem forwardNode (h : m.CopiesTrail) (may : m.MayForward n k) (arcs : List Arc) :
    (m.forwardNode n k.id arcs).CopiesTrail := by
  have hnode := node?_forwardNode may.found k.id arcs
  have hkeeps : ∀ {j : NodeId} {x : Node}, m.node? j = some x →
      ∃ x', (m.forwardNode n k.id arcs).node? j = some x' ∧ x'.arcs = x.arcs := by
    intro j x hx
    rw [hnode]
    split
    · next hj =>
        subst hj
        obtain rfl := Option.some.inj (hx.symm.trans may.found)
        exact ⟨_, rfl, rfl⟩
    · exact ⟨x, hx, rfl⟩
  intro id x copy found hcopy
  rw [hnode] at found
  have trails : m.Trails id copy := by
    split at found
    · next hid =>
        cases found
        exact h id n copy (hid ▸ may.found) hcopy
    · exact h id x copy found hcopy
  exact trails.carry (accrues_forwardNode may arcs) hkeeps

theorem writes {fs : List Forwarding} (h : m.CopiesTrail) (hwrites : m.Writes fs m') :
    m'.CopiesTrail := by
  induction hwrites with
  | nil => exact h
  | snoc _ may _ ih => exact ih.forwardNode may _

end CopiesTrail

/-- What copying a node leaves of the nodes that were there: all but where the node's copy is. -/
theorem found_copyTo (new : m.node? view.id = none) (found : m.node? id = some n) {j : NodeId}
    {x : Node} (hx : m.node? j = some x) :
    ∃ x', (m.copyTo id view).node? j = some x' ∧ x'.forward = x.forward ∧ x'.arcs = x.arcs ∧
      x'.complement = x.complement := by
  rw [node?_copyTo new found]
  split
  · next hj =>
      subst hj
      obtain rfl := Option.some.inj (hx.symm.trans found)
      exact ⟨_, rfl, rfl, rfl, rfl⟩
  · have hne : j ≠ view.id := by
      rintro rfl
      rw [new] at hx
      cases hx
    rw [if_neg hne]
    exact ⟨x, hx, rfl, rfl, rfl⟩

/-- A new copy carries all that is gathered. -/
theorem IsView.arcs_eq_gathered {copy : NodeId} (isView : m.IsView copy id view)
    (new : m.node? copy = none) :
    (m.copyTo id view).node? view.id = some view ∧ ∃ path last,
      (m.copyTo id view).Path id path last ∧ view.arcs = gatheredArcs (path ++ [last]) := by
  have hne : view.id ≠ id := isView.id_eq ▸ isView.copy_ne new
  rw [← isView.id_eq] at new
  obtain ⟨x, found⟩ := isView.found
  obtain ⟨chain, input, canonical, hchain, -, -, hview⟩ := isView
  obtain ⟨path, last, rfl, hpath⟩ := forwardChain_eq_ok_iff.mp hchain
  obtain ⟨path', last', hpath', heq⟩ := carriedArcs_of_same (found_copyTo new found) hpath
  refine ⟨?_, path', last', hpath', ?_⟩
  · rw [node?_copyTo new found, if_neg hne, if_pos rfl]
  · rw [gatheredArcs_eq_dedup, heq, ← gatheredArcs_eq_dedup]
    exact congrArg Node.arcs hview

theorem CopiesTrail.copyTo {copy : NodeId} (h : m.CopiesTrail) (isView : m.IsView copy id view)
    (new : m.node? copy = none) : (m.copyTo id view).CopiesTrail := by
  obtain ⟨hstored, path, last, hpath, hgathered⟩ := isView.arcs_eq_gathered new
  rw [← isView.id_eq] at new
  obtain ⟨y, hy⟩ := isView.found
  intro j x copy' found hcopy
  rw [node?_copyTo new hy] at found
  -- The node that is pointed at the view, the view itself, which has no copy, and all others.
  split at found
  · next hj =>
      cases found
      cases hcopy
      exact ⟨view, path, last, hstored, hj ▸ hpath, hgathered ▸ List.prefix_refl _⟩
  · split at found
    · cases found
      obtain ⟨_, _, _, -, -, -, rfl⟩ := isView
      cases hcopy
    · refine (h j x copy' found hcopy).carry (accrues_of_same (found_copyTo new hy)) fun hx => ?_
      obtain ⟨x', found', -, harcs, -⟩ := found_copyTo new hy hx
      exact ⟨x', found', harcs⟩

end Memory

/-! ### Every copy that comes about -/

theorem Materializes.copiesTrail {m m' : Memory} {copy id : NodeId} {r : Except EngineError Node}
    (h : Materializes m copy id r m') (hm : m.CopiesTrail) : m'.CopiesTrail := by
  cases h with
  | unwritten => exact hm
  | unpointed isView new =>
      refine hm.addNode (isView.id_eq ▸ new) ?_
      obtain ⟨_, _, _, -, -, -, rfl⟩ := isView
      rfl
  | done isView new => exact hm.copyTo isView new

section

variable {σ : Type} [NodeStore σ] [Backed σ] {s s' : σ} {a b copy : NodeId}

theorem copiesTrail_unifyCore {r : Except EngineError (List Forwarding)}
    (h : unifyCore a b s = (r, s')) (hs : (contents s).CopiesTrail) :
    (contents s').CopiesTrail := by
  obtain ⟨mid, hwrites, hends⟩ := unifyCore_writes h
  have hmid := hs.writes hwrites
  rcases hends with ⟨-, hsame⟩ | ⟨_, -, hsame | ⟨owner, hsame⟩⟩
  · exact hsame ▸ hmid
  · exact hsame ▸ hmid
  · exact hsame ▸ hmid.stamp owner

theorem Call.copiesTrail (c : Call) (s : σ) (hs : (contents s).CopiesTrail) :
    (contents (c.after s)).CopiesTrail := by
  cases c with
  | unifyCore a b => exact copiesTrail_unifyCore (Prod.eta (Ideas.unifyCore a b s)).symm hs
  | materialize copy id =>
      exact (materializes (Prod.eta (Ideas.materialize copy id s)).symm).copiesTrail hs
  | unify copy a b =>
      rw [after]
      rcases hcall : Ideas.unify copy a b s with ⟨r, s'⟩
      rcases unify_cases hcall with
        ⟨_, _, core, -, hcore, hsame⟩ | ⟨_, core, hcore, ⟨-, -, hsame⟩ | ⟨-, _, made, -⟩⟩
      · exact hsame ▸ copiesTrail_unifyCore hcore hs
      · exact hsame ▸ copiesTrail_unifyCore hcore hs
      · exact made.copiesTrail (copiesTrail_unifyCore hcore hs)

end

theorem Node.Made.copy_eq_none {n : Node} (h : n.Made) : n.copy = none := by
  cases h <;> rfl

theorem Arisen.copiesTrail {m : Memory} (h : Arisen m) : m.CopiesTrail := by
  induction h with
  | empty =>
      intro id n copy found
      cases found
  | @create σ _ _ s _ n hn ih =>
      rcases create_cases (Prod.eta (NodeStore.create n s)).symm with
        ⟨_, -, hsame⟩ | ⟨new, -, hadded⟩
      · exact hsame ▸ ih
      · exact hadded ▸ ih.addNode new hn.copy_eq_none
  | @author σ _ _ s _ i arcs ih =>
      rcases createIdea_cases (Prod.eta (NodeStore.authorIdea i arcs s)).symm with
        hsame | ⟨new, hadded⟩
      · exact hsame ▸ ih
      · exact hadded ▸ (ih.addNode new (made_nodeOf i arcs).copy_eq_none).addIdea i
  | @stamp σ _ _ s _ owner ih =>
      rcases nextGeneration_cases (Prod.eta (NodeStore.nextGeneration owner s)).symm with
        hsame | hstamped
      · exact hsame ▸ ih
      · exact hstamped ▸ ih.stamp owner
  | call _ c ih => exact c.copiesTrail _ ih

/-! ### The answer -/

section

variable {σ : Type} [NodeStore σ] [Backed σ] {s s' : σ} {a b copy : NodeId} {u : Unified}

/-- Where nothing is forwarded, the answer is the copy of the first node, if that is stored, and the
canonical node if not. -/
theorem result_of_unforwarded (h : unify copy a b s = (.ok u, s')) (hnil : u.forwarded = []) :
    ∃ n, (contents s').node? a = some n ∧ u.result =
      (n.copy.filter fun copy => ((contents s').node? copy).isSome).getD u.canonical := by
  rw [unify] at h
  rcases bind_cases h with ⟨_, -, hr⟩ | ⟨fs, core, hcore, h⟩
  · cases hr
  rcases bind_cases h with ⟨_, -, hr⟩ | ⟨n, read, hread, h⟩
  · cases hr
  cases fs with
  | cons f rest =>
      simp only [List.isEmpty_cons, Bool.false_eq_true, if_false] at h
      rcases bind_cases h with ⟨_, -, hr⟩ | ⟨view, made, -, h⟩
      · cases hr
      · cases h
        cases hnil
  | nil =>
      simp only [List.isEmpty_nil, if_true] at h
      rcases bind_cases h with ⟨_, -, hr⟩ | ⟨found, last, hcopy, h⟩
      · cases hr
      obtain ⟨hsame, ⟨_, -, hr⟩ | hanswer⟩ := (reads_existingCopy a).cases hcopy
      · cases hr
      cases h
      rw [hsame]
      cases hstored : (contents read).node? a with
      | none =>
          rw [existingCopy, bind_eq_of_error (Memory.require_of_missing hstored)] at hanswer
          cases hanswer
      | some x =>
          rw [Memory.existingCopy_eq hstored] at hanswer
          cases hanswer
          exact ⟨x, rfl, rfl⟩

end

section

variable {m : Memory} {a : NodeId} {path : List Node} {last : Node}

/-- A copy that trails behind a chain has all that was gathered if no node on the chain has a label
that the copy lacks. -/
theorem eq_gatheredArcs_iff {arcs : List Arc} {chain : List Node}
    (hpre : arcs <+: gatheredArcs chain) : arcs = gatheredArcs chain ↔
      ∀ n ∈ chain, Arcs.labels (n.arcs ++ n.complement) ⊆ Arcs.labels arcs := by
  have hlabels : ∀ {label : String} {n : Node}, label ∈ Arcs.labels (n.arcs ++ n.complement) ↔
      label ∈ Arcs.labels n.arcs ∨ label ∈ Arcs.labels n.complement := by
    intro label n
    rw [Arcs.labels, List.map_append, List.mem_append]
    rfl
  constructor
  · intro heq n hn label hlabel
    rw [heq]
    exact mem_labels_gatheredArcs.mpr ⟨n, hn, hlabels.mp hlabel⟩
  · intro h
    refine Arcs.eq_of_prefix hpre (nodup_labels_gatheredArcs chain) fun label hlabel => ?_
    obtain ⟨n, hn, hlabel⟩ := mem_labels_gatheredArcs.mp hlabel
    exact h n hn (hlabels.mpr hlabel)

/-- The copy that a node has is stored, and trails behind the chain of the node. -/
theorem Arisen.copy_found (h : Arisen m) (hpath : m.Path a path last) {n : Node} {copy : NodeId}
    (found : m.node? a = some n) (hcopy : n.copy = some copy) :
    ∃ view, m.node? copy = some view ∧ view.arcs <+: gatheredArcs (path ++ [last]) := by
  obtain ⟨view, path', last', hview, hpath', hpre⟩ := h.copiesTrail a n copy found hcopy
  obtain ⟨rfl, rfl⟩ := hpath.unique hpath'
  exact ⟨view, hview, hpre⟩

/-- The canonical node has all that its chain has gathered if the nodes before it have gathered no
more than a start of its arcs. -/
theorem Arisen.last_arcs_eq_iff (h : Arisen m) (hpath : m.Path a path last) :
    last.arcs = gatheredArcs (path ++ [last]) ↔ gatheredArcs path <+: last.arcs := by
  obtain ⟨found, hforward⟩ := hpath.last_found
  have hlast := h.wellFormed _ _ found
  exact gatheredArcs_concat_eq_iff (hlast.untouched hforward).1 hlast.nodup_labels

end

section

variable {σ : Type} [NodeStore σ] [Backed σ] {s s' : σ} {a b copy : NodeId} {u : Unified}

/-- Where nothing is forwarded, the data are what they were. -/
theorem unify_unchanged (h : unify copy a b s = (.ok u, s')) (hnil : u.forwarded = []) :
    contents s' = contents s ∧
      ∃ path last, (contents s').Path a path last ∧ u.canonical = last.id := by
  obtain ⟨core, last, hcore, ⟨path, hpath⟩, hcanonical, ⟨-, hsame⟩ | ⟨hne, -⟩⟩ := unify_ok_cases h
  · rw [hnil] at hcore
    exact ⟨hsame.trans (unifyCore_accounts hcore).1.eq_of_nil, path, last, hsame ▸ hpath,
      hcanonical⟩
  · exact absurd hnil hne

/-- Where something is forwarded, the answer carries all that the chain has gathered. -/
theorem answer_of_merged (h : unify copy a b s = (.ok u, s')) (hne : u.forwarded ≠ []) :
    ∃ path last answer, (contents s').Path a path last ∧
      (contents s').node? u.result = some answer ∧
      answer.arcs = gatheredArcs (path ++ [last]) := by
  obtain ⟨core, view, -, made, hresult⟩ := unify_result h hne
  generalize contents s' = after at made ⊢
  cases made with
  | done isView new =>
      obtain ⟨hstored, path, last, hpath, harcs⟩ := isView.arcs_eq_gathered new
      exact ⟨path, last, view, hpath, hresult ▸ hstored, harcs⟩

/-- A unification that succeeds answers with a node that is stored.  Where it forwarded something,
that node carries what the merged view of the first node would carry after the call.  Where it
forwarded nothing and the first node has a copy, the answer is that copy, and it carries a
start of the view: all of it as long as no node on the chain has a label that the copy lacks.
Where there is no copy either, the answer is the canonical node, the last of the chain, with no
label that the view lacks; and it carries what the view would as long as what the rest of the
chain has gathered is a start of its arcs, which it is where the chain has no rest. -/
theorem answer_compared_to_view (arisen : Arisen (contents s))
    (hu : unify copy a b s = (.ok u, s')) {fresh : NodeId}
    (hfresh : (contents s').node? fresh = none) :
    ∃ chain view first answer,
      (forwardChain a (contents s')).1 = .ok chain ∧
      (materialize fresh a (contents s')).1 = .ok view ∧
      (contents s').node? a = some first ∧ (contents s').node? u.result = some answer ∧
      (u.merged = true → answer.arcs = view.arcs) ∧
      (∀ existing, u.merged = false → first.copy = some existing →
        u.result = existing ∧ answer.arcs <+: view.arcs ∧
          (answer.arcs = view.arcs ↔
            ∀ n ∈ chain, Arcs.labels (n.arcs ++ n.complement) ⊆ Arcs.labels answer.arcs)) ∧
      (u.merged = false → first.copy = none →
        u.result = u.canonical ∧ chain.getLast? = some answer ∧
          Arcs.labels answer.arcs ⊆ Arcs.labels view.arcs ∧
          (answer.arcs = view.arcs ↔ gatheredArcs chain.dropLast <+: answer.arcs) ∧
          (chain = [answer] → answer.arcs = view.arcs)) := by
  by_cases hnil : u.forwarded = []
  · have hmerged : u.merged ≠ true := by simp [Unified.merged, hnil]
    obtain ⟨hsame, path, last, hpath, hcanonical⟩ := unify_unchanged hu hnil
    rw [← hsame] at arisen
    obtain ⟨first, hfirst, hresult⟩ := result_of_unforwarded hu hnil
    have hchain := Memory.forwardChain_eq_ok_iff.mpr ⟨path, last, rfl, hpath⟩
    obtain ⟨view, hview, harcs⟩ := Memory.materialize_eq_ok hchain hfresh
    cases hcopy : first.copy with
    | some existing =>
        obtain ⟨answer, found, hpre⟩ := arisen.copy_found hpath hfirst hcopy
        have hexisting : u.result = existing := by
          rw [hresult, hcopy, Option.filter_some, found]
          rfl
        refine ⟨path ++ [last], view, first, answer, hchain, hview, hfirst, hexisting ▸ found,
          fun h => absurd h hmerged, fun other _ hother => ?_, fun _ hnone => ?_⟩
        · obtain rfl := Option.some.inj (hcopy.symm.trans hother)
          rw [harcs]
          exact ⟨hexisting, hpre, eq_gatheredArcs_iff hpre⟩
        · rw [hcopy] at hnone
          cases hnone
    | none =>
        have hself : u.result = u.canonical := by
          rw [hresult, hcopy]
          rfl
        have hiff := arisen.last_arcs_eq_iff hpath
        refine ⟨path ++ [last], view, first, last, hchain, hview, hfirst, ?_,
          fun h => absurd h hmerged, fun other _ hother => ?_, fun _ _ => ?_⟩
        · rw [hself, hcanonical]
          exact hpath.last_found.1
        · rw [hcopy] at hother
          cases hother
        · rw [harcs, List.dropLast_concat]
          refine ⟨hself, List.getLast?_concat, fun label hlabel => ?_, hiff, fun hsingle => ?_⟩
          · exact mem_labels_gatheredArcs.mpr ⟨last, by simp, Or.inl hlabel⟩
          · obtain rfl : path = [] := List.append_left_eq_self.mp hsingle
            exact hiff.mpr List.nil_prefix
  · have hmerged : u.merged ≠ false := by simp [Unified.merged, hnil]
    obtain ⟨path, last, answer, hpath, hanswer, hgathered⟩ := answer_of_merged hu hnil
    have hchain := Memory.forwardChain_eq_ok_iff.mpr ⟨path, last, rfl, hpath⟩
    obtain ⟨view, hview, harcs⟩ := Memory.materialize_eq_ok hchain hfresh
    obtain ⟨first, hfirst⟩ := Memory.Canonical.exists_found ⟨path, hpath⟩
    exact ⟨path ++ [last], view, first, answer, hchain, hview, hfirst, hanswer,
      fun _ => hgathered.trans harcs.symm, fun _ h => absurd h hmerged,
      fun h => absurd h hmerged⟩

end

/-- Three nodes, each with a label of its own. -/
def threeLabels : Memory :=
  { nodes := [.complex ⟨1⟩ "ann" [⟨"a", .text "x"⟩], .complex ⟨2⟩ "ann" [⟨"b", .text "y"⟩],
      .complex ⟨3⟩ "ann" [⟨"c", .text "z"⟩]] }

/-- The first was unified into the second, with a copy, and then the second into the third. -/
def continued : Memory :=
  (Call.unifyCore ⟨2⟩ ⟨3⟩).after ((Call.unify ⟨4⟩ ⟨1⟩ ⟨2⟩).after threeLabels)

/-- A call that unifies nodes, with a copy or without one. -/
def Call.Unifies (c : Call) : Prop :=
  c.IsUnify ∨ c.IsUnifyCore

theorem reached_continued : Reached Call.Unifies continued := by
  have first : Reached Call.Unifies _ := Reached.empty.create
    (.complex ⟨1⟩ "ann" [⟨"a", .text "x"⟩])
  have second := first.create (.complex ⟨2⟩ "ann" [⟨"b", .text "y"⟩])
  have third : Reached Call.Unifies threeLabels :=
    second.create (.complex ⟨3⟩ "ann" [⟨"c", .text "z"⟩])
  have copied := third.call (c := .unify ⟨4⟩ ⟨1⟩ ⟨2⟩) (Or.inl trivial)
  exact copied.call (c := .unifyCore ⟨2⟩ ⟨3⟩) (Or.inr trivial)

/-- The first node and the third are one by now, so that nothing is left to do, and the answer is
the copy from before.  It is a start of the view, and the chain has a label that it lacks. -/
theorem answer_compared_to_view_continued :
    (unify ⟨5⟩ ⟨1⟩ ⟨3⟩ continued).1 = .ok ⟨⟨4⟩, ⟨3⟩, []⟩ ∧
      ∃ chain view answer,
        (forwardChain ⟨1⟩ (unify ⟨5⟩ ⟨1⟩ ⟨3⟩ continued).2).1 = .ok chain ∧
        (materialize ⟨5⟩ ⟨1⟩ (unify ⟨5⟩ ⟨1⟩ ⟨3⟩ continued).2).1 = .ok view ∧
        (unify ⟨5⟩ ⟨1⟩ ⟨3⟩ continued).2.node? ⟨4⟩ = some answer ∧ answer.arcs <+: view.arcs ∧
        (answer.arcs = view.arcs ↔
          ∀ n ∈ chain, Arcs.labels (n.arcs ++ n.complement) ⊆ Arcs.labels answer.arcs) := by
  have hcall : (unify ⟨5⟩ ⟨1⟩ ⟨3⟩ continued).1 = .ok ⟨⟨4⟩, ⟨3⟩, []⟩ := by cbv
  have hcopy : ((unify ⟨5⟩ ⟨1⟩ ⟨3⟩ continued).2.node? ⟨1⟩).bind Node.copy = some ⟨4⟩ := by
    decide +kernel
  have hfree : ((unify ⟨5⟩ ⟨1⟩ ⟨3⟩ continued).2.node? ⟨5⟩).isNone := by decide +kernel
  obtain ⟨chain, view, first, answer, hchain, hview, hfirst, hanswer, -, hexisting, -⟩ :=
    answer_compared_to_view (s := continued) reached_continued.arisen (Prod.ext hcall rfl)
      (Option.isNone_iff_eq_none.mp hfree)
  have hfirst : (unify ⟨5⟩ ⟨1⟩ ⟨3⟩ continued).2.node? ⟨1⟩ = some first := hfirst
  rw [hfirst] at hcopy
  obtain ⟨-, hpre, hiff⟩ := hexisting ⟨4⟩ rfl hcopy
  exact ⟨hcall, chain, view, answer, hchain, hview, hanswer, hpre, hiff⟩

/-- A unification answers with a node that carries what the merged view of the first node would
carry after the call. -/
def AnswersWithView (m : Memory) (copy a b : NodeId) : Prop :=
  ∀ (u : Unified) (fresh : NodeId) (view answer : Node), (unify copy a b m).1 = .ok u →
    (materialize fresh a (unify copy a b m).2).1 = .ok view →
    (unify copy a b m).2.node? u.result = some answer → answer.arcs = view.arcs

/-- Not every answer is the view: a copy that was made earlier lacks the arcs of the nodes that its
chain has reached since. -/
theorem stale_copy :
    ¬ ∀ m, Reached Call.Unifies m → ∀ copy a b, AnswersWithView m copy a b := by
  intro hview
  have hcall : (unify ⟨5⟩ ⟨1⟩ ⟨3⟩ continued).1 = .ok ⟨⟨4⟩, ⟨3⟩, []⟩ := by cbv
  have hanswer : ((unify ⟨5⟩ ⟨1⟩ ⟨3⟩ continued).2.node? ⟨4⟩).map (Arcs.labels ·.arcs)
      = some ["a", "b"] := by decide +kernel
  have hmade : (materialize ⟨6⟩ ⟨1⟩ (unify ⟨5⟩ ⟨1⟩ ⟨3⟩ continued).2).1.toOption.map
      (Arcs.labels ·.arcs) = some ["a", "b", "c"] := by decide +kernel
  obtain ⟨answer, hanswer, hlabels⟩ := Option.map_eq_some_iff.mp hanswer
  cases hrun : (materialize ⟨6⟩ ⟨1⟩ (unify ⟨5⟩ ⟨1⟩ ⟨3⟩ continued).2).1 with
  | error e =>
      rw [hrun] at hmade
      cases hmade
  | ok view =>
      rw [hrun] at hmade
      have hfull : Arcs.labels view.arcs = ["a", "b", "c"] := Option.some.inj hmade
      have hsame := hview continued reached_continued ⟨5⟩ ⟨1⟩ ⟨3⟩ _ ⟨6⟩ view answer hcall hrun
        hanswer
      rw [hsame, hfull] at hlabels
      exact absurd hlabels (by decide)

end Ideas
