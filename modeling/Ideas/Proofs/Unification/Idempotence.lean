/-
A unification that is asked for again does nothing.

Where two ids are joined already, to unify them is to read: nothing is written, and the
answer is the copy that the first node has, or its canonical node
(`unify_eq_of_joined`).  So it is enough that a unification which succeeds leaves its ids
joined, and that the view it makes is the copy which is found by the next one.

A store may know more than its data, a watched one notes what it was asked.  The data
are what is compared, and as long as no request fails by itself they can be followed on
their own (`translates_contents`).
-/
import Ideas.Proofs.Translation
import Ideas.Proofs.Unification.Report
import Ideas.Proofs.Unification.Retention

namespace Ideas

open NodeStore Backed

/-! ### The data on their own -/

section

variable {σ : Type} [NodeStore σ] [Backed σ]

/-- What no request fails by itself to do is done to the data. -/
theorem carries_of_serves (hnever : ∀ e, ¬ fails σ e) {α : Type} {act : Action σ α}
    {onMemory : Action Memory α} (h : Serves contents (fails σ) act onMemory) :
    Carries contents act onMemory := by
  intro s
  rcases h s with ⟨e, he, -, -⟩ | ⟨hanswer, hdata⟩
  · exact absurd he (hnever e)
  · exact Prod.ext hanswer.symm hdata.symm

/-- The data take the same course as the store that holds them. -/
theorem translates_contents (hnever : ∀ e, ¬ fails σ e) :
    Translates (contents : σ → Memory) where
  nodeCount_eq s := (nodeCount_eq s).symm
  get id := carries_of_serves hnever (serves_get id)
  create n := carries_of_serves hnever (serves_create n)
  update id u := carries_of_serves hnever (serves_update id u)
  nextGeneration owner := carries_of_serves hnever (serves_nextGeneration owner)

end

namespace Memory

variable {m m' : Memory} {a b id copy : NodeId} {n k view : Node}

/-! ### To unify what is joined -/

theorem dereference_eq (h : m.Canonical id n) :
    (dereference id : Action Memory Node) m = (.ok n, m) :=
  Prod.ext (dereference_eq_ok_iff.mpr h) ((reads_dereference (σ := Memory) id).unchanged m)

/-- An id that leads somewhere is stored. -/
theorem Canonical.exists_found (h : m.Canonical id n) : ∃ x, m.node? id = some x := by
  obtain ⟨path, hpath⟩ := h
  cases hpath with
  | stop found _ => exact ⟨n, found⟩
  | go found _ _ => exact ⟨_, found⟩

/-- Nodes that are joined are unified without a trace. -/
theorem unifyCore_eq_of_joined (h : m.Joined a b) :
    (unifyCore a b : Action Memory (List Forwarding)) m = (.ok [], m) := by
  obtain ⟨n, k, left, right, hsame⟩ := h
  have hstep : ∀ unify : NodeId → NodeId → RunM Memory Unit,
      Run.unifyStep unify a b { store := m } = (.ok (), { store := m }) := by
    intro unify
    have hleft : Run.onStore (dereference a) ({ store := m } : Run Memory)
        = (.ok n, { store := m }) := by rw [Run.onStore, dereference_eq left]
    have hright : Run.onStore (dereference b) ({ store := m } : Run Memory)
        = (.ok k, { store := m }) := by rw [Run.onStore, dereference_eq right]
    have hlook : (getThe (Run Memory) : RunM Memory (Run Memory)) { store := m }
        = (.ok { store := m }, { store := m }) := rfl
    rw [Run.unifyStep, bind_eq_of_ok hleft, bind_eq_of_ok hright, bind_eq_of_ok hlook]
    by_cases hid : n.id = k.id
    · rw [if_pos (Or.inl hid)]
      rfl
    · rw [if_neg (by simpa using hid)]
      rcases hsame with rfl | ⟨hn, hk, hname⟩
      · exact absurd rfl hid
      · simp only [hn, hk]
        rw [if_neg (not_not_intro hname)]
        rfl
  have hrun : Run.unify m a b = (.ok (), { store := m }) := by
    rw [Run.unify, Run.unifyWithin]
    exact hstep _
  exact unifyCore_eq hrun

/-- The copy of a stored node can be looked for. -/
theorem existingCopy_eq (found : m.node? id = some n) :
    (existingCopy id : Action Memory (Option NodeId)) m
      = (.ok (n.copy.filter fun copy => (m.node? copy).isSome), m) := by
  rw [existingCopy, bind_eq_of_ok (require_of_found found)]
  cases n.copy with
  | none => rfl
  | some copy =>
      simp only
      rw [bind_eq_of_ok (get_eq m copy)]
      by_cases hcopy : (m.node? copy).isSome = true
      · rw [if_pos hcopy, Option.filter_some, if_pos hcopy]
        rfl
      · rw [if_neg hcopy, Option.filter_some, if_neg hcopy]
        rfl

/-- To unify nodes that are joined is to read the copy of the first one, or its canonical node. -/
theorem unify_eq_of_joined (h : m.Joined a b) (left : m.Canonical a n)
    (found : m.node? a = some k) (copy : NodeId) :
    (unify copy a b : Action Memory Unified) m
      = (.ok ⟨(k.copy.filter fun copy => (m.node? copy).isSome).getD n.id, n.id, []⟩, m) := by
  rw [unify, bind_eq_of_ok (unifyCore_eq_of_joined h), bind_eq_of_ok (dereference_eq left)]
  simp only [List.isEmpty_nil, if_true]
  rw [bind_eq_of_ok (existingCopy_eq found)]
  rfl

/-! ### What a copy leaves joined -/

/-- A node keeps what tells whether it is joined when another one, or itself, is copied. -/
theorem Canonical.copyTo (h : m.Canonical a n) (isView : m.IsView copy id view)
    (new : m.node? copy = none) :
    ∃ n', (m.copyTo id view).Canonical a n' ∧ n'.id = n.id ∧ n'.isLeaf = n.isLeaf ∧
      n'.name = n.name := by
  have made : Materializes m copy id (.ok view) (m.copyTo id view) := .done isView new
  obtain ⟨x, found⟩ := isView.found
  have hcopy : view.id = copy := isView.id_eq
  -- The canonical node is still stored under its id, and points nowhere.
  obtain ⟨n', found', hid, hforward, hleaf, hname⟩ : ∃ n', (m.copyTo id view).node? n.id = some n' ∧
      n'.id = n.id ∧ n'.forward = n.forward ∧ n'.isLeaf = n.isLeaf ∧ n'.name = n.name := by
    rw [node?_copyTo (hcopy ▸ new) found]
    by_cases hn : n.id = id
    · rw [if_pos hn]
      have hfound := h.found
      rw [hn, found] at hfound
      obtain rfl := Option.some.inj hfound
      exact ⟨_, rfl, rfl, rfl, rfl, rfl⟩
    · have hne : n.id ≠ view.id := by
        intro heq
        have hfound := h.found
        rw [heq, hcopy, new] at hfound
        cases hfound
      rw [if_neg hn, if_neg hne]
      exact ⟨n, h.found, rfl, rfl, rfl, rfl⟩
  obtain ⟨y, hy, hself⟩ := made.extends.canonical h
  have hcanonical : (m.copyTo id view).Canonical n.id n' :=
    hid ▸ canonical_self (hid ▸ found') (hforward.trans h.forward_eq_none)
  obtain rfl := hself.unique hcanonical
  exact ⟨y, hy, hid, hleaf, hname⟩

/-- What is joined stays so when a node is copied. -/
theorem Joined.copyTo (h : m.Joined a b) (isView : m.IsView copy id view)
    (new : m.node? copy = none) : (m.copyTo id view).Joined a b := by
  obtain ⟨n, k, left, right, hsame⟩ := h
  obtain ⟨n', left', hnid, hnleaf, hnname⟩ := left.copyTo isView new
  obtain ⟨k', right', hkid, hkleaf, hkname⟩ := right.copyTo isView new
  refine ⟨n', k', left', right', ?_⟩
  rcases hsame with rfl | ⟨hn, hk, hname⟩
  · have found := left'.found
    rw [hnid, ← hkid, right'.found] at found
    exact Or.inl (Option.some.inj found).symm
  · exact Or.inr ⟨hnleaf.trans hn, hkleaf.trans hk, hnname.trans (hname.trans hkname.symm)⟩

end Memory

/-! ### To unify again -/

section

variable {m m' : Memory} {a b copy : NodeId} {u : Unified}

/-- A unification that succeeded is repeated by reading, whichever of the two ids comes first. -/
theorem Memory.unify_again (h : unify copy a b m = (.ok u, m')) (again : NodeId) :
    unify again a b m' = (.ok ⟨u.result, u.canonical, []⟩, m') ∧
      ∃ v, unify again b a m' = (.ok v, m') ∧ v.forwarded = [] := by
  obtain ⟨core, n, hcore, left, hcanonical, hends⟩ := unify_ok_cases h
  have joined : core.Joined a b := unifyCore_joined hcore
  have left : core.Canonical a n := left
  have back : ∀ {now : Memory}, now.Joined a b →
      ∃ v, unify again b a now = (.ok v, now) ∧ v.forwarded = [] := by
    intro now hjoined
    obtain ⟨k, _, right, -⟩ := hjoined.symm
    obtain ⟨x, found⟩ := right.exists_found
    exact ⟨_, Memory.unify_eq_of_joined hjoined.symm right found again, rfl⟩
  rcases hends with ⟨hnil, hsame⟩ | ⟨-, view, made, hresult⟩
  · -- The first time all was read as well, and the id for a view made no difference.
    rw [hnil] at hcore
    obtain rfl : core = m := (unifyCore_accounts hcore).1.eq_of_nil
    obtain rfl : m' = core := hsame
    obtain ⟨x, found⟩ := left.exists_found
    rw [Memory.unify_eq_of_joined joined left found copy] at h
    refine ⟨?_, back joined⟩
    rw [Memory.unify_eq_of_joined joined left found again]
    cases h
    rfl
  obtain ⟨isView, new, rfl⟩ : core.IsView copy a view ∧ core.node? copy = none ∧
      m' = core.copyTo a view := by
    have made : Materializes core copy a (.ok view) m' := made
    cases made with
    | done isView new => exact ⟨isView, new, rfl⟩
  have joined' := joined.copyTo isView new
  refine ⟨?_, back joined'⟩
  obtain ⟨n', left', hid, -⟩ := left.copyTo isView new
  obtain ⟨x, found⟩ := isView.found
  have hview : view.id ≠ a := by
    rw [isView.id_eq]
    exact isView.copy_ne new
  have hnode := Memory.node?_copyTo (isView.id_eq ▸ new) found
  have found' := (hnode a).trans (if_pos rfl)
  have stored : (core.copyTo a view).node? view.id = some view := by
    rw [hnode, if_neg hview, if_pos rfl]
  rw [Memory.unify_eq_of_joined joined' left' found' again, hresult, hcanonical, hid]
  simp only [Option.filter_some, stored, Option.isSome_some, if_true, Option.getD_some]

end

variable {σ : Type} [NodeStore σ] [Backed σ] {s : σ} {a b copy : NodeId} {u : Unified}

/-- If a full unification succeeds and no request fails by itself, the same unification succeeds
again, forwards nothing, answers with the same nodes and leaves the data as they are; and so it
does with the two ids the other way round. -/
theorem unify_idempotent (hnever : ∀ e, ¬ fails σ e) (hu : (unify copy a b s).1 = .ok u)
    (again : NodeId) :
    ((unify again a b (unify copy a b s).2).1 = .ok ⟨u.result, u.canonical, []⟩ ∧
      contents (unify again a b (unify copy a b s).2).2 = contents (unify copy a b s).2) ∧
    (∃ v, (unify again b a (unify copy a b s).2).1 = .ok v ∧ v.forwarded = [] ∧
      contents (unify again b a (unify copy a b s).2).2 = contents (unify copy a b s).2) := by
  have translates := translates_contents hnever
  have hfirst := translates.unify copy a b s
  rw [hu] at hfirst
  obtain ⟨hagain, v, hback, hnil⟩ := Memory.unify_again hfirst again
  have hsecond := (translates.unify again a b (unify copy a b s).2).symm.trans hagain
  have hreverse := (translates.unify again b a (unify copy a b s).2).symm.trans hback
  exact ⟨⟨congrArg Prod.fst hsecond, congrArg Prod.snd hsecond⟩,
    v, congrArg Prod.fst hreverse, hnil, congrArg Prod.snd hreverse⟩

/-- Where two nodes refer to each other, the second is forwarded into the first one, which gets a
copy; after that there is nothing left to do. -/
theorem unify_idempotent_mutualPair :
    (∀ e, ¬ fails Memory e) ∧
      (unify ⟨3⟩ ⟨1⟩ ⟨2⟩ mutualPair).1 = .ok ⟨⟨3⟩, ⟨1⟩, [⟨⟨2⟩, ⟨1⟩, 11, 1⟩]⟩ ∧
      ((unify ⟨4⟩ ⟨1⟩ ⟨2⟩ (unify ⟨3⟩ ⟨1⟩ ⟨2⟩ mutualPair).2).1 = .ok ⟨⟨3⟩, ⟨1⟩, []⟩ ∧
        contents (unify ⟨4⟩ ⟨1⟩ ⟨2⟩ (unify ⟨3⟩ ⟨1⟩ ⟨2⟩ mutualPair).2).2
          = contents (unify ⟨3⟩ ⟨1⟩ ⟨2⟩ mutualPair).2) ∧
      ∃ v, (unify ⟨4⟩ ⟨2⟩ ⟨1⟩ (unify ⟨3⟩ ⟨1⟩ ⟨2⟩ mutualPair).2).1 = .ok v ∧ v.forwarded = [] ∧
        contents (unify ⟨4⟩ ⟨2⟩ ⟨1⟩ (unify ⟨3⟩ ⟨1⟩ ⟨2⟩ mutualPair).2).2
          = contents (unify ⟨3⟩ ⟨1⟩ ⟨2⟩ mutualPair).2 := by
  have hnever : ∀ e, ¬ fails Memory e := fun _ he => he
  have hcall : (unify ⟨3⟩ ⟨1⟩ ⟨2⟩ mutualPair).1 = .ok ⟨⟨3⟩, ⟨1⟩, [⟨⟨2⟩, ⟨1⟩, 11, 1⟩]⟩ := by cbv
  exact ⟨hnever, hcall, unify_idempotent hnever hcall ⟨4⟩⟩

end Ideas
