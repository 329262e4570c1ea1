/-
The forward path in a memory.

`Path` is the walk along forward references as a relation: from an id over nodes that
point on to a node that points nowhere.  There is at most one such path from an id, it
meets no id twice, and it is therefore shorter than the memory is long.  That bound is
why a walk that is cut off after as many steps as there are nodes is never cut off too
early, and `forwardChain` answers with a chain exactly where there is a path.

`Extends` compares two memories by their paths: each path of the first is the start of
one of the second.  It is what forwarding preserves, and all that is said about where
an id leads later on is drawn from it.
-/
import Ideas.ForwardChain
import Ideas.Proofs.Action
import Ideas.Store.Memory

namespace Ideas

open NodeStore

/-- A walk meets an id for the first time. -/
theorem followForward_of_notMem {σ : Type} [NodeStore σ] {steps : Nat} {seen : List NodeId}
    {id : NodeId} (hseen : id ∉ seen) :
    (followForward (steps + 1) seen id : Action σ (List Node)) = do
      let n ← require id
      match n.forward with
      | none => return [n]
      | some next => return n :: (← followForward steps (id :: seen) next) := by
  rw [followForward]
  exact if_neg hseen

namespace Memory

variable {m m' m'' : Memory} {id : NodeId} {path : List Node} {last : Node}

/-- Where a node points. -/
def forward? (m : Memory) (id : NodeId) : Option NodeId :=
  (m.node? id).bind Node.forward

/-- The forward references from an id pass the nodes of `path` and end at `last`. -/
inductive Path (m : Memory) : NodeId → List Node → Node → Prop
  | stop {id : NodeId} {n : Node} (found : m.node? id = some n) (hn : n.forward = none) :
      Path m id [] n
  | go {id next : NodeId} {n last : Node} {path : List Node} (found : m.node? id = some n)
      (hn : n.forward = some next) (rest : Path m next path last) : Path m id (n :: path) last

/-- The forward references from an id end at a node. -/
def Canonical (m : Memory) (id : NodeId) (n : Node) : Prop :=
  ∃ path, m.Path id path n

/-- The ids along a path, the canonical one last. -/
def pathIds (path : List Node) (last : Node) : List NodeId :=
  (path ++ [last]).map Node.id

/-! ### There is one path, and it does not come back -/

theorem Path.last_found (h : m.Path id path last) :
    m.node? last.id = some last ∧ last.forward = none := by
  induction h with
  | stop found hn => exact ⟨by rw [id_of_node? found]; exact found, hn⟩
  | go _ _ _ ih => exact ih

theorem Path.unique (h : m.Path id path last) :
    ∀ {path' : List Node} {last' : Node}, m.Path id path' last' →
      path = path' ∧ last = last' := by
  induction h with
  | stop found hn =>
      intro path' last' h'
      cases h' with
      | stop found' _ => exact ⟨rfl, Option.some.inj (found.symm.trans found')⟩
      | go found' hn' _ =>
          rw [Option.some.inj (found.symm.trans found'), hn'] at hn
          cases hn
  | go found hn _ ih =>
      intro path' last' h'
      cases h' with
      | stop found' hn' =>
          rw [Option.some.inj (found.symm.trans found'), hn'] at hn
          cases hn
      | go found' hn' rest' =>
          obtain rfl := Option.some.inj (found.symm.trans found')
          obtain rfl := Option.some.inj (hn.symm.trans hn')
          obtain ⟨rfl, rfl⟩ := ih rest'
          exact ⟨rfl, rfl⟩

theorem Canonical.unique {n k : Node} (h : m.Canonical id n) (h' : m.Canonical id k) : n = k := by
  obtain ⟨_, h⟩ := h
  obtain ⟨_, h'⟩ := h'
  exact (h.unique h').2

theorem Canonical.found {n : Node} (h : m.Canonical id n) : m.node? n.id = some n :=
  h.choose_spec.last_found.1

theorem Canonical.forward_eq_none {n : Node} (h : m.Canonical id n) : n.forward = none :=
  h.choose_spec.last_found.2

/-- A node that points nowhere is its own canonical node. -/
theorem canonical_self {n : Node} (found : m.node? n.id = some n) (hn : n.forward = none) :
    m.Canonical n.id n :=
  ⟨[], .stop found hn⟩

/-- From every node of a path the rest of the path leads on. -/
theorem Path.from_mem (h : m.Path id path last) :
    ∀ x ∈ path, m.node? x.id = some x ∧
      ∃ rest, rest.length ≤ path.length ∧ m.Path x.id rest last := by
  induction h with
  | stop _ _ => intro x hx; cases hx
  | @go id next n last path found hn rest ih =>
      intro x hx
      rcases List.mem_cons.mp hx with rfl | hx
      · have hid : x.id = id := id_of_node? found
        rw [hid]
        exact ⟨found, x :: path, Nat.le_refl _, .go found hn rest⟩
      · obtain ⟨hfound, tail, hle, htail⟩ := ih x hx
        exact ⟨hfound, tail, Nat.le_succ_of_le hle, htail⟩

/-- Every id along a path has the same canonical node. -/
theorem Path.canonical_of_mem (h : m.Path id path last) {x : NodeId}
    (hx : x ∈ pathIds path last) : m.Canonical x last := by
  obtain ⟨n, hn, rfl⟩ := List.mem_map.mp hx
  rcases List.mem_append.mp hn with hn | hn
  · obtain ⟨-, rest, -, hrest⟩ := h.from_mem n hn
    exact ⟨rest, hrest⟩
  · obtain rfl := List.mem_singleton.mp hn
    exact canonical_self h.last_found.1 h.last_found.2

/-- No id is met twice: the rest of the path from its second place would be as long as the
whole. -/
theorem Path.nodup (h : m.Path id path last) : (pathIds path last).Nodup := by
  induction h with
  | stop _ _ => exact List.nodup_cons.mpr ⟨List.not_mem_nil, List.nodup_nil⟩
  | @go id next n last path found hn rest ih =>
      refine List.nodup_cons.mpr ⟨?_, ih⟩
      intro hmem
      have hid : n.id = id := id_of_node? found
      obtain ⟨x, hx, hxid⟩ := List.mem_map.mp hmem
      rw [hid] at hxid
      rcases List.mem_append.mp hx with hx | hx
      · obtain ⟨-, tail, hle, htail⟩ := rest.from_mem x hx
        rw [hxid] at htail
        obtain ⟨rfl, -⟩ := htail.unique (.go found hn rest)
        exact absurd hle (Nat.not_succ_le_self _)
      · obtain rfl := List.mem_singleton.mp hx
        obtain ⟨hlast, hnone⟩ := rest.last_found
        rw [hxid] at hlast
        rw [Option.some.inj (found.symm.trans hlast), hnone] at hn
        cases hn

theorem mem_ids_of_node? {n : Node} (found : m.node? id = some n) :
    id ∈ m.nodes.map Node.id :=
  List.mem_map.mpr ⟨n, List.mem_of_find?_eq_some found, id_of_node? found⟩

/-- A path has fewer steps than there are nodes. -/
theorem Path.length_lt (h : m.Path id path last) : path.length < m.nodes.length := by
  have hsub : pathIds path last ⊆ m.nodes.map Node.id := by
    intro x hx
    obtain ⟨n, hn, rfl⟩ := List.mem_map.mp hx
    rcases List.mem_append.mp hn with hn | hn
    · exact mem_ids_of_node? (h.from_mem n hn).1
    · rw [List.mem_singleton.mp hn]
      exact mem_ids_of_node? h.last_found.1
  have hle := h.nodup.length_le_of_subset hsub
  rw [pathIds, List.length_map, List.length_map, List.length_append] at hle
  exact hle

/-! ### The walk answers with the path -/

theorem get_eq (m : Memory) (id : NodeId) :
    (get id : Action Memory (Option Node)) m = (.ok (m.node? id), m) := rfl

theorem require_of_found {n : Node} (found : m.node? id = some n) :
    (require id : Action Memory Node) m = (.ok n, m) := by
  rw [require, bind_eq_of_ok (get_eq m id), found]
  rfl

theorem require_of_missing (missing : m.node? id = none) :
    (require id : Action Memory Node) m = (.error (.nodeNotFound id), m) := by
  rw [require, bind_eq_of_ok (get_eq m id), missing]
  rfl

/-- All that a walk can do at an id: come back, lead nowhere, end, or go on. -/
theorem followForward_cases (m : Memory) (steps : Nat) (seen : List NodeId) (id : NodeId) :
    id ∈ seen ∧ (followForward (steps + 1) seen id m).1 = .error (.cycleDetected id) ∨
      m.node? id = none ∧ (followForward (steps + 1) seen id m).1 = .error (.nodeNotFound id) ∨
      (∃ n, m.node? id = some n ∧ n.forward = none ∧
        (followForward (steps + 1) seen id m).1 = .ok [n]) ∨
      ∃ n next, id ∉ seen ∧ m.node? id = some n ∧ n.forward = some next ∧
        (followForward (steps + 1) seen id m).1
          = (followForward steps (id :: seen) next m).1.map (n :: ·) := by
  by_cases hseen : id ∈ seen
  · rw [followForward, if_pos hseen]
    exact Or.inl ⟨hseen, rfl⟩
  rw [followForward_of_notMem hseen]
  cases found : m.node? id with
  | none =>
      rw [bind_eq_of_error (require_of_missing found)]
      exact Or.inr (Or.inl ⟨rfl, rfl⟩)
  | some n =>
      rw [bind_eq_of_ok (require_of_found found)]
      cases hn : n.forward with
      | none => exact Or.inr (Or.inr (Or.inl ⟨n, rfl, hn, rfl⟩))
      | some next =>
          refine Or.inr (Or.inr (Or.inr ⟨n, next, hseen, rfl, hn, ?_⟩))
          dsimp only
          rcases hrest : followForward steps (id :: seen) next m with ⟨e | rest, m'⟩
          · rw [bind_eq_of_error hrest]
            rfl
          · rw [bind_eq_of_ok hrest]
            rfl

/-- A walk that succeeds has gone along a path. -/
theorem path_of_followForward :
    ∀ (steps : Nat) {seen : List NodeId} {id : NodeId} {chain : List Node},
      (followForward steps seen id m).1 = .ok chain →
        ∃ path last, chain = path ++ [last] ∧ m.Path id path last := by
  intro steps
  induction steps with
  | zero => intro seen id chain h; cases h
  | succ steps ih =>
      intro seen id chain h
      rcases followForward_cases m steps seen id with
        ⟨-, hwalk⟩ | ⟨-, hwalk⟩ | ⟨n, found, hn, hwalk⟩ | ⟨n, next, -, found, hn, hwalk⟩
      · cases hwalk.symm.trans h
      · cases hwalk.symm.trans h
      · cases hwalk.symm.trans h
        exact ⟨[], n, rfl, .stop found hn⟩
      · rw [hwalk] at h
        cases hrest : (followForward steps (id :: seen) next m).1 with
        | error e =>
            rw [hrest] at h
            cases h
        | ok rest =>
            rw [hrest] at h
            cases h
            obtain ⟨path, last, rfl, hpath⟩ := ih hrest
            exact ⟨n :: path, last, rfl, .go found hn hpath⟩

/-- Along a path a walk succeeds that may go far enough and has met none of its ids before. -/
theorem Path.followForward_eq (h : m.Path id path last) :
    ∀ {steps : Nat} {seen : List NodeId}, path.length < steps →
      (∀ x ∈ pathIds path last, x ∉ seen) →
        followForward steps seen id m = (.ok (path ++ [last]), m) := by
  have hnodup := h.nodup
  induction h with
  | @stop id n found hn =>
      intro steps seen hlt hnew
      obtain ⟨steps, rfl⟩ := Nat.exists_eq_succ_of_ne_zero (Nat.ne_of_gt hlt)
      have hid : n.id = id := id_of_node? found
      have hseen : id ∉ seen := hid ▸ hnew n.id (List.mem_cons_self)
      rw [followForward_of_notMem hseen, bind_eq_of_ok (require_of_found found)]
      simp only [hn]
      rfl
  | @go id next n last path found hn rest ih =>
      intro steps seen hlt hnew
      obtain ⟨steps, rfl⟩ := Nat.exists_eq_succ_of_ne_zero (Nat.ne_of_gt (Nat.zero_lt_of_lt hlt))
      have hid : n.id = id := id_of_node? found
      obtain ⟨hhead, htail⟩ := List.nodup_cons.mp hnodup
      have hseen : id ∉ seen := hid ▸ hnew n.id (List.mem_cons_self)
      have hrest : followForward steps (id :: seen) next m = (.ok (path ++ [last]), m) := by
        refine ih htail (Nat.lt_of_succ_lt_succ hlt) ?_
        intro x hx
        rw [List.mem_cons, not_or]
        refine ⟨?_, hnew x (List.mem_cons_of_mem _ hx)⟩
        rintro rfl
        exact hhead (hid ▸ hx)
      rw [followForward_of_notMem hseen, bind_eq_of_ok (require_of_found found)]
      simp only [hn]
      rw [bind_eq_of_ok hrest]
      rfl

/-- There is a chain exactly where there is a path, and it is the path. -/
theorem forwardChain_eq_ok_iff {chain : List Node} :
    (forwardChain id m).1 = .ok chain ↔
      ∃ path last, chain = path ++ [last] ∧ m.Path id path last := by
  have hrun : forwardChain id m = followForward (m.nodes.length + 1) [] id m := rfl
  rw [hrun]
  constructor
  · exact path_of_followForward _
  · rintro ⟨path, last, rfl, h⟩
    rw [h.followForward_eq (Nat.lt_succ_of_lt h.length_lt) (fun _ _ => List.not_mem_nil)]

/-- Dereferencing answers with the canonical node, exactly where there is one. -/
theorem dereference_eq_ok_iff {n : Node} :
    (dereference id m).1 = .ok n ↔ m.Canonical id n := by
  constructor
  · intro h
    rw [dereference] at h
    rcases hchain : forwardChain id m with ⟨e | chain, m'⟩
    · rw [bind_eq_of_error hchain] at h
      cases h
    · obtain ⟨path, last, rfl, hpath⟩ := forwardChain_eq_ok_iff.mp (congrArg Prod.fst hchain)
      rw [bind_eq_of_ok hchain, List.getLast?_concat] at h
      cases h
      exact ⟨path, hpath⟩
  · rintro ⟨path, hpath⟩
    have hchain := forwardChain_eq_ok_iff.mpr ⟨path, n, rfl, hpath⟩
    rw [dereference, bind_eq_of_ok (Prod.ext hchain rfl), List.getLast?_concat]
    rfl

/-- A walk fails where it comes back, or where it leads nowhere. -/
theorem error_of_followForward :
    ∀ (steps : Nat) {seen : List NodeId} {id : NodeId} {e : EngineError},
      (followForward steps seen id m).1 = .error e →
        ∃ x, e = .cycleDetected x ∨ e = .nodeNotFound x := by
  intro steps
  induction steps with
  | zero =>
      intro seen id e h
      cases h
      exact ⟨id, Or.inl rfl⟩
  | succ steps ih =>
      intro seen id e h
      rcases followForward_cases m steps seen id with
        ⟨-, hwalk⟩ | ⟨-, hwalk⟩ | ⟨n, -, -, hwalk⟩ | ⟨n, next, -, -, -, hwalk⟩
      · cases hwalk.symm.trans h
        exact ⟨id, Or.inl rfl⟩
      · cases hwalk.symm.trans h
        exact ⟨id, Or.inr rfl⟩
      · cases hwalk.symm.trans h
      · rw [hwalk] at h
        cases hrest : (followForward steps (id :: seen) next m).1 with
        | error e' =>
            rw [hrest] at h
            cases h
            exact ih hrest
        | ok rest =>
            rw [hrest] at h
            cases h

/-- An id that is not dereferenced leads into a cycle or nowhere. -/
theorem error_of_dereference {e : EngineError} (h : (dereference id m).1 = .error e) :
    ∃ x, e = .cycleDetected x ∨ e = .nodeNotFound x := by
  rw [dereference] at h
  rcases hchain : forwardChain id m with ⟨e' | chain, m'⟩
  · rw [bind_eq_of_error hchain] at h
    cases h
    exact error_of_followForward _ (congrArg Prod.fst hchain)
  · rw [bind_eq_of_ok hchain] at h
    cases hlast : chain.getLast? with
    | none =>
        simp only [hlast] at h
        cases h
        exact ⟨id, Or.inr rfl⟩
    | some n =>
        simp only [hlast] at h
        cases h

/-! ### Paths that grow -/

/-- Each path of `m` is the start of a path of `m'`. -/
def Extends (m m' : Memory) : Prop :=
  ∀ (id : NodeId) (path : List Node) (last : Node), m.Path id path last →
    ∃ path' last', m'.Path id path' last' ∧ pathIds path last <+: pathIds path' last'

theorem Extends.refl (m : Memory) : m.Extends m :=
  fun _ _ _ h => ⟨_, _, h, List.prefix_refl _⟩

theorem Extends.trans (h : m.Extends m') (h' : m'.Extends m'') : m.Extends m'' := by
  intro id path last hpath
  obtain ⟨path', last', hpath', hpre⟩ := h _ _ _ hpath
  obtain ⟨path'', last'', hpath'', hpre'⟩ := h' _ _ _ hpath'
  exact ⟨path'', last'', hpath'', hpre.trans hpre'⟩

/-- An id leads where its former canonical node leads now. -/
theorem Extends.canonical (h : m.Extends m') {n : Node} (hn : m.Canonical id n) :
    ∃ k, m'.Canonical id k ∧ m'.Canonical n.id k := by
  obtain ⟨path, hpath⟩ := hn
  obtain ⟨path', last', hpath', hpre⟩ := h _ _ _ hpath
  have hmem : n.id ∈ pathIds path n := List.mem_map.mpr ⟨n, by simp, rfl⟩
  exact ⟨last', ⟨path', hpath'⟩, hpath'.canonical_of_mem (hpre.subset hmem)⟩

/-- Each forward chain of `m` is the start of one of `m'`, id by id. -/
theorem Extends.forwardChain (h : m.Extends m') {chain : List Node}
    (hchain : (forwardChain id m).1 = .ok chain) :
    ∃ chain', (Ideas.forwardChain id m').1 = .ok chain' ∧
      chain.map Node.id <+: chain'.map Node.id := by
  obtain ⟨path, last, rfl, hpath⟩ := forwardChain_eq_ok_iff.mp hchain
  obtain ⟨path', last', hpath', hpre⟩ := h _ _ _ hpath
  exact ⟨path' ++ [last'], forwardChain_eq_ok_iff.mpr ⟨path', last', rfl, hpath'⟩, hpre⟩

/-- Nodes that are still there and point where they did keep all paths as they were. -/
theorem extends_of_forward_eq (h : ∀ {id : NodeId} {n : Node}, m.node? id = some n →
    ∃ n', m'.node? id = some n' ∧ n'.forward = n.forward) : m.Extends m' := by
  intro id path last hpath
  suffices ∃ path' last', m'.Path id path' last' ∧ pathIds path last = pathIds path' last' by
    obtain ⟨path', last', hpath', heq⟩ := this
    exact ⟨path', last', hpath', heq ▸ List.prefix_refl _⟩
  induction hpath with
  | stop found hn =>
      obtain ⟨n', found', hn'⟩ := h found
      refine ⟨[], n', .stop found' (hn'.trans hn), ?_⟩
      simp [pathIds, id_of_node? found, id_of_node? found']
  | go found hn _ ih =>
      obtain ⟨n', found', hn'⟩ := h found
      obtain ⟨path', last', hpath', heq⟩ := ih
      refine ⟨n' :: path', last', .go found' (hn'.trans hn) hpath', ?_⟩
      rw [pathIds, List.cons_append, List.map_cons, id_of_node? found, ← pathIds, heq]
      rw [pathIds, pathIds, List.cons_append, List.map_cons, id_of_node? found']

/-- One node that pointed nowhere now points at another one that does: the paths that ended at
the one go on to the other. -/
theorem extends_of_forwarded {n k : Node} (n' : Node) (hn : m.Canonical n.id n)
    (hk : m.Canonical k.id k) (hne : n.id ≠ k.id) (found' : m'.node? n.id = some n')
    (hn' : n'.forward = some k.id)
    (hothers : ∀ id, id ≠ n.id → m'.node? id = m.node? id) : m.Extends m' := by
  have hk' : m'.Path k.id [] k :=
    .stop ((hothers k.id (Ne.symm hne)).trans hk.found) hk.forward_eq_none
  intro id path last hpath
  induction hpath with
  | @stop id x found hx =>
      by_cases hid : id = n.id
      · subst hid
        obtain rfl := Option.some.inj (found.symm.trans hn.found)
        refine ⟨[n'], k, .go found' hn' hk', ?_⟩
        simp [pathIds, id_of_node? found']
      · exact ⟨[], x, .stop ((hothers id hid).trans found) hx, List.prefix_refl _⟩
  | @go id next x last path found hx _ ih =>
      have hid : id ≠ n.id := by
        rintro rfl
        rw [Option.some.inj (found.symm.trans hn.found), hn.forward_eq_none] at hx
        cases hx
      obtain ⟨path', last', hpath', hpre⟩ := ih
      refine ⟨x :: path', last', .go ((hothers id hid).trans found) hx hpath', ?_⟩
      exact (List.prefix_cons_inj x.id).mpr hpre

end Memory

end Ideas
