/-
The ideas of a store, as a list.

Whatever is called, and whether it succeeds or fails, there is one list of ideas behind it all:
a call that creates an idea and succeeds puts it at the end, one that archives an idea marks it,
and no other call makes a difference (`Request.registered`).  `Recorded` are the states that
come about, each with its list; a watch may make any request of a call fail.

A state goes with a list if it shows just that list (`Catalogue`): no id is there twice, each
idea has its node, and what is read are the ideas of the list in its order.  And what is called
next either fails and leaves everything as it is, or makes a new idea together with one new node,
or takes one idea out of those that are active (`Consistent`).

All this is derived from what is shown of a kind of store once (`Curates`): what it holds is
steady, and what its two calls that write ideas do to it.
-/
import Ideas.Proofs.Contract
import Ideas.Proofs.Steady

namespace Ideas

open NodeStore

/-! ### Registers -/

/-- Ideas in the order of their creation. -/
abbrev Register := List Idea

namespace Register

/-- Mark an idea as archived, or as active again. -/
def mark (id : NodeId) (archived : Bool) (l : Register) : Register :=
  l.map fun i => if i.id = id then { i with archived } else i

/-- The ideas of an owner that are not archived. -/
def active (owner : String) (l : Register) : Register :=
  l.filter fun i => i.owner = owner ∧ i.archived = false

variable {l : Register} {id : NodeId}

theorem map_id_mark (id : NodeId) (archived : Bool) (l : Register) :
    (mark id archived l).map Idea.id = l.map Idea.id := by
  rw [mark, List.map_map]
  refine List.map_congr_left fun i _ => ?_
  rw [Function.comp]
  split <;> rfl

/-- What is true of all ids is true of them when an idea is marked. -/
theorem forall_mem_mark {p : NodeId → Prop} {archived : Bool} (h : ∀ i ∈ l, p i.id) :
    ∀ i ∈ mark id archived l, p i.id := by
  have hids : ∀ j ∈ (mark id archived l).map Idea.id, p j := by
    rw [map_id_mark]
    exact List.forall_mem_map.mpr h
  exact List.forall_mem_map.mp hids

theorem distinct_concat {i : Idea} (h : (l.map Idea.id).Nodup) (new : ∀ j ∈ l, j.id ≠ i.id) :
    ((l ++ [i]).map Idea.id).Nodup := by
  rw [List.map_append, List.map_singleton]
  refine List.nodup_append.mpr ⟨h, List.nodup_singleton _, ?_⟩
  exact List.forall_mem_map.mpr fun j hj => List.forall_mem_singleton.mpr (new j hj)

theorem mark_eq_self {archived : Bool} (h : id ∉ l.map Idea.id) : mark id archived l = l := by
  refine (List.map_congr_left fun i hi => if_neg ?_).trans (List.map_id' l)
  rintro rfl
  exact h (List.mem_map_of_mem hi)

theorem active_cons_of_pos {owner : String} {i : Idea} (h : i.owner = owner ∧ i.archived = false)
    (l : Register) : active owner (i :: l) = i :: active owner l :=
  List.filter_cons_of_pos (decide_eq_true h)

theorem active_cons_of_neg {owner : String} {i : Idea}
    (h : ¬(i.owner = owner ∧ i.archived = false)) (l : Register) :
    active owner (i :: l) = active owner l :=
  List.filter_cons_of_neg (by rwa [decide_eq_true_eq])

/-- Where no idea has the id, no active one has. -/
theorem eraseP_active (h : id ∉ l.map Idea.id) (owner : String) :
    (active owner l).eraseP (fun i => i.id = id) = active owner l := by
  refine List.eraseP_of_forall_not fun i hi => ?_
  rw [decide_eq_true_eq]
  rintro rfl
  exact h (List.mem_map_of_mem (List.mem_of_mem_filter hi))

/-- To archive an idea takes it out of the active ones of its owner, and leaves the others in their
order. -/
theorem active_mark (h : (l.map Idea.id).Nodup) (id : NodeId) (owner : String) :
    active owner (mark id true l) = (active owner l).eraseP fun i => i.id = id := by
  induction l with
  | nil => rfl
  | cons i rest ih =>
      obtain ⟨hi, hrest⟩ := List.nodup_cons.mp h
      by_cases hid : i.id = id
      · subst hid
        have hmark : mark i.id true (i :: rest) = { i with archived := true } :: rest := by
          rw [mark, List.map_cons, if_pos rfl]
          exact congrArg _ (mark_eq_self hi)
        rw [hmark, active_cons_of_neg fun h => Bool.noConfusion h.2]
        by_cases hactive : i.owner = owner ∧ i.archived = false
        · rw [active_cons_of_pos hactive, List.eraseP_cons_of_pos (by simp)]
        · rw [active_cons_of_neg hactive, eraseP_active hi]
      · have hmark : mark id true (i :: rest) = i :: mark id true rest := by
          rw [mark, List.map_cons, if_neg hid]
          rfl
        rw [hmark]
        by_cases hactive : i.owner = owner ∧ i.archived = false
        · rw [active_cons_of_pos hactive, active_cons_of_pos hactive, ih hrest,
            List.eraseP_cons_of_neg (by rwa [decide_eq_true_eq])]
        · rw [active_cons_of_neg hactive, active_cons_of_neg hactive, ih hrest]

end Register

/-! ### What a call makes of the register -/

namespace Request

/-- The idea and the node that a call is to create. -/
def creates? : Request → Option (Idea × Node)
  | createIdea i n => some (i, n)
  | authorIdea i arcs => some (i, nodeOf i arcs)
  | get _ | require _ | create _ | update _ _ | nextGeneration _ | getIdea _ | listActive _
  | archiveIdea _ | unifyCore _ _ | unify _ _ _ | dereference _ | forwardChain _
  | materialize _ _ | discover _ _ => none

/-- The register after a call that succeeds. -/
def register : Request → Register → Register
  | createIdea i _, l | authorIdea i _, l => l ++ [i]
  | archiveIdea id, l => l.mark id true
  | get _, l | require _, l | create _, l | update _ _, l | nextGeneration _, l | getIdea _, l
  | listActive _, l | unifyCore _ _, l | unify _ _ _, l | dereference _, l | forwardChain _, l
  | materialize _ _, l | discover _ _, l => l

theorem register_of_leavesIdeas {r : Request} (h : r.LeavesIdeas) (l : Register) :
    r.register l = l := by
  cases r with
  | createIdea | authorIdea | archiveIdea => exact h.elim
  | _ => rfl

/-- The register after a call, which makes no difference if it fails. -/
def registered (r : Request) (answer : Except EngineError r.Answer) (l : Register) : Register :=
  match answer with
  | .ok _ => r.register l
  | .error _ => l

/-- A call writes no ideas, or archives one, or creates one. -/
theorem writesIdeas_cases (r : Request) : r.LeavesIdeas ∨ (∃ id, r = .archiveIdea id) ∨
    ∃ i n, r.creates? = some (i, n) := by
  cases r with
  | createIdea i n => exact Or.inr (Or.inr ⟨i, n, rfl⟩)
  | authorIdea i arcs => exact Or.inr (Or.inr ⟨i, _, rfl⟩)
  | archiveIdea id => exact Or.inr (Or.inl ⟨id, rfl⟩)
  | _ => exact Or.inl trivial

end Request

/-- What comes about from a start, each with its register: by calls, and by faults that are set for
some of their requests. -/
inductive Recorded {σ : Type} [NodeStore σ] (start : σ) : Register → Monitored σ → Prop
  | start : Recorded start [] { inner := start }
  | fault {l : Register} {m : Monitored σ} (h : Recorded start l m) (fault : Option Fault) :
      Recorded start l { m with fault }
  | call {l : Register} {m : Monitored σ} (h : Recorded start l m) (r : Request) :
      Recorded start (r.registered (r.run m).1 l) (r.run m).2

/-- A watched request that fails unchanged or does its work in the store does so behind the watch,
too. -/
theorem done_behind_watch {σ α : Type} {m m' : Monitored σ} {operation : Operation}
    {act : Action σ α} {did : Except EngineError α → σ → Prop} {res : Except EngineError α}
    (hact : ∀ res s', act m.inner = (res, s') →
      (∃ e, res = .error e) ∧ s' = m.inner ∨ did res s')
    (hrun : Monitored.pass operation act m = (res, m')) :
    (∃ e, res = .error e) ∧ m'.inner = m.inner ∨ did res m'.inner := by
  rcases Regime.pass_cases operation act m with ⟨_, _, hpass⟩ | ⟨_, _, hpass⟩ <;>
    cases hpass.symm.trans hrun
  · exact Or.inl ⟨⟨_, rfl⟩, rfl⟩
  · exact hact _ _ rfl

/-! ### What a store shows of it -/

variable {σ : Type} [NodeStore σ]

/-- A store shows the ideas of a register, each as it is stored, and each with a node. -/
structure Catalogue (k : Keeping σ) (stored : Idea → Idea) (l : Register) (s : σ) : Prop where
  distinct : (l.map Idea.id).Nodup
  node : ∀ i ∈ l, ∃ e, k.entry? s i.id = some e ∧ (k.identity e).id = some i.id.text
  found : ∀ id, ((getIdea id : Action σ _) s).1 = .ok ((l.find? fun i => i.id = id).map stored)
  listed : ∀ owner, ((listActive owner : Action σ _) s).1 = .ok ((l.active owner).map stored)

/-- A watched store goes with its register, and so will all that comes of it. -/
structure Consistent (k : Keeping σ) (stored : Idea → Idea) (l : Register) (m : Monitored σ) :
    Prop where
  catalogue : Catalogue k stored l m.inner
  /-- A call that creates an idea adds one idea and one node, or it fails and adds neither. -/
  creates : ∀ (r : Request) i n, r.creates? = some (i, n) →
    (∃ e, (r.run m).1 = .error e) ∧ (r.run m).2.inner = m.inner ∨
      (∃ a, (r.run m).1 = .ok a) ∧ i.id = n.id ∧ k.Stores m.inner (r.run m).2.inner n ∧
        nodeCount (r.run m).2.inner = nodeCount m.inner + 1 ∧
        Catalogue k stored (l ++ [i]) (r.run m).2.inner
  /-- A call that archives an idea takes it out of the active ones, or it fails. -/
  archives : ∀ id res m', (archiveIdea id : Action (Monitored σ) _) m = (res, m') →
    (∃ e, res = .error e) ∧ m'.inner = m.inner ∨
      res = .ok () ∧ (∃ i ∈ l, i.id = id) ∧ Catalogue k stored (l.mark id true) m'.inner ∧
        ∀ owner active, ((listActive owner : Action σ _) m.inner).1 = .ok active →
          ((listActive owner : Action σ _) m'.inner).1 = .ok (active.eraseP fun i => i.id = id)

/-- What a kind of store holds goes with a register. -/
structure Curates (k : Keeping σ) (stored : Idea → Idea) (holds : Register → σ → Prop) :
    Prop where
  id_stored : ∀ i, (stored i).id = i.id
  steady : ∀ l, Steady (holds l)
  catalogue : ∀ {l s}, holds l s → Catalogue k stored l s
  createIdea : ∀ {l s}, holds l s → ∀ i n res s', (createIdea i n : Action σ _) s = (res, s') →
    (∃ e, res = .error e) ∧ s' = s ∨
      res = .ok () ∧ i.id = n.id ∧ k.Stores s s' n ∧ nodeCount s' = nodeCount s + 1 ∧
        holds (l ++ [i]) s'
  archiveIdea : ∀ {l s}, holds l s → ∀ id res s', (archiveIdea id : Action σ _) s = (res, s') →
    (∃ e, res = .error e) ∧ s' = s ∨
      res = .ok () ∧ (∃ i ∈ l, i.id = id) ∧ holds (l.mark id true) s'

namespace Curates

variable {k : Keeping σ} {stored : Idea → Idea} {holds : Register → σ → Prop} {l : Register}
  {m m' : Monitored σ}

theorem createIdea_watched (h : Curates k stored holds) (hm : holds l m.inner) {i : Idea}
    {n : Node} {res : Except EngineError Unit}
    (hrun : (NodeStore.createIdea i n : Action (Monitored σ) _) m = (res, m')) :
    (∃ e, res = .error e) ∧ m'.inner = m.inner ∨
      res = .ok () ∧ i.id = n.id ∧ k.Stores m.inner m'.inner n ∧
        nodeCount m'.inner = nodeCount m.inner + 1 ∧ holds (l ++ [i]) m'.inner :=
  done_behind_watch (h.createIdea hm i n) hrun

theorem archiveIdea_watched (h : Curates k stored holds) (hm : holds l m.inner) {id : NodeId}
    {res : Except EngineError Unit}
    (hrun : (NodeStore.archiveIdea id : Action (Monitored σ) _) m = (res, m')) :
    (∃ e, res = .error e) ∧ m'.inner = m.inner ∨
      res = .ok () ∧ (∃ i ∈ l, i.id = id) ∧ holds (l.mark id true) m'.inner :=
  done_behind_watch (h.archiveIdea hm id) hrun

/-- A call that creates an idea adds it, or fails. -/
theorem creates (h : Curates k stored holds) (hm : holds l m.inner) {r : Request} {i : Idea}
    {n : Node} (hr : r.creates? = some (i, n)) :
    (∃ e, (r.run m).1 = .error e) ∧ (r.run m).2.inner = m.inner ∨
      (∃ a, (r.run m).1 = .ok a) ∧ i.id = n.id ∧ k.Stores m.inner (r.run m).2.inner n ∧
        nodeCount (r.run m).2.inner = nodeCount m.inner + 1 ∧
        holds (l ++ [i]) (r.run m).2.inner := by
  cases r with
  | createIdea | authorIdea =>
      cases hr
      rcases h.createIdea_watched hm rfl with hfails | ⟨hok, hcreated⟩
      · exact Or.inl hfails
      · exact Or.inr ⟨⟨(), hok⟩, hcreated⟩
  | _ => cases hr

/-- A call that succeeds keeps what the store holds in step with the register. -/
theorem succeeds (h : Curates k stored holds) (hm : holds l m.inner) {r : Request} {a : r.Answer}
    (hrun : r.run m = (.ok a, m')) : holds (r.register l) m'.inner := by
  rcases r.writesIdeas_cases with hr | ⟨id, rfl⟩ | ⟨i, n, hr⟩
  · rw [Request.register_of_leavesIdeas hr, ← congrArg (·.2.inner) hrun]
    exact (h.steady l).watched.run hr hm
  · rcases h.archiveIdea_watched hm hrun with ⟨⟨_, he⟩, -⟩ | ⟨-, -, hholds⟩
    · cases he
    · exact hholds
  · have hregister : r.register l = l ++ [i] := by
      cases r <;> cases hr <;> rfl
    rcases h.creates hm hr with ⟨⟨_, he⟩, -⟩ | ⟨-, -, -, -, hholds⟩
    · cases he.symm.trans (congrArg Prod.fst hrun)
    · rw [hrun] at hholds
      rwa [hregister]

/-- A call that fails leaves the register as it is. -/
theorem fails (h : Curates k stored holds) (hm : holds l m.inner) {r : Request} {e : EngineError}
    (hrun : r.run m = (.error e, m')) : holds l m'.inner := by
  rcases r.writesIdeas_cases with hr | ⟨id, rfl⟩ | ⟨i, n, hr⟩
  · rw [← congrArg (·.2.inner) hrun]
    exact (h.steady l).watched.run hr hm
  · rcases h.archiveIdea_watched hm hrun with ⟨-, hsame⟩ | ⟨he, -⟩
    · rwa [hsame]
    · cases he
  · rcases h.creates hm hr with ⟨-, hsame⟩ | ⟨⟨_, hok⟩, -⟩
    · rw [hrun] at hsame
      rwa [hsame]
    · cases hok.symm.trans (congrArg Prod.fst hrun)

/-- Every call keeps what the store holds in step with the register. -/
theorem call (h : Curates k stored holds) (hm : holds l m.inner) (r : Request) :
    holds (r.registered (r.run m).1 l) (r.run m).2.inner := by
  rcases hrun : r.run m with ⟨e | a, m'⟩
  · exact h.fails hm hrun
  · exact h.succeeds hm hrun

/-- What is held goes with its register. -/
theorem consistent (h : Curates k stored holds) (hm : holds l m.inner) :
    Consistent k stored l m where
  catalogue := h.catalogue hm
  creates r i n hr := by
    rcases h.creates hm hr with hfails | ⟨hok, hid, hstores, hcount, hholds⟩
    · exact Or.inl hfails
    · exact Or.inr ⟨hok, hid, hstores, hcount, h.catalogue hholds⟩
  archives id res m' hrun := by
    rcases h.archiveIdea_watched hm hrun with hfails | ⟨hok, hknown, hholds⟩
    · exact Or.inl hfails
    refine Or.inr ⟨hok, hknown, h.catalogue hholds, fun owner active hactive => ?_⟩
    have hbefore := (h.catalogue hm).listed owner
    obtain rfl := Except.ok.inj (hbefore.symm.trans hactive)
    have hstored : ((fun j : Idea => decide (j.id = id)) ∘ stored)
        = fun j : Idea => decide (j.id = id) := by
      funext j
      rw [Function.comp, h.id_stored]
    rw [(h.catalogue hholds).listed owner, Register.active_mark (h.catalogue hm).distinct,
      List.eraseP_map, hstored]

/-- What comes about is held with its register. -/
theorem recorded (h : Curates k stored holds) {start : σ} (hstart : holds [] start)
    (hm : Recorded start l m) : holds l m.inner := by
  induction hm with
  | start => exact hstart
  | fault _ _ ih => exact ih
  | call _ r ih => exact h.call ih r

end Curates

/-! ### A memory goes with its own list -/

namespace Memory

/-- A memory holds the ideas of a register, and a node for each. -/
structure Holds (l : Register) (m : Memory) : Prop where
  ideas : m.ideas = l
  distinct : (l.map Idea.id).Nodup
  node : ∀ i ∈ l, (m.node? i.id).isSome

variable {l : Register} {m m' : Memory}

/-- What leaves the ideas alone and loses no node keeps to the register. -/
theorem Holds.of_keeps (h : Holds l m) (hideas : m'.ideas = m.ideas)
    (hnode : ∀ id, (m.node? id).isSome → (m'.node? id).isSome) : Holds l m' :=
  ⟨hideas.trans h.ideas, h.distinct, fun i hi => hnode i.id (h.node i hi)⟩

theorem holds_empty : Holds [] {} :=
  ⟨rfl, List.nodup_nil, fun _ hi => absurd hi List.not_mem_nil⟩

theorem isSome_node?_addNode {n : Node} (new : m.node? n.id = none) {id : NodeId}
    (h : (m.node? id).isSome) : ((m.addNode n).node? id).isSome := by
  rw [node?_addNode new]
  split
  · rfl
  · exact h

theorem isSome_node?_modifyNode (m : Memory) (id : NodeId) (u : Update) (j : NodeId) :
    ((m.modifyNode id u.applyTo).node? j).isSome = (m.node? j).isSome := by
  rw [node?_modifyNode _ _ (Update.id_applyTo u)]
  split
  · exact Option.isSome_map
  · rfl

theorem steady_holds (l : Register) : Steady (Holds l) where
  get _ h := h
  finds _ hget := id_of_node? (Except.ok.inj hget)
  create n h := by
    rw [create_eq]
    split
    · exact h
    · next hnew =>
        exact h.of_keeps rfl fun _ =>
          isSome_node?_addNode (Option.not_isSome_iff_eq_none.mp hnew)
  update id u h := by
    rw [update_eq]
    split
    · exact h.of_keeps rfl fun j hj => (isSome_node?_modifyNode _ id u j).trans hj
    · split <;> exact h
  nextGeneration _ h := h.of_keeps rfl fun _ hid => hid
  getIdea _ h := h
  listActive _ h := h

theorem Holds.catalogue (h : Holds l m) : Catalogue keeping (fun i => i) l m where
  distinct := h.distinct
  node i hi := by
    obtain ⟨n, hn⟩ := Option.isSome_iff_exists.mp (h.node i hi)
    exact ⟨n, hn, congrArg (fun id : NodeId => some id.text) (id_of_node? hn)⟩
  found id := by
    rw [Option.map_id', ← h.ideas]
    rfl
  listed owner := by
    rw [List.map_id', ← h.ideas]
    rfl

/-- An idea is added with its node.  One that was there has a node, and for the new one there was
none. -/
theorem Holds.add (h : Holds l m) {i : Idea} {n : Node} (hid : i.id = n.id)
    (new : m.node? n.id = none) : Holds (l ++ [i]) ((m.addNode n).addIdea i) where
  ideas := congrArg (· ++ [i]) h.ideas
  distinct := by
    refine Register.distinct_concat h.distinct fun j hj hji => ?_
    have hnode := h.node j hj
    rw [hji, hid, new] at hnode
    cases hnode
  node := by
    refine List.forall_mem_append.mpr ⟨fun j hj => isSome_node?_addNode new (h.node j hj),
      List.forall_mem_singleton.mpr ?_⟩
    rw [hid]
    exact Option.isSome_of_eq_some ((node?_addNode new n.id).trans (if_pos rfl))

theorem Holds.createIdea (h : Holds l m) {i : Idea} {n : Node} {res : Except EngineError Unit}
    (hrun : (NodeStore.createIdea i n : Action Memory _) m = (res, m')) :
    (∃ e, res = .error e) ∧ m' = m ∨
      res = .ok () ∧ i.id = n.id ∧ keeping.Stores m m' n ∧ nodeCount m' = nodeCount m + 1 ∧
        Holds (l ++ [i]) m' := by
  rw [createIdea_eq] at hrun
  split at hrun
  · cases hrun
    exact Or.inl ⟨⟨_, rfl⟩, rfl⟩
  next hid =>
  split at hrun
  · cases hrun
    exact Or.inl ⟨⟨_, rfl⟩, rfl⟩
  next hnew =>
  cases hrun
  have hid : i.id = n.id := Classical.not_not.mp hid
  have new : m.node? n.id = none := Option.not_isSome_iff_eq_none.mp hnew
  exact Or.inr ⟨rfl, hid, stores_addNode new _, List.length_append, h.add hid new⟩

theorem Holds.archiveIdea (h : Holds l m) {id : NodeId} {res : Except EngineError Unit}
    (hrun : (NodeStore.archiveIdea id : Action Memory _) m = (res, m')) :
    (∃ e, res = .error e) ∧ m' = m ∨
      res = .ok () ∧ (∃ i ∈ l, i.id = id) ∧ Holds (l.mark id true) m' := by
  rw [archiveIdea_eq] at hrun
  split at hrun
  · cases hrun
    exact Or.inl ⟨⟨_, rfl⟩, rfl⟩
  next hfound =>
  cases hrun
  obtain ⟨i, hi⟩ := Option.ne_none_iff_exists'.mp fun hnone =>
    hfound (Option.isNone_iff_eq_none.mpr hnone)
  refine Or.inr ⟨rfl, ⟨i, h.ideas ▸ List.mem_of_find?_eq_some hi, id_of_idea? hi⟩, ?_, ?_, ?_⟩
  · exact congrArg (Register.mark id true) h.ideas
  · rw [Register.map_id_mark]
    exact h.distinct
  · exact Register.forall_mem_mark (p := fun j => (m.node? j).isSome) h.node

theorem curates : Curates keeping (fun i => i) Holds where
  id_stored _ := rfl
  steady := steady_holds
  catalogue h := h.catalogue
  createIdea h _ _ _ _ hrun := h.createIdea hrun
  archiveIdea h _ _ _ hrun := h.archiveIdea hrun

end Memory

end Ideas
