/-
Writing the merged view of a node, in a store of any kind.

A merged view is written by two requests: one adds a node, and the other points the node that the
view was made of at it.  `Stock` says what these do to a kind of store, and `Stock.Lawful` how it is
seen when nodes are read.  Whichever request fails, what is left is told exactly: nothing, or the
new node and no change to any other.  Neither request touches a forward reference, and the new node
has an id under which nothing was; so a walk that did not break off just there takes the route that
it took before (`Gains.chains`).

The view itself is told field by field (`IsMergedView`), with its arcs as the first of each label
among all that are carried along the chain.

A store that is watched may fail at either request without asking the store behind (`Front`).
-/
import Ideas.Proofs.Database.Contract
import Ideas.Proofs.ForwardChain
import Ideas.Proofs.Unification.Answer

namespace Ideas

open NodeStore Lookup

/-! ### The first arc of each label -/

namespace Arcs

/-- To append the arcs whose labels are new is to drop those whose labels have come before. -/
theorem union_eq_loop (arcs extra : List Arc) :
    union arcs extra
      = List.eraseDupsBy.loop (fun a b => decide (a.label = b.label)) extra arcs.reverse := by
  induction extra generalizing arcs with
  | nil => exact (List.reverse_reverse arcs).symm
  | cons arc rest ih =>
      rw [union, List.foldl_cons, ← union, ih, insertNew, List.eraseDupsBy.loop]
      by_cases hmem : arc.label ∈ labels arcs
      · have hany : arcs.reverse.any (fun b => decide (arc.label = b.label)) = true := by
          obtain ⟨b, hb, hlabel⟩ := mem_labels.mp hmem
          exact List.any_eq_true.mpr ⟨b, List.mem_reverse.mpr hb, decide_eq_true hlabel.symm⟩
        rw [if_pos hmem, hany]
      · have hany : arcs.reverse.any (fun b => decide (arc.label = b.label)) = false := by
          rw [List.any_eq_false]
          intro b hb hlabel
          exact hmem (mem_labels.mpr ⟨b, List.mem_reverse.mp hb, (of_decide_eq_true hlabel).symm⟩)
        rw [if_neg hmem, hany, List.reverse_append]
        rfl

theorem dedup_eq_eraseDupsBy (arcs : List Arc) :
    dedup arcs = arcs.eraseDupsBy fun a b => decide (a.label = b.label) :=
  union_eq_loop [] arcs

theorem find?_insertNew (label : String) (arcs : List Arc) (arc : Arc) :
    find? label (insertNew arcs arc) = (find? label arcs).or (find? label [arc]) := by
  rw [insertNew]
  split
  · next hmem =>
      cases hfound : find? label arcs with
      | some _ => rfl
      | none =>
          have hne : arc.label ≠ label := by
            rintro rfl
            exact find?_eq_none_iff.mp hfound hmem
          simp [find?, hne]
  · rw [find?, List.find?_append]
    rfl

/-- In a union the first arc of a label is the first one in the two lists. -/
theorem find?_union (label : String) (arcs extra : List Arc) :
    find? label (union arcs extra) = (find? label arcs).or (find? label extra) := by
  induction extra generalizing arcs with
  | nil => exact (Option.or_none).symm
  | cons arc rest ih =>
      calc find? label (union arcs (arc :: rest))
          = (find? label (insertNew arcs arc)).or (find? label rest) := ih (insertNew arcs arc)
        _ = (find? label arcs).or ((find? label [arc]).or (find? label rest)) := by
            rw [find?_insertNew, Option.or_assoc]
        _ = (find? label arcs).or (find? label (arc :: rest)) := by
            rw [find?, find?, find?, find?, ← List.find?_append]
            rfl

theorem mem_of_mem_union {arcs extra : List Arc} {arc : Arc} (h : arc ∈ union arcs extra) :
    arc ∈ arcs ∨ arc ∈ extra := by
  induction extra generalizing arcs with
  | nil => exact Or.inl h
  | cons a rest ih =>
      rcases ih h with hmem | hmem
      · rw [insertNew] at hmem
        split at hmem
        · exact Or.inl hmem
        · rcases List.mem_append.mp hmem with hmem | hmem
          · exact Or.inl hmem
          · exact Or.inr (List.mem_cons.mpr (Or.inl (List.mem_singleton.mp hmem)))
      · exact Or.inr (List.mem_cons_of_mem _ hmem)

end Arcs

/-- The arcs of the first node win over those of all others. -/
theorem find?_gatheredArcs_of_head {label : String} {arc : Arc} {n : Node} {rest : List Node}
    (h : Arcs.find? label n.arcs = some arc) :
    Arcs.find? label (gatheredArcs (n :: rest)) = some arc := by
  have hcarried : Arcs.find? label (carriedArcs (n :: rest)) = some arc := by
    rw [carriedArcs_cons, List.append_assoc, Arcs.find?, List.find?_append, ← Arcs.find?, h]
    rfl
  rw [gatheredArcs_eq_dedup, Arcs.dedup, Arcs.find?_union, hcarried]
  rfl

/-- What is gathered along a chain some node of it carries. -/
theorem mem_of_mem_gatheredArcs {arc : Arc} {chain : List Node} (h : arc ∈ gatheredArcs chain) :
    ∃ n ∈ chain, arc ∈ n.arcs ++ n.complement := by
  rw [gatheredArcs_eq_dedup] at h
  rcases Arcs.mem_of_mem_union h with h | h
  · cases h
  · exact List.mem_flatMap.mp h

/-! ### The view -/

/-- A node refers to an id if it points there, has its copy there, or has an arc to it. -/
def Node.RefersTo (n : Node) (id : NodeId) : Prop :=
  n.forward = some id ∨ n.copy = some id ∨ ∃ arc ∈ n.arcs ++ n.complement, arc.value = .node id

/-- No node that can be read refers to an id. -/
def Unreferenced {σ : Type} [NodeStore σ] (s : σ) (id : NodeId) : Prop :=
  ∀ x n, held s x = .ok (some n) → ¬ n.RefersTo id

/-- The merged view of a chain that begins with `input` and ends with `canonical`. -/
structure IsMergedView (fresh : NodeId) (input canonical : Node) (chain : List Node)
    (view : Node) : Prop where
  id : view.id = fresh
  owner : view.owner = input.owner
  name : view.name = canonical.name.or input.name
  generation : view.generation = canonical.generation
  arcs : view.arcs = (chain.flatMap fun n => n.arcs ++ n.complement).eraseDupsBy
    fun a b => decide (a.label = b.label)
  labels : (Arcs.labels view.arcs).Nodup
  own : ∀ label arc, Arcs.find? label input.arcs = some arc →
    Arcs.find? label view.arcs = some arc
  complex : canonical.kind = .complex ∨ view.arcs ≠ [] → view.kind = .complex
  simple : canonical.kind ≠ .complex → view.arcs = [] → view.kind = canonical.kind
  complement : view.complement = []
  forward : view.forward = none
  copy : view.copy = none

theorem isMergedView (fresh : NodeId) {input canonical : Node} {chain : List Node}
    (hhead : chain.head? = some input) :
    IsMergedView fresh input canonical chain (mergedView fresh input canonical chain) where
  id := rfl
  owner := rfl
  name := rfl
  generation := rfl
  arcs := (gatheredArcs_eq_dedup chain).trans (Arcs.dedup_eq_eraseDupsBy _)
  labels := by
    show (Arcs.labels (gatheredArcs chain)).Nodup
    rw [gatheredArcs_eq_dedup]
    exact Arcs.nodup_labels_dedup _
  own label arc h := by
    obtain ⟨rest, rfl⟩ := List.head?_eq_some_iff.mp hhead
    exact find?_gatheredArcs_of_head h
  complex h := by
    refine if_pos ?_
    rw [Bool.or_eq_true]
    rcases h with h | h
    · exact Or.inl (decide_eq_true h)
    · refine Or.inr ?_
      rw [Bool.not_eq_true', List.isEmpty_eq_false_iff]
      exact h
  simple hkind harcs := by
    refine if_neg ?_
    rw [Bool.or_eq_true]
    rintro (h | h)
    · exact hkind (of_decide_eq_true h)
    · rw [show gatheredArcs chain = [] from harcs] at h
      cases h
  complement := rfl
  forward := rfl
  copy := rfl

/-- A view refers to nothing that no node of its chain refers to. -/
theorem IsMergedView.of_refersTo {fresh id : NodeId} {input canonical view : Node}
    {chain : List Node} (h : IsMergedView fresh input canonical chain view)
    (hrefers : view.RefersTo id) : ∃ n ∈ chain, n.RefersTo id := by
  rcases hrefers with hforward | hcopy | ⟨arc, hmem, hvalue⟩
  · cases h.forward.symm.trans hforward
  · cases h.copy.symm.trans hcopy
  · rw [h.complement, List.append_nil, h.arcs, ← Arcs.dedup_eq_eraseDupsBy] at hmem
    obtain ⟨n, hn, harc⟩ := mem_of_mem_gatheredArcs ((gatheredArcs_eq_dedup chain).symm ▸ hmem)
    exact ⟨n, hn, Or.inr (Or.inr ⟨arc, harc, hvalue⟩)⟩

/-! ### Two ways to write -/

/-- What it means for a kind of store that a node is added, and that one is pointed at its copy. -/
structure Stock (σ : Type) where
  add : Node → σ → σ
  point : NodeId → NodeId → σ → σ
  /-- The store without its nodes. -/
  aside : σ → σ
  /-- Whether a generation can be written. -/
  fits : Nat → Prop
  /-- Whether a node can be read as it was added. -/
  givesBack : Node → Prop

/-- Give the node with an id its copy. -/
def Node.withCopy (id copy : NodeId) (n : Node) : Node :=
  if n.id = id then { n with copy := some copy } else n

@[simp] theorem Node.id_withCopy (id copy : NodeId) (n : Node) :
    (n.withCopy id copy).id = n.id := by
  unfold Node.withCopy
  split <;> rfl

@[simp] theorem Node.forward_withCopy (id copy : NodeId) (n : Node) :
    (n.withCopy id copy).forward = n.forward := by
  unfold Node.withCopy
  split <;> rfl

section

variable {σ : Type} [NodeStore σ]

/-- The two requests do what they should do or nothing, and the nodes are read accordingly. -/
structure Stock.Lawful (k : Stock σ) : Prop where
  create_cases : ∀ {n : Node} {s s' : σ} {r}, create n s = (r, s') →
    (∃ e, r = .error e ∧ s' = s) ∨ held s n.id = .ok none ∧ r = .ok () ∧ s' = k.add n s
  point_cases : ∀ {id copy : NodeId} {s s' : σ} {r}, update id { copy := some copy } s = (r, s') →
    (∃ e, r = .error e ∧ s' = s) ∨ r = .ok () ∧ s' = k.point id copy s
  create_of_fits : ∀ {n : Node} {s : σ}, held s n.id = .ok none → k.fits n.generation →
    (create n s).1 = .ok ()
  point_of_held : ∀ {id copy : NodeId} {s : σ} {n}, held s id = .ok (some n) →
    (update id { copy := some copy } s).1 = .ok ()
  held_add_self : ∀ {n : Node} {s : σ}, held s n.id = .ok none → k.givesBack n →
    held (k.add n s) n.id = .ok (some n)
  held_add : ∀ {n : Node} {s : σ}, held s n.id = .ok none → ∀ x, x ≠ n.id →
    held (k.add n s) x = held s x
  held_point_self : ∀ {id copy : NodeId} {s : σ} {n}, held s id = .ok (some n) →
    held (k.point id copy s) id = .ok (some { n with copy := some copy })
  held_point : ∀ (id copy : NodeId) (s : σ) (x : NodeId), x ≠ id →
    held (k.point id copy s) x = held s x
  nodeCount_add : ∀ (n : Node) (s : σ), nodeCount (k.add n s) = nodeCount s + 1
  nodeCount_point : ∀ (id copy : NodeId) (s : σ), nodeCount (k.point id copy s) = nodeCount s
  aside_add : ∀ (n : Node) (s : σ), k.aside (k.add n s) = k.aside s
  aside_point : ∀ (id copy : NodeId) (s : σ), k.aside (k.point id copy s) = k.aside s

/-- One state has the nodes of another, changed by `f`, and the node `view` besides. -/
structure Gains (k : Stock σ) (f : Node → Node) (view : Node) (s s' : σ) : Prop where
  new : held s view.id = .ok none
  added : k.givesBack view → held s' view.id = .ok (some view)
  others : ∀ x, x ≠ view.id → held s' x = (held s x).map (Option.map f)
  nodeCount : nodeCount s' = nodeCount s + 1
  aside : k.aside s' = k.aside s
  /-- Walks that did not miss the new node end as they ended. -/
  chains : ∀ x, (forwardChain x s).1 ≠ .error (.nodeNotFound view.id) →
    (forwardChain x s').1 = (forwardChain x s).1.map (List.map f)

end

section

variable {σ : Type} [NodeStore σ] [Lookup σ] {k : Stock σ} {s s' : σ} {view : Node}
  {f : Node → Node}

omit [Lookup σ] in
/-- A walk takes the route that it took, if nothing was changed of where nodes point. -/
theorem Walks.carry (hid : ∀ n, (f n).id = n.id) (hforward : ∀ n, (f n).forward = n.forward)
    {fresh : NodeId} (new : held s fresh = .ok none)
    (others : ∀ x, x ≠ fresh → held s' x = (held s x).map (Option.map f)) {id : NodeId}
    {r : Except EngineError (List Node)} (h : Walks s id r)
    (hr : r ≠ .error (.nodeNotFound fresh)) :
    Walks s' id (r.map (List.map f)) := by
  have hsome : ∀ {x n}, held s x = .ok (some n) → held s' x = .ok (some (f n)) := by
    intro x n found
    have hne : x ≠ fresh := by
      rintro rfl
      cases new.symm.trans found
    rw [others x hne, found]
    rfl
  have hroute : ∀ {id path x}, Route s id path x → Route s' id (path.map f) x := by
    intro id path x h
    induction h with
    | start => exact .start
    | go found hn _ ih => exact .go (hsome found) ((hforward _).trans hn) ih
  have hids : ∀ path : List Node, (path.map f).map Node.id = path.map Node.id := by
    intro path
    rw [List.map_map]
    exact List.map_congr_left fun n _ => hid n
  obtain ⟨path, x, leads, hnodup, halts⟩ := h
  refine ⟨path.map f, x, hroute leads, (hids path).symm ▸ hnodup, ?_⟩
  cases halts with
  | @arrives last found hlast =>
      have harrives : Halts s' (path.map f) x (.ok (path.map f ++ [f last])) :=
        .arrives (hsome found) ((hforward _).trans hlast)
      rwa [← List.map_singleton, ← List.map_append] at harrives
  | returns again => exact .returns ((hids path).symm ▸ again)
  | leaves missing =>
      have hne : x ≠ fresh := by
        rintro rfl
        exact hr rfl
      refine .leaves ?_
      rw [others x hne, missing]
      rfl
  | fails unread =>
      have hne : x ≠ fresh := by
        rintro rfl
        cases new.symm.trans unread
      refine .fails ?_
      rw [others x hne, unread]
      rfl

theorem forwardChain_carry (hid : ∀ n, (f n).id = n.id) (hforward : ∀ n, (f n).forward = n.forward)
    {fresh : NodeId} (new : held s fresh = .ok none)
    (others : ∀ x, x ≠ fresh → held s' x = (held s x).map (Option.map f)) (x : NodeId)
    (hx : (forwardChain x s).1 ≠ .error (.nodeNotFound fresh)) :
    (forwardChain x s').1 = (forwardChain x s).1.map (List.map f) :=
  forwardChain_fst_eq_iff.mpr
    (Walks.carry hid hforward new others (forwardChain_fst_eq_iff.mp rfl) hx)

/-- When the view is added, nothing else is changed. -/
theorem Stock.Lawful.gains_add (h : k.Lawful) (new : held s view.id = .ok none) :
    Gains k id view s (k.add view s) := by
  have others : ∀ x, x ≠ view.id → held (k.add view s) x = (held s x).map (Option.map id) := by
    intro x hx
    rw [h.held_add new x hx, Option.map_id]
    cases held s x <;> rfl
  exact ⟨new, h.held_add_self new, others, h.nodeCount_add view s, h.aside_add view s,
    forwardChain_carry (fun _ => rfl) (fun _ => rfl) new others⟩

/-- When a node is pointed at the view, that is all that is changed of it, and no other is. -/
theorem Stock.Lawful.gains_point (h : k.Lawful) (new : held s view.id = .ok none) {input : Node}
    (found : held s input.id = .ok (some input)) :
    Gains k (Node.withCopy input.id view.id) view s
      (k.point input.id view.id (k.add view s)) := by
  have hne : input.id ≠ view.id := by
    intro heq
    rw [heq] at found
    cases new.symm.trans found
  have hadded : held (k.add view s) input.id = .ok (some input) :=
    (h.held_add new _ hne).trans found
  have others : ∀ x, x ≠ view.id → held (k.point input.id view.id (k.add view s)) x
      = (held s x).map (Option.map (Node.withCopy input.id view.id)) := by
    intro x hx
    by_cases hinput : x = input.id
    · subst hinput
      rw [h.held_point_self hadded, found]
      simp [Except.map, Node.withCopy]
    · rw [h.held_point _ _ _ x hinput, h.held_add new x hx]
      cases hheld : held s x with
      | error e => rfl
      | ok found =>
          cases found with
          | none => rfl
          | some n => simp [Except.map, Node.withCopy, id_of_held hheld, hinput]
  refine ⟨new, fun hback => ?_, others, ?_, ?_, forwardChain_carry (Node.id_withCopy _ _)
    (Node.forward_withCopy _ _) new others⟩
  · rw [h.held_point _ _ _ _ hne.symm, h.held_add_self new hback]
  · rw [h.nodeCount_point, h.nodeCount_add]
  · rw [h.aside_point, h.aside_add]

/-- Nobody refers to a view that was only added. -/
theorem Gains.unreferenced {fresh : NodeId} {input canonical : Node} {chain : List Node}
    {origin : NodeId} (h : Gains k id view s s') (hback : k.givesBack view)
    (isView : IsMergedView fresh input canonical chain view)
    (hchain : (forwardChain origin s).1 = .ok chain) (hnone : Unreferenced s fresh) :
    Unreferenced s' fresh := by
  intro x n found hrefers
  by_cases hx : x = view.id
  · subst hx
    obtain rfl := Option.some.inj (Except.ok.inj (found.symm.trans (h.added hback)))
    obtain ⟨k, hk, hrefers⟩ := isView.of_refersTo hrefers
    obtain ⟨path, last, rfl, -, leads, hlast, -⟩ :=
      walks_ok_iff.mp (forwardChain_fst_eq_iff.mp hchain)
    rcases List.mem_append.mp hk with hk | hk
    · exact hnone _ _ (leads.of_mem hk).1 hrefers
    · obtain rfl := List.mem_singleton.mp hk
      exact hnone _ _ hlast hrefers
  · rw [h.others x hx, Option.map_id] at found
    refine hnone x n ?_ hrefers
    cases hheld : held s x <;> rw [hheld] at found <;> exact found

end

/-- A memory takes any node under a new id, and keeps it as it is. -/
def Memory.stock : Stock Memory where
  add n m := m.addNode n
  point id copy m := m.modifyNode id (Update.applyTo { copy := some copy })
  aside m := { m with nodes := [] }
  fits _ := True
  givesBack _ := True

theorem Memory.lawful_stock : Memory.stock.Lawful where
  create_cases h := by
    rcases Memory.create_cases h with hfails | ⟨new, hr, hs⟩
    · exact Or.inl hfails
    · exact Or.inr ⟨congrArg Except.ok new, hr, hs⟩
  point_cases h := by
    rcases Memory.update_cases h with hfails | ⟨-, hdone⟩
    · exact Or.inl hfails
    · exact Or.inr hdone
  create_of_fits {n m} new _ := by
    rw [create_eq, show m.node? n.id = none from Except.ok.inj new]
    rfl
  point_of_held {id copy m n} found := by
    rw [update_eq, if_pos (takes_iff.mpr ⟨n, Except.ok.inj found, by simp⟩)]
  held_add_self {n m} new _ := by
    rw [held_eq]
    exact congrArg Except.ok ((node?_addNode (Except.ok.inj new) n.id).trans (if_pos rfl))
  held_add {n m} new x hx :=
    congrArg Except.ok ((node?_addNode (Except.ok.inj new) x).trans (if_neg hx))
  held_point_self {id copy m n} found := by
    refine congrArg Except.ok ((node?_modifyNode m id (Update.id_applyTo _) id).trans ?_)
    rw [if_pos rfl, show m.node? id = some n from Except.ok.inj found]
    rfl
  held_point id copy m x hx :=
    congrArg Except.ok ((node?_modifyNode m id (Update.id_applyTo _) x).trans (if_neg hx))
  nodeCount_add n m := List.length_append
  nodeCount_point id copy m := List.length_map _
  aside_add _ _ := rfl
  aside_point _ _ _ := rfl

namespace Database

/-- A database takes any node under a new id if its generation fits, and gives it back if its
numbers read back. -/
def stock : Stock Database where
  add n db := { db with nodes := db.nodes.insert (.holding n) }
  point id copy db := db.overwritten id { copy := some copy }
  aside db := { db with nodes := {} }
  fits generation := (generation : Int) ≤ Decimal.greatestInt64
  givesBack := Node.NumbersReadBack

variable {db : Database} {id : NodeId} {n : Node}

theorem held_eq_ok_none_iff : held db id = .ok none ↔ db.nodeRow? id = none := by
  rcases held_cases db id with ⟨hrow, hheld⟩ | ⟨n, hheld, rfl, row, hrow, -⟩ |
    ⟨row, cause, hrow, -, hheld⟩ <;> simp [hrow, hheld]

theorem held_eq_ok_some_iff : held db id = .ok (some n) ↔
    ∃ row, db.nodeRow? id = some row ∧ row.Holds n := by
  rw [held, get_eq]
  cases db.nodeRow? id with
  | none => simp
  | some row => simp [read_eq_ok_iff, NodeRow.toNode_eq_ok_iff]

theorem held_congr {db' : Database} (h : db'.nodeRow? id = db.nodeRow? id) :
    held db' id = held db id := by
  rw [held, held, get_eq, get_eq, h]

theorem takes_withCopy (row : NodeRow) (id copy : NodeId) :
    row.takes id { copy := some copy } = decide (row.id = some id.text) := by
  simp [NodeRow.takes]

theorem point_of_row {row : NodeRow} (hrow : db.nodeRow? id = some row) (copy : NodeId) :
    (update id { copy := some copy } : Action Database Unit) db
      = (.ok (), db.overwritten id { copy := some copy }) := by
  have hany : db.nodes.toList.any (NodeRow.takes id { copy := some copy }) = true := by
    refine List.any_eq_true.mpr ⟨row, List.mem_of_find?_eq_some hrow, ?_⟩
    rw [takes_withCopy]
    exact decide_eq_true (key_of_nodeRow? hrow)
  have hgeneration : (ask fun _ => (none : Option Nat).mapM ofCount) db = (.ok none, db) := rfl
  have hwrite : (statement fun db =>
      .ok (db.nodes.toList.any (NodeRow.takes id { copy := some copy }),
        db.overwritten id { copy := some copy })) db
        = (.ok true, db.overwritten id { copy := some copy }) := hany ▸ rfl
  have hquery : updateNode id { copy := some copy } db
      = (.ok true, db.overwritten id { copy := some copy }) := by
    rw [updateNode, bind_eq_of_ok hgeneration]
    exact bind_eq_of_ok hwrite
  exact orNotFound_of_ok hquery

theorem lawful_stock : stock.Lawful where
  create_cases h := by
    rcases create_cases h with ⟨⟨e, he⟩, hs⟩ | ⟨hr, new, hs⟩
    · exact Or.inl ⟨e, he, hs⟩
    · exact Or.inr ⟨held_eq_ok_none_iff.mpr new, hr, hs⟩
  point_cases h := by
    rcases point_cases h with ⟨hs, hfails⟩ | hdone
    · refine Or.inl ?_
      rcases hfails with hr | ⟨cause, hr, -⟩
      · exact ⟨_, hr, hs⟩
      · exact ⟨_, hr, hs⟩
    · exact Or.inr hdone
  create_of_fits {n db} new hfits :=
    congrArg Prod.fst (toAction_eq (saveNode_of_fits (held_eq_ok_none_iff.mp new) hfits))
  point_of_held {id copy db n} found := by
    obtain ⟨row, hrow, -⟩ := held_eq_ok_some_iff.mp found
    rw [point_of_row hrow]
  held_add_self {n db} new hback := by
    refine held_eq_ok_some_iff.mpr ⟨.holding n, ?_, ?_⟩
    · exact (nodeRow?_insert rfl (held_eq_ok_none_iff.mp new) n.id).trans (if_pos rfl)
    · exact NodeRow.toNode_eq_ok_iff.mp (NodeRow.toNode_holding_iff.mpr hback)
  held_add {n db} new x hx :=
    held_congr ((nodeRow?_insert rfl (held_eq_ok_none_iff.mp new) x).trans (if_neg hx))
  held_point_self {id copy db n} found := by
    obtain ⟨row, hrow, holds⟩ := held_eq_ok_some_iff.mp found
    have hnumbers : Update.NumbersReadBack { copy := some copy } := ⟨nofun, nofun⟩
    refine held_eq_ok_some_iff.mpr ⟨_, (nodeRow?_overwritten db id _ id).trans ?_,
      NodeRow.toNode_eq_ok_iff.mp ((holds.overwrite_iff _).mpr hnumbers)⟩
    rw [hrow, Option.map_some, takes_withCopy, if_pos (decide_eq_true (key_of_nodeRow? hrow))]
  held_point id copy db x hx := by
    refine held_congr ((nodeRow?_overwritten db id _ x).trans ?_)
    cases hrow : db.nodeRow? x with
    | none => rfl
    | some row =>
        rw [Option.map_some, takes_withCopy, key_of_nodeRow? hrow]
        simp [NodeId.text_inj, hx]
  nodeCount_add n db := (Rows.toList_insert_perm _ db.nodes).length_eq
  nodeCount_point id copy db := by
    show (db.nodes.modify _ _).toList.length = _
    rw [Rows.toList_modify, List.length_map]
    rfl
  aside_add _ _ := rfl
  aside_point _ _ _ := rfl

end Database

/-! ### Stores in front of others -/

/-- A store in front of another one, which is there behind it. -/
structure Front (τ σ : Type) where
  inner : τ → σ
  /-- Whether no request fails before it comes to the store behind. -/
  idle : τ → Prop

namespace Front

variable {τ σ α : Type} {p : Front τ σ}

/-- An action ends as on the store behind, or fails and does nothing there. -/
def Passes (p : Front τ σ) (act : Action τ α) (behind : Action σ α) : Prop :=
  ∀ t, (act t).1 = (behind (p.inner t)).1 ∧ p.inner (act t).2 = (behind (p.inner t)).2 ∧
      (p.idle t → p.idle (act t).2) ∨
    ¬ p.idle t ∧ (∃ e, (act t).1 = .error e) ∧ p.inner (act t).2 = p.inner t

/-- What a merged view takes is passed on. -/
structure Lawful [NodeStore τ] [NodeStore σ] (p : Front τ σ) : Prop where
  chain : ∀ id : NodeId, p.Passes (forwardChain id) (forwardChain id)
  create : ∀ n : Node, p.Passes (NodeStore.create n) (NodeStore.create n)
  update : ∀ (id : NodeId) (u : Update), p.Passes (NodeStore.update id u) (NodeStore.update id u)

/-- A store by itself. -/
def self (σ : Type) : Front σ σ where
  inner s := s
  idle _ := True

theorem lawful_self [NodeStore σ] : (self σ).Lawful where
  chain _ _ := Or.inl ⟨rfl, rfl, fun h => h⟩
  create _ _ := Or.inl ⟨rfl, rfl, fun h => h⟩
  update _ _ _ := Or.inl ⟨rfl, rfl, fun h => h⟩

/-- A store that is watched. -/
def watch (σ : Type) : Front (Monitored σ) σ where
  inner := Monitored.inner
  idle m := m.fault = none

theorem passes_pass (operation : Operation) (act : Action σ α) :
    (watch σ).Passes (Monitored.pass operation act) act := by
  intro m
  rcases hstrike : Monitored.strike operation m.fault with ⟨struck, fault⟩
  cases struck with
  | true =>
      rw [Monitored.pass_of_strike act hstrike]
      refine Or.inr ⟨fun hidle => ?_, ⟨_, rfl⟩, rfl⟩
      rw [show m.fault = none from hidle] at hstrike
      cases hstrike
  | false =>
      simp only [Monitored.pass, hstrike]
      refine Or.inl ⟨rfl, rfl, fun hidle => ?_⟩
      rw [show m.fault = none from hidle] at hstrike
      cases hstrike
      rfl

theorem lawful_watch [NodeStore σ] [Lookup σ] : (watch σ).Lawful where
  chain id m := by
    obtain ⟨still, inner, -, ⟨hanswer, hidle⟩ | ⟨hfault, hstruck⟩⟩ := watches_forwardChain id m
    · exact Or.inl ⟨hanswer, inner.trans still.symm, hidle⟩
    · exact Or.inr ⟨hfault, ⟨_, hstruck⟩, inner⟩
  create n := passes_pass .create (NodeStore.create n)
  update id u := passes_pass .update (NodeStore.update id u)

end Front

/-! ### Both requests together -/

/-- How the writing of a view ends. -/
structure WritesView {τ σ : Type} [NodeStore τ] [NodeStore σ] (p : Front τ σ) (k : Stock σ)
    (fresh id : NodeId) (view : Node) (t : τ) : Prop where
  uncreated : ∀ e, (create view (forwardChain id t).2).1 = .error e →
    (materialize fresh id t).1 = .error e ∧ p.inner (materialize fresh id t).2 = p.inner t
  unpointed : ∀ e, (create view (forwardChain id t).2).1 = .ok () →
    (update id { copy := some fresh } (create view (forwardChain id t).2).2).1 = .error e →
    (materialize fresh id t).1 = .error e ∧
      p.inner (materialize fresh id t).2 = k.add view (p.inner t) ∧
      Gains k (fun n => n) view (p.inner t) (k.add view (p.inner t)) ∧
      (k.givesBack view → Unreferenced (p.inner t) fresh →
        Unreferenced (k.add view (p.inner t)) fresh)
  written : (create view (forwardChain id t).2).1 = .ok () →
    (update id { copy := some fresh } (create view (forwardChain id t).2).2).1 = .ok () →
    (materialize fresh id t).1 = .ok view ∧
      p.inner (materialize fresh id t).2 = k.point id fresh (k.add view (p.inner t)) ∧
      Gains k (Node.withCopy id fresh) view (p.inner t)
        (k.point id fresh (k.add view (p.inner t)))
  succeeds : p.idle t → held (p.inner t) fresh = .ok none → k.fits view.generation →
    (materialize fresh id t).1 = .ok view

/-- How a merged view is made and written: not at all if there is no chain, and otherwise of the
chain and by two requests. -/
structure Merges {τ σ : Type} [NodeStore τ] [NodeStore σ] (p : Front τ σ) (k : Stock σ) :
    Prop where
  unchained : ∀ fresh id (t : τ) e, (forwardChain id t).1 = .error e →
    (materialize fresh id t).1 = .error e ∧ p.inner (materialize fresh id t).2 = p.inner t
  chained : ∀ fresh id (t : τ) chain, (forwardChain id t).1 = .ok chain →
    ∃ input canonical view, chain.head? = some input ∧ chain.getLast? = some canonical ∧
      input.id = id ∧ IsMergedView fresh input canonical chain view ∧
      WritesView p k fresh id view t

section

variable {τ σ : Type} [NodeStore τ] [NodeStore σ] {p : Front τ σ} {k : Stock σ} {t t' : τ}
  {r : Except EngineError Unit}

theorem Front.Lawful.create_cases (hp : p.Lawful) (hk : k.Lawful) {n : Node}
    (h : NodeStore.create n t = (r, t')) :
    (∃ e, r = .error e ∧ p.inner t' = p.inner t) ∨
      held (p.inner t) n.id = .ok none ∧ r = .ok () ∧ p.inner t' = k.add n (p.inner t) := by
  rcases hp.create n t with ⟨hr, hinner, -⟩ | ⟨-, ⟨e, he⟩, hinner⟩ <;> rw [h] at hinner
  · rw [h] at hr
    rcases hbehind : NodeStore.create n (p.inner t) with ⟨r', s'⟩
    rw [hbehind] at hr hinner
    obtain rfl : r = r' := hr
    obtain rfl : p.inner t' = s' := hinner
    exact hk.create_cases hbehind
  · rw [h] at he
    exact Or.inl ⟨e, he, hinner⟩

theorem Front.Lawful.point_cases (hp : p.Lawful) (hk : k.Lawful) {id copy : NodeId}
    (h : NodeStore.update id { copy := some copy } t = (r, t')) :
    (∃ e, r = .error e ∧ p.inner t' = p.inner t) ∨
      r = .ok () ∧ p.inner t' = k.point id copy (p.inner t) := by
  rcases hp.update id { copy := some copy } t with ⟨hr, hinner, -⟩ | ⟨-, ⟨e, he⟩, hinner⟩ <;>
    rw [h] at hinner
  · rw [h] at hr
    rcases hbehind : NodeStore.update id { copy := some copy } (p.inner t) with ⟨r', s'⟩
    rw [hbehind] at hr hinner
    obtain rfl : r = r' := hr
    obtain rfl : p.inner t' = s' := hinner
    exact hk.point_cases hbehind
  · rw [h] at he
    exact Or.inl ⟨e, he, hinner⟩

/-- While nothing fails by itself, a node is added under a new id if its generation fits. -/
theorem Front.Lawful.create_of_idle (hp : p.Lawful) (hk : k.Lawful) {n : Node} (hidle : p.idle t)
    (new : held (p.inner t) n.id = .ok none) (hfits : k.fits n.generation) :
    (NodeStore.create n t).1 = .ok () ∧ p.idle (NodeStore.create n t).2 := by
  rcases hp.create n t with ⟨hr, -, hstill⟩ | ⟨hloud, -⟩
  · exact ⟨hr.trans (hk.create_of_fits new hfits), hstill hidle⟩
  · exact absurd hidle hloud

theorem Front.Lawful.point_of_idle (hp : p.Lawful) (hk : k.Lawful) {id : NodeId} {n : Node}
    (hidle : p.idle t) (found : held (p.inner t) id = .ok (some n)) (copy : NodeId) :
    (NodeStore.update id { copy := some copy } t).1 = .ok () := by
  rcases hp.update id { copy := some copy } t with ⟨hr, -⟩ | ⟨hloud, -⟩
  · exact hr.trans (hk.point_of_held found)
  · exact absurd hidle hloud

variable [Lookup σ]

/-- A chain begins with the node of its id. -/
theorem input_of_chain {s : σ} {id : NodeId} {chain : List Node}
    (h : (forwardChain id s).1 = .ok chain) :
    ∃ input canonical, chain.head? = some input ∧ chain.getLast? = some canonical ∧
      input.id = id ∧ held s id = .ok (some input) := by
  obtain ⟨path, last, rfl, -, leads, found, -⟩ := walks_ok_iff.mp (forwardChain_fst_eq_iff.mp h)
  cases leads with
  | start => exact ⟨last, last, rfl, rfl, rfl, found⟩
  | @go _ _ _ n path hn _ _ =>
      exact ⟨n, last, rfl, List.getLast?_concat, id_of_held hn, hn⟩

/-- What the chain of a store in front tells is told by the store behind. -/
theorem Front.Lawful.chain_of_ok (hp : p.Lawful) {id : NodeId} {chain : List Node}
    (h : forwardChain id t = (.ok chain, t')) :
    (forwardChain id (p.inner t)).1 = .ok chain ∧ p.inner t' = p.inner t ∧
      (p.idle t → p.idle t') := by
  rcases hp.chain id t with ⟨hr, hinner, hidle⟩ | ⟨-, ⟨e, he⟩, -⟩
  · rw [h] at hr hinner hidle
    exact ⟨hr.symm, hinner.trans (forwardChain_eq_iff.mp rfl).1, hidle⟩
  · rw [h] at he
    cases he

theorem Front.Lawful.unchained (hp : p.Lawful) {fresh id : NodeId} {e : EngineError}
    (h : (forwardChain id t).1 = .error e) : (materialize fresh id t).1 = .error e ∧
      p.inner (materialize fresh id t).2 = p.inner t := by
  rcases hchain : forwardChain id t with ⟨r, t'⟩
  rw [hchain] at h
  obtain rfl : r = .error e := h
  rw [materialize, bind_eq_of_error hchain]
  refine ⟨rfl, ?_⟩
  rcases hp.chain id t with ⟨-, hinner, -⟩ | ⟨-, -, hinner⟩ <;> rw [hchain] at hinner
  · exact hinner.trans (forwardChain_eq_iff.mp rfl).1
  · exact hinner

omit [NodeStore σ] [Lookup σ] in
/-- Behind the chain, a merged view is two requests. -/
theorem materialize_of_chain {fresh id : NodeId} {input canonical : Node} {chain : List Node}
    (h : forwardChain id t = (.ok chain, t')) (hhead : chain.head? = some input)
    (hlast : chain.getLast? = some canonical) :
    materialize fresh id t = (do
      NodeStore.create (mergedView fresh input canonical chain)
      NodeStore.update input.id { copy := some fresh }
      return mergedView fresh input canonical chain : Action τ Node) t' := by
  rw [materialize, bind_eq_of_ok h]
  simp only [hhead, hlast]

theorem Front.Lawful.writesView (hp : p.Lawful) (hk : k.Lawful) {fresh : NodeId}
    {input canonical : Node} {chain : List Node} (h : (forwardChain input.id t).1 = .ok chain)
    (hhead : chain.head? = some input) (hlast : chain.getLast? = some canonical)
    (found : held (p.inner t) input.id = .ok (some input)) :
    WritesView p k fresh input.id (mergedView fresh input canonical chain) t := by
  have isView : IsMergedView fresh input canonical chain _ := isMergedView fresh hhead
  rcases hchain : forwardChain input.id t with ⟨r, read⟩
  rw [hchain] at h
  obtain rfl : r = .ok chain := h
  have hrun : materialize fresh input.id t = _ := materialize_of_chain hchain hhead hlast
  obtain ⟨hbehind, hread, hidle⟩ := hp.chain_of_ok hchain
  generalize mergedView fresh input canonical chain = view at isView hrun
  obtain rfl : view.id = fresh := isView.id
  rcases hcreate : NodeStore.create view read with ⟨rc, created⟩
  rcases hupdate : NodeStore.update input.id { copy := some view.id } created with ⟨ru, pointed⟩
  have hcreated := hp.create_cases hk hcreate
  have hpointed := hp.point_cases hk hupdate
  rw [hread] at hcreated
  have hwritten : rc = .ok () → ru = .ok () →
      materialize view.id input.id t = (.ok view, pointed) := by
    rintro rfl rfl
    rw [hrun, bind_eq_of_ok hcreate, bind_eq_of_ok hupdate]
    rfl
  constructor
  case uncreated =>
    intro e he
    rw [hchain, hcreate] at he
    obtain rfl : rc = .error e := he
    rcases hcreated with ⟨_, -, hinner⟩ | ⟨-, hr, -⟩
    · rw [hrun, bind_eq_of_error hcreate]
      exact ⟨rfl, hinner⟩
    · cases hr
  case unpointed =>
    intro e hc hu
    rw [hchain, hcreate] at hc hu
    obtain rfl : rc = .ok () := hc
    rw [hupdate] at hu
    obtain rfl : ru = .error e := hu
    rcases hcreated with ⟨_, hr, -⟩ | ⟨new, -, hadded⟩
    · cases hr
    rcases hpointed with ⟨_, -, hinner⟩ | ⟨hr, -⟩
    · rw [hrun, bind_eq_of_ok hcreate, bind_eq_of_error hupdate]
      have gains := hk.gains_add new
      exact ⟨rfl, hinner.trans hadded, gains,
        fun hback hnone => gains.unreferenced hback isView hbehind hnone⟩
    · cases hr
  case written =>
    intro hc hu
    rw [hchain, hcreate] at hc hu
    rw [hupdate] at hu
    rw [hwritten hc hu]
    rcases hcreated with ⟨_, hr, -⟩ | ⟨new, -, hadded⟩
    · cases hr.symm.trans hc
    rcases hpointed with ⟨_, hr, -⟩ | ⟨-, hinner⟩
    · cases hr.symm.trans hu
    rw [hadded] at hinner
    exact ⟨rfl, hinner, hk.gains_point new found⟩
  case succeeds =>
    intro hquiet new hfits
    have hc := hp.create_of_idle hk (hidle hquiet) (hread ▸ new) hfits
    rw [hcreate] at hc
    rcases hcreated with ⟨_, hr, -⟩ | ⟨-, -, hadded⟩
    · cases hr.symm.trans hc.1
    -- The node was there before, so it is not the one that was added.
    have hne : input.id ≠ view.id := by
      intro heq
      rw [heq] at found
      cases new.symm.trans found
    have hstill : held (p.inner created) input.id = .ok (some input) := by
      rw [hadded, hk.held_add new _ hne, found]
    have hu := hp.point_of_idle hk hc.2 hstill view.id
    rw [hupdate] at hu
    rw [hwritten hc.1 hu]

theorem Front.Lawful.merges (hp : p.Lawful) (hk : k.Lawful) : Merges p k where
  unchained _ _ _ _ h := hp.unchained h
  chained fresh id t chain h := by
    obtain ⟨hbehind, -⟩ := hp.chain_of_ok (Prod.ext h rfl : forwardChain id t = (.ok chain, _))
    obtain ⟨input, canonical, hhead, hlast, rfl, found⟩ := input_of_chain hbehind
    exact ⟨input, canonical, _, hhead, hlast, rfl, isMergedView fresh hhead,
      hp.writesView hk h hhead hlast found⟩

end

/-- The merged view of a node is the first arc of each label along its chain, the node's own before
all others, and it is written whole, or not at all, or without the node pointing at it; whichever
it is, no other node and nothing beside the nodes is changed, and all chains are as they were.  That
holds of a memory and of a database, and also where a request may fail before it comes to them. -/
theorem merged_view_written :
    Merges (Front.self Memory) Memory.stock ∧ Merges (Front.watch Memory) Memory.stock ∧
    Merges (Front.self Database) Database.stock ∧ Merges (Front.watch Database) Database.stock :=
  ⟨Front.lawful_self.merges Memory.lawful_stock, Front.lawful_watch.merges Memory.lawful_stock,
    Front.lawful_self.merges Database.lawful_stock,
    Front.lawful_watch.merges Database.lawful_stock⟩

/-- A node with a label in it twice, unified into a leaf that has gathered more of that label. -/
def gathering : Memory where
  nodes := [
    { id := ⟨1⟩, owner := "ann", kind := .complex, name := some "kite",
      arcs := [⟨"hue", .text "red"⟩, ⟨"hue", .text "blue"⟩, ⟨"tail", .node ⟨2⟩⟩],
      forward := some ⟨2⟩ },
    { id := ⟨2⟩, owner := "bob", kind := .leaf, name := none, arcs := [],
      complement := [⟨"tail", .text "long"⟩, ⟨"line", .text "thin"⟩], generation := 12 }]

example : (materialize ⟨9⟩ ⟨1⟩ gathering).1 = .ok
    { id := ⟨9⟩, owner := "ann", kind := .complex, name := some "kite",
      arcs := [⟨"hue", .text "red"⟩, ⟨"tail", .node ⟨2⟩⟩, ⟨"line", .text "thin"⟩],
      generation := 12 } := rfl

end Ideas
