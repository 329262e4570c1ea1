/-
A database that holds what a memory holds.

`Mirrors` relates the two: the tables of nodes and ideas have the rows of the memory's
lists, in their order, and the table of counters has the row of each counter that was
ever used.  Each request of a store keeps it, and answers alike on both.  For that the
memory has to be `Sound`: what is in it can be stored, no id stands for two nodes, and
each idea has its node.

One thing does not come out alike.  A counter in memory has no bound, and in the database
it ends with the numbers of sixty-four bits, so a memory is compared only as long as its
counters are within `Counting`.
-/
import Mathlib.Data.List.Nodup
import Ideas.Database
import Ideas.Proofs.Database.Stored
import Ideas.Proofs.InStep
import Ideas.Proofs.Memory
import Ideas.Proofs.Unification.Forwarding

namespace Ideas

open NodeStore Database

variable {m m' : Memory} {db : Database} {id : NodeId} {u : Update}

/-! ### Memories that a database can mirror -/

namespace Memory

/-- What is stored can be stored in a database, too, and obeys the rules of the tables. -/
structure Sound (m : Memory) : Prop where
  nodes : ∀ n ∈ m.nodes, n.Storable
  ideas : ∀ i ∈ m.ideas, i.Storable
  nodup : (m.nodes.map Node.id).Nodup
  owned : ∀ i ∈ m.ideas, i.id ∈ m.nodes.map Node.id

/-- No counter has passed the greatest number of the tables. -/
def Counting (m : Memory) : Prop :=
  ∀ owner, (m.generation owner : Int) ≤ Decimal.greatestInt64

/-- In a sound memory an id stands for one node. -/
theorem Sound.eq_of_node? (h : m.Sound) {n k : Node} (found : m.node? id = some n)
    (hk : k ∈ m.nodes) (hid : k.id = id) : k = n :=
  List.inj_on_of_nodup_map h.nodup hk (List.mem_of_find?_eq_some found)
    (hid.trans (id_of_node? found).symm)

theorem Sound.storable (h : m.Sound) {n : Node} (found : m.node? id = some n) : n.Storable :=
  h.nodes n (List.mem_of_find?_eq_some found)

theorem Sound.addNode (h : m.Sound) {n : Node} (hn : n.Storable) (new : m.node? n.id = none) :
    (m.addNode n).Sound where
  nodes := List.forall_mem_append.mpr ⟨h.nodes, List.forall_mem_singleton.mpr hn⟩
  ideas := h.ideas
  nodup := by
    rw [Memory.addNode, List.map_append, List.map_singleton]
    refine List.nodup_append.mpr ⟨h.nodup, List.nodup_singleton _, ?_⟩
    rintro a ha b hb rfl
    exact node?_eq_none_iff.mp new (List.mem_singleton.mp hb ▸ ha)
  owned i hi := by
    rw [Memory.addNode, List.map_append]
    exact List.mem_append_left _ (h.owned i hi)

theorem Sound.modifyNode (h : m.Sound) {u : Update} (hu : u.Storable) (id : NodeId) :
    (m.modifyNode id u.applyTo).Sound := by
  have hids : (m.modifyNode id u.applyTo).nodes.map Node.id = m.nodes.map Node.id := by
    rw [Memory.modifyNode, List.map_map]
    refine List.map_congr_left fun n _ => ?_
    rw [Function.comp]
    split <;> rfl
  refine ⟨fun n hn => ?_, h.ideas, hids ▸ h.nodup, hids ▸ h.owned⟩
  obtain ⟨k, hk, rfl⟩ := List.mem_map.mp hn
  split
  · exact hu.applyTo (h.nodes k hk)
  · exact h.nodes k hk

theorem Sound.addIdea (h : m.Sound) {i : Idea} (hi : i.Storable)
    (howned : i.id ∈ m.nodes.map Node.id) : (m.addIdea i).Sound where
  nodes := h.nodes
  ideas := List.forall_mem_append.mpr ⟨h.ideas, List.forall_mem_singleton.mpr hi⟩
  nodup := h.nodup
  owned := List.forall_mem_append.mpr ⟨h.owned, List.forall_mem_singleton.mpr howned⟩

theorem Sound.modifyIdea (h : m.Sound) (id : NodeId) {f : Idea → Idea}
    (hid : ∀ i, (f i).id = i.id) (henergy : ∀ i, (f i).energy = i.energy) :
    (m.modifyIdea id f).Sound := by
  refine ⟨h.nodes, fun i hi => ?_, h.nodup, fun i hi => ?_⟩ <;>
    obtain ⟨k, hk, rfl⟩ := List.mem_map.mp hi
  · split
    · rw [Idea.Storable, henergy]
      exact h.ideas k hk
    · exact h.ideas k hk
  · split
    · rw [hid]
      exact h.owned k hk
    · exact h.owned k hk

/-- A node with the id takes the update exactly if the memory finds one that does. -/
theorem Sound.takes_iff_of_mem (h : m.Sound) {n : Node} (hn : n ∈ m.nodes) (hid : n.id = id) :
    m.takes id u = true ↔ (u.forward.isSome → n.forward.isNone) := by
  have found : m.node? id = some n := by
    cases found : m.node? id with
    | none => exact absurd (hid ▸ List.mem_map_of_mem hn) (node?_eq_none_iff.mp found)
    | some k => rw [h.eq_of_node? found hn hid]
  rw [takes_iff]
  simp [found]

/-- Overwriting the nodes with an id that take an update overwrites the one node with that id. -/
theorem Sound.map_overwrite (h : m.Sound) (id : NodeId) (u : Update) :
    (m.nodes.map fun n =>
        if n.id = id ∧ (u.forward.isSome → n.forward.isNone) then u.applyTo n else n)
      = if m.takes id u then (m.modifyNode id u.applyTo).nodes else m.nodes := by
  split
  · next htakes =>
    refine List.map_congr_left fun n hn => ?_
    by_cases hid : n.id = id
    · rw [if_pos ⟨hid, (h.takes_iff_of_mem hn hid).mp htakes⟩, if_pos hid]
    · rw [if_neg fun hfits => hid hfits.1, if_neg hid]
  · next htakes =>
    refine (List.map_congr_left fun n hn => ?_).trans (List.map_id _)
    exact if_neg fun hfits => htakes ((h.takes_iff_of_mem hn hfits.1).mpr hfits.2)

/-- There is a node to overwrite where there is one that takes the update. -/
theorem Sound.exists_takes (h : m.Sound) (id : NodeId) (u : Update) :
    (∃ n ∈ m.nodes, n.id = id ∧ (u.forward.isSome → n.forward.isNone)) ↔ m.takes id u = true := by
  constructor
  · rintro ⟨n, hn, hid, hforward⟩
    exact (h.takes_iff_of_mem hn hid).mpr hforward
  · intro htakes
    obtain ⟨n, found, hforward⟩ := takes_iff.mp htakes
    exact ⟨n, List.mem_of_find?_eq_some found, id_of_node? found, hforward⟩

end Memory

/-! ### The tables of a memory -/

/-- The tables of the database hold what the memory holds. -/
structure Mirrors (m : Memory) (db : Database) : Prop where
  nodes_eq : db.nodes.toList = m.nodes.map NodeRow.holding
  ideas_eq : db.ideas.toList = m.ideas.map IdeaRow.ofIdea
  generationRow?_eq : ∀ owner, db.generationRow? owner
    = (m.generations.lookup owner).map fun g => ⟨some owner, .integer g⟩
  nodes_unmoved : db.nodes.moved = false
  ideas_unmoved : db.ideas.moved = false
  generations_unmoved : db.generations.moved = false
  sound : m.Sound

/-- A memory and a database that mirrors it; the memory is fine while its counters are. -/
def mirroring : Pairing Memory Database :=
  ⟨Mirrors, Memory.Counting⟩

namespace Mirrors

theorem nodeRow?_eq (h : Mirrors m db) (id : NodeId) :
    db.nodeRow? id = (m.node? id).map NodeRow.holding := by
  have hkey : (fun r : NodeRow => decide (r.id = some id.text)) ∘ NodeRow.holding
      = fun n => decide (n.id = id) := by
    funext n
    simp [NodeRow.holding, NodeId.text_inj]
  rw [nodeRow?, h.nodes_eq, List.find?_map, hkey, Memory.node?]

theorem mem_nodes_iff (h : Mirrors m db) (id : NodeId) :
    some id.text ∈ db.nodes.toList.map NodeRow.id ↔ id ∈ m.nodes.map Node.id := by
  simp [h.nodes_eq, NodeRow.holding, NodeId.text_inj]

theorem mem_ideas_iff (h : Mirrors m db) (id : NodeId) :
    some id.text ∈ db.ideas.toList.map IdeaRow.id ↔ id ∈ m.ideas.map Idea.id := by
  simp [h.ideas_eq, IdeaRow.ofIdea, NodeId.text_inj]

/-! ### What is read -/

theorem loadNode_eq (h : Mirrors m db) (id : NodeId) :
    loadNode id db = (.ok (m.node? id), db) := by
  rw [loadNode, ask]
  simp only [h.nodeRow?_eq]
  cases found : m.node? id with
  | none => rfl
  | some n =>
    have hn := h.sound.storable found
    simp only [Option.map_some, NodeRow.toNode_holding hn, Except.map]

theorem loadIdea_eq (h : Mirrors m db) (id : NodeId) :
    loadIdea id db = (.ok (m.idea? id), db) := by
  have hkey : (fun r : IdeaRow => decide (r.id = some id.text)) ∘ IdeaRow.ofIdea
      = fun i => decide (i.id = id) := by
    funext n
    simp [IdeaRow.ofIdea, NodeId.text_inj]
  rw [loadIdea, ask]
  simp only [h.ideas_eq, List.find?_map, hkey]
  rw [← Memory.idea?]
  cases found : m.idea? id with
  | none => rfl
  | some i =>
    have hi := h.sound.ideas i (List.mem_of_find?_eq_some found)
    simp only [Option.map_some, IdeaRow.toIdea_ofIdea hi, Except.map]

theorem listIdeas_eq (h : Mirrors m db) (owner : String) :
    listIdeas owner false db
      = (.ok (m.ideas.filter fun i => i.owner = owner ∧ i.archived = false), db) := by
  have hactive : (fun r : IdeaRow => decide (r.owner = owner) && (false || r.archived.isInteger 0))
      ∘ IdeaRow.ofIdea = fun i => decide (i.owner = owner ∧ i.archived = false) := by
    funext i
    rw [Function.comp, IdeaRow.ofIdea]
    cases i.archived <;> simp [Cell.isInteger]
  have hread : ∀ active : List Idea, (∀ i ∈ active, i.Storable) →
      ((active.map IdeaRow.ofIdea).mapM (fun r => r.columns.map (r, ·)) >>= fun checked =>
        checked.mapM fun row => row.1.ofColumns row.2) = .ok active := by
    intro active hactive
    have hcolumns := mapM_eq_ok (l := active)
      (f := (fun r : IdeaRow => r.columns.map (r, ·)) ∘ IdeaRow.ofIdea)
      (g := fun i => (IdeaRow.ofIdea i, IdeaRow.columnsOf i))
      fun i _ => by rw [Function.comp, IdeaRow.columns_ofIdea]; rfl
    have hideas := mapM_eq_ok (l := active)
      (f := (fun row : IdeaRow × IdeaRow.Columns => row.1.ofColumns row.2) ∘
        fun i => (IdeaRow.ofIdea i, IdeaRow.columnsOf i))
      (g := id) fun i hi => IdeaRow.ofColumns_ofIdea (hactive i hi)
    rw [List.mapM_map, hcolumns]
    show List.mapM (fun row : IdeaRow × IdeaRow.Columns => row.1.ofColumns row.2) _ = _
    rw [List.mapM_map, hideas, List.map_id]
  rw [listIdeas, ask]
  simp only [h.ideas_eq, List.filter_map, hactive]
  exact congrArg (·, db) (hread _ fun i hi => h.sound.ideas i (List.mem_of_mem_filter hi))

/-! ### What is written -/

/-- The rows are those of other nodes, and all else stays. -/
theorem withNodes (h : Mirrors m db) {nodes : List Node} {rows : Rows NodeRow}
    (hrows : rows.toList = nodes.map NodeRow.holding) (hmoved : rows.moved = db.nodes.moved)
    (hsound : Memory.Sound { m with nodes }) :
    Mirrors { m with nodes } { db with nodes := rows } :=
  ⟨hrows, h.ideas_eq, h.generationRow?_eq, hmoved.trans h.nodes_unmoved, h.ideas_unmoved,
    h.generations_unmoved, hsound⟩

theorem withIdeas (h : Mirrors m db) {ideas : List Idea} {rows : Rows IdeaRow}
    (hrows : rows.toList = ideas.map IdeaRow.ofIdea) (hmoved : rows.moved = db.ideas.moved)
    (hsound : Memory.Sound { m with ideas }) :
    Mirrors { m with ideas } { db with ideas := rows } :=
  ⟨h.nodes_eq, hrows, h.generationRow?_eq, h.nodes_unmoved, hmoved.trans h.ideas_unmoved,
    h.generations_unmoved, hsound⟩

theorem addNode (h : Mirrors m db) {n : Node} (hn : n.Storable) (new : m.node? n.id = none) :
    Mirrors (m.addNode n) { db with nodes := db.nodes.insert (NodeRow.holding n) } := by
  refine h.withNodes ?_ (Rows.moved_insert _ _) (h.sound.addNode hn new)
  rw [Rows.toList_insert h.nodes_unmoved, h.nodes_eq, List.map_append]
  rfl

theorem addIdea (h : Mirrors m db) {i : Idea} (hi : i.Storable)
    (howned : i.id ∈ m.nodes.map Node.id) :
    Mirrors (m.addIdea i) { db with ideas := db.ideas.insert (.ofIdea i) } := by
  refine h.withIdeas ?_ (Rows.moved_insert _ _) (h.sound.addIdea hi howned)
  rw [Rows.toList_insert h.ideas_unmoved, h.ideas_eq, List.map_append]
  rfl

/-- A node with a new id gets a row. -/
theorem saveNode_eq_of_new (h : Mirrors m db) {n : Node} (hn : n.Storable)
    (new : m.node? n.id = none) :
    saveNode n db = (.ok (), { db with nodes := db.nodes.insert (NodeRow.holding n) }) := by
  have hrow : (ask fun _ => NodeRow.ofNode n) db = (.ok (NodeRow.holding n), db) := by
    rw [ask, NodeRow.ofNode_eq hn]
  have hkey : ¬((NodeRow.holding n).id.isSome ∧
      (NodeRow.holding n).id ∈ db.nodes.toList.map NodeRow.id) :=
    fun hused => Memory.node?_eq_none_iff.mp new ((h.mem_nodes_iff n.id).mp hused.2)
  rw [saveNode, bind_eq_of_ok hrow, insertNode, statement]
  simp only [if_neg hkey]

/-- The key of a node is not used twice. -/
theorem saveNode_eq_of_used (h : Mirrors m db) {n k : Node} (hn : n.Storable)
    (used : m.node? n.id = some k) :
    saveNode n db = (.error (.constraint (.unique "nodes.id")), db) := by
  have hrow : (ask fun _ => NodeRow.ofNode n) db = (.ok (NodeRow.holding n), db) := by
    rw [ask, NodeRow.ofNode_eq hn]
  have hmem : n.id ∈ m.nodes.map Node.id := by
    refine Classical.not_not.mp fun hnew => ?_
    rw [Memory.node?_eq_none_iff.mpr hnew] at used
    cases used
  have hkey : (NodeRow.holding n).id.isSome ∧
      (NodeRow.holding n).id ∈ db.nodes.toList.map NodeRow.id :=
    ⟨rfl, (h.mem_nodes_iff n.id).mpr hmem⟩
  rw [saveNode, bind_eq_of_ok hrow, insertNode]
  exact statement_eq_of_error (if_pos hkey)

/-- An idea whose node has just been stored gets a row. -/
theorem insertIdea_eq (h : Mirrors m db) {i : Idea} (howned : i.id ∈ m.nodes.map Node.id)
    (new : i.id ∉ m.ideas.map Idea.id) :
    insertIdea (.ofIdea i) db = (.ok (), { db with ideas := db.ideas.insert (.ofIdea i) }) := by
  have hkey : ¬((IdeaRow.ofIdea i).id.isSome ∧
      (IdeaRow.ofIdea i).id ∈ db.ideas.toList.map IdeaRow.id) :=
    fun hused => new ((h.mem_ideas_iff i.id).mp hused.2)
  have hforeign : ¬((IdeaRow.ofIdea i).id.isSome ∧
      (IdeaRow.ofIdea i).id ∉ db.nodes.toList.map NodeRow.id) :=
    fun hlost => hlost.2 ((h.mem_nodes_iff i.id).mpr howned)
  rw [insertIdea, statement]
  simp only [if_neg hkey, if_neg hforeign]

theorem inTransaction (h : Mirrors m db) (b : Bool) : Mirrors m { db with inTransaction := b } :=
  ⟨h.nodes_eq, h.ideas_eq, h.generationRow?_eq, h.nodes_unmoved, h.ideas_unmoved,
    h.generations_unmoved, h.sound⟩

/-- Within a transaction of its own or as a part of another one, a batch does what its statements
do, or nothing where they fail. -/
theorem batch {α : Type} {q : Query α} {r : Except StoreError α} (h : Mirrors m db)
    (hq : ∀ {db}, Mirrors m db → ∃ db', q db = (r, db') ∧ Mirrors m' db')
    (hfailed : ∀ e, r = .error e → m' = m) :
    ∃ db', Database.batch q db = (r, db') ∧ Mirrors m' db' := by
  cases hopen : db.inTransaction with
  | true =>
    obtain ⟨db', hrun, hmirrors⟩ := hq h
    refine ⟨db', ?_, hmirrors⟩
    rw [Database.batch, atomically, ← hrun]
    exact transaction_of_inTransaction hopen
  | false =>
    obtain ⟨db', hrun, hmirrors⟩ := hq (h.inTransaction true)
    cases r with
    | ok a => exact ⟨_, atomically_eq_of_ok hopen hrun, hmirrors.inTransaction false⟩
    | error e => exact ⟨db, atomically_eq_of_error hopen hrun, hfailed e rfl ▸ h⟩

/-- An idea with a new id is stored together with its node. -/
theorem saveIdea_of_new (h : Mirrors m db) {i : Idea} {n : Node} (hi : i.Storable)
    (hn : n.Storable) (hid : i.id = n.id) (new : m.node? n.id = none) :
    ∃ db', saveIdea i n db = (.ok (), db') ∧ Mirrors ((m.addNode n).addIdea i) db' := by
  have howned : i.id ∈ (m.addNode n).nodes.map Node.id := by
    rw [Memory.addNode, List.map_append, hid]
    exact List.mem_append_right _ List.mem_cons_self
  have hidea : i.id ∉ m.ideas.map Idea.id := by
    intro hused
    obtain ⟨k, hk, hkid⟩ := List.mem_map.mp hused
    exact Memory.node?_eq_none_iff.mp new (hid ▸ hkid ▸ h.sound.owned k hk)
  rw [saveIdea, if_neg (not_not_intro hid)]
  refine h.batch (fun {db} hdb => ?_) (by rintro _ ⟨⟩)
  have hadded := hdb.addNode hn new
  refine ⟨_, ?_, hadded.addIdea hi howned⟩
  rw [bind_eq_of_ok (hdb.saveNode_eq_of_new hn new), hadded.insertIdea_eq howned hidea]

/-- Nothing is stored for an id that a node has already. -/
theorem saveIdea_of_used (h : Mirrors m db) {i : Idea} {n k : Node} (hn : n.Storable)
    (hid : i.id = n.id) (used : m.node? n.id = some k) :
    ∃ db', saveIdea i n db = (.error (.constraint (.unique "nodes.id")), db') ∧ Mirrors m db' := by
  rw [saveIdea, if_neg (not_not_intro hid)]
  exact h.batch
    (fun {db} hdb => ⟨db, bind_eq_of_error (hdb.saveNode_eq_of_used hn used), hdb⟩)
    fun _ _ => rfl

/-- The rows that an update is written to, and what it makes of them. -/
theorem overwrite_nodes (h : Mirrors m db) {u : Update} (hu : u.Storable) (id : NodeId) :
    Mirrors (if m.takes id u then m.modifyNode id u.applyTo else m) { db with
      nodes := db.nodes.modify
        (fun r => decide (r.id = some id.text ∧ (u.forward.isSome → r.forward.isNone)))
        (·.overwrite u (u.generation.map Int.ofNat)) } := by
  have hrows : (db.nodes.modify
      (fun r => decide (r.id = some id.text ∧ (u.forward.isSome → r.forward.isNone)))
      (·.overwrite u (u.generation.map Int.ofNat))).toList
        = (if m.takes id u then (m.modifyNode id u.applyTo).nodes else m.nodes).map
          NodeRow.holding := by
    rw [← h.sound.map_overwrite, Rows.toList_modify, h.nodes_eq, List.map_map, List.map_map]
    refine List.map_congr_left fun n _ => ?_
    simp only [Function.comp, NodeRow.holding, Option.some.injEq, NodeId.text_inj,
      Option.isNone_map, decide_eq_true_eq]
    split
    · exact NodeRow.overwrite_holding n u
    · rfl
  split at hrows
  · next htakes =>
    rw [if_pos htakes]
    exact h.withNodes hrows rfl (h.sound.modifyNode hu id)
  · next htakes =>
    rw [if_neg htakes]
    exact h.withNodes hrows rfl h.sound

theorem any_nodes (h : Mirrors m db) (id : NodeId) (u : Update) :
    (db.nodes.toList.any
        fun r => decide (r.id = some id.text ∧ (u.forward.isSome → r.forward.isNone)))
      = m.takes id u := by
  rw [Bool.eq_iff_iff, ← h.sound.exists_takes, List.any_eq_true, h.nodes_eq]
  cases u.forward <;> simp [NodeRow.holding, NodeId.text_inj]

/-- What is answered after an update: where it was not written although there is a node, that node
has been forwarded before. -/
theorem refusal_eq {changed : Bool} (hchanged : m.takes id u = changed)
    (h : Mirrors (if changed then m.modifyNode id u.applyTo else m) db) :
    (do
      if !changed && u.forward.isSome then
        if (← loadNode id).isSome then
          throw (.forwardConflict id)
      return changed : Query Bool) db
        = (if changed then .ok true
          else if (m.node? id).isSome then .error (.forwardConflict id) else .ok false, db) := by
  cases changed with
  | true => rfl
  | false =>
    have hload := loadNode_eq (show Mirrors m db from h) id
    cases hforward : u.forward.isSome with
    | false =>
      have hmissing : m.node? id = none := by
        rw [Memory.takes] at hchanged
        cases found : m.node? id <;> simp_all
      rw [hmissing]
      rfl
    | true =>
      refine (bind_eq_of_ok hload).trans ?_
      cases m.node? id <;> rfl

/-- An update is written where a node takes it, and else refused where there is a node. -/
theorem updateNode_eq (h : Mirrors m db) (hu : u.Storable) (id : NodeId) :
    ∃ db', updateNode id u db = (if m.takes id u then .ok true
        else if (m.node? id).isSome then .error (.forwardConflict id) else .ok false, db') ∧
      Mirrors (if m.takes id u then m.modifyNode id u.applyTo else m) db' := by
  have hgeneration : (ask fun _ => u.generation.mapM ofCount) db
      = (.ok (u.generation.map Int.ofNat), db) := by
    rw [ask]
    cases hg : u.generation with
    | none => rfl
    | some g => simp only [Option.mapM_some, ofCount, if_pos (hu.generation_le g hg)]; rfl
  rw [updateNode, bind_eq_of_ok hgeneration]
  cases hempty : u.isEmpty with
  | true =>
    have hforward : u.forward = none := by
      simp_all [Update.isEmpty]
    have htakes : m.takes id u = (m.node? id).isSome := by
      rw [Memory.takes, hforward]
      cases m.node? id <;> rfl
    refine ⟨db, ?_, ?_⟩
    · rw [if_pos rfl, bind_eq_of_ok (h.loadNode_eq id), htakes]
      cases m.node? id <;> rfl
    · rwa [Memory.modifyNode_of_isEmpty hempty, ite_self]
  | false =>
    refine ⟨_, ?_, h.overwrite_nodes hu id⟩
    rw [if_neg Bool.false_ne_true]
    refine (bind_eq_of_ok rfl).trans ?_
    simp only [h.any_nodes id u]
    exact refusal_eq rfl (h.overwrite_nodes hu id)

/-- The row of one counter is another one now. -/
theorem stamp (h : Mirrors m db) {owner : String} (rows : Rows GenerationRow)
    (hrows : ∀ other, (rows.toList.find? fun r => r.owner = some other)
      = if other = owner then some ⟨some owner, .integer (m.generation owner + 1)⟩
        else db.generationRow? other)
    (hmoved : rows.moved = db.generations.moved) :
    Mirrors (m.stamp owner) { db with generations := rows } := by
  have hsound : (m.stamp owner).Sound :=
    ⟨h.sound.nodes, h.sound.ideas, h.sound.nodup, h.sound.owned⟩
  refine ⟨h.nodes_eq, h.ideas_eq, fun other => ?_, h.nodes_unmoved, h.ideas_unmoved,
    hmoved.trans h.generations_unmoved, hsound⟩
  rw [Memory.stamp, Memory.lookup_setGeneration]
  refine (hrows other).trans ?_
  split
  · next hother => rw [hother]; rfl
  · exact h.generationRow?_eq other

/-- What is answered for a number that a counter was counted up to. -/
theorem answer_eq (n : Nat) (db : Database) :
    (do
      let value ← ask fun _ => Cell.toInteger (.integer n)
      ask fun _ => toCount value : Query Nat) db = (.ok n, db) := by
  refine (bind_eq_of_ok rfl).trans ?_
  rw [ask, toCount, if_pos (Int.natCast_nonneg n), Int.toNat_natCast]

/-- A counter that stays within the numbers of the tables is counted up. -/
theorem bumpGeneration_eq (h : Mirrors m db) {owner : String}
    (hfits : (m.generation owner + 1 : Nat) ≤ Decimal.greatestInt64) :
    ∃ db', bumpGeneration owner db = (.ok (m.generation owner + 1), db') ∧
      Mirrors (m.stamp owner) db' := by
  have hrow := h.generationRow?_eq owner
  cases hcounter : m.generations.lookup owner with
  | none =>
    have hgeneration : m.generation owner = generationSeed := by
      rw [Memory.generation, hcounter]
      rfl
    have hmirrors : Mirrors (m.stamp owner) { db with
        generations := db.generations.insert ⟨some owner, .integer (generationSeed + 1)⟩ } := by
      refine h.stamp _ (fun other => ?_) (Rows.moved_insert _ _)
      rw [Rows.toList_insert h.generations_unmoved, List.find?_append, ← generationRow?,
        hgeneration]
      split
      · next hother => rw [hother, hrow, hcounter]; simp
      · next hother => simp [Ne.symm hother]
    refine ⟨_, ?_, hmirrors⟩
    rw [hgeneration, bumpGeneration]
    refine (bind_eq_of_ok (a := Cell.integer (generationSeed + 1)) ?_).trans (answer_eq _ _)
    rw [statement]
    simp only [hrow, hcounter, Option.map_none]
  | some g =>
    have hgeneration : m.generation owner = g := by
      rw [Memory.generation, hcounter]
      rfl
    rw [hgeneration] at hfits
    have hnext : (Cell.integer g).next = .integer (g + 1) := by
      rw [Cell.next, Cell.ofInteger, if_pos]
      refine ⟨?_, hfits⟩
      rw [Decimal.leastInt64]
      omega
    have hmirrors : Mirrors (m.stamp owner) { db with
        generations := db.generations.modify (fun r => decide (r.owner = some owner)) fun r =>
          { r with value := .integer (g + 1) } } := by
      refine h.stamp _ (fun other => ?_) rfl
      have hkey : ∀ r : GenerationRow,
          (if r.owner = some owner then { r with value := .integer (g + 1) } else r).owner
            = r.owner := by
        intro r
        split <;> rfl
      simp only [Rows.toList_modify, List.find?_map, Function.comp_def, decide_eq_true_eq, hkey]
      rw [← generationRow?, h.generationRow?_eq, hgeneration]
      split
      · next hother => simp [hother, hcounter]
      · next hother => cases m.generations.lookup other <;> simp [hother]
    refine ⟨_, ?_, hmirrors⟩
    rw [hgeneration, bumpGeneration]
    refine (bind_eq_of_ok (a := Cell.integer (g + 1)) ?_).trans (answer_eq _ _)
    rw [statement]
    simp only [hrow, hcounter, Option.map_some, hnext]

/-- Archiving an idea answers whether there is one. -/
theorem setArchived_eq (h : Mirrors m db) (id : NodeId) :
    ∃ db', setArchived id true db = (.ok (m.idea? id).isSome, db') ∧
      Mirrors (m.modifyIdea id fun i => { i with archived := true }) db' := by
  have hany : (db.ideas.toList.any fun r => decide (r.id = some id.text))
      = (m.idea? id).isSome := by
    rw [Bool.eq_iff_iff, Memory.idea?, List.find?_isSome, List.any_eq_true, h.ideas_eq]
    simp [IdeaRow.ofIdea, NodeId.text_inj]
  refine ⟨{ db with
    ideas := db.ideas.modify (fun r => decide (r.id = some id.text)) fun r =>
      { r with archived := .integer (if true then 1 else 0) } }, ?_, ?_⟩
  · rw [← hany]
    rfl
  · refine h.withIdeas ?_ rfl (h.sound.modifyIdea id (fun _ => rfl) fun _ => rfl)
    rw [Rows.toList_modify, h.ideas_eq, List.map_map, List.map_map]
    refine List.map_congr_left fun i _ => ?_
    simp only [Function.comp, IdeaRow.ofIdea, Option.some.injEq, NodeId.text_inj,
      decide_eq_true_eq]
    split <;> rfl

end Mirrors

end Ideas
