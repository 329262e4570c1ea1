/-
The ideas of a database, and the relations between them.

Ideas have their rows in the order of their creation, nodes have theirs in another table, and
relations are between ideas by their ids (`Filed`).  A call may write to more than one table, by
statements that look at different keys; but an idea has its node, and so a key that is new among
the nodes is new among the ideas, and an idea whose node was just stored is never refused.  That
is why nothing is left of a call that fails, even where no transaction is its own.

A transaction may be open over many calls.  `Recorded` are the states of a database with the
register that goes with each, and with what is put back if the transaction is rolled back.
-/
import Ideas.Proofs.Catalogue
import Ideas.Proofs.Database.Contract
import Ideas.Proofs.Database.Relations

namespace Ideas

open NodeStore

namespace Database

/-- An idea as it is read again: with an energy that ideas have. -/
def clamped (i : Idea) : Idea :=
  { i with energy := clampEnergy i.energy }

/-! ### What is filed -/

/-- The rows of a database are those of the ideas of a register, each with a node, and of relations
between them. -/
structure Filed (l : Register) (db : Database) : Prop where
  unmoved : db.ideas.moved = false
  rows : db.ideas.toList = l.map IdeaRow.ofIdea
  distinct : (l.map Idea.id).Nodup
  node : ∀ i ∈ l, (db.nodeRow? i.id).isSome
  related : ∀ r ∈ db.relations.toList,
    r.source ∈ l.map (·.id.text) ∧ r.target ∈ l.map (·.id.text)

variable {l : Register} {db db' : Database} {id : NodeId} {n : Node} {i : Idea}

/-- What leaves ideas and relations alone and loses no node keeps to the register. -/
theorem Filed.of_keeps (h : Filed l db) (hideas : db'.ideas = db.ideas)
    (hrelations : db'.relations = db.relations)
    (hnode : ∀ id, (db.nodeRow? id).isSome → (db'.nodeRow? id).isSome) : Filed l db' where
  unmoved := hideas ▸ h.unmoved
  rows := hideas ▸ h.rows
  distinct := h.distinct
  node i hi := hnode i.id (h.node i hi)
  related := hrelations ▸ h.related

theorem filed_fresh : Filed [] fresh :=
  ⟨rfl, rfl, List.nodup_nil, fun _ hi => absurd hi List.not_mem_nil,
    fun _ hr => absurd hr List.not_mem_nil⟩

/-- It makes no difference whether a transaction is open. -/
theorem Filed.within (h : Filed l db) (isOpen : Bool) : Filed l (db.within isOpen) :=
  h.of_keeps rfl rfl fun _ hid => hid

/-! ### What is read -/

/-- Among rows that were made of ideas a key is looked for like an id. -/
theorem hasKey_ofIdea (id : NodeId) :
    (fun r : IdeaRow => decide (r.id = some id.text)) ∘ IdeaRow.ofIdea
      = fun i => decide (i.id = id) := by
  funext i
  simp [IdeaRow.ofIdea, NodeId.text_inj]

theorem Filed.ideaRow?_eq (h : Filed l db) (id : NodeId) :
    db.ideaRow? id = (l.find? fun i => i.id = id).map IdeaRow.ofIdea := by
  rw [ideaRow?, h.rows, List.find?_map, hasKey_ofIdea]

theorem readIdeas_ofIdea (l : List Idea) :
    readIdeas (l.map IdeaRow.ofIdea) = .ok (l.map clamped) := by
  have hcolumns := mapM_eq_ok (l := l)
    (f := (fun r : IdeaRow => r.columns.map (r, ·)) ∘ IdeaRow.ofIdea)
    (g := fun i => (IdeaRow.ofIdea i, IdeaRow.columnsOf i))
    fun i _ => by rw [Function.comp, IdeaRow.columns_ofIdea]; rfl
  have hideas := mapM_eq_ok (l := l)
    (f := (fun row : IdeaRow × IdeaRow.Columns => row.1.ofColumns row.2) ∘
      fun i => (IdeaRow.ofIdea i, IdeaRow.columnsOf i))
    (g := clamped) fun i _ => by
      have hread := IdeaRow.toIdea_ofIdea_clamped i
      rwa [IdeaRow.toIdea, IdeaRow.columns_ofIdea] at hread
  rw [readIdeas, List.mapM_map, hcolumns]
  show List.mapM (fun row : IdeaRow × IdeaRow.Columns => row.1.ofColumns row.2) _ = _
  rw [List.mapM_map, hideas]

theorem Filed.activeRows_eq (h : Filed l db) (owner : String) :
    db.activeRows owner = (l.active owner).map IdeaRow.ofIdea := by
  have hactive : (fun r : IdeaRow => decide (r.owner = owner) && r.archived.isInteger 0)
      ∘ IdeaRow.ofIdea = fun i => decide (i.owner = owner ∧ i.archived = false) := by
    funext i
    rw [Function.comp, IdeaRow.ofIdea]
    cases i.archived <;> simp [Cell.isInteger]
  rw [activeRows, h.rows, List.filter_map, hactive, Register.active]

theorem Filed.catalogue (h : Filed l db) : Catalogue keeping clamped l db where
  distinct := h.distinct
  node i hi := by
    obtain ⟨row, hrow⟩ := Option.isSome_iff_exists.mp (h.node i hi)
    exact ⟨row, hrow, key_of_nodeRow? hrow⟩
  found id := by
    have hrow := h.ideaRow?_eq id
    cases hfound : l.find? (fun i => i.id = id) with
    | none =>
        rw [hfound] at hrow
        rw [getIdea_of_no_row hrow]
        rfl
    | some i =>
        rw [hfound] at hrow
        rw [getIdea_of_row hrow, IdeaRow.toIdea_ofIdea_clamped]
        rfl
  listed owner := by
    rw [listActive_eq, h.activeRows_eq, readIdeas_ofIdea]
    rfl

/-! ### What is written -/

theorem isSome_nodeRow?_insert (new : db.nodeRow? n.id = none) (ideas : Rows IdeaRow)
    {id : NodeId} (h : (db.nodeRow? id).isSome) :
    (({ db with nodes := db.nodes.insert (.holding n), ideas } : Database).nodeRow? id).isSome := by
  have hfound : ({ db with nodes := db.nodes.insert (.holding n), ideas } : Database).nodeRow? id
      = if id = n.id then some (.holding n) else db.nodeRow? id := nodeRow?_insert rfl new id
  rw [hfound]
  split
  · rfl
  · exact h

theorem id_of_get (h : ((get id : Action Database _) db).1 = .ok (some n)) : n.id = id := by
  rcases (get_cases (Prod.ext h rfl)).2 with ⟨-, he⟩ | ⟨k, hk, hid, -⟩ | ⟨_, _, -, -, he⟩
  · cases he
  · cases hk
    exact hid
  · cases he

theorem steady_filed (l : Register) : Steady (Filed l) where
  get {db} id h := by
    rw [(get_cases (Prod.eta (get id db)).symm).1]
    exact h
  finds _ hget := id_of_get hget
  create {db} n h := by
    rcases create_cases (Prod.eta (create n db)).symm with ⟨-, hsame⟩ | ⟨-, new, hsaved⟩
    · rw [hsame]
      exact h
    · rw [hsaved]
      exact h.of_keeps rfl rfl fun _ => isSome_nodeRow?_insert new db.ideas
  update {db} id u h := by
    rcases update_cases (Prod.eta (update id u db)).symm with
      ⟨-, hsame⟩ | ⟨-, -, -, hsame⟩ | ⟨-, -, hwritten⟩
    · rw [hsame]
      exact h
    · rw [hsame]
      exact h
    · rw [hwritten]
      refine h.of_keeps rfl rfl fun j hj => ?_
      rw [nodeRow?_overwritten, Option.isSome_map]
      exact hj
  nextGeneration {db} owner h := by
    rw [show ((nextGeneration owner : Action Database _) db).2 = (bumpGeneration owner db).2 from
      toAction_snd _ db]
    refine h.of_keeps (sameData_bumpGeneration owner db).ideas ?_ fun id hid => ?_
    · rcases bumpGeneration_cases (Prod.eta (bumpGeneration owner db)).symm with
        ⟨-, -, hbumped⟩ | ⟨_, -, -, hbumped⟩ <;> rw [hbumped]
    · rw [nodeRow?_bumpGeneration]
      exact hid
  getIdea {db} id h := by
    rw [show ((getIdea id : Action Database _) db).2 = db from toAction_snd (loadIdea id) db]
    exact h
  listActive {db} owner h := by
    rw [listActive_eq]
    exact h

/-- A key that is new among the nodes is new among the ideas. -/
theorem Filed.not_mem_of_new (h : Filed l db) (new : db.nodeRow? id = none) :
    ∀ j ∈ l, j.id ≠ id := by
  rintro j hj rfl
  have hnode := h.node j hj
  rw [new] at hnode
  cases hnode

theorem Filed.add (h : Filed l db) (hid : i.id = n.id) (new : db.nodeRow? n.id = none) :
    Filed (l ++ [i]) { db with
      nodes := db.nodes.insert (.holding n), ideas := db.ideas.insert (.ofIdea i) } where
  unmoved := (Rows.moved_insert _ _).trans h.unmoved
  rows := by
    rw [Rows.toList_insert h.unmoved, h.rows, List.map_append, List.map_singleton]
  distinct := Register.distinct_concat h.distinct (hid ▸ h.not_mem_of_new new)
  node := by
    refine List.forall_mem_append.mpr ⟨fun j hj => isSome_nodeRow?_insert new _ (h.node j hj),
      List.forall_mem_singleton.mpr ?_⟩
    obtain ⟨e, he, -⟩ := (stores_insert new (db.ideas.insert (.ofIdea i))).entry
    rw [hid]
    exact Option.isSome_of_eq_some he
  related r hr := by
    obtain ⟨hsource, htarget⟩ := h.related r hr
    rw [List.map_append]
    exact ⟨List.mem_append_left _ hsource, List.mem_append_left _ htarget⟩

/-- Where a node is stored under a key that was new, the table of ideas takes an idea of that key. -/
theorem Filed.takes_idea (h : Filed l db) (hid : i.id = n.id) {mid : Database}
    (hnode : saveNode n db = (.ok (), mid)) :
    db.nodeRow? n.id = none ∧ mid = { db with nodes := db.nodes.insert (.holding n) } ∧
      insertIdea (.ofIdea i) mid
        = (.ok (), { mid with ideas := mid.ideas.insert (.ofIdea i) }) := by
  rcases saveNode_cases hnode with ⟨_, he, -⟩ | ⟨-, new, -, rfl⟩
  · cases he
  refine ⟨new, rfl, insertIdea_of_new ?_ ?_⟩
  · show db.ideaRow? i.id = none
    rw [h.ideaRow?_eq, Option.map_eq_none_iff, List.find?_eq_none]
    intro j hj
    rw [decide_eq_true_eq, hid]
    exact h.not_mem_of_new new j hj
  · obtain ⟨e, he, -⟩ := (stores_insert new db.ideas).entry
    rw [hid]
    exact Option.isSome_of_eq_some he

/-- An idea is created with its node, or nothing is done, not even inside a transaction. -/
theorem Filed.createIdea (h : Filed l db) {res : Except EngineError Unit}
    (hrun : createIdea i n db = (res, db')) :
    (∃ e, res = .error e) ∧ db' = db ∨
      res = .ok () ∧ i.id = n.id ∧ keeping.Stores db db' n ∧ nodeCount db' = nodeCount db + 1 ∧
        Filed (l ++ [i]) db' := by
  rcases hsave : saveIdea i n db with ⟨cause | _, after⟩
  · obtain ⟨rfl, rfl⟩ := Prod.mk.inj ((toAction_eq hsave).symm.trans hrun)
    refine Or.inl ⟨⟨_, rfl⟩, ?_⟩
    rcases saveIdea_cases hsave with ⟨_, -, -, hsame | ⟨hid, hnode, hrefused⟩⟩ | ⟨-, he, -⟩
    · exact hsame
    · cases hrefused.symm.trans (h.takes_idea hid hnode).2.2
    · cases he
  · obtain ⟨rfl, rfl⟩ := Prod.mk.inj ((toAction_eq hsave).symm.trans hrun)
    rcases saveIdea_cases hsave with ⟨_, he, -⟩ | ⟨hid, -, mid, hnode, hidea⟩
    · cases he
    obtain ⟨new, rfl, hinserted⟩ := h.takes_idea hid hnode
    cases hidea.symm.trans hinserted
    refine Or.inr ⟨rfl, hid, stores_insert new _, ?_, h.add hid new⟩
    exact (Rows.toList_insert_perm _ _).length_eq

/-- To set whether an idea is archived marks it, and answers whether there is one. -/
theorem Filed.setArchived (h : Filed l db) (id : NodeId) (archived : Bool) :
    (setArchived id archived db).1 = .ok (l.any (·.id = id)) ∧
      Filed (l.mark id archived) (setArchived id archived db).2 := by
  refine ⟨?_, h.unmoved, ?_, ?_, ?_, ?_⟩
  · show Except.ok (db.ideas.toList.any fun r => decide (r.id = some id.text)) = _
    rw [h.rows, List.any_map, hasKey_ofIdea]
  · show (db.ideas.modify (fun r => decide (r.id = some id.text)) fun r =>
      { r with archived := .integer (if archived then 1 else 0) }).toList = _
    rw [Rows.toList_modify, h.rows, List.map_map, Register.mark, List.map_map]
    refine List.map_congr_left fun i _ => ?_
    simp only [Function.comp, IdeaRow.ofIdea, Option.some.injEq, NodeId.text_inj,
      decide_eq_true_eq]
    split <;> rfl
  · rw [Register.map_id_mark]
    exact h.distinct
  · exact Register.forall_mem_mark (p := fun j => (db.nodeRow? j).isSome) h.node
  · intro r hr
    have hids : (l.mark id archived).map (·.id.text) = l.map (·.id.text) := by
      have := congrArg (List.map NodeId.text) (Register.map_id_mark id archived l)
      rwa [List.map_map, List.map_map] at this
    rw [hids]
    exact h.related r hr

theorem Filed.archiveIdea (h : Filed l db) {res : Except EngineError Unit}
    (hrun : archiveIdea id db = (res, db')) :
    (∃ e, res = .error e) ∧ db' = db ∨
      res = .ok () ∧ (∃ i ∈ l, i.id = id) ∧ Filed (l.mark id true) db' := by
  rcases archiveIdea_cases hrun with hfails | ⟨rfl, -⟩
  · exact Or.inl hfails
  have hquery : Database.setArchived id true db = (.ok true, db') := orNotFound_ok hrun
  obtain ⟨hanswer, hfiled⟩ := h.setArchived id true
  rw [hquery] at hanswer hfiled
  obtain ⟨i, hi, hid⟩ := List.any_eq_true.mp (Except.ok.inj hanswer).symm
  exact Or.inr ⟨rfl, ⟨i, hi, of_decide_eq_true hid⟩, hfiled⟩

theorem curates : Curates keeping clamped Filed where
  id_stored _ := rfl
  steady := steady_filed
  catalogue h := h.catalogue
  createIdea h _ _ _ _ hrun := h.createIdea hrun
  archiveIdea h _ _ _ hrun := h.archiveIdea hrun

/-! ### What is saved -/

/-- The keys of the ideas are their ids. -/
theorem Filed.mem_keys_iff (h : Filed l db) {text : String} :
    some text ∈ db.ideas.toList.map IdeaRow.id ↔ text ∈ l.map (·.id.text) := by
  rw [h.rows]
  simp [IdeaRow.ofIdea]

/-- Relations that are put into their table are between ideas. -/
theorem Filed.withSaved (h : Filed l db) {saves : List Save} (hsaves : ∀ s ∈ saves, db.Takes s) :
    Filed l (db.withSaved saves) := by
  induction saves generalizing db with
  | nil => exact h
  | cons s rest ih =>
      obtain ⟨htakes, hrest⟩ := List.forall_mem_cons.mp hsaves
      have hsaved : Filed l (db.withSaved [s]) := by
        refine ⟨h.unmoved, h.rows, h.distinct, h.node, fun r hr => ?_⟩
        have hr : r ∈ s.row :: db.relations.toList.filter (!s.fits ·) :=
          (Rows.toList_replace_perm _ _ _).mem_iff.mp hr
        rcases List.mem_cons.mp hr with rfl | hr
        · exact ⟨h.mem_keys_iff.mp htakes.source, h.mem_keys_iff.mp htakes.target⟩
        · exact h.related r (List.mem_of_mem_filter hr)
      exact ih hsaved fun x hx => ⟨(hrest x hx).number, (hrest x hx).source, (hrest x hx).target⟩

theorem Filed.saveRelations (h : Filed l db) (source : NodeId)
    (candidates : List (Candidate Float)) : Filed l (saveRelations source candidates db).2 := by
  rcases saveRelations_cases (Prod.eta (Database.saveRelations source candidates db)).symm with
    ⟨-, taken, hsaved⟩ | ⟨-, -, -, done, taken, hsaved⟩ <;> rw [hsaved] <;> exact h.withSaved taken

/-! ### What comes about -/

/-- What comes about from a new database, each with its register: by calls, and by faults that are
set for some of their requests; by setting whether ideas are archived, and by saving relations; and
by transactions over any number of these.  While one is open, it is known what there was when it
began. -/
inductive Recorded : Option (Register × Database) → Register → Monitored Database → Prop
  | start : Recorded none [] { inner := fresh }
  | fault {before : Option (Register × Database)} {l : Register} {d : Monitored Database}
      (h : Recorded before l d) (fault : Option Fault) : Recorded before l { d with fault }
  | call {before : Option (Register × Database)} {l : Register} {d : Monitored Database}
      (h : Recorded before l d) (r : Request) :
      Recorded before (r.registered (r.run d).1 l) (r.run d).2
  | archived {before : Option (Register × Database)} {l : Register} {d : Monitored Database}
      (h : Recorded before l d) (id : NodeId) (archived : Bool) :
      Recorded before (l.mark id archived)
        { d with inner := (Database.setArchived id archived d.inner).2 }
  | saved {before : Option (Register × Database)} {l : Register} {d : Monitored Database}
      (h : Recorded before l d) (source : NodeId) (candidates : List (Candidate Float)) :
      Recorded before l { d with inner := (Database.saveRelations source candidates d.inner).2 }
  | begins {l : Register} {d : Monitored Database} (h : Recorded none l d) :
      Recorded (some (l, d.inner)) l { d with inner := d.inner.within true }
  | commits {before : Register × Database} {l : Register} {d : Monitored Database}
      (h : Recorded (some before) l d) : Recorded none l { d with inner := d.inner.within false }
  | rollsBack {before : Register × Database} {l : Register} {d : Monitored Database}
      (h : Recorded (some before) l d) : Recorded none before.1 { d with inner := before.2 }

/-- What comes about is filed with its register, and so is what it may go back to. -/
theorem Recorded.filed {before : Option (Register × Database)} {d : Monitored Database}
    (h : Recorded before l d) : Filed l d.inner ∧ ∀ b ∈ before, Filed b.1 b.2 := by
  induction h with
  | start => exact ⟨filed_fresh, fun _ hb => nomatch hb⟩
  | fault _ _ ih => exact ih
  | call _ r ih => exact ⟨curates.call ih.1 r, ih.2⟩
  | archived _ id archived ih => exact ⟨(ih.1.setArchived id archived).2, ih.2⟩
  | saved _ source candidates ih => exact ⟨ih.1.saveRelations source candidates, ih.2⟩
  | begins _ ih =>
      refine ⟨ih.1.within true, fun b hb => ?_⟩
      cases hb
      exact ih.1
  | commits _ ih => exact ⟨ih.1.within false, fun _ hb => nomatch hb⟩
  | rollsBack _ ih => exact ⟨ih.2 _ rfl, fun _ hb => nomatch hb⟩

/-! ### Blocks -/

theorem steady_inTransaction (isOpen : Bool) :
    Steady fun db : Database => db.inTransaction = isOpen where
  get id h := (keeps_run (.get id) _).trans h
  finds _ hget := id_of_get hget
  create n h := (keeps_run (.create n) _).trans h
  update id u h := (keeps_run (.update id u) _).trans h
  nextGeneration owner h := (keeps_run (.nextGeneration owner) _).trans h
  getIdea id h := (keeps_run (.getIdea id) _).trans h
  listActive owner h := (keeps_run (.listActive owner) _).trans h

/-- A call leaves a transaction open or closed, on a watched database, too. -/
theorem inTransaction_run (r : Request) (d : Monitored Database) :
    (r.run d).2.inner.inTransaction = d.inner.inTransaction :=
  (steady_inTransaction d.inner.inTransaction).run_watched
    (fun i n _ h => (keeps_createIdea i n _).trans h)
    (fun id _ h => (keeps_run (.archiveIdea id) _).trans h) r rfl

/-- A transaction is open if it is known what there was before. -/
theorem Recorded.inTransaction {before : Option (Register × Database)} {d : Monitored Database}
    (h : Recorded before l d) :
    d.inner.inTransaction = before.isSome ∧ ∀ b ∈ before, b.2.inTransaction = false := by
  induction h with
  | start => exact ⟨rfl, fun _ hb => nomatch hb⟩
  | fault _ _ ih => exact ih
  | call _ r ih => exact ⟨(inTransaction_run r _).trans ih.1, ih.2⟩
  | archived _ id archived ih =>
      exact ⟨((blind_setArchived id archived).keeps _).trans ih.1, ih.2⟩
  | saved _ source candidates ih =>
      exact ⟨(keeps_saveRelations source candidates _).trans ih.1, ih.2⟩
  | begins _ ih =>
      refine ⟨rfl, fun b hb => ?_⟩
      cases hb
      exact ih.1
  | commits _ ih => exact ⟨rfl, fun _ hb => nomatch hb⟩
  | rollsBack _ ih => exact ⟨ih.2 _ rfl, fun _ hb => nomatch hb⟩

/-- A block that runs atomically comes to what is recorded if that is so of what is run in it. -/
theorem Recorded.block {before : Option (Register × Database)} {d : Monitored Database}
    (h : Recorded before l d) {ε α : Type}
    {act : Monitored Database → Except ε α × Monitored Database}
    (hact : ∀ {before l inside}, Recorded before l inside →
      ∃ l', Recorded before l' (act inside).2) :
    ∃ l', Recorded before l'
      (transaction Monitored.inner (fun db d => { d with inner := db }) act d).2 := by
  cases before with
  | some b =>
      rw [transaction_of_inTransaction h.inTransaction.1]
      exact hact h
  | none =>
      obtain ⟨l', hinside⟩ := hact h.begins
      have hclosed : d.inner.inTransaction = false := h.inTransaction.1
      rw [transaction]
      simp only [hclosed, Bool.false_eq_true, if_false]
      rw [within] at hinside
      rcases hrun : act { d with inner := { d.inner with inTransaction := true } } with
        ⟨e | a, after⟩ <;> rw [hrun] at hinside
      · exact ⟨l, hinside.rollsBack⟩
      · exact ⟨l', hinside.commits⟩

end Database

/-- Ideas, nodes and relations agree in all that comes about from an empty store, whichever requests
fail and whichever transactions are taken back.  No id is there twice, each idea has its node, and
both ends of a relation are ideas.  A call that creates an idea adds it with its node or does
nothing; the active ideas of an owner are read in the order of their creation; and one that is
archived is taken out of them and leaves the others as they were. -/
theorem ideas_consistent :
    (∀ l m, Recorded ({} : Memory) l m →
      Memory.Holds l m.inner ∧ Consistent Memory.keeping (fun i => i) l m) ∧
    ∀ before l d, Database.Recorded before l d →
      Database.Filed l d.inner ∧ Consistent Database.keeping Database.clamped l d ∧
        ∀ id archived,
          (Database.setArchived id archived d.inner).1 = .ok (l.any (·.id = id)) ∧
            Database.Filed (l.mark id archived) (Database.setArchived id archived d.inner).2 := by
  constructor
  · intro l m h
    have holds : Memory.Holds l m.inner := Memory.curates.recorded Memory.holds_empty h
    exact ⟨holds, Memory.curates.consistent holds⟩
  · intro before l d h
    have filed : Database.Filed l d.inner := h.filed.1
    exact ⟨filed, Database.curates.consistent filed, filed.setArchived⟩

/-- Two ideas of one owner. -/
def sail : Idea :=
  { id := ⟨1⟩, owner := "ann", title := "solar sail" }

def kite : Idea :=
  { id := ⟨2⟩, owner := "ann", title := "kite" }

/-- A memory that was given both, and has archived the first. -/
def Memory.drafted : Monitored Memory :=
  let author (i : Idea) (m : Monitored Memory) := ((Request.authorIdea i []).run m).2
  ((Request.archiveIdea sail.id).run (author kite (author sail { inner := {} }))).2

theorem Memory.recorded_drafted :
    Recorded {} [{ sail with archived := true }, kite] Memory.drafted :=
  ((Recorded.start.call (.authorIdea sail [])).call (.authorIdea kite [])).call
    (.archiveIdea sail.id)

namespace Database

/-- A database that was given both, too, and holds a relation between them.  A third idea was taken
back with its transaction, and then refused. -/
def drafted : Monitored Database :=
  let author (i : Idea) (d : Monitored Database) := ((Request.authorIdea i []).run d).2
  let kept := author kite (author sail { inner := fresh })
  let inside := author { kite with id := ⟨3⟩ } { kept with inner := kept.inner.within true }
  let back := { inside with inner := kept.inner }
  let related := { back with inner := (saveRelations sail.id [⟨kite.id, 0.5⟩] back.inner).2 }
  let refused := author { kite with id := ⟨3⟩ } { related with fault := some ⟨.createIdea, 1⟩ }
  ((Request.archiveIdea sail.id).run refused).2

theorem recorded_drafted : Recorded none [{ sail with archived := true }, kite] drafted := by
  have kept := (Recorded.start.call (.authorIdea sail [])).call (.authorIdea kite [])
  have back := (kept.begins.call (.authorIdea { kite with id := ⟨3⟩ } [])).rollsBack
  have related := (back.saved sail.id [⟨kite.id, 0.5⟩]).fault (some ⟨.createIdea, 1⟩)
  have refused := related.call (.authorIdea { kite with id := ⟨3⟩ } [])
  refine Eq.mp (congrArg (Recorded none · drafted) ?_) (refused.call (.archiveIdea sail.id))
  decide +kernel

end Database

/-- One idea is left that is active, and when that is archived, too, none is; the relation is still
there. -/
theorem ideas_consistent_drafted :
    Memory.Holds [{ sail with archived := true }, kite] Memory.drafted.inner ∧
    Database.Filed [{ sail with archived := true }, kite] Database.drafted.inner ∧
    Database.drafted.inner.relations.toList.map Database.RelationRow.source = [sail.id.text] ∧
    ((listActive "ann" : Action Database _) Database.drafted.inner).1 = .ok [kite] ∧
    ((listActive "ann" : Action Database _)
      ((archiveIdea kite.id : Action (Monitored Database) _) Database.drafted).2.inner).1
        = .ok [] := by
  obtain ⟨hmemory, hdatabase⟩ := ideas_consistent
  obtain ⟨filed, consistent, -⟩ := hdatabase none _ _ Database.recorded_drafted
  have hactive : ((listActive "ann" : Action Database _) Database.drafted.inner).1
      = .ok [kite] := consistent.catalogue.listed "ann"
  refine ⟨(hmemory _ _ Memory.recorded_drafted).1, filed, by decide +kernel, hactive, ?_⟩
  rcases consistent.archives kite.id _ _ (Prod.eta _).symm with ⟨⟨e, he⟩, -⟩ | ⟨-, -, -, hafter⟩
  · have hdone : ((archiveIdea kite.id : Action (Monitored Database) _) Database.drafted).1.toBool
        = true := by decide +kernel
    rw [he] at hdone
    cases hdone
  · exact hafter "ann" [kite] hactive

end Ideas
