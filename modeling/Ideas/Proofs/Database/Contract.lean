/-
A database upholds the contract of a store, too.

Its entries are rows.  A row tells the identity of its node and where that points even when
the rest of it cannot be read, and so all that is said of entries holds whatever was stored in
them; an update is read as it was given if its numbers read back.

A counter is the one thing that may move while a call fails.  Its row is known from the number
of calls that asked for a generation (`Called.counts`).  Its numbers have an end: the first call
behind the greatest one leaves a double in it, which no later call moves.
-/
import Ideas.Proofs.Contract
import Ideas.Proofs.Database.Generations

namespace Ideas

open NodeStore

namespace Database

/-! ### Counters -/

namespace Cell

/-- What a counter stands at when it is counted up to a number: beyond the greatest number, at the
end. -/
def countedTo (n : Nat) : Cell :=
  if (n : Int) ≤ Decimal.greatestInt64 then .integer n else exhausted

theorem next_countedTo (n : Nat) : (Cell.countedTo n).next = Cell.countedTo (n + 1) := by
  by_cases h : (n : Int) ≤ Decimal.greatestInt64
  · rw [Cell.countedTo, if_pos h, Cell.countedTo]
    show ofInteger ((n : Int) + 1) = _
    have hleast : Decimal.leastInt64 ≤ (n : Int) + 1 := by
      rw [Decimal.leastInt64]
      omega
    rw [ofInteger, Int.natCast_succ]
    by_cases hnext : (n : Int) + 1 ≤ Decimal.greatestInt64
    · rw [if_pos ⟨hleast, hnext⟩, if_pos hnext]
    · have hlast : (n : Int) = Decimal.greatestInt64 := by omega
      rw [if_neg fun h => hnext h.2, if_neg hnext, hlast]
      rfl
  · have hnext : ¬ ((n + 1 : Nat) : Int) ≤ Decimal.greatestInt64 := by omega
    rw [Cell.countedTo, if_neg h, Cell.countedTo, if_neg hnext, next_exhausted]

end Cell

/-! ### What a database keeps -/

/-- What a database keeps: the rows. -/
abbrev keeping : Keeping Database where
  Entry := NodeRow
  Catalogue := Rows IdeaRow
  Counter := Option GenerationRow
  entry? := nodeRow?
  ideas := ideas
  counter := generationRow?
  identity r := ⟨r.id, r.owner, NodeKind.ofStored r.kind, r.name⟩
  forward r := r.forward.bind NodeId.read?
  read r := r.toNode.mapError EngineError.ofStore
  write u r := r.overwrite u (u.generation.map Int.ofNat)
  givesBack := Update.NumbersReadBack
  issues n := (n : Int) ≤ Decimal.greatestInt64
  denies n := Decimal.greatestInt64 < (n : Int)

variable {db db' : Database} {id : NodeId} {row : NodeRow} {n : Node} {u : Update}

/-- A row that is overwritten remains if it takes the update. -/
theorem remains_overwrite (h : row.takes id u = true) :
    keeping.Remains row (row.overwrite u (u.generation.map Int.ofNat)) where
  identity := rfl
  forward target hrow := by
    obtain ⟨-, hforward⟩ := of_decide_eq_true h
    show ((u.forward.map NodeId.text).or row.forward).bind NodeId.read? = some target
    have hrow : row.forward.bind NodeId.read? = some target := hrow
    cases hu : u.forward with
    | none => exact hrow
    | some _ =>
        rw [Option.isNone_iff_eq_none.mp (hforward (hu ▸ rfl))] at hrow
        cases hrow

/-- A column that is read as a reference holds the text of it. -/
theorem bind_read?_of_readOptionalId {column : Option String} {target : Option NodeId}
    (h : readOptionalId column = .ok target) : column.bind NodeId.read? = target := by
  cases column with
  | none => exact Except.ok.inj h
  | some s =>
      rw [readOptionalId, readId] at h
      rw [Option.bind_some]
      cases hread : NodeId.read? s with
      | none => rw [hread] at h; cases h
      | some id => rw [hread] at h; exact Except.ok.inj h

theorem overwrite_of_isEmpty (h : u.isEmpty = true) (row : NodeRow) :
    row.overwrite u (u.generation.map Int.ofNat) = row := by
  obtain ⟨arcs, complement, forward, copy, generation⟩ := u
  cases arcs <;> cases complement <;> cases forward <;> cases copy <;> cases generation <;> cases h
  rfl

/-! ### What a call writes -/

/-- What a call of the store has written, if it has written anything. -/
inductive Wrote (db : Database) : Request → Database → Prop
  /-- A new node, and maybe an idea. -/
  | node {r : Request} {n : Node} {ideas : Rows IdeaRow} (unasked : ∀ owner, r.asks owner = false)
      (new : db.nodeRow? n.id = none) :
      Wrote db r { db with nodes := db.nodes.insert (.holding n), ideas }
  | update {id : NodeId} {u : Update} : Wrote db (.update id u) (db.overwritten id u)
  | ideas {r : Request} {ideas : Rows IdeaRow} (unasked : ∀ owner, r.asks owner = false) :
      Wrote db r { db with ideas }
  | counter {owner : String} : Wrote db (.nextGeneration owner) (bumpGeneration owner db).2

/-- Outside a transaction nothing is left of an idea and a node that are not both stored. -/
theorem saveIdea_of_error (hclosed : db.inTransaction = false) {i : Idea} {e : StoreError}
    (h : saveIdea i n db = (.error e, db')) : db' = db := by
  by_cases hid : i.id = n.id
  · rw [saveIdea, if_neg (not_not_intro hid)] at h
    rcases hrun : (do saveNode n; insertIdea (.ofIdea i) : Query Unit)
      { db with inTransaction := true } with ⟨e' | a, after⟩
    · cases (atomically_eq_of_error hclosed hrun).symm.trans h
      rfl
    · cases (atomically_eq_of_ok hclosed hrun).symm.trans h
  · rw [saveIdea, if_pos hid] at h
    cases h
    rfl

/-- Storing an idea outside a transaction does all of it or nothing. -/
theorem createIdea_cases (hclosed : db.inTransaction = false) {i : Idea}
    {res : Except EngineError Unit} (h : createIdea i n db = (res, db')) :
    (∃ e, res = .error e) ∧ db' = db ∨
      res = .ok () ∧ db.nodeRow? n.id = none ∧
        ∃ ideas, db' = { db with nodes := db.nodes.insert (.holding n), ideas } := by
  rcases hsave : saveIdea i n db with ⟨cause | _, after⟩
  · obtain ⟨rfl, rfl⟩ := Prod.mk.inj ((toAction_eq hsave).symm.trans h)
    exact Or.inl ⟨⟨_, rfl⟩, saveIdea_of_error hclosed hsave⟩
  · obtain ⟨rfl, rfl⟩ := Prod.mk.inj ((toAction_eq hsave).symm.trans h)
    rcases saveIdea_cases hsave with ⟨_, he, -⟩ | ⟨-, -, mid, hnode, hinsert⟩
    · cases he
    rcases saveNode_cases hnode with ⟨_, he, -⟩ | ⟨-, new, -, rfl⟩
    · cases he
    rcases insertIdea_cases hinsert with ⟨_, he, -⟩ | ⟨-, -, rfl⟩
    · cases he
    exact Or.inr ⟨rfl, new, _, rfl⟩

theorem create_cases {res : Except EngineError Unit} (h : create n db = (res, db')) :
    (∃ e, res = .error e) ∧ db' = db ∨
      res = .ok () ∧ db.nodeRow? n.id = none ∧
        db' = { db with nodes := db.nodes.insert (.holding n) } := by
  rcases hsave : saveNode n db with ⟨outcome, after⟩
  obtain ⟨rfl, rfl⟩ := Prod.mk.inj ((toAction_eq hsave).symm.trans h)
  rcases saveNode_cases hsave with ⟨_, rfl, -, hsame⟩ | ⟨-, new, rfl, rfl⟩
  · exact Or.inl ⟨⟨_, rfl⟩, hsame⟩
  · exact Or.inr ⟨rfl, new, rfl⟩

/-- A query that answers with no, or not at all, is a call that fails. -/
theorem orNotFound_fails {q : Query Bool} {outcome : Except StoreError Bool}
    (hquery : q db = (outcome, db')) (hno : outcome ≠ .ok true) (id : NodeId) :
    ∃ e, q.orNotFound id db = (.error e, db') := by
  match outcome with
  | .error cause => exact ⟨_, orNotFound_of_error hquery⟩
  | .ok false => exact ⟨_, orNotFound_of_ok hquery⟩
  | .ok true => exact absurd rfl hno

/-- An update fails and changes nothing, or names no field and finds a row, or is written into the
rows that take it. -/
theorem update_cases {res : Except EngineError Unit} (h : update id u db = (res, db')) :
    (∃ e, res = .error e) ∧ db' = db ∨
      res = .ok () ∧ u.isEmpty = true ∧ (∃ row, db.nodeRow? id = some row) ∧ db' = db ∨
      res = .ok () ∧ (∃ row ∈ db.nodes.toList, row.takes id u = true) ∧
        db' = db.overwritten id u := by
  have hfails {outcome : Except StoreError Bool} {after : Database}
      (hquery : updateNode id u db = (outcome, after)) (hno : outcome ≠ .ok true) :
      (∃ e, res = .error e) ∧ db' = after := by
    obtain ⟨e, he⟩ := orNotFound_fails hquery hno id
    obtain ⟨rfl, rfl⟩ := Prod.mk.inj (he.symm.trans h)
    exact ⟨⟨e, rfl⟩, rfl⟩
  rcases hquery : updateNode id u db with ⟨outcome, after⟩
  rcases updateNode_cases hquery with
    ⟨cause, rfl, -, rfl⟩ | ⟨hempty, houtcome, rfl⟩ | ⟨-, taken, rfl, rfl⟩ | ⟨-, -, rfl, houtcome⟩
  · exact Or.inl (hfails hquery fun h => nomatch h)
  · by_cases hyes : outcome = .ok true
    · subst hyes
      obtain ⟨rfl, rfl⟩ := Prod.mk.inj ((orNotFound_of_ok hquery).symm.trans h)
      obtain ⟨found, hload, hfound⟩ := eq_ok_of_map houtcome.symm
      refine Or.inr (Or.inl ⟨rfl, hempty, ?_, rfl⟩)
      rw [loadNode, ask] at hload
      cases hrow : after.nodeRow? id with
      | some row => exact ⟨row, rfl⟩
      | none =>
          simp only [hrow] at hload
          cases hload
          cases hfound
    · exact Or.inl (hfails hquery hyes)
  · obtain ⟨rfl, rfl⟩ := Prod.mk.inj ((orNotFound_of_ok hquery).symm.trans h)
    exact Or.inr (Or.inr ⟨rfl, taken, rfl⟩)
  · refine Or.inl (hfails hquery ?_)
    rintro rfl
    split at houtcome
    · cases hload : (loadNode id after).1 with
      | error e => rw [hload] at houtcome; cases houtcome
      | ok found => rw [hload] at houtcome; cases found <;> cases houtcome
    · cases houtcome

theorem archiveIdea_cases {res : Except EngineError Unit} (h : archiveIdea id db = (res, db')) :
    (∃ e, res = .error e) ∧ db' = db ∨ res = .ok () ∧ ∃ ideas, db' = { db with ideas } := by
  obtain ⟨outcome, hany⟩ : ∃ found, db.ideas.toList.any (fun r => r.id = some id.text) = found :=
    ⟨_, rfl⟩
  have hquery : setArchived id true db = (.ok outcome, { db with
      ideas := db.ideas.modify (fun r => r.id = some id.text) fun r =>
        { r with archived := .integer 1 } }) := hany ▸ rfl
  cases outcome with
  | true =>
      obtain ⟨rfl, rfl⟩ := Prod.mk.inj ((orNotFound_of_ok hquery).symm.trans h)
      exact Or.inr ⟨rfl, _, rfl⟩
  | false =>
      rw [Rows.modify_of_none (by simpa using hany)] at hquery
      obtain ⟨rfl, rfl⟩ := Prod.mk.inj ((orNotFound_of_ok hquery).symm.trans h)
      exact Or.inl ⟨⟨_, rfl⟩, rfl⟩

theorem require_cases {res : Except EngineError Node} (h : require id db = (res, db')) :
    db' = db := by
  rcases bind_cases h with ⟨e, hget, -⟩ | ⟨found, mid, hget, hrest⟩
  · exact (get_cases hget).1
  · obtain ⟨rfl, -⟩ := get_cases hget
    cases found <;> cases hrest <;> rfl

/-- Outside a transaction a call of the store leaves a database as it was, or it has written and
succeeds; only a call that asks for a generation may have written and fail. -/
theorem run_cases (hclosed : db.inTransaction = false) {r : Request} (hr : r.OfStore)
    {res : Except EngineError r.Answer} (h : r.run db = (res, db')) :
    ((∀ owner, r.asks owner = false) ∧ db' = db) ∨
      db.Wrote r db' ∧ ((∃ a, res = .ok a) ∨ ∃ owner, r = .nextGeneration owner) := by
  have hstate : (r.run db).2 = db' := congrArg Prod.snd h
  cases r with
  | get j => exact Or.inl ⟨fun _ => rfl, hstate.symm.trans (toAction_snd (loadNode j) db)⟩
  | getIdea j => exact Or.inl ⟨fun _ => rfl, hstate.symm.trans (toAction_snd (loadIdea j) db)⟩
  | listActive owner =>
      exact Or.inl ⟨fun _ => rfl, hstate.symm.trans (toAction_snd (listIdeas owner false) db)⟩
  | require j => exact Or.inl ⟨fun _ => rfl, require_cases h⟩
  | nextGeneration owner =>
      obtain rfl : (bumpGeneration owner db).2 = db' :=
        (toAction_snd (bumpGeneration owner) db).symm.trans hstate
      exact Or.inr ⟨.counter, Or.inr ⟨owner, rfl⟩⟩
  | create added =>
      rcases create_cases h with ⟨-, hsame⟩ | ⟨hres, new, rfl⟩
      · exact Or.inl ⟨fun _ => rfl, hsame⟩
      · exact Or.inr ⟨.node (fun _ => rfl) new, Or.inl ⟨_, hres⟩⟩
  | update j u =>
      rcases update_cases h with ⟨-, hsame⟩ | ⟨-, -, -, hsame⟩ | ⟨hres, -, rfl⟩
      · exact Or.inl ⟨fun _ => rfl, hsame⟩
      · exact Or.inl ⟨fun _ => rfl, hsame⟩
      · exact Or.inr ⟨.update, Or.inl ⟨_, hres⟩⟩
  | createIdea i added =>
      rcases createIdea_cases hclosed h with ⟨-, hsame⟩ | ⟨hres, new, ideas, rfl⟩
      · exact Or.inl ⟨fun _ => rfl, hsame⟩
      · exact Or.inr ⟨.node (fun _ => rfl) new, Or.inl ⟨_, hres⟩⟩
  | authorIdea i arcs =>
      rcases createIdea_cases hclosed h with ⟨-, hsame⟩ | ⟨hres, new, ideas, rfl⟩
      · exact Or.inl ⟨fun _ => rfl, hsame⟩
      · exact Or.inr ⟨.node (fun _ => rfl) new, Or.inl ⟨_, hres⟩⟩
  | archiveIdea j =>
      rcases archiveIdea_cases h with ⟨-, hsame⟩ | ⟨hres, ideas, rfl⟩
      · exact Or.inl ⟨fun _ => rfl, hsame⟩
      · exact Or.inr ⟨.ideas fun _ => rfl, Or.inl ⟨_, hres⟩⟩
  | unifyCore | unify | dereference | forwardChain | materialize | discover => exact hr.elim

/-! ### What is there after a call -/

theorem nodeRow?_bumpGeneration (owner : String) (db : Database) (id : NodeId) :
    (bumpGeneration owner db).2.nodeRow? id = db.nodeRow? id := by
  obtain ⟨-, hnodes, -⟩ := bumpGeneration_writes (Prod.eta (bumpGeneration owner db)).symm
  rw [nodeRow?, hnodes, ← nodeRow?]

theorem generationRow?_bumpGeneration (owner : String) (db : Database) (o : String) :
    (bumpGeneration owner db).2.generationRow? o
      = if o = owner then some ⟨some owner, db.nextCell owner⟩ else db.generationRow? o := by
  obtain ⟨-, -, -, hrows⟩ := bumpGeneration_writes (Prod.eta (bumpGeneration owner db)).symm
  exact hrows o

theorem Wrote.keyed {r : Request} (h : db.Wrote r db') (keyed : db.Keyed) : db'.Keyed := by
  cases h with
  | node _ new => exact keyed.insert new
  | update => exact keyed.overwritten _ _
  | ideas _ => exact keyed
  | @counter owner =>
      obtain ⟨-, hnodes, -⟩ := bumpGeneration_writes (Prod.eta (bumpGeneration owner db)).symm
      rw [Keyed, hnodes]
      exact keyed

/-- Only a call that asks for a generation moves a counter. -/
theorem Wrote.generationRow? {r : Request} (h : db.Wrote r db') (owner : String) :
    db'.generationRow? owner
      = if r.asks owner then some ⟨some owner, db.nextCell owner⟩ else db.generationRow? owner := by
  cases h with
  | node unasked _ | ideas unasked =>
      rw [unasked owner, if_neg Bool.false_ne_true]
      rfl
  | update => rfl
  | @counter stamped =>
      rw [generationRow?_bumpGeneration]
      by_cases howner : owner = stamped
      · subst howner
        rw [if_pos rfl, Request.asks, if_pos (decide_eq_true rfl)]
      · rw [if_neg howner, Request.asks, if_neg (by simpa using Ne.symm howner)]

/-- Each row of the counters is the one that is found for its owner. -/
def Counters (db : Database) : Prop :=
  ∀ r ∈ db.generations.toList, ∃ owner, db.generationRow? owner = some r

theorem Wrote.counters {r : Request} (h : db.Wrote r db') (counters : db.Counters) :
    db'.Counters := by
  cases h with
  | node | update | ideas => exact counters
  | @counter owner =>
      obtain ⟨-, -, hrows, hfound⟩ := bumpGeneration_writes (Prod.eta (bumpGeneration owner db)).symm
      intro row hrow
      rcases hrows row hrow with rfl | ⟨hold, hother⟩
      · exact ⟨owner, (hfound owner).trans (if_pos rfl)⟩
      · obtain ⟨o, ho⟩ := counters row hold
        have hne : o ≠ owner := fun h => hother (h ▸ owner_of_generationRow? ho)
        exact ⟨o, (hfound o).trans ((if_neg hne).trans ho)⟩

theorem Wrote.remains {r : Request} (h : db.Wrote r db') (found : db.nodeRow? id = some row) :
    ∃ row', db'.nodeRow? id = some row' ∧ keeping.Remains row row' := by
  cases h with
  | @node _ added ideas _ new =>
      have hother : id ≠ added.id := by
        rintro rfl
        cases new.symm.trans found
      have hkept : ({ db with nodes := db.nodes.insert (.holding added), ideas } :
          Database).nodeRow? id = some row :=
        (nodeRow?_insert rfl new id).trans ((if_neg hother).trans found)
      exact ⟨row, hkept, keeping.remains_refl row⟩
  | @update j u =>
      rw [nodeRow?_overwritten, found, Option.map_some]
      by_cases htakes : row.takes j u = true
      · rw [if_pos htakes]
        exact ⟨_, rfl, remains_overwrite htakes⟩
      · rw [if_neg htakes]
        exact ⟨row, rfl, keeping.remains_refl row⟩
  | ideas _ => exact ⟨row, found, keeping.remains_refl row⟩
  | @counter owner =>
      exact ⟨row, (nodeRow?_bumpGeneration owner db id).trans found, keeping.remains_refl row⟩

/-! ### It upholds the contract -/

/-- The state of a database that was only called, and that counts what it was asked for. -/
structure Called (asked : String → Nat) (db : Database) : Prop where
  keyed : db.Keyed
  closed : db.inTransaction = false
  counters : db.Counters
  /-- An owner has a counter from the first call on, and it stands at the number of the last one. -/
  counts : ∀ owner, db.generationRow? owner
    = if asked owner = 0 then none
      else some ⟨some owner, Cell.countedTo (generationSeed + asked owner)⟩

variable {asked : String → Nat}

theorem Called.nextCell (h : db.Called asked) (owner : String) :
    db.nextCell owner = Cell.countedTo (generationSeed + 1 + asked owner) := by
  rw [Database.nextCell, h.counts owner]
  by_cases hasked : asked owner = 0
  · rw [if_pos hasked, hasked]
    rfl
  · rw [if_neg hasked, Nat.add_right_comm]
    exact Cell.next_countedTo _

theorem Called.run (h : db.Called asked) {r : Request} (hr : r.OfStore) :
    Called (fun owner => asked owner + if r.asks owner then 1 else 0) (r.run db).2 := by
  have hclosed : (r.run db).2.inTransaction = false := (keeps_run r db).trans h.closed
  rcases run_cases h.closed hr (Prod.eta (r.run db)).symm with ⟨unasked, hsame⟩ | ⟨wrote, -⟩
  · rw [hsame]
    refine ⟨h.keyed, h.closed, h.counters, fun owner => ?_⟩
    simp only [unasked owner, Bool.false_eq_true, if_false]
    exact h.counts owner
  · refine ⟨wrote.keyed h.keyed, hclosed, wrote.counters h.counters, fun owner => ?_⟩
    rw [wrote.generationRow? owner]
    by_cases hasks : r.asks owner = true
    · rw [if_pos hasks, if_pos hasks, if_neg (Nat.succ_ne_zero _), h.nextCell owner,
        Nat.add_right_comm]
      rfl
    · rw [if_neg hasks, if_neg hasks]
      exact h.counts owner

theorem read_iff_holds : keeping.read row = .ok n ↔ row.Holds n := by
  rw [← NodeRow.toNode_eq_ok_iff]
  show row.toNode.mapError EngineError.ofStore = .ok n ↔ _
  cases row.toNode with
  | error cause => exact ⟨fun h => (nomatch h), fun h => (nomatch h)⟩
  | ok k => exact ⟨fun h => congrArg _ (Except.ok.inj h), fun h => congrArg _ (Except.ok.inj h)⟩

theorem reads (db : Database) : keeping.Reads db where
  get id := by
    have hentry : keeping.entry? db id = db.nodeRow? id := rfl
    rw [get_eq, hentry]
    cases db.nodeRow? id with
    | none => rfl
    | some row =>
        show ((row.toNode.map some).mapError _, db) = ((row.toNode.mapError _).map some, db)
        cases row.toNode <;> rfl
  shows id row n found hread := by
    have holds : row.Holds n := read_iff_holds.mp hread
    refine ⟨?_, bind_read?_of_readOptionalId holds.forward⟩
    obtain ⟨key, hkey, hid⟩ := holds.id
    obtain rfl : key = id.text := Option.some.inj (hkey.symm.trans (key_of_nodeRow? found))
    rw [readId_text] at hid
    show (⟨row.id, row.owner, NodeKind.ofStored row.kind, row.name⟩ : Identity) = n.identity
    rw [hkey, holds.owner, holds.kind, holds.name, Except.ok.inj hid]
    rfl

theorem stores_insert (new : db.nodeRow? n.id = none) (ideas : Rows IdeaRow) :
    keeping.Stores db { db with nodes := db.nodes.insert (.holding n), ideas } n where
  new := new
  entry := by
    refine ⟨.holding n, (nodeRow?_insert rfl new _).trans (if_pos rfl), ?_, ?_⟩
    · show (⟨_, _, NodeKind.ofStored n.kind.name, _⟩ : Identity) = n.identity
      rw [NodeKind.ofStored_name]
      rfl
    · exact bind_read?_of_readOptionalId (readOptionalId_text n.forward)
  others j hj := (nodeRow?_insert rfl new j).trans (if_neg hj)
  counter := rfl

/-- A row that is overwritten is read with just the update applied, if its numbers read back. -/
theorem read_overwrite (numbers : u.NumbersReadBack) (hread : keeping.read row = .ok n) :
    keeping.read (keeping.write u row) = .ok (u.applyTo n) :=
  read_iff_holds.mpr
    (NodeRow.toNode_eq_ok_iff.mp (((read_iff_holds.mp hread).overwrite_iff u).mpr numbers))

/-- An update without a field is taken by any row. -/
theorem takes_of_isEmpty (h : u.isEmpty = true) (hkey : row.id = some id.text) :
    row.takes id u = true := by
  obtain ⟨arcs, complement, forward, copy, generation⟩ := u
  cases forward with
  | none => exact decide_eq_true ⟨hkey, fun hu => (nomatch hu)⟩
  | some _ => cases arcs <;> cases complement <;> cases h

/-- A row that takes an update does not point anywhere if the update does. -/
theorem not_both_of_takes (h : row.takes id u = true) :
    ¬(u.forward.isSome ∧ (keeping.forward row).isSome) := by
  rintro ⟨hu, hrow⟩
  obtain ⟨-, hforward⟩ := of_decide_eq_true h
  have hnone : keeping.forward row = none := by
    show row.forward.bind NodeId.read? = none
    rw [Option.isNone_iff_eq_none.mp (hforward hu)]
    rfl
  rw [hnone] at hrow
  cases hrow

/-- An update that succeeds has been taken by the row of its node, and changed no other. -/
theorem updates (keyed : db.Keyed) (h : update id u db = (.ok (), db')) :
    keeping.Updates db db' id u := by
  have hreads : ∀ {row : NodeRow}, keeping.givesBack u → ∀ n, keeping.read row = .ok n →
      keeping.read (keeping.write u row) = .ok (u.applyTo n) :=
    fun numbers _ hread => read_overwrite numbers hread
  rcases update_cases h with ⟨⟨_, he⟩, -⟩ | ⟨-, hempty, ⟨row, hrow⟩, rfl⟩ | ⟨-, taken, rfl⟩
  · cases he
  · have htakes := takes_of_isEmpty hempty (key_of_nodeRow? hrow)
    have hsame : keeping.write u row = row := overwrite_of_isEmpty hempty row
    exact ⟨⟨row, hrow, not_both_of_takes htakes, hrow.trans (congrArg some hsame.symm), hreads⟩,
      fun _ _ => rfl, rfl, rfl⟩
  · obtain ⟨row, hmem, htakes⟩ := taken
    have hrow : db.nodeRow? id = some row :=
      keyed.nodeRow?_eq hmem (of_decide_eq_true htakes).1
    refine ⟨⟨row, hrow, not_both_of_takes htakes, ?_, hreads⟩, fun j hj => ?_, rfl, rfl⟩
    · show (db.overwritten id u).nodeRow? id = _
      rw [nodeRow?_overwritten, hrow, Option.map_some, if_pos htakes]
    · show (db.overwritten id u).nodeRow? j = db.nodeRow? j
      rw [nodeRow?_overwritten]
      cases hother : db.nodeRow? j with
      | none => rfl
      | some row' =>
          have hleft : row'.takes id u = false := by
            simp [NodeRow.takes, key_of_nodeRow? hother, NodeId.text_inj, hj]
          rw [Option.map_some, if_neg (by rw [hleft]; exact Bool.false_ne_true)]

/-- Whether it issues a number or not, a counter moves alone. -/
theorem sameData_bumpGeneration (owner : String) (db : Database) :
    keeping.SameData db (bumpGeneration owner db).2 where
  entry? id := nodeRow?_bumpGeneration owner db id
  ideas := by
    rcases bumpGeneration_cases (Prod.eta (bumpGeneration owner db)).symm with
      ⟨-, -, h⟩ | ⟨_, -, -, h⟩ <;> rw [h]

end Database

end Ideas
