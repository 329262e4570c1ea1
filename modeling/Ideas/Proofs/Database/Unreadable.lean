/-
Rows that cannot be read, and what is made of them.

The tables take any text and any number in most of their columns, so that a row may hold
what is no node and no idea.  The flaws of a row are listed column by column, each with the
cause that is reported for it; a row is unreadable if it has a flaw, and what is reported is
one of those it has.

Of these causes only those that are found when a value is interpreted are faults of the data:
an id that is none, a count below zero, an energy that is no byte.  A list that is no JSON,
and a value of the wrong type, are reported as if the store could not be reached.  Whoever
meets one of these is told to try again, and will meet it again.  Nothing else that is stored
makes the store unavailable to those who read: a unification in particular never finds a node
forwarded that it has just read as pointing nowhere.
-/
import Ideas.Proofs.Database.Forwarding
import Ideas.Proofs.Request

namespace Ideas

open NodeStore

namespace Database

variable {db db' : Database} {cause : StoreError}

/-! ### The flaws of a row -/

/-- A cell that holds no count. -/
inductive Cell.Flaw (c : Cell) : StoreError → Prop
  | type (h : ∀ n, c ≠ .integer n) : Flaw c .mismatch
  | negative {n : Int} (h : c = .integer n) (hn : n < 0) :
      Flaw c (.invalidData (.negativeInteger n))

/-- A row that holds no node. -/
inductive NodeRow.Flaw (r : NodeRow) : StoreError → Prop
  | key (h : r.id = none) : Flaw r .mismatch
  | id {s : String} (h : r.id = some s) (unread : NodeId.read? s = none) :
      Flaw r (.invalidData (.badId s))
  | arcs (h : (Json.read? r.arcs).bind Arcs.ofJson? = none) : Flaw r .json
  | complement (h : (Json.read? r.complement).bind Arcs.ofJson? = none) : Flaw r .json
  | forward {s : String} (h : r.forward = some s) (unread : NodeId.read? s = none) :
      Flaw r (.invalidData (.badId s))
  | copy {s : String} (h : r.copy = some s) (unread : NodeId.read? s = none) :
      Flaw r (.invalidData (.badId s))
  | generation {e : StoreError} (h : r.generation.Flaw e) : Flaw r e

/-- A row that holds no idea. -/
inductive IdeaRow.Flaw (r : IdeaRow) : StoreError → Prop
  | key (h : r.id = none) : Flaw r .mismatch
  | id {s : String} (h : r.id = some s) (unread : NodeId.read? s = none) :
      Flaw r (.invalidData (.badId s))
  | energyType (h : ∀ n, r.energy ≠ .integer n) : Flaw r .mismatch
  | energy {n : Int} (h : r.energy = .integer n) (hn : n < 0 ∨ 255 < n) :
      Flaw r (.invalidData (.energyOutOfRange n))
  | archived (h : ∀ n, r.archived ≠ .integer n) : Flaw r .mismatch
  | tags (h : (Json.read? r.tags).bind (Json.list? Json.string?) = none) : Flaw r .json

theorem readKey_eq_error {key : Option String} (h : readKey key = .error cause) :
    key = none ∧ cause = .mismatch := by
  cases key with
  | none => exact ⟨rfl, (Except.error.inj h).symm⟩
  | some s => cases h

theorem readKey_eq_ok {key : Option String} {s : String} (h : readKey key = .ok s) :
    key = some s := by
  cases key with
  | none => cases h
  | some s' => exact congrArg some (Except.ok.inj h)

theorem readId_eq_error {s : String} (h : readId s = .error cause) :
    NodeId.read? s = none ∧ cause = .invalidData (.badId s) := by
  rw [readId] at h
  split at h
  · cases h
  · next hread => exact ⟨hread, (Except.error.inj h).symm⟩

theorem readOptionalId_eq_error {column : Option String}
    (h : readOptionalId column = .error cause) :
    ∃ s, column = some s ∧ NodeId.read? s = none ∧ cause = .invalidData (.badId s) := by
  cases column with
  | none => cases h
  | some s => exact ⟨s, rfl, readId_eq_error (eq_error_of_map h)⟩

theorem Cell.toInteger_eq_error {c : Cell} (h : c.toInteger = .error cause) :
    (∀ n, c ≠ .integer n) ∧ cause = .mismatch := by
  cases c with
  | integer n => cases h
  | real x =>
      refine ⟨fun n hn => ?_, (Except.error.inj h).symm⟩
      cases hn
  | text s =>
      refine ⟨fun n hn => ?_, (Except.error.inj h).symm⟩
      cases hn

theorem Cell.eq_of_toInteger {c : Cell} {n : Int} (h : c.toInteger = .ok n) : c = .integer n := by
  cases c with
  | integer m => exact congrArg _ (Except.ok.inj h)
  | real x => cases h
  | text s => cases h

theorem Cell.flaw_of_toCount {c : Cell} {n : Int} (hc : c = .integer n)
    (h : toCount n = .error cause) : c.Flaw cause := by
  rw [toCount] at h
  split at h
  · cases h
  · next hn =>
      cases h
      exact .negative hc (Int.not_le.mp hn)

/-- A counter that issues nothing is flawed. -/
theorem Cell.flaw_of_issued {c : Cell} (h : issued c = .error cause) : c.Flaw cause := by
  rcases bind_eq_error_iff.mp h with h | ⟨n, hn, h⟩
  · obtain ⟨hc, rfl⟩ := Cell.toInteger_eq_error h
    exact .type hc
  · exact Cell.flaw_of_toCount (Cell.eq_of_toInteger hn) h

/-- What is reported of a row of a node is a flaw of it. -/
theorem NodeRow.flaw_of_toNode {r : NodeRow} (h : r.toNode = .error cause) : r.Flaw cause := by
  rw [toNode] at h
  rcases bind_eq_error_iff.mp h with h | ⟨key, hkey, h⟩
  · obtain ⟨hkey, rfl⟩ := readKey_eq_error h
    exact .key hkey
  rcases bind_eq_error_iff.mp h with h | ⟨g, hg, h⟩
  · obtain ⟨hg, rfl⟩ := Cell.toInteger_eq_error h
    exact .generation (.type hg)
  rcases bind_eq_error_iff.mp h with h | ⟨id, -, h⟩
  · obtain ⟨hread, rfl⟩ := readId_eq_error h
    exact .id (readKey_eq_ok hkey) hread
  rcases bind_eq_error_iff.mp h with h | ⟨arcs, -, h⟩
  · obtain ⟨hread, rfl⟩ := readJson_eq_error_iff.mp h
    exact .arcs hread
  rcases bind_eq_error_iff.mp h with h | ⟨complement, -, h⟩
  · obtain ⟨hread, rfl⟩ := readJson_eq_error_iff.mp h
    exact .complement hread
  rcases bind_eq_error_iff.mp h with h | ⟨forward, -, h⟩
  · obtain ⟨s, hs, hread, rfl⟩ := readOptionalId_eq_error h
    exact .forward hs hread
  rcases bind_eq_error_iff.mp h with h | ⟨copy, -, h⟩
  · obtain ⟨s, hs, hread, rfl⟩ := readOptionalId_eq_error h
    exact .copy hs hread
  rcases bind_eq_error_iff.mp h with h | ⟨count, -, h⟩
  · exact .generation (Cell.flaw_of_toCount (Cell.eq_of_toInteger hg) h)
  · cases h

theorem readId_ne_ok {s : String} (h : NodeId.read? s = none) (id : NodeId) :
    readId s ≠ .ok id := by
  rw [readId, h]
  intro hread
  cases hread

theorem readOptionalId_ne_ok {s : String} (h : NodeId.read? s = none) (id : Option NodeId) :
    readOptionalId (some s) ≠ .ok id := by
  intro hread
  obtain ⟨id', hid, -⟩ := eq_ok_of_map hread
  exact readId_ne_ok h id' hid

theorem readJson_ne_ok {α : Type} {decode : Json → Option α} {s : String}
    (h : (Json.read? s).bind decode = none) (a : α) : readJson decode s ≠ .ok a := by
  rw [readJson, h]
  intro hread
  cases hread

/-- A row with a flaw holds no node. -/
theorem NodeRow.Flaw.not_holds {r : NodeRow} (h : r.Flaw cause) (n : Node) : ¬ r.Holds n := by
  intro holds
  obtain ⟨key, hkey, hid⟩ := holds.id
  obtain ⟨g, hg, hcount⟩ := holds.generation
  cases h with
  | key h => cases hkey.symm.trans h
  | id h unread =>
      cases hkey.symm.trans h
      exact readId_ne_ok unread _ hid
  | arcs h => exact readJson_ne_ok h _ holds.arcs
  | complement h => exact readJson_ne_ok h _ holds.complement
  | forward h unread => exact readOptionalId_ne_ok unread _ (h ▸ holds.forward)
  | copy h unread => exact readOptionalId_ne_ok unread _ (h ▸ holds.copy)
  | generation h =>
      cases h with
      | type h => exact h g hg
      | negative h hn =>
          cases hg.symm.trans h
          rw [toCount, if_neg (Int.not_le.mpr hn)] at hcount
          cases hcount

/-- A row of a node is unreadable if it has a flaw. -/
theorem NodeRow.toNode_fails_iff {r : NodeRow} :
    (∃ e, r.toNode = .error e) ↔ ∃ e, r.Flaw e := by
  constructor
  · rintro ⟨e, h⟩
    exact ⟨e, flaw_of_toNode h⟩
  · rintro ⟨e, h⟩
    cases hread : r.toNode with
    | error e' => exact ⟨e', rfl⟩
    | ok n => exact absurd (toNode_eq_ok_iff.mp hread) (h.not_holds n)

theorem Cell.toBool_eq_error {c : Cell} (h : c.toBool = .error cause) :
    (∀ n, c ≠ .integer n) ∧ cause = .mismatch :=
  toInteger_eq_error (eq_error_of_map h)

theorem Cell.eq_of_toBool {c : Cell} {b : Bool} (h : c.toBool = .ok b) :
    ∃ n, c = .integer n := by
  obtain ⟨n, hread, -⟩ := eq_ok_of_map h
  exact ⟨n, eq_of_toInteger hread⟩

theorem IdeaRow.flaw_of_columns {r : IdeaRow} (h : r.columns = .error cause) :
    r.Flaw cause := by
  rw [columns] at h
  rcases bind_eq_error_iff.mp h with h | ⟨key, -, h⟩
  · obtain ⟨hkey, rfl⟩ := readKey_eq_error h
    exact .key hkey
  rcases bind_eq_error_iff.mp h with h | ⟨energy, -, h⟩
  · obtain ⟨henergy, rfl⟩ := Cell.toInteger_eq_error h
    exact .energyType henergy
  rcases bind_eq_error_iff.mp h with h | ⟨archived, -, h⟩
  · obtain ⟨harchived, rfl⟩ := Cell.toBool_eq_error h
    exact .archived harchived
  · cases h

theorem IdeaRow.eq_of_columns {r : IdeaRow} {c : Columns} (h : r.columns = .ok c) :
    r.id = some c.id ∧ r.energy = .integer c.energy ∧ ∃ n, r.archived = .integer n := by
  rw [columns] at h
  obtain ⟨key, hkey, h⟩ := bind_eq_ok_iff.mp h
  obtain ⟨energy, henergy, h⟩ := bind_eq_ok_iff.mp h
  obtain ⟨archived, harchived, h⟩ := bind_eq_ok_iff.mp h
  cases h
  exact ⟨readKey_eq_ok hkey, Cell.eq_of_toInteger henergy, Cell.eq_of_toBool harchived⟩

theorem IdeaRow.flaw_of_ofColumns {r : IdeaRow} {c : Columns} (hc : r.columns = .ok c)
    (h : r.ofColumns c = .error cause) : r.Flaw cause := by
  obtain ⟨hkey, henergy, -⟩ := eq_of_columns hc
  rw [ofColumns] at h
  by_cases hrange : c.energy < 0 ∨ 255 < c.energy
  · rw [if_pos hrange] at h
    cases h
    exact .energy henergy hrange
  rw [if_neg hrange] at h
  rcases bind_eq_error_iff.mp h with h | ⟨id, -, h⟩
  · obtain ⟨hread, rfl⟩ := readId_eq_error h
    exact .id hkey hread
  rcases bind_eq_error_iff.mp h with h | ⟨tags, -, h⟩
  · obtain ⟨hread, rfl⟩ := readJson_eq_error_iff.mp h
    exact .tags hread
  · cases h

/-- What is reported of a row of an idea is a flaw of it. -/
theorem IdeaRow.flaw_of_toIdea {r : IdeaRow} (h : r.toIdea = .error cause) : r.Flaw cause := by
  rcases bind_eq_error_iff.mp h with h | ⟨c, hc, h⟩
  · exact flaw_of_columns h
  · exact flaw_of_ofColumns hc h

/-- A row with a flaw holds no idea. -/
theorem IdeaRow.Flaw.toIdea_ne_ok {r : IdeaRow} (h : r.Flaw cause) (i : Idea) :
    r.toIdea ≠ .ok i := by
  intro hread
  obtain ⟨c, hc, hread⟩ := bind_eq_ok_iff.mp hread
  obtain ⟨hkey, henergy, n, harchived⟩ := eq_of_columns hc
  rw [ofColumns] at hread
  by_cases hrange : c.energy < 0 ∨ 255 < c.energy
  · rw [if_pos hrange] at hread
    cases hread
  rw [if_neg hrange] at hread
  obtain ⟨id, hid, hread⟩ := bind_eq_ok_iff.mp hread
  obtain ⟨tags, htags, -⟩ := bind_eq_ok_iff.mp hread
  cases h with
  | key h => cases hkey.symm.trans h
  | id h unread =>
      cases hkey.symm.trans h
      exact readId_ne_ok unread _ hid
  | energyType h => exact h _ henergy
  | energy h hn =>
      cases henergy.symm.trans h
      exact hrange hn
  | archived h => exact h n harchived
  | tags h => exact readJson_ne_ok h _ htags

/-- A row of an idea is unreadable if it has a flaw. -/
theorem IdeaRow.toIdea_fails_iff {r : IdeaRow} :
    (∃ e, r.toIdea = .error e) ↔ ∃ e, r.Flaw e := by
  constructor
  · rintro ⟨e, h⟩
    exact ⟨e, flaw_of_toIdea h⟩
  · rintro ⟨e, h⟩
    cases hread : r.toIdea with
    | error e' => exact ⟨e', rfl⟩
    | ok i => exact absurd hread (h.toIdea_ne_ok i)

/-! ### Databases with flawed rows -/

/-- A row is stored that cannot be read for this cause. -/
inductive Unreadable (db : Database) (cause : StoreError) : Prop
  | node {r : NodeRow} (stored : r ∈ db.nodes.toList) (h : r.Flaw cause)
  | idea {r : IdeaRow} (stored : r ∈ db.ideas.toList) (h : r.Flaw cause)
  | counter {r : GenerationRow} (stored : r ∈ db.generations.toList) (h : r.value.Flaw cause)

theorem Cell.Flaw.cases {c : Cell} (h : c.Flaw cause) :
    cause = .mismatch ∨ cause = .json ∨ cause.isIntegrity = true := by
  cases h with
  | type => exact Or.inl rfl
  | negative => exact Or.inr (Or.inr rfl)

theorem NodeRow.Flaw.cases {r : NodeRow} (h : r.Flaw cause) :
    cause = .mismatch ∨ cause = .json ∨ cause.isIntegrity = true := by
  cases h with
  | key => exact Or.inl rfl
  | arcs | complement => exact Or.inr (Or.inl rfl)
  | id | forward | copy => exact Or.inr (Or.inr rfl)
  | generation h => exact h.cases

theorem IdeaRow.Flaw.cases {r : IdeaRow} (h : r.Flaw cause) :
    cause = .mismatch ∨ cause = .json ∨ cause.isIntegrity = true := by
  cases h with
  | key | energyType | archived => exact Or.inl rfl
  | tags => exact Or.inr (Or.inl rfl)
  | id | energy => exact Or.inr (Or.inr rfl)

/-- Some unreadable rows are faults of the data, and the others are of two kinds. -/
theorem Unreadable.cases (h : db.Unreadable cause) :
    cause = .mismatch ∨ cause = .json ∨ cause.isIntegrity = true := by
  cases h with
  | node _ h => exact h.cases
  | idea _ h => exact h.cases
  | counter _ h => exact h.cases

/-! ### Calls that meet such rows -/

/-- How a call may fail that reads rows: by itself, over a row, or because data are refused. -/
def FailsOver (refused : Prop) (e : EngineError) (db : Database) : Prop :=
  e.Structural ∨ ∃ cause, e = .ofStore cause ∧
    (db.Unreadable cause ∨ refused ∧ cause.isIntegrity = true)

/-- What is read of a database is of that database. -/
def reading (db : Database) : Regime Database where
  holds s := s = db
  sees := Sees
  allows e s := s = db ∧ FailsOver False e s

/-- A database is written to, and may refuse data. -/
def writing : Regime Database where
  holds _ := True
  sees := Sees
  allows e s := FailsOver True e s

/-- A request to read a node fails over the row of that node. -/
theorem unreadable_of_get {id : NodeId} {e : EngineError}
    (h : (get id : Action Database _) db = (.error e, db')) :
    db' = db ∧ ∃ cause, db.Unreadable cause ∧ e = .ofStore cause := by
  obtain ⟨rfl, ⟨-, he⟩ | ⟨n, he, -⟩ | ⟨row, cause, hrow, hread, he⟩⟩ := get_cases h
  · cases he
  · cases he
  · exact ⟨rfl, cause, .node (List.mem_of_find?_eq_some hrow) (NodeRow.flaw_of_toNode hread),
      Except.error.inj he⟩

theorem readable_reading (db : Database) : (reading db).Readable := by
  refine readable rfl (fun he hs => ⟨hs, Or.inl he⟩) fun hs hget => ⟨hs, ?_⟩
  obtain ⟨-, cause, hrow, he⟩ := unreadable_of_get hget
  exact Or.inr ⟨cause, he, Or.inl hrow⟩

/-- Counting fails over the row of the counter that it leaves. -/
theorem unreadable_of_bumpGeneration {owner : String}
    (h : bumpGeneration owner db = (.error cause, db')) : db'.Unreadable cause := by
  rcases bumpGeneration_cases h with ⟨-, he, -⟩ | ⟨row, hrow, he, rfl⟩
  · cases he
  · refine .counter (r := { row with value := row.value.next }) ?_
      (Cell.flaw_of_issued he.symm)
    show _ ∈ (db.generations.modify _ _).toList
    rw [Rows.toList_modify]
    refine List.mem_map.mpr ⟨row, List.mem_of_find?_eq_some hrow, ?_⟩
    rw [if_pos (List.find?_some hrow)]

theorem readable_writing : writing.Readable := by
  refine readable rfl (fun he _ => Or.inl he) fun _ hget => ?_
  obtain ⟨-, cause, hrow, he⟩ := unreadable_of_get hget
  exact Or.inr ⟨cause, he, Or.inl hrow⟩

theorem lawful_writing : writing.Lawful where
  toReadable := readable_writing
  forward n k arcs hn _ _ := by
    rintro s - ⟨hsees, -⟩
    rcases hrun : forwardRequests n k.id arcs s with ⟨e | g, s'⟩
    -- The row of a node that was just read as pointing nowhere is there and takes the reference.
    · rcases forwardRequests_cases hsees hn hrun with
        ⟨cause, hbump, he⟩ | ⟨_, _, -, ⟨cause, he, hrefused, -⟩ | ⟨he, -⟩⟩ <;> cases he
      · exact Or.inr ⟨cause, rfl, Or.inl (unreadable_of_bumpGeneration hbump)⟩
      · exact Or.inr ⟨cause, rfl, Or.inr ⟨trivial, hrefused⟩⟩
    · exact ⟨trivial, trivial⟩
  create n _ := by
    rintro s - -
    rcases hrun : (create n : Action Database Unit) s with ⟨e | _, s'⟩
    · obtain ⟨cause, hsave, rfl⟩ := toAction_error hrun
      rcases saveNode_cases hsave with ⟨_, he, hrefused, -⟩ | ⟨-, -, he, -⟩ <;> cases he
      exact Or.inr ⟨cause, rfl, Or.inr ⟨trivial, hrefused⟩⟩
    · exact ⟨trivial, trivial⟩
  point id copy := by
    rintro s - -
    rcases hrun : (update id { copy := some copy } : Action Database Unit) s with ⟨e | _, s'⟩
    · rcases point_cases hrun with ⟨-, he | ⟨cause, he, hrefused⟩⟩ | ⟨he, -⟩ <;> cases he
      · exact Or.inl (.nodeNotFound id)
      · exact Or.inr ⟨cause, rfl, Or.inr ⟨trivial, hrefused⟩⟩
    · exact ⟨trivial, trivial⟩

/-! ### Rows of ideas -/

/-- A request to read an idea fails over the row of that idea. -/
theorem unreadable_of_getIdea {id : NodeId} {e : EngineError}
    (h : (getIdea id : Action Database _) db = (.error e, db')) :
    db' = db ∧ ∃ cause, db.Unreadable cause ∧ e = .ofStore cause := by
  cases hrow : db.ideaRow? id with
  | none => cases (getIdea_of_no_row hrow).symm.trans h
  | some row =>
      obtain ⟨hread, rfl⟩ := Prod.mk.inj ((getIdea_of_row hrow).symm.trans h)
      refine ⟨rfl, ?_⟩
      cases hidea : row.toIdea with
      | ok i =>
          rw [hidea] at hread
          cases hread
      | error cause =>
          rw [hidea] at hread
          exact ⟨cause, .idea (List.mem_of_find?_eq_some hrow) (IdeaRow.flaw_of_toIdea hidea),
            (Except.error.inj hread).symm⟩

/-- A request to list ideas fails over one of their rows. -/
theorem unreadable_of_listActive {owner : String} {e : EngineError}
    (h : (listActive owner : Action Database _) db = (.error e, db')) :
    db' = db ∧ ∃ cause, db.Unreadable cause ∧ e = .ofStore cause := by
  obtain ⟨cause, hlist, rfl⟩ := toAction_error h
  obtain ⟨hlist, rfl⟩ := ask_cases hlist
  refine ⟨rfl, cause, ?_, rfl⟩
  rcases bind_eq_error_iff.mp hlist with hlist | ⟨checked, hchecked, hlist⟩
  · obtain ⟨row, hrow, hcolumns⟩ := mem_of_mapM_eq_error hlist
    exact .idea (List.mem_of_mem_filter hrow) (IdeaRow.flaw_of_columns (eq_error_of_map hcolumns))
  · obtain ⟨⟨row, c⟩, hmem, hidea⟩ := mem_of_mapM_eq_error hlist
    obtain ⟨row', hrow, hcolumns⟩ := mem_of_mapM_eq_ok hchecked hmem
    obtain ⟨_, hread, hsame⟩ := eq_ok_of_map hcolumns
    cases hsame
    exact .idea (List.mem_of_mem_filter hrow) (IdeaRow.flaw_of_ofColumns hread hidea)

/-! ### All calls that read rows -/

end Database

/-- The calls that read rows and write nothing. -/
inductive Request.OnlyReads : Request → Prop
  | get (id : NodeId) : OnlyReads (.get id)
  | require (id : NodeId) : OnlyReads (.require id)
  | getIdea (id : NodeId) : OnlyReads (.getIdea id)
  | listActive (owner : String) : OnlyReads (.listActive owner)
  | dereference (id : NodeId) : OnlyReads (.dereference id)
  | forwardChain (id : NodeId) : OnlyReads (.forwardChain id)

/-- The calls that read rows and write what they make of them. -/
inductive Request.Merges : Request → Prop
  | unifyCore (a b : NodeId) : Merges (.unifyCore a b)
  | unify (fresh a b : NodeId) : Merges (.unify fresh a b)
  | materialize (fresh id : NodeId) : Merges (.materialize fresh id)

namespace Database

variable {db db' : Database} {r : Request} {e : EngineError}

theorem failsOver_of_onlyReads (hr : r.OnlyReads) (h : r.run db = (.error e, db')) :
    db' = db ∧ FailsOver False e db := by
  have hrow {e : EngineError}
      (hfails : db' = db ∧ ∃ cause, db.Unreadable cause ∧ e = .ofStore cause) :
      db' = db ∧ FailsOver False e db := by
    obtain ⟨hsame, cause, hcause, he⟩ := hfails
    exact ⟨hsame, Or.inr ⟨cause, he, Or.inl hcause⟩⟩
  have hwalk {α : Type} {act : Action Database α} {post : α → Database → Prop}
      (hact : (reading db).Reads (fun s => s) (fun _ => True) act post)
      (h : act db = (.error e, db')) : db' = db ∧ FailsOver False e db := by
    have hends := hact db rfl trivial
    rw [h] at hends
    obtain ⟨rfl, hfails⟩ := hends
    exact ⟨rfl, hfails⟩
  have readable := readable_reading db
  cases hr with
  | get id => exact hrow (unreadable_of_get h)
  | require id => exact hwalk (readable.require id) h
  | getIdea id => exact hrow (unreadable_of_getIdea h)
  | listActive owner => exact hrow (unreadable_of_listActive h)
  | dereference id => exact hwalk (readable.dereference id) h
  | forwardChain id => exact hwalk (readable.forwardChain id) h

theorem failsOver_of_merges (hr : r.Merges) (h : r.run db = (.error e, db')) :
    FailsOver True e db' := by
  have hcall {α : Type} {act : Action Database α}
      (hact : writing.Keeps (fun s => s) (fun _ => True) act)
      (h : act db = (.error e, db')) : FailsOver True e db' := by
    have hends := hact db trivial trivial
    rw [h] at hends
    exact hends
  cases hr with
  | unifyCore a b => exact hcall (lawful_writing.unifyCore a b) h
  | unify fresh a b => exact hcall (lawful_writing.unify fresh a b) h
  | materialize fresh id => exact hcall (lawful_writing.materialize fresh id) h

theorem isRetryable_ofStore : (EngineError.ofStore cause).isRetryable = !cause.isIntegrity := by
  rw [EngineError.ofStore]
  cases cause.isIntegrity <;> rfl

/-- Trying again is advised over rows of two kinds, and over nothing else. -/
theorem FailsOver.isRetryable_iff {refused : Prop} (h : FailsOver refused e db) :
    e.isRetryable = true ↔ ∃ cause, e = .ofStore cause ∧ db.Unreadable cause ∧
      (cause = .mismatch ∨ cause = .json) := by
  constructor
  · intro hretry
    rcases h with hself | ⟨cause, rfl, hcause⟩
    · cases hself <;> cases hretry
    rw [isRetryable_ofStore, Bool.not_eq_true'] at hretry
    rcases hcause with hrow | ⟨-, hintegrity⟩
    · refine ⟨cause, rfl, hrow, ?_⟩
      rcases hrow.cases with h | h | hintegrity
      · exact Or.inl h
      · exact Or.inr h
      · cases hretry.symm.trans hintegrity
    · cases hretry.symm.trans hintegrity
  · rintro ⟨cause, rfl, -, rfl | rfl⟩ <;> rfl

/-- What is read from a row fails with a flaw of it. -/
theorem fails_with_flaw {α : Type} {x : Except StoreError α} {flaw : StoreError → Prop}
    (hiff : (∃ e, x = .error e) ↔ ∃ cause, flaw cause) (hflaw : ∀ {e}, x = .error e → flaw e) :
    ((∃ e, (x.map some).mapError EngineError.ofStore = .error e) ↔ ∃ cause, flaw cause) ∧
      ∀ e, (x.map some).mapError EngineError.ofStore = .error e →
        ∃ cause, flaw cause ∧ e = .ofStore cause := by
  rw [← hiff]
  cases x with
  | ok a =>
      refine ⟨iff_of_false ?_ ?_, fun e he => ?_⟩
      · rintro ⟨_, h⟩
        cases h
      · rintro ⟨_, h⟩
        cases h
      · cases he
  | error cause =>
      refine ⟨iff_of_true ⟨_, rfl⟩ ⟨_, rfl⟩, fun e he => ⟨cause, hflaw rfl, ?_⟩⟩
      exact (Except.error.inj he).symm

/-- What is made of rows that cannot be read.  A request for a node or an idea fails if its row has
a flaw, and reports one of the flaws the row has; a call that only reads changes nothing, and
fails by itself or over a row; and a call that unifies nodes or makes a merged view fails by
itself, over a row, or because what it would write is refused.  Of all these failures just those
are worth a second try that are owed to a row with a value of the wrong type or with a text that
is not the JSON it should be.  The others are integrity errors, unless the call fails by
itself. -/
theorem unreadable_rows (db : Database) :
    (∀ id row, db.nodeRow? id = some row →
      ((∃ e, (get id db).1 = .error e) ↔ ∃ cause, row.Flaw cause) ∧
        ∀ e, (get id db).1 = .error e → ∃ cause, row.Flaw cause ∧ e = .ofStore cause) ∧
    (∀ id row, db.ideaRow? id = some row →
      ((∃ e, (getIdea id db).1 = .error e) ↔ ∃ cause, row.Flaw cause) ∧
        ∀ e, (getIdea id db).1 = .error e → ∃ cause, row.Flaw cause ∧ e = .ofStore cause) ∧
    ∀ (r : Request) (e : EngineError) (db' : Database), r.run db = (.error e, db') →
      (r.OnlyReads → db' = db ∧ FailsOver False e db') ∧ (r.Merges → FailsOver True e db') ∧
        (r.OnlyReads ∨ r.Merges → (e.isRetryable = true ↔ ∃ cause, e = .ofStore cause ∧
          db'.Unreadable cause ∧ (cause = .mismatch ∨ cause = .json))) := by
  refine ⟨fun id row hrow => ?_, fun id row hrow => ?_, fun r e db' h => ⟨?_, ?_, ?_⟩⟩
  · rw [get_eq, hrow]
    exact fails_with_flaw NodeRow.toNode_fails_iff NodeRow.flaw_of_toNode
  · rw [getIdea_of_row hrow]
    exact fails_with_flaw IdeaRow.toIdea_fails_iff IdeaRow.flaw_of_toIdea
  · intro hr
    obtain ⟨rfl, hfails⟩ := failsOver_of_onlyReads hr h
    exact ⟨rfl, hfails⟩
  · exact fun hr => failsOver_of_merges hr h
  · rintro (hr | hr)
    · obtain ⟨rfl, hfails⟩ := failsOver_of_onlyReads hr h
      exact hfails.isRetryable_iff
    · exact (failsOver_of_merges hr h).isRetryable_iff

/-- The row of a node whose arcs were overwritten with a text that is no JSON. -/
def bracketRow : NodeRow :=
  { NodeRow.holding (.complex ⟨1⟩ "ann" [⟨"x", .text "y"⟩]) with arcs := "[" }

/-- A database that holds that row. -/
def bracket : Database :=
  { fresh with nodes := fresh.nodes.insert bracketRow }

/-- Whoever reads the node or unifies it is told to try again. -/
theorem unreadable_rows_bracket :
    let e := EngineError.storeUnavailable .json
    bracket.nodeRow? ⟨1⟩ = some bracketRow ∧ (get ⟨1⟩ bracket).1 = .error e ∧
      (∃ cause, bracketRow.Flaw cause ∧ e = .ofStore cause) ∧
      ∃ db', (Request.unify ⟨9⟩ ⟨1⟩ ⟨2⟩).run bracket = (.error e, db') ∧ FailsOver True e db' ∧
        ∃ cause, e = .ofStore cause ∧ db'.Unreadable cause ∧
          (cause = .mismatch ∨ cause = .json) := by
  obtain ⟨hnode, -, hcall⟩ := unreadable_rows bracket
  have hrow : bracket.nodeRow? ⟨1⟩ = some bracketRow := by rfl
  have hget : (get ⟨1⟩ bracket).1 = .error (.storeUnavailable .json) := by rfl
  have hrun : (Request.unify ⟨9⟩ ⟨1⟩ ⟨2⟩).run bracket
      = (.error (.storeUnavailable .json), ((Request.unify ⟨9⟩ ⟨1⟩ ⟨2⟩).run bracket).2) := by rfl
  obtain ⟨-, hmerges, hretry⟩ := hcall _ _ _ hrun
  refine ⟨hrow, hget, (hnode _ _ hrow).2 _ hget, _, hrun, hmerges (.unify _ _ _), ?_⟩
  exact (hretry (Or.inr (.unify _ _ _))).mp rfl

/-- Not every row that cannot be read is an integrity error. -/
theorem unreadable_row_retried :
    ¬ ∀ (db : Database) (id : NodeId) (row : NodeRow) (cause : StoreError),
      db.nodeRow? id = some row → row.toNode = .error cause →
        ∃ e, (get id db).1 = .error e ∧ (∃ breach, e = .integrity breach) ∧
          e.isRetryable = false := by
  intro hterminal
  have hrow : bracket.nodeRow? ⟨1⟩ = some bracketRow := by rfl
  have hread : bracketRow.toNode = .error .json := by rfl
  have hget : (get ⟨1⟩ bracket).1 = .error (.storeUnavailable .json) := by rfl
  obtain ⟨e, he, ⟨breach, rfl⟩, -⟩ := hterminal bracket ⟨1⟩ bracketRow .json hrow hread
  cases hget.symm.trans he

end Database

end Ideas
