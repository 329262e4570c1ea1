/-
What the statements do to the tables, whatever these hold.

Rows may have been edited by hand, so that they stand in other places, hold what nobody wrote
or have no key.  A new row is found all the same, and it hides no other one, for its key is
new wherever it is put (`Rows.find?_insert`).  Each query is told by its cases: what it
answers or fails with, and which rows are there afterwards.
-/
import Ideas.Proofs.Database.Transaction

namespace Ideas

open NodeStore

namespace Database

/-! ### Attempts in several parts -/

/-- An attempt in two parts succeeds if both do. -/
theorem bind_eq_ok_iff {ε α β : Type} {x : Except ε α} {f : α → Except ε β} {b : β} :
    x >>= f = .ok b ↔ ∃ a, x = .ok a ∧ f a = .ok b := by
  cases x with
  | error e =>
      constructor
      · intro h
        cases h
      · rintro ⟨_, h, -⟩
        cases h
  | ok a =>
      constructor
      · exact fun h => ⟨a, rfl, h⟩
      · rintro ⟨_, ha, h⟩
        cases ha
        exact h

/-- An attempt in two parts fails with one of them. -/
theorem bind_eq_error_iff {ε α β : Type} {x : Except ε α} {f : α → Except ε β} {e : ε} :
    x >>= f = .error e ↔ x = .error e ∨ ∃ a, x = .ok a ∧ f a = .error e := by
  cases x with
  | error e' =>
      constructor
      · intro h
        exact Or.inl (Except.error.inj h ▸ rfl)
      · rintro (h | ⟨_, h, -⟩)
        · exact Except.error.inj h ▸ rfl
        · cases h
  | ok a =>
      constructor
      · exact fun h => Or.inr ⟨a, rfl, h⟩
      · rintro (h | ⟨_, ha, h⟩)
        · cases h
        · exact Except.ok.inj ha ▸ h

theorem eq_error_of_map {ε α β : Type} {x : Except ε α} {f : α → β} {e : ε}
    (h : x.map f = .error e) : x = .error e := by
  cases x with
  | error e' => exact congrArg _ (Except.error.inj h)
  | ok a => cases h

theorem eq_ok_of_map {ε α β : Type} {x : Except ε α} {f : α → β} {b : β} (h : x.map f = .ok b) :
    ∃ a, x = .ok a ∧ f a = b := by
  cases x with
  | error e => cases h
  | ok a => exact ⟨a, rfl, Except.ok.inj h⟩

/-- An attempt for each item fails with one of them. -/
theorem mem_of_mapM_eq_error {ε α β : Type} {f : α → Except ε β} {l : List α} {e : ε}
    (h : l.mapM f = .error e) : ∃ a ∈ l, f a = .error e := by
  induction l with
  | nil => cases h
  | cons a rest ih =>
      rw [List.mapM_cons] at h
      rcases bind_eq_error_iff.mp h with h | ⟨b, -, h⟩
      · exact ⟨a, List.mem_cons_self, h⟩
      rcases bind_eq_error_iff.mp h with h | ⟨bs, -, h⟩
      · obtain ⟨a', ha', he⟩ := ih h
        exact ⟨a', List.mem_cons_of_mem a ha', he⟩
      · cases h

/-- What comes of an attempt for each item comes of one of them. -/
theorem mem_of_mapM_eq_ok {ε α β : Type} {f : α → Except ε β} {l : List α} {bs : List β}
    (h : l.mapM f = .ok bs) {b : β} (hb : b ∈ bs) : ∃ a ∈ l, f a = .ok b := by
  induction l generalizing bs with
  | nil =>
      cases h
      cases hb
  | cons a rest ih =>
      rw [List.mapM_cons] at h
      obtain ⟨b', hb', h⟩ := bind_eq_ok_iff.mp h
      obtain ⟨bs', hbs', h⟩ := bind_eq_ok_iff.mp h
      cases h
      rcases List.mem_cons.mp hb with rfl | hb
      · exact ⟨a, List.mem_cons_self, hb'⟩
      · obtain ⟨a', ha', hf⟩ := ih hbs' hb
        exact ⟨a', List.mem_cons_of_mem a ha', hf⟩

/-! ### Finding rows again -/

namespace Rows

variable {ρ : Type} {t : Rows ρ} {r : ρ} {p fits : ρ → Bool}

/-- Wherever a new row is put, the others stay in their order. -/
theorem exists_toList_insert (t : Rows ρ) (r : ρ) :
    ∃ front rest, t.toList = front ++ rest ∧ (t.insert r).toList = front ++ r :: rest := by
  rw [insert]
  split
  · refine ⟨(t.placed.takeWhile fun p => p.place.le t.drawnPlace).map Placed.row,
      (t.placed.dropWhile fun p => p.place.le t.drawnPlace).map Placed.row, ?_, ?_⟩
    · rw [← List.map_append, List.takeWhile_append_dropWhile, toList]
    · rw [put, toList, List.map_append, List.map_cons]
  · exact ⟨t.toList, [], (List.append_nil _).symm, toList_push ..⟩

/-- A new row is found if no other row is, and otherwise what was found before. -/
theorem find?_insert (h : p r = true → t.toList.find? p = none) :
    (t.insert r).toList.find? p = if p r then some r else t.toList.find? p := by
  obtain ⟨front, rest, hlist, hinsert⟩ := exists_toList_insert t r
  rw [hinsert, List.find?_append, List.find?_cons, hlist, List.find?_append]
  cases hr : p r with
  | false => rfl
  | true =>
      have hnone := h hr
      rw [hlist, List.find?_append, Option.or_eq_none_iff] at hnone
      rw [hnone.1, if_pos rfl]
      rfl

/-- A change that makes no difference to what is sought is found in its place. -/
theorem find?_modify {f : ρ → ρ} (h : ∀ r, p (f r) = p r) :
    (t.modify fits f).toList.find? p
      = (t.toList.find? p).map fun r => if fits r then f r else r := by
  have hsought : (p ∘ fun r => if fits r then f r else r) = p := by
    funext r
    rw [Function.comp]
    split
    · exact h r
    · rfl
  rw [toList_modify, List.find?_map, hsought]

/-- Where the rows that fit are what they would be changed to, none is changed. -/
theorem modify_eq_self {f : ρ → ρ} (h : ∀ r ∈ t.toList, fits r = true → f r = r) :
    t.modify fits f = t := by
  have hplaced : (t.placed.map fun p => if fits p.row then { p with row := f p.row } else p)
      = t.placed := by
    refine (List.map_congr_left fun p hp => ?_).trans (List.map_id _)
    split
    · next hfits => rw [h p.row (List.mem_map_of_mem hp) hfits, id]
    · rfl
  rw [modify, hplaced]

/-- Where no row fits, none is changed. -/
theorem modify_of_none {f : ρ → ρ} (h : ∀ r ∈ t.toList, fits r = false) : t.modify fits f = t :=
  modify_eq_self fun r hr hfits => by
    rw [h r hr] at hfits
    cases hfits

end Rows

variable {α : Type} {db db' : Database} {id : NodeId} {n : Node} {u : Update}

theorem ask_cases {f : Database → Except StoreError α} {r : Except StoreError α}
    (h : ask f db = (r, db')) : f db = r ∧ db' = db := by
  cases h
  exact ⟨rfl, rfl⟩

theorem statement_cases {f : Database → Except StoreError (α × Database)}
    {r : Except StoreError α} (h : statement f db = (r, db')) :
    (∃ e, f db = .error e ∧ r = .error e ∧ db' = db) ∨
      ∃ a, f db = .ok (a, db') ∧ r = .ok a := by
  rw [statement] at h
  cases hf : f db with
  | error e =>
      rw [hf] at h
      cases h
      exact Or.inl ⟨e, rfl, rfl, rfl⟩
  | ok result =>
      rw [hf] at h
      cases h
      exact Or.inr ⟨result.1, rfl, rfl⟩

/-! ### Queries as the graph sees them -/

theorem toAction_ok {q : Query α} {a : α} (h : q.toAction db = (.ok a, db')) :
    q db = (.ok a, db') := by
  rcases hq : q db with ⟨e | b, after⟩
  · cases (toAction_eq hq).symm.trans h
  · cases (toAction_eq hq).symm.trans h
    rfl

theorem toAction_error {q : Query α} {e : EngineError} (h : q.toAction db = (.error e, db')) :
    ∃ cause, q db = (.error cause, db') ∧ e = .ofStore cause := by
  rcases hq : q db with ⟨cause | b, after⟩
  · cases (toAction_eq hq).symm.trans h
    exact ⟨cause, rfl, rfl⟩
  · cases (toAction_eq hq).symm.trans h

theorem orNotFound_ok {q : Query Bool} (h : q.orNotFound id db = (.ok (), db')) :
    q db = (.ok true, db') := by
  rcases hq : q db with ⟨e | found, after⟩
  · cases (orNotFound_of_error hq).symm.trans h
  · have h := (orNotFound_of_ok hq).symm.trans h
    cases found <;> cases h
    rfl

theorem orNotFound_error {q : Query Bool} {e : EngineError}
    (h : q.orNotFound id db = (.error e, db')) :
    e = .nodeNotFound id ∧ q db = (.ok false, db') ∨
      ∃ cause, q db = (.error cause, db') ∧ e = .ofStore cause := by
  rcases hq : q db with ⟨cause | found, after⟩
  · cases (orNotFound_of_error hq).symm.trans h
    exact Or.inr ⟨cause, rfl, rfl⟩
  · have h := (orNotFound_of_ok hq).symm.trans h
    cases found <;> cases h
    exact Or.inl ⟨rfl, rfl⟩

/-- A node is read from the first row with its key. -/
theorem get_eq (db : Database) (id : NodeId) : (get id : Action Database _) db
    = ((match db.nodeRow? id with
        | none => .ok none
        | some r => (r.toNode.map some).mapError EngineError.ofStore), db) := by
  refine (toAction_eq (Prod.eta (loadNode id db)).symm).trans ?_
  rw [loadNode, ask]
  cases db.nodeRow? id <;> rfl

/-! ### The table of nodes -/

theorem nodeRow?_eq_none_iff :
    db.nodeRow? id = none ↔ some id.text ∉ db.nodes.toList.map NodeRow.id := by
  simp [nodeRow?]

theorem key_of_nodeRow? {r : NodeRow} (h : db.nodeRow? id = some r) : r.id = some id.text := by
  simpa using List.find?_some h

/-- A node is written if its generation fits, as the row that holds it. -/
theorem ofNode_eq_ok_iff {r : NodeRow} : NodeRow.ofNode n = .ok r ↔
    (n.generation : Int) ≤ Decimal.greatestInt64 ∧ r = .holding n := by
  rw [NodeRow.ofNode, ofCount]
  split
  · next hfits =>
      constructor
      · intro h
        cases h
        exact ⟨hfits, rfl⟩
      · rintro ⟨-, rfl⟩
        rfl
  · next hfits =>
      constructor
      · intro h
        cases h
      · exact fun h => absurd h.1 hfits

/-- A count that is refused is a fault of the data. -/
theorem isIntegrity_of_ofCount {g : Nat} {e : StoreError} (h : ofCount g = .error e) :
    e.isIntegrity = true := by
  rw [ofCount] at h
  split at h
  · cases h
  · cases h
    rfl

theorem isIntegrity_of_ofNode {e : StoreError} (h : NodeRow.ofNode n = .error e) :
    e.isIntegrity = true := by
  rw [NodeRow.ofNode] at h
  cases hcount : ofCount n.generation with
  | error _ =>
      rw [hcount] at h
      obtain rfl := Except.error.inj h
      exact isIntegrity_of_ofCount hcount
  | ok g =>
      rw [hcount] at h
      cases h

/-- Where a node is sought after a row was added with a new key. -/
theorem nodeRow?_insert {r : NodeRow} (hr : r.id = some n.id.text) (new : db.nodeRow? n.id = none)
    (id : NodeId) : ({ db with nodes := db.nodes.insert r } : Database).nodeRow? id
      = if id = n.id then some r else db.nodeRow? id := by
  have hkey : decide (r.id = some id.text) = decide (id = n.id) := by
    rw [hr]
    simp [NodeId.text_inj, eq_comm]
  have hfind := Rows.find?_insert (t := db.nodes) (r := r) (p := fun r => r.id = some id.text)
    fun h => by
      rw [hkey, decide_eq_true_eq] at h
      rw [h]
      exact new
  rw [nodeRow?, hfind, hkey, nodeRow?]
  simp only [decide_eq_true_eq]

/-- A node is stored under a key that is new, or the data are at fault and nothing is done. -/
theorem saveNode_cases {r : Except StoreError Unit} (h : saveNode n db = (r, db')) :
    (∃ cause, r = .error cause ∧ cause.isIntegrity = true ∧ db' = db) ∨
      (n.generation : Int) ≤ Decimal.greatestInt64 ∧ db.nodeRow? n.id = none ∧ r = .ok () ∧
        db' = { db with nodes := db.nodes.insert (.holding n) } := by
  rw [saveNode] at h
  rcases bind_cases h with ⟨e, hask, rfl⟩ | ⟨row, mid, hask, h⟩
  · obtain ⟨hrow, rfl⟩ := ask_cases hask
    exact Or.inl ⟨e, rfl, isIntegrity_of_ofNode hrow, rfl⟩
  obtain ⟨hrow, rfl⟩ := ask_cases hask
  obtain ⟨hfits, rfl⟩ := ofNode_eq_ok_iff.mp hrow
  rcases statement_cases h with ⟨e, hinsert, rfl, rfl⟩ | ⟨_, hinsert, rfl⟩
  · split at hinsert
    · cases hinsert
      exact Or.inl ⟨_, rfl, rfl, rfl⟩
    · cases hinsert
  · split at hinsert
    · cases hinsert
    · next hkey =>
        cases hinsert
        exact Or.inr ⟨hfits, nodeRow?_eq_none_iff.mpr fun hmem => hkey ⟨rfl, hmem⟩, rfl, rfl⟩

/-- A node whose generation fits is stored under a key that is new. -/
theorem saveNode_of_fits (new : db.nodeRow? n.id = none)
    (hfits : (n.generation : Int) ≤ Decimal.greatestInt64) :
    saveNode n db = (.ok (), { db with nodes := db.nodes.insert (.holding n) }) := by
  have hrow : (ask fun _ => NodeRow.ofNode n) db = (.ok (.holding n), db) :=
    congrArg (·, db) (ofNode_eq_ok_iff.mpr ⟨hfits, rfl⟩)
  rw [saveNode, bind_eq_of_ok hrow, insertNode, statement,
    if_neg fun h => nodeRow?_eq_none_iff.mp new h.2]

/-- Whether a row takes an update: it has the key, and no forward reference where the update has
one. -/
def NodeRow.takes (id : NodeId) (u : Update) (r : NodeRow) : Bool :=
  decide (r.id = some id.text ∧ (u.forward.isSome → r.forward.isNone))

/-- The rows that take an update, overwritten. -/
def overwritten (db : Database) (id : NodeId) (u : Update) : Database :=
  { db with
    nodes := db.nodes.modify (NodeRow.takes id u) (·.overwrite u (u.generation.map Int.ofNat)) }

theorem key_overwrite (r : NodeRow) (u : Update) (generation : Option Int) :
    (r.overwrite u generation).id = r.id := rfl

/-- Where a node is sought after rows were overwritten. -/
theorem nodeRow?_overwritten (db : Database) (id : NodeId) (u : Update) (j : NodeId) :
    (db.overwritten id u).nodeRow? j = (db.nodeRow? j).map fun r =>
      if r.takes id u then r.overwrite u (u.generation.map Int.ofNat) else r :=
  Rows.find?_modify fun r => by rw [key_overwrite]

/-- The generation of an update, as the tables keep it. -/
theorem mapM_ofCount_eq_ok {g : Option Nat} {g' : Option Int} (h : g.mapM ofCount = .ok g') :
    g' = g.map Int.ofNat := by
  cases g with
  | none =>
      cases h
      rfl
  | some n =>
      rw [Option.mapM_some, ofCount] at h
      split at h
      · cases h
        rfl
      · cases h

theorem isIntegrity_of_mapM_ofCount {g : Option Nat} {e : StoreError}
    (h : g.mapM ofCount = .error e) : e.isIntegrity = true := by
  cases g with
  | none => cases h
  | some n =>
      rw [Option.mapM_some] at h
      cases hcount : ofCount n with
      | error _ =>
          rw [hcount] at h
          obtain rfl := Except.error.inj h
          exact isIntegrity_of_ofCount hcount
      | ok _ =>
          rw [hcount] at h
          cases h

/-- How an update ends: its stamp is refused; it names no field; rows take it; or none does. -/
theorem updateNode_cases {r : Except StoreError Bool} (h : updateNode id u db = (r, db')) :
    (∃ cause, r = .error cause ∧ cause.isIntegrity = true ∧ db' = db) ∨
      u.isEmpty = true ∧ r = (loadNode id db).1.map Option.isSome ∧ db' = db ∨
      u.isEmpty = false ∧ (∃ row ∈ db.nodes.toList, row.takes id u = true) ∧ r = .ok true ∧
        db' = db.overwritten id u ∨
      u.isEmpty = false ∧ (∀ row ∈ db.nodes.toList, row.takes id u = false) ∧ db' = db ∧
        r = if u.forward.isSome then (loadNode id db).1.bind fun found =>
              if found.isSome then .error (.forwardConflict id) else .ok false
            else .ok false := by
  rw [updateNode] at h
  rcases bind_cases h with ⟨e, hask, rfl⟩ | ⟨generation, mid, hask, h⟩
  · obtain ⟨hcount, rfl⟩ := ask_cases hask
    exact Or.inl ⟨e, rfl, isIntegrity_of_mapM_ofCount hcount, rfl⟩
  obtain ⟨hcount, rfl⟩ := ask_cases hask
  obtain rfl := mapM_ofCount_eq_ok hcount
  refine Or.inr ?_
  cases hempty : u.isEmpty with
  | true =>
      simp only [hempty, if_true] at h
      refine Or.inl ⟨rfl, ?_⟩
      rcases bind_cases h with ⟨e, hload, rfl⟩ | ⟨found, _, hload, hrest⟩
      · obtain ⟨-, rfl⟩ := ask_cases hload
        exact ⟨by rw [hload]; rfl, rfl⟩
      · obtain ⟨-, rfl⟩ := ask_cases hload
        cases hrest
        exact ⟨by rw [hload]; rfl, rfl⟩
  | false =>
      simp only [hempty, Bool.false_eq_true, if_false] at h
      refine Or.inr ?_
      have hwrite : ∀ db : Database, (statement fun db =>
          .ok (db.nodes.toList.any (NodeRow.takes id u), db.overwritten id u)) db
          = (.ok (db.nodes.toList.any (NodeRow.takes id u)), db.overwritten id u) := fun _ => rfl
      have h := (bind_eq_of_ok (hwrite mid)).symm.trans h
      cases htaken : mid.nodes.toList.any (NodeRow.takes id u) with
      | true =>
          simp only [htaken, Bool.not_true, Bool.false_and, Bool.false_eq_true, if_false] at h
          cases h
          exact Or.inl ⟨rfl, List.any_eq_true.mp htaken, rfl, rfl⟩
      | false =>
          have hnone : ∀ row ∈ mid.nodes.toList, row.takes id u = false := by
            simpa using htaken
          have hsame : mid.overwritten id u = mid := by
            rw [overwritten, Rows.modify_of_none hnone]
          rw [hsame] at h
          refine Or.inr ⟨rfl, hnone, ?_⟩
          cases hforward : u.forward.isSome with
          | false =>
              simp only [htaken, hforward, Bool.and_false, Bool.false_eq_true, if_false] at h
              cases h
              exact ⟨rfl, rfl⟩
          | true =>
              simp only [htaken, hforward, Bool.not_false, Bool.and_true, if_true] at h
              rcases bind_cases h with ⟨e, hload, rfl⟩ | ⟨found, _, hload, hrest⟩
              · obtain ⟨-, rfl⟩ := ask_cases hload
                exact ⟨rfl, by rw [hload]; rfl⟩
              · obtain ⟨-, rfl⟩ := ask_cases hload
                rw [hload]
                cases found <;> cases hrest <;> exact ⟨rfl, rfl⟩

/-! ### The table of counters -/

/-- What is issued for a counter that stands at a cell. -/
def issued (c : Cell) : Except StoreError Nat :=
  c.toInteger.bind toCount

/-- The counter of an owner is made, or counted up whatever it stands at. -/
theorem bumpGeneration_cases {owner : String} {r : Except StoreError Nat}
    (h : bumpGeneration owner db = (r, db')) :
    db.generationRow? owner = none ∧ r = .ok (generationSeed + 1) ∧
        db' = { db with generations :=
          db.generations.insert ⟨some owner, .integer (generationSeed + 1)⟩ } ∨
      ∃ row, db.generationRow? owner = some row ∧ r = issued row.value.next ∧
        db' = { db with generations :=
          db.generations.modify (fun r => r.owner = some owner) fun r =>
            { r with value := row.value.next } } := by
  rw [bumpGeneration] at h
  rcases bind_cases h with ⟨e, hbump, rfl⟩ | ⟨cell, mid, hbump, h⟩
  · rcases statement_cases hbump with ⟨_, hfails, -, -⟩ | ⟨_, -, he⟩
    · split at hfails <;> cases hfails
    · cases he
  have hread : r = issued cell ∧ db' = mid := by
    rcases bind_cases h with ⟨e, hask, rfl⟩ | ⟨value, _, hask, hrest⟩
    · obtain ⟨hcell, rfl⟩ := ask_cases hask
      exact ⟨by rw [issued, hcell]; rfl, rfl⟩
    · obtain ⟨hcell, rfl⟩ := ask_cases hask
      obtain ⟨hcount, rfl⟩ := ask_cases hrest
      exact ⟨by rw [issued, hcell]; exact hcount.symm, rfl⟩
  obtain ⟨rfl, rfl⟩ := hread
  rcases statement_cases hbump with ⟨_, -, he, -⟩ | ⟨_, hwrite, ha⟩
  · cases he
  cases ha
  split at hwrite
  · next hnone =>
      cases hwrite
      exact Or.inl ⟨hnone, rfl, rfl⟩
  · next row hrow =>
      cases hwrite
      exact Or.inr ⟨row, hrow, rfl, rfl⟩

theorem owner_of_generationRow? {owner : String} {row : GenerationRow}
    (h : db.generationRow? owner = some row) : row.owner = some owner := by
  simpa using List.find?_some h

/-- The cell that the counter of an owner is counted up to. -/
def nextCell (db : Database) (owner : String) : Cell :=
  match db.generationRow? owner with
  | none => .integer (generationSeed + 1)
  | some row => row.value.next

/-- Counting writes one cell, and issues what the cell then holds. -/
theorem bumpGeneration_writes {owner : String} {r : Except StoreError Nat}
    (h : bumpGeneration owner db = (r, db')) :
    r = issued (db.nextCell owner) ∧ db'.nodes = db.nodes ∧
      (∀ row ∈ db'.generations.toList, row = ⟨some owner, db.nextCell owner⟩ ∨
        row ∈ db.generations.toList ∧ row.owner ≠ some owner) ∧
      ∀ o, db'.generationRow? o
        = if o = owner then some ⟨some owner, db.nextCell owner⟩ else db.generationRow? o := by
  rcases bumpGeneration_cases h with ⟨hnone, rfl, rfl⟩ | ⟨row, hrow, rfl, rfl⟩
  · have hcell : db.nextCell owner = .integer (generationSeed + 1) := by rw [nextCell, hnone]
    rw [hcell]
    refine ⟨rfl, rfl, fun row hrow => ?_, fun o => ?_⟩
    · rcases List.mem_cons.mp ((Rows.toList_insert_perm _ _).mem_iff.mp hrow) with rfl | hrow
      · exact Or.inl rfl
      · exact Or.inr ⟨hrow, by simpa using List.find?_eq_none.mp hnone row hrow⟩
    · refine (Rows.find?_insert fun ho => ?_).trans ?_
      · cases of_decide_eq_true ho
        exact hnone
      · by_cases ho : o = owner
        · rw [if_pos ho, if_pos (decide_eq_true (congrArg some ho.symm))]
        · rw [if_neg ho, if_neg fun h => ho (Option.some.inj (of_decide_eq_true h)).symm]
          rfl
  · have hcell : db.nextCell owner = row.value.next := by rw [nextCell, hrow]
    rw [hcell]
    refine ⟨rfl, rfl, fun row' hrow' => ?_, fun o => ?_⟩
    · rw [Rows.toList_modify] at hrow'
      obtain ⟨row₀, hrow₀, rfl⟩ := List.mem_map.mp hrow'
      split
      · next howner =>
          rw [← of_decide_eq_true howner]
          exact Or.inl rfl
      · next howner => exact Or.inr ⟨hrow₀, fun h => howner (decide_eq_true h)⟩
    · have hkey (r : GenerationRow) : decide (({ r with value := row.value.next } :
          GenerationRow).owner = some o) = decide (r.owner = some o) := rfl
      refine (Rows.find?_modify (p := fun (r : GenerationRow) => r.owner = some o) hkey).trans ?_
      show (db.generationRow? o).map _ = _
      by_cases ho : o = owner
      · rw [ho, hrow, if_pos rfl, Option.map_some, if_pos, owner_of_generationRow? hrow]
        exact decide_eq_true (owner_of_generationRow? hrow)
      · rw [if_neg ho]
        cases hother : db.generationRow? o with
        | none => rfl
        | some row' =>
            rw [Option.map_some, if_neg]
            intro h
            cases (owner_of_generationRow? hother).symm.trans (of_decide_eq_true h)
            exact ho rfl

/-! ### The table of ideas -/

/-- The row of an idea. -/
def ideaRow? (db : Database) (id : NodeId) : Option IdeaRow :=
  db.ideas.toList.find? fun r => r.id = some id.text

/-- Where an idea is sought after a row was added with a new key. -/
theorem ideaRow?_insert {i : Idea} (new : db.ideaRow? i.id = none) :
    ({ db with ideas := db.ideas.insert (.ofIdea i) } : Database).ideaRow? i.id
      = some (.ofIdea i) := by
  rw [ideaRow?, Rows.find?_insert fun _ => new, if_pos]
  exact decide_eq_true rfl

/-- An idea is read from the first row with its key. -/
theorem getIdea_of_row {id : NodeId} {row : IdeaRow} (hrow : db.ideaRow? id = some row) :
    (getIdea id : Action Database _) db
      = ((row.toIdea.map some).mapError EngineError.ofStore, db) := by
  refine (toAction_eq (Prod.eta (loadIdea id db)).symm).trans ?_
  rw [ideaRow?] at hrow
  rw [loadIdea, ask]
  simp only [hrow]

theorem getIdea_of_no_row {id : NodeId} (hrow : db.ideaRow? id = none) :
    (getIdea id : Action Database _) db = (.ok none, db) := by
  refine (toAction_eq (Prod.eta (loadIdea id db)).symm).trans ?_
  rw [ideaRow?] at hrow
  rw [loadIdea, ask]
  simp only [hrow]
  rfl

/-- The rows of the ideas of an owner that are not archived. -/
def activeRows (db : Database) (owner : String) : List IdeaRow :=
  db.ideas.toList.filter fun r => r.owner = owner && r.archived.isInteger 0

/-- The ideas in rows: the columns of all of them are checked first. -/
def readIdeas (rows : List IdeaRow) : Except StoreError (List Idea) := do
  let checked ← rows.mapM fun r => r.columns.map (r, ·)
  checked.mapM fun (r, columns) => r.ofColumns columns

/-- The active ideas of an owner are read from their rows. -/
theorem listActive_eq (db : Database) (owner : String) : (listActive owner : Action Database _) db
    = ((readIdeas (db.activeRows owner)).mapError EngineError.ofStore, db) := by
  refine (toAction_eq (Prod.eta (listIdeas owner false db)).symm).trans ?_
  rw [listIdeas, ask]
  simp only [Bool.false_or]
  rfl

/-- A row tells the owner of its idea. -/
theorem IdeaRow.owner_of_toIdea {r : IdeaRow} {i : Idea} (h : r.toIdea = .ok i) :
    i.owner = r.owner := by
  obtain ⟨c, -, h⟩ := bind_eq_ok_iff.mp h
  rw [ofColumns] at h
  split at h
  · cases h
  · obtain ⟨_, -, h⟩ := bind_eq_ok_iff.mp h
    obtain ⟨_, -, h⟩ := bind_eq_ok_iff.mp h
    cases h
    rfl

/-- An idea gets a row under a key that is new, or the data are at fault and nothing is done. -/
theorem insertIdea_cases {i : Idea} {r : Except StoreError Unit}
    (h : insertIdea (.ofIdea i) db = (r, db')) :
    (∃ cause, r = .error cause ∧ cause.isIntegrity = true ∧ db' = db) ∨
      db.ideaRow? i.id = none ∧ r = .ok () ∧
        db' = { db with ideas := db.ideas.insert (.ofIdea i) } := by
  rcases statement_cases h with ⟨e, hinsert, rfl, rfl⟩ | ⟨_, hinsert, rfl⟩
  · refine Or.inl ⟨e, rfl, ?_, rfl⟩
    split at hinsert
    · cases hinsert
      rfl
    · split at hinsert
      · cases hinsert
        rfl
      · cases hinsert
  · split at hinsert
    · cases hinsert
    · next hkey =>
        split at hinsert
        · cases hinsert
        · cases hinsert
          refine Or.inr ⟨?_, rfl, rfl⟩
          have hnew : (IdeaRow.ofIdea i).id ∉ db.ideas.toList.map IdeaRow.id :=
            fun hmem => hkey ⟨rfl, hmem⟩
          simpa [ideaRow?, IdeaRow.ofIdea] using hnew

theorem ideaRow?_eq_none_iff :
    db.ideaRow? id = none ↔ some id.text ∉ db.ideas.toList.map IdeaRow.id := by
  simp [ideaRow?]

/-- An idea gets its row if its key is new and its node is there. -/
theorem insertIdea_of_new {i : Idea} (new : db.ideaRow? i.id = none)
    (node : (db.nodeRow? i.id).isSome) : insertIdea (.ofIdea i) db
      = (.ok (), { db with ideas := db.ideas.insert (.ofIdea i) }) := by
  have hnode : some i.id.text ∈ db.nodes.toList.map NodeRow.id := by
    by_contra hmissing
    rw [nodeRow?_eq_none_iff.mpr hmissing] at node
    cases node
  have hkey : ¬((IdeaRow.ofIdea i).id.isSome ∧
      (IdeaRow.ofIdea i).id ∈ db.ideas.toList.map IdeaRow.id) :=
    fun h => ideaRow?_eq_none_iff.mp new h.2
  rw [insertIdea, statement, if_neg hkey, if_neg fun h => h.2 hnode]

/-- A batch of its own takes everything back where its statements fail. -/
theorem Blind.batch_eq_of_error {q : Query α} (hq : Blind q) (closed : db.inTransaction = false)
    {e : StoreError} {after : Database} (h : q db = (.error e, after)) :
    batch q db = (.error e, db) := by
  have hinside : q (db.within true) = (.error e, after.within true) := by
    rw [hq true db, h]
  exact atomically_eq_of_error closed hinside

/-- A batch of statements ends as these do, or takes everything back where they fail. -/
theorem Blind.batch_cases {q : Query α} (hq : Blind q) {r : Except StoreError α}
    (h : batch q db = (r, db')) :
    ∃ after, q db = (r, after) ∧ (db' = after ∨ (∃ e, r = .error e) ∧ db' = db) := by
  cases hopen : db.inTransaction with
  | true =>
      have hjoins : atomically q db = q db := transaction_of_inTransaction hopen
      exact ⟨db', hjoins ▸ h, Or.inl rfl⟩
  | false =>
      rcases hrun : q db with ⟨e | a, after⟩
      · rw [hq.batch_eq_of_error hopen hrun] at h
        cases h
        exact ⟨after, rfl, Or.inr ⟨⟨e, rfl⟩, rfl⟩⟩
      · have hinside : q (db.within true) = (.ok a, after.within true) := by
          rw [hq true db, hrun]
        have hends : batch q db = (.ok a, after) := by
          have hkept := hq.keeps db
          rw [hrun, hopen] at hkept
          have hclosed : after.within false = after := within_self hkept
          refine (atomically_eq_of_ok hopen hinside).trans ?_
          show (Except.ok a, after.within false) = _
          rw [hclosed]
        rw [hends] at h
        cases h
        exact ⟨_, rfl, Or.inl rfl⟩

/-- An idea is stored together with its node, or the data are at fault.  Then nothing is done, or
inside an open transaction the node may be left. -/
theorem saveIdea_cases {i : Idea} {r : Except StoreError Unit} (h : saveIdea i n db = (r, db')) :
    (∃ cause, r = .error cause ∧ cause.isIntegrity = true ∧
        (db' = db ∨ i.id = n.id ∧ saveNode n db = (.ok (), db') ∧
          insertIdea (.ofIdea i) db' = (.error cause, db'))) ∨
      i.id = n.id ∧ r = .ok () ∧
        ∃ mid, saveNode n db = (.ok (), mid) ∧ insertIdea (.ofIdea i) mid = (.ok (), db') := by
  by_cases hid : i.id = n.id
  · rw [saveIdea, if_neg (not_not_intro hid)] at h
    have hq : Blind (do saveNode n; insertIdea (.ofIdea i) : Query Unit) :=
      (blind_saveNode n).bind fun _ => blind_insertIdea _
    obtain ⟨after, hrun, hends⟩ := hq.batch_cases h
    rcases bind_cases hrun with ⟨e, hsave, rfl⟩ | ⟨_, mid, hsave, hinsert⟩
    · rcases saveNode_cases hsave with ⟨_, he, hintegrity, rfl⟩ | ⟨-, -, he, -⟩
      · cases he
        refine Or.inl ⟨e, rfl, hintegrity, Or.inl ?_⟩
        rcases hends with hends | ⟨-, hends⟩ <;> exact hends
      · cases he
    · rcases insertIdea_cases hinsert with ⟨e, rfl, hintegrity, rfl⟩ | ⟨-, rfl, -⟩
      · refine Or.inl ⟨e, rfl, hintegrity, ?_⟩
        rcases hends with rfl | ⟨-, rfl⟩
        · exact Or.inr ⟨hid, hsave, hinsert⟩
        · exact Or.inl rfl
      · rcases hends with rfl | ⟨⟨_, he⟩, -⟩
        · exact Or.inr ⟨hid, rfl, mid, hsave, hinsert⟩
        · cases he
  · rw [saveIdea, if_pos hid] at h
    cases h
    exact Or.inl ⟨_, rfl, rfl, Or.inl rfl⟩

/-- An idea is stored with its node if both keys are new and the generation fits. -/
theorem saveIdea_of_new {i : Idea} (hid : i.id = n.id) (newNode : db.nodeRow? n.id = none)
    (newIdea : db.ideaRow? n.id = none) (hfits : (n.generation : Int) ≤ Decimal.greatestInt64) :
    saveIdea i n db = (.ok (), { db with
      nodes := db.nodes.insert (.holding n), ideas := db.ideas.insert (.ofIdea i) }) := by
  have hnode := nodeRow?_insert (r := .holding n) rfl newNode n.id
  rw [if_pos rfl] at hnode
  have hinsert : insertIdea (.ofIdea i) { db with nodes := db.nodes.insert (.holding n) } = _ :=
    insertIdea_of_new (hid ▸ newIdea) (hid ▸ Option.isSome_of_eq_some hnode)
  have hrun : (do saveNode n; insertIdea (.ofIdea i) : Query Unit) db = (.ok (), { db with
      nodes := db.nodes.insert (.holding n), ideas := db.ideas.insert (.ofIdea i) }) :=
    (bind_eq_of_ok (saveNode_of_fits newNode hfits)).trans hinsert
  have hq : Blind (do saveNode n; insertIdea (.ofIdea i) : Query Unit) :=
    (blind_saveNode n).bind fun _ => blind_insertIdea _
  rw [saveIdea, if_neg (not_not_intro hid)]
  obtain ⟨after, hafter, hends⟩ := hq.batch_cases (Prod.eta (batch _ db)).symm
  have hpair := hrun.symm.trans hafter
  rcases hends with hends | ⟨⟨e, he⟩, -⟩
  · rw [← hends] at hpair
    exact hpair.symm
  · rw [he] at hpair
    cases congrArg Prod.fst hpair

end Database

end Ideas
