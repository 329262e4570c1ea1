/-
Forwarding a node in any database.

A node that was read stands in the first row with its key (`Sees`), whatever else the tables
hold.  If it points nowhere, that row takes a forward reference: the database never answers
that somebody else was faster.  So the two requests that forward a node have three ways to
end: there is no stamp, the stamp is too large for the table of nodes, or the row is
overwritten.
-/
import Ideas.Proofs.Database.GivenBack
import Ideas.Proofs.Regime

namespace Ideas

open NodeStore

namespace Database

variable {db db' : Database} {id : NodeId} {n : Node}

/-- The first row with the key of a node holds it. -/
def Sees (db : Database) (n : Node) : Prop :=
  ∃ r, db.nodeRow? n.id = some r ∧ r.Holds n

/-- What is read is seen, and nothing is read from a row that holds no node. -/
theorem get_cases {r : Except EngineError (Option Node)}
    (h : (get id : Action Database _) db = (r, db')) : db' = db ∧
      ((db.nodeRow? id = none ∧ r = .ok none) ∨
        (∃ n, r = .ok (some n) ∧ n.id = id ∧ db.Sees n) ∨
        ∃ row cause, db.nodeRow? id = some row ∧ row.toNode = .error cause ∧
          r = .error (.ofStore cause)) := by
  rw [get_eq] at h
  cases hrow : db.nodeRow? id with
  | none =>
      rw [hrow] at h
      cases h
      exact ⟨rfl, Or.inl ⟨rfl, rfl⟩⟩
  | some row =>
      rw [hrow] at h
      obtain ⟨hr, rfl⟩ := Prod.mk.inj h
      refine ⟨rfl, Or.inr ?_⟩
      cases hread : row.toNode with
      | error cause =>
          simp only [hread] at hr
          exact Or.inr ⟨row, cause, rfl, hread, hr.symm⟩
      | ok n =>
          simp only [hread] at hr
          have holds := NodeRow.toNode_eq_ok_iff.mp hread
          obtain ⟨key, hkey, hid⟩ := holds.id
          obtain rfl : key = id.text := Option.some.inj (hkey.symm.trans (key_of_nodeRow? hrow))
          rw [readId_text] at hid
          obtain rfl := Except.ok.inj hid
          exact Or.inl ⟨n, hr.symm, rfl, row, hrow, holds⟩

/-- A node that is found is seen. -/
theorem sees_of_get {found : Option Node} (h : (get id : Action Database _) db = (.ok found, db')) :
    db' = db ∧ ∀ n, found = some n → n.id = id ∧ db.Sees n := by
  obtain ⟨rfl, hfound⟩ := get_cases h
  refine ⟨rfl, fun n hn => ?_⟩
  rcases hfound with ⟨-, hr⟩ | ⟨n', hr, hid, hsees⟩ | ⟨_, _, -, -, hr⟩ <;> cases hr
  · cases hn
  · cases hn
    exact ⟨hid, hsees⟩

/-- A regime that sees what the rows hold is readable if a call may fail over a row. -/
theorem readable {p : Regime Database} (hsees : p.sees = Sees)
    (hself : ∀ {e db}, e.Structural → p.holds db → p.allows e db)
    (hfails : ∀ {id e db}, p.holds db → (get id : Action Database _) db = (.error e, db) →
      p.allows e db) : p.Readable where
  fails := hself
  get id := by
    intro db h _
    rcases hrun : (get id : Action Database _) db with ⟨e | found, db'⟩
    · obtain ⟨rfl, -⟩ := get_cases hrun
      exact hfails h hrun
    · obtain ⟨rfl, hfound⟩ := sees_of_get hrun
      rw [← hsees] at hfound
      exact ⟨h, hfound, fun n hn => hn⟩

/-- The row of a node that points nowhere has no forward reference. -/
theorem NodeRow.Holds.forward_eq_none {row : NodeRow} (h : row.Holds n) (hn : n.forward = none) :
    row.forward = none := by
  have hforward := h.forward
  rw [hn] at hforward
  cases hrow : row.forward with
  | none => rfl
  | some s =>
      rw [hrow, readOptionalId] at hforward
      cases hread : readId s with
      | error e => rw [hread] at hforward; cases hforward
      | ok id => rw [hread] at hforward; cases hforward

/-- A node that is seen to point nowhere takes any update. -/
theorem Sees.takes (h : db.Sees n) (hn : n.forward = none) (u : Update) :
    ∃ row ∈ db.nodes.toList, row.takes n.id u = true := by
  obtain ⟨row, hrow, holds⟩ := h
  refine ⟨row, List.mem_of_find?_eq_some hrow, ?_⟩
  simp [NodeRow.takes, key_of_nodeRow? hrow, holds.forward_eq_none hn]

/-- An update that names a field is written into a row that takes it, or its stamp is refused. -/
theorem updateNode_of_takes {u : Update} (hnamed : u.isEmpty = false)
    (taken : ∃ row ∈ db.nodes.toList, row.takes id u = true) {r : Except StoreError Bool}
    (h : updateNode id u db = (r, db')) :
    (∃ cause, r = .error cause ∧ cause.isIntegrity = true ∧ db' = db) ∨
      r = .ok true ∧ db' = db.overwritten id u := by
  obtain ⟨row, hrow, htakes⟩ := taken
  rcases updateNode_cases h with hrefused | ⟨hempty, -⟩ | ⟨-, -, hdone⟩ | ⟨-, hnone, -⟩
  · exact Or.inl hrefused
  · cases hnamed.symm.trans hempty
  · exact Or.inr hdone
  · cases (hnone row hrow).symm.trans htakes

/-- To forward a node is to overwrite its row under a fresh stamp, if there is one that fits. -/
theorem forwardRequests_cases (sees : db.Sees n) (hn : n.forward = none) {target : NodeId}
    {arcs : List Arc} {r : Except EngineError Nat}
    (h : forwardRequests n target arcs db = (r, db')) :
    (∃ cause, bumpGeneration n.owner db = (.error cause, db') ∧ r = .error (.ofStore cause)) ∨
      ∃ g mid, bumpGeneration n.owner db = (.ok g, mid) ∧
        ((∃ cause, r = .error (.ofStore cause) ∧ cause.isIntegrity = true ∧ db' = mid) ∨
          r = .ok g ∧ db' = mid.overwritten n.id (.forwarding n target arcs g)) := by
  rcases bind_cases h with ⟨e, hstamp, rfl⟩ | ⟨g, mid, hstamp, h⟩
  · obtain ⟨cause, hbump, rfl⟩ := toAction_error hstamp
    exact Or.inl ⟨cause, hbump, rfl⟩
  have hbump := toAction_ok hstamp
  refine Or.inr ⟨g, mid, hbump, ?_⟩
  -- A stamp changes nothing in the table of nodes.
  have hstill : mid.Sees n := by
    rcases bumpGeneration_cases hbump with ⟨-, -, rfl⟩ | ⟨_, -, -, rfl⟩ <;> exact sees
  have hnamed : (Update.forwarding n target arcs g).isEmpty = false := by
    simp [Update.isEmpty, Update.forwarding]
  have htaken := hstill.takes hn (.forwarding n target arcs g)
  rcases bind_cases h with ⟨e, hupdate, rfl⟩ | ⟨_, after, hupdate, h⟩
  · rcases orNotFound_error hupdate with ⟨-, hquery⟩ | ⟨cause, hquery, rfl⟩ <;>
      rcases updateNode_of_takes hnamed htaken hquery with ⟨_, he, hrefused⟩ | ⟨he, -⟩ <;> cases he
    exact Or.inl ⟨cause, rfl, hrefused⟩
  · rcases updateNode_of_takes hnamed htaken (orNotFound_ok hupdate) with
      ⟨_, he, -⟩ | ⟨-, hwritten⟩
    · cases he
    · cases h
      exact Or.inr ⟨rfl, hwritten⟩

/-- To point a node at its copy is to overwrite its row, if there is one. -/
theorem point_cases {copy : NodeId} {r : Except EngineError Unit}
    (h : (update id { copy := some copy } : Action Database Unit) db = (r, db')) :
    db' = db ∧ (r = .error (.nodeNotFound id) ∨
        ∃ cause, r = .error (.ofStore cause) ∧ cause.isIntegrity = true) ∨
      r = .ok () ∧ db' = db.overwritten id { copy := some copy } := by
  rcases hquery : updateNode id { copy := some copy } db with ⟨outcome, after⟩
  rcases updateNode_cases hquery with
    ⟨cause, rfl, hrefused, rfl⟩ | ⟨hempty, -⟩ | ⟨-, -, rfl, rfl⟩ | ⟨-, -, rfl, rfl⟩
  · obtain ⟨rfl, rfl⟩ := Prod.mk.inj ((orNotFound_of_error hquery).symm.trans h)
    exact Or.inl ⟨rfl, Or.inr ⟨cause, rfl, hrefused⟩⟩
  · cases hempty
  · obtain ⟨rfl, rfl⟩ := Prod.mk.inj ((orNotFound_of_ok hquery).symm.trans h)
    exact Or.inr ⟨rfl, rfl⟩
  · obtain ⟨rfl, rfl⟩ := Prod.mk.inj ((orNotFound_of_ok hquery).symm.trans h)
    exact Or.inl ⟨rfl, Or.inl rfl⟩

end Database

end Ideas
