/-
Each request, on a memory and on a database that mirrors it.

A request that the memory answers is answered alike by the database, and both then hold
the same again.  Where the memory refuses, the database does too: a key that is used
twice is a fault of the data for both, and a node that was forwarded before may be free
at the next try for both.
-/
import Ideas.Proofs.Database.Mirror

namespace Ideas

open NodeStore Database

variable {m : Memory} {db db' : Database} {id : NodeId}

/-! ### Requests of a database -/

theorem toAction_eq {α : Type} {q : Query α} {r : Except StoreError α} (h : q db = (r, db')) :
    q.toAction db = (r.mapError EngineError.ofStore, db') := by
  show (fun p : Except StoreError α × Database => (p.1.mapError EngineError.ofStore, p.2)) (q db)
    = _
  rw [h]

theorem orNotFound_of_ok {q : Query Bool} {found : Bool} (h : q db = (.ok found, db')) :
    Query.orNotFound q id db = (if found then .ok () else .error (.nodeNotFound id), db') := by
  refine (bind_eq_of_ok (toAction_eq h)).trans ?_
  cases found <;> rfl

theorem orNotFound_of_error {q : Query Bool} {e : StoreError} (h : q db = (.error e, db')) :
    Query.orNotFound q id db = (.error (.ofStore e), db') :=
  bind_eq_of_error (toAction_eq h)

/-- A request of the database that is known to end as the memory's does. -/
theorem ends_of_eq {α : Type} {act : Action Database α} {r r' : Except EngineError α}
    (hrun : act db = (r', db')) (hagree : Agree r r') (h : Mirrors m db') :
    Ends mirroring (fun _ => True) (r, m) (act db) := by
  rw [hrun]
  exact ⟨hagree, h, fun _ _ => trivial⟩

/-! ### Requests that only read -/

theorem inStep_get (id : NodeId) :
    InStep mirroring True (fun found => ∀ n ∈ found, n.Storable) (get id) (get id) := by
  refine ⟨fun hfine => hfine, fun _ m db h _ => ?_⟩
  have hrun : (get id : Action Database _) db = (.ok (m.node? id), db) :=
    toAction_eq (h.loadNode_eq id)
  rw [hrun]
  exact ⟨.ok _, h, fun _ hfound n hn => by cases hfound; exact h.sound.storable hn⟩

theorem inStep_getIdea (id : NodeId) :
    InStep mirroring True (fun _ => True) (getIdea id) (getIdea id) :=
  ⟨fun hfine => hfine, fun _ {_ _} h _ => ends_of_eq (toAction_eq (h.loadIdea_eq id)) (.ok _) h⟩

theorem inStep_listActive (owner : String) :
    InStep mirroring True (fun _ => True) (listActive owner) (listActive owner) :=
  ⟨fun hfine => hfine, fun _ {_ _} h _ => ends_of_eq (toAction_eq (h.listIdeas_eq owner)) (.ok _) h⟩

/-! ### Requests that write -/

theorem inStep_create (n : Node) :
    InStep mirroring n.Storable (fun _ => True) (create n) (create n) := by
  refine ⟨fun {m} hfine => ?_, fun hn m db h _ => ?_⟩
  · rw [Memory.create_eq] at hfine
    split at hfine <;> exact hfine
  · rw [Memory.create_eq]
    cases found : m.node? n.id with
    | some k => exact ends_of_eq (toAction_eq (h.saveNode_eq_of_used hn found)) (.of_kind_eq rfl) h
    | none =>
      exact ends_of_eq (toAction_eq (h.saveNode_eq_of_new hn found)) (.ok ()) (h.addNode hn found)

theorem inStep_update (id : NodeId) (u : Update) :
    InStep mirroring u.Storable (fun _ => True) (update id u) (update id u) := by
  refine ⟨fun {m} hfine => ?_, fun hu m db h _ => ?_⟩
  · rw [Memory.update_eq] at hfine
    split at hfine
    · exact hfine
    · split at hfine <;> exact hfine
  · obtain ⟨db', hquery, hmirrors⟩ := h.updateNode_eq hu id
    rw [Memory.update_eq]
    cases htakes : m.takes id u with
    | true =>
      rw [htakes] at hquery hmirrors
      exact ends_of_eq (orNotFound_of_ok hquery) (.ok ()) hmirrors
    | false =>
      rw [htakes] at hquery hmirrors
      cases found : m.node? id with
      | none =>
        rw [found] at hquery
        exact ends_of_eq (orNotFound_of_ok hquery) (.of_kind_eq rfl) hmirrors
      | some k =>
        rw [found] at hquery
        exact ends_of_eq (orNotFound_of_error hquery) (.of_kind_eq rfl) hmirrors

/-- What is issued is a number of the tables, as no counter has passed them after the call. -/
theorem inStep_nextGeneration (owner : String) :
    InStep mirroring True (fun g : Nat => (g : Int) ≤ Decimal.greatestInt64) (nextGeneration owner)
      (nextGeneration owner) := by
  have hstamp : ∀ m : Memory, (nextGeneration owner : Action Memory Nat) m
      = (.ok (m.generation owner + 1), m.stamp owner) := fun m => rfl
  refine ⟨fun {m} hfine other => ?_, fun _ m db h hfine => ?_⟩
  · have hother := hfine other
    rw [hstamp, Memory.generation_stamp] at hother
    split at hother
    · next heq => subst heq; omega
    · exact hother
  · have hfits := hfine owner
    rw [hstamp, Memory.generation_stamp, if_pos rfl] at hfits
    obtain ⟨db', hquery, hmirrors⟩ := h.bumpGeneration_eq hfits
    have hrun : (nextGeneration owner : Action Database _) db = _ := toAction_eq hquery
    rw [hrun, hstamp]
    exact ⟨.ok _, hmirrors, fun _ hg => by cases hg; exact hfits⟩

theorem inStep_createIdea (i : Idea) (n : Node) :
    InStep mirroring (i.Storable ∧ n.Storable) (fun _ => True) (createIdea i n)
      (createIdea i n) := by
  refine ⟨fun {m} hfine => ?_, fun ⟨hi, hn⟩ m db h _ => ?_⟩
  · rw [Memory.createIdea_eq] at hfine
    split at hfine
    · exact hfine
    · split at hfine <;> exact hfine
  rw [Memory.createIdea_eq]
  by_cases hid : i.id = n.id
  · rw [if_neg (not_not_intro hid)]
    cases found : m.node? n.id with
    | some k =>
      obtain ⟨db', hquery, hmirrors⟩ := h.saveIdea_of_used hn hid found
      exact ends_of_eq (toAction_eq hquery) (.of_kind_eq rfl) hmirrors
    | none =>
      obtain ⟨db', hquery, hmirrors⟩ := h.saveIdea_of_new hi hn hid found
      exact ends_of_eq (toAction_eq hquery) (.ok ()) hmirrors
  · have hquery : saveIdea i n db = (.error (.invalidData (.idMismatch i.id n.id)), db) := by
      rw [saveIdea, if_pos hid]
      rfl
    rw [if_pos hid]
    exact ends_of_eq (toAction_eq hquery) (.of_kind_eq rfl) h

theorem inStep_archiveIdea (id : NodeId) :
    InStep mirroring True (fun _ => True) (archiveIdea id) (archiveIdea id) := by
  refine ⟨fun {m} hfine => ?_, fun _ m db h _ => ?_⟩
  · rw [Memory.archiveIdea_eq] at hfine
    split at hfine <;> exact hfine
  · obtain ⟨db', hquery, hmirrors⟩ := h.setArchived_eq id
    rw [Memory.archiveIdea_eq]
    cases found : m.idea? id with
    | none =>
      rw [found] at hquery
      rw [Memory.modifyIdea_of_missing found] at hmirrors
      exact ends_of_eq (orNotFound_of_ok hquery) (.of_kind_eq rfl) hmirrors
    | some i =>
      rw [found] at hquery
      exact ends_of_eq (orNotFound_of_ok hquery) (.ok ()) hmirrors

end Ideas
