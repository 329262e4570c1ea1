/-
Saved relations are those that were saved last.

Each call saves all its relations or does nothing, and so what was saved is known after any number
of calls: it is what those have saved that succeeded, in the order of the calls
(`Saved.saveEach`).  What is read of a source then is told from that alone.

It is known of a database that comes about in any way, too.  No other call writes relations, and a
transaction that is taken back takes back the table as a whole (`Recorded.saved_log`).

And discovery finds nothing that could not be saved: the ideas that it relates are stored, and what
is stronger than a threshold is a number (`Filed.takes_discovered`).
-/
import Ideas.Proofs.Database.Catalogue

namespace Ideas

open NodeStore

namespace Database

variable {l : Register} {db : Database} {log : List Save}

/-! ### Calls that save -/

/-- Save relations of one source after the other. -/
def saveEach (calls : List (NodeId × List (Candidate Float))) (db : Database) : Database :=
  calls.foldl (fun db call => (saveRelations call.1 call.2 db).2) db

/-- What is saved by the calls that succeed. -/
def savedBy : List (NodeId × List (Candidate Float)) → Database → List Save
  | [], _ => []
  | (source, candidates) :: rest, db =>
      match saveRelations source candidates db with
      | (.ok _, db') => Save.ofCandidates source candidates ++ savedBy rest db'
      | (.error _, db') => savedBy rest db'

theorem savedBy_cons (source : NodeId) (candidates : List (Candidate Float))
    (rest : List (NodeId × List (Candidate Float))) (db : Database) :
    savedBy ((source, candidates) :: rest) db
      = (if (saveRelations source candidates db).1.toBool then Save.ofCandidates source candidates
          else []) ++ savedBy rest (saveRelations source candidates db).2 := by
  rw [savedBy]
  rcases saveRelations source candidates db with ⟨e | n, db'⟩ <;> rfl

/-- Outside a transaction a call saves all its relations, or it fails and changes nothing. -/
theorem saveRelations_whole (closed : db.inTransaction = false) (source : NodeId)
    (candidates : List (Candidate Float)) :
    (saveRelations source candidates db).1 = .ok candidates.length ∧
        (∀ s ∈ Save.ofCandidates source candidates, s.strength.isNaN = false) ∧
        (saveRelations source candidates db).2
          = db.withSaved (Save.ofCandidates source candidates) ∨
      (∃ e, (saveRelations source candidates db).1 = .error e) ∧
        (saveRelations source candidates db).2 = db := by
  rcases saveRelations_cases (Prod.eta (saveRelations source candidates db)).symm with
    ⟨hok, taken, hsaved⟩ | ⟨hfails, -, hsame, -⟩
  · exact Or.inl ⟨hok, fun s hs => (taken s hs).number, hsaved⟩
  · exact Or.inr ⟨hfails, hsame closed⟩

/-- After any calls the table holds what is the latest of all that they saved. -/
theorem Saved.saveEach (h : Saved log db) (closed : db.inTransaction = false)
    (calls : List (NodeId × List (Candidate Float))) :
    Saved (log ++ savedBy calls db) (saveEach calls db) := by
  induction calls generalizing log db with
  | nil =>
      rw [savedBy, List.append_nil]
      exact h
  | cons call rest ih =>
      obtain ⟨source, candidates⟩ := call
      have hclosed : (saveRelations source candidates db).2.inTransaction = false :=
        (keeps_saveRelations source candidates db).trans closed
      show Saved _ (Database.saveEach rest (saveRelations source candidates db).2)
      rw [savedBy_cons, ← List.append_assoc]
      refine ih ?_ hclosed
      rcases saveRelations_whole closed source candidates with
        ⟨hok, hnumbers, hsaved⟩ | ⟨⟨e, he⟩, hsame⟩
      · rw [hok, hsaved]
        exact h.withSaved hnumbers
      · rw [he, hsame]
        exact (List.append_nil log).symm ▸ h

/-! ### What is saved of a database that comes about -/

theorem steady_relations (table : Rows RelationRow) :
    Steady fun db : Database => db.relations = table where
  get {db} id h := by
    rw [(get_cases (Prod.eta (get id db)).symm).1]
    exact h
  finds _ hget := id_of_get hget
  create {db} n h := by
    rcases create_cases (Prod.eta (create n db)).symm with ⟨-, hdb⟩ | ⟨-, -, hdb⟩ <;>
      rw [hdb] <;> exact h
  update {db} id u h := by
    rcases update_cases (Prod.eta (update id u db)).symm with
      ⟨-, hdb⟩ | ⟨-, -, -, hdb⟩ | ⟨-, -, hdb⟩ <;> rw [hdb] <;> exact h
  nextGeneration {db} owner h := by
    rw [show ((nextGeneration owner : Action Database _) db).2 = (bumpGeneration owner db).2 from
      toAction_snd _ db]
    rcases bumpGeneration_cases (Prod.eta (bumpGeneration owner db)).symm with
      ⟨-, -, hdb⟩ | ⟨_, -, -, hdb⟩ <;> rw [hdb] <;> exact h
  getIdea {db} id h := by
    rw [show ((getIdea id : Action Database _) db).2 = db from toAction_snd (loadIdea id) db]
    exact h
  listActive {db} owner h := by
    rw [listActive_eq]
    exact h

theorem relations_createIdea (i : Idea) (n : Node) (db : Database) :
    (createIdea i n db).2.relations = db.relations := by
  have hnode {r : Except StoreError Unit} {after : Database} (h : saveNode n db = (r, after)) :
      after.relations = db.relations := by
    rcases saveNode_cases h with ⟨_, -, -, rfl⟩ | ⟨-, -, -, rfl⟩ <;> rfl
  rw [show (createIdea i n db).2 = (saveIdea i n db).2 from toAction_snd (saveIdea i n) db]
  rcases saveIdea_cases (Prod.eta (saveIdea i n db)).symm with
    ⟨_, -, -, hsame | ⟨-, hsave, -⟩⟩ | ⟨-, -, mid, hsave, hinsert⟩
  · rw [hsame]
  · exact hnode hsave
  · rcases insertIdea_cases hinsert with ⟨_, he, -⟩ | ⟨-, -, hafter⟩
    · cases he
    · rw [hafter]
      show mid.relations = db.relations
      exact hnode hsave

theorem relations_archiveIdea (id : NodeId) (db : Database) :
    (archiveIdea id db).2.relations = db.relations := by
  rcases archiveIdea_cases (Prod.eta (archiveIdea id db)).symm with ⟨-, hdb⟩ | ⟨-, _, hdb⟩ <;>
    rw [hdb]

/-- No call writes relations, on a watched database, either. -/
theorem relations_run (r : Request) (d : Monitored Database) :
    (r.run d).2.inner.relations = d.inner.relations :=
  (steady_relations d.inner.relations).run_watched
    (fun i n _ h => (relations_createIdea i n _).trans h)
    (fun id _ h => (relations_archiveIdea id _).trans h) r rfl

theorem saved_fresh : Saved [] fresh :=
  ⟨rfl, rfl, fun _ hs => absurd hs List.not_mem_nil⟩

/-- There is always a log of what the table holds. -/
theorem Recorded.saved_log {before : Option (Register × Database)} {d : Monitored Database}
    (h : Recorded before l d) :
    (∃ log, Saved log d.inner) ∧ ∀ b ∈ before, ∃ log, Saved log b.2 := by
  induction h with
  | start => exact ⟨⟨[], saved_fresh⟩, fun _ hb => nomatch hb⟩
  | fault _ _ ih => exact ih
  | call _ r ih =>
      obtain ⟨⟨log, hlog⟩, hbefore⟩ := ih
      exact ⟨⟨log, hlog.of_relations (relations_run r _)⟩, hbefore⟩
  | archived _ id archived ih =>
      obtain ⟨⟨log, hlog⟩, hbefore⟩ := ih
      exact ⟨⟨log, hlog.of_relations rfl⟩, hbefore⟩
  | saved _ source candidates ih =>
      obtain ⟨⟨log, hlog⟩, hbefore⟩ := ih
      refine ⟨?_, hbefore⟩
      rcases saveRelations_cases (Prod.eta (saveRelations source candidates _)).symm with
        ⟨-, taken, hsaved⟩ | ⟨-, -, -, done, taken, hsaved⟩ <;> rw [hsaved]
      · exact ⟨_, hlog.withSaved fun s hs => (taken s hs).number⟩
      · exact ⟨_, hlog.withSaved fun s hs => (taken s hs).number⟩
  | begins _ ih =>
      refine ⟨?_, fun b hb => ?_⟩
      · obtain ⟨⟨log, hlog⟩, -⟩ := ih
        exact ⟨log, hlog.of_relations rfl⟩
      · cases hb
        exact ih.1
  | commits _ ih =>
      obtain ⟨⟨log, hlog⟩, -⟩ := ih
      exact ⟨⟨log, hlog.of_relations rfl⟩, fun _ hb => nomatch hb⟩
  | rollsBack _ ih => exact ⟨ih.2 _ rfl, fun _ hb => nomatch hb⟩

/-! ### What is discovered can be saved -/

/-- What is discovered is between ideas and as strong as a number. -/
theorem Filed.takes_discovered (h : Filed l db) (settings : DiscoverySettings) (id : NodeId)
    {c : Candidate Float} (hc : c ∈ (discoverRelations settings id db).1) :
    db.Takes ⟨id, c.id, c.strength⟩ := by
  rw [serves_shelf.discoverRelations_eq] at hc
  obtain ⟨row, target, pool, hrow, -, hpool, hc⟩ := Shelf.exists_of_mem_found hc
  obtain ⟨number, j, hj, hcj⟩ := mem_discover hc
  have hrow : (l.find? fun i => i.id = id).map IdeaRow.ofIdea = some row :=
    (h.ideaRow?_eq id).symm.trans hrow
  obtain ⟨i, hi, -⟩ := Option.map_eq_some_iff.mp hrow
  have hpool : (readIdeas (db.activeRows row.owner)).mapError EngineError.ofStore = .ok pool :=
    hpool
  rw [h.activeRows_eq, readIdeas_ofIdea] at hpool
  obtain rfl := Except.ok.inj hpool
  obtain ⟨k, hk, rfl⟩ := List.mem_map.mp hj
  refine ⟨number, h.mem_keys_iff.mpr (List.mem_map.mpr ⟨i, List.mem_of_find?_eq_some hi, ?_⟩),
    h.mem_keys_iff.mpr (List.mem_map.mpr ⟨k, List.mem_of_mem_filter hk, ?_⟩)⟩
  · obtain rfl : i.id = id := by simpa using List.find?_some hi
    rfl
  · rw [hcj]
    rfl

/-- What is discovered is saved. -/
theorem Filed.saves_discovered (h : Filed l db) (settings : DiscoverySettings) (id : NodeId) :
    (Database.saveRelations id (settings.cap (discoverRelations settings id db).1) db).1
      = .ok (settings.cap (discoverRelations settings id db).1).length := by
  rcases saveRelations_cases (Prod.eta (Database.saveRelations id
    (settings.cap (discoverRelations settings id db).1) db)).symm with
    ⟨hok, -⟩ | ⟨-, ⟨s, hs, refused⟩, -⟩
  · exact hok
  · obtain ⟨c, hc, rfl⟩ := List.mem_map.mp hs
    exact absurd (h.takes_discovered settings id (List.mem_of_mem_take hc)) refused

end Database

/-- Relations are as they were saved last.  Outside a transaction each call that saves them saves all
of its own or changes nothing.  After any calls, one relation is found from a source to each target
that any was saved to, as strong as the latest one, the strongest first and equally strong ones in
the order of the latest calls; that is so from any table in which each pair stands once, and such a
table is what comes about.  There what discovery finds can always be saved. -/
theorem relations_last_saved :
    (∀ db : Database, db.inTransaction = false → ∀ source candidates,
      (Database.saveRelations source candidates db).1 = .ok candidates.length ∨
        (∃ e, (Database.saveRelations source candidates db).1 = .error e) ∧
          (Database.saveRelations source candidates db).2 = db) ∧
    (∀ log (db : Database), db.inTransaction = false → Database.Saved log db → ∀ calls source,
      ∃ found, Database.relationsOf source (Database.saveEach calls db)
          = (.ok found, Database.saveEach calls db) ∧
        Database.Recalls (log ++ Database.savedBy calls db) source found) ∧
    ∀ before l d, Database.Recorded before l d →
      (∃ log, Database.latest log = log ∧ Database.Saved log d.inner) ∧
        ∀ (settings : DiscoverySettings) id,
          let found := settings.cap (discoverRelations settings id d.inner).1
          (Database.saveRelations id found d.inner).1 = .ok found.length := by
  refine ⟨fun db closed source candidates => ?_, fun log db closed h calls source => ?_,
    fun before l d h => ⟨?_, fun settings id => h.filed.1.saves_discovered settings id⟩⟩
  · rcases Database.saveRelations_whole closed source candidates with ⟨hok, -⟩ | hfails
    · exact Or.inl hok
    · exact Or.inr hfails
  · exact (h.saveEach closed calls).recalls source
  · obtain ⟨⟨log, hlog⟩, -⟩ := h.saved_log
    exact ⟨_, Database.latest_of_nodup (Database.nodup_latest log), hlog.condense⟩

/-- Calls that repeat a target.  The second one goes wrong, as an end of its last relation is no
idea. -/
def repeated : List (NodeId × List (Candidate Float)) :=
  [(sail.id, [⟨kite.id, 0.25⟩, ⟨sail.id, 0.5⟩, ⟨kite.id, 0.75⟩]),
    (sail.id, [⟨sail.id, 1⟩, ⟨⟨3⟩, 0.5⟩]), (kite.id, [⟨sail.id, 0.5⟩])]

theorem savedBy_repeated : Database.savedBy repeated Database.drafted.inner =
    [⟨sail.id, kite.id, 0.25⟩, ⟨sail.id, sail.id, 0.5⟩, ⟨sail.id, kite.id, 0.75⟩,
      ⟨kite.id, sail.id, 0.5⟩] := by
  rw [repeated, Database.savedBy_cons, if_pos (by decide +kernel), Database.savedBy_cons,
    if_neg (by decide +kernel), Database.savedBy_cons, if_pos (by decide +kernel)]
  rfl

/-- The second call saves nothing, and the last strength of the first one is found. -/
theorem relations_last_saved_repeated :
    (Database.saveRelations sail.id [⟨sail.id, 1⟩, ⟨⟨3⟩, 0.5⟩] Database.drafted.inner).2
        = Database.drafted.inner ∧
      (∃ found, Database.relationsOf sail.id (Database.saveEach repeated Database.drafted.inner)
          = (.ok found, Database.saveEach repeated Database.drafted.inner) ∧
        ∃ c ∈ found, c.id = kite.id ∧ (c.strength == 0.75) = true) ∧
      let found := ({} : DiscoverySettings).cap
        (discoverRelations {} sail.id Database.drafted.inner).1
      (Database.saveRelations sail.id found Database.drafted.inner).1 = .ok found.length := by
  obtain ⟨hwhole, hread, hcomes⟩ := relations_last_saved
  obtain ⟨⟨log, -, hlog⟩, hsaves⟩ := hcomes none _ _ Database.recorded_drafted
  refine ⟨?_, ?_, hsaves {} sail.id⟩
  · have hfails : (Database.saveRelations sail.id [⟨sail.id, 1⟩, ⟨⟨3⟩, 0.5⟩]
        Database.drafted.inner).1.toBool = false := by decide +kernel
    rcases hwhole Database.drafted.inner rfl sail.id [⟨sail.id, 1⟩, ⟨⟨3⟩, 0.5⟩] with
      hok | ⟨-, hsame⟩
    · rw [hok] at hfails
      cases hfails
    · exact hsame
  · obtain ⟨found, hfound, recalls⟩ := hread log _ rfl hlog repeated sail.id
    rw [savedBy_repeated] at recalls
    refine ⟨found, hfound, recalls.strength (log ++ [⟨sail.id, kite.id, 0.25⟩,
      ⟨sail.id, sail.id, 0.5⟩]) ⟨sail.id, kite.id, 0.75⟩ [⟨kite.id, sail.id, 0.5⟩] ?_ rfl ?_⟩
    · rw [List.append_assoc]
      rfl
    · decide

end Ideas
