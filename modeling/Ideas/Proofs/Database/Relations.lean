/-
The table of relations: what is saved, and what is read again.

A relation is saved from a source to a target with a strength, and takes the place of an earlier
one between the same two.  So of all that was ever saved the table holds what is the latest of
its pair, in the order in which it was saved (`Saved`), and each relation that is put into it
makes the log longer by one (`Saved.put`).

A call saves several relations.  It goes wrong at the first one that the table refuses: its
strength is no number, or an end of it is no idea.  Then what was put before is taken back with
the call, unless that is a part of a transaction (`saveRelations_cases`).

What is read of a source is the latest relation to each of its targets, the strongest first
(`Saved.relationsOf_eq`).  Zero has no sign in the table, and a negative zero reads back as the
other one, which is equal to it.
-/
import Ideas.Proofs.Database.Statements
import Ideas.Proofs.Ranking
import Ideas.Proofs.Strength
import Mathlib.Data.Int.Order.Basic

namespace Ideas

namespace Database

/-! ### What is saved -/

/-- A relation that is saved. -/
structure Save where
  source : NodeId
  target : NodeId
  strength : Float

namespace Save

/-- What is related. -/
def pair (s : Save) : NodeId × NodeId :=
  (s.source, s.target)

/-- The row of a relation. -/
def row (s : Save) : RelationRow :=
  ⟨s.source.text, s.target.text, .realOf s.strength⟩

/-- What is read of a relation: zero has no sign. -/
def candidate (s : Save) : Candidate Float :=
  ⟨s.target, Strength.unsigned s.strength⟩

/-- Whether a row is of the same pair. -/
def fits (s : Save) (r : RelationRow) : Bool :=
  r.source = s.source.text && r.target = s.target.text

theorem fits_row (s x : Save) : s.fits x.row = decide (x.pair = s.pair) := by
  simp [fits, row, pair, NodeId.text_inj]

/-- The saves of a call. -/
def ofCandidates (source : NodeId) (candidates : List (Candidate Float)) : List Save :=
  candidates.map fun c => ⟨source, c.id, c.strength⟩

end Save

/-- What is the latest of its pair, in the order in which it was saved. -/
def latest : List Save → List Save
  | [] => []
  | s :: later => if later.any (·.pair = s.pair) then latest later else s :: latest later

/-- What is saved comes last, and in the place of what was there of the same pair. -/
theorem latest_concat (log : List Save) (s : Save) :
    latest (log ++ [s]) = (latest log).filter (fun x => !decide (x.pair = s.pair)) ++ [s] := by
  induction log with
  | nil => rfl
  | cons x later ih =>
      rw [List.cons_append, latest, latest, List.any_append, ih]
      cases hlater : later.any (·.pair = x.pair) with
      | true => rfl
      | false =>
          by_cases hpair : s.pair = x.pair
          · simp [hpair]
          · simp [hpair, Ne.symm hpair]

/-- No pair is forgotten, and none is made up. -/
theorem pair_mem_latest_iff {log : List Save} {p : NodeId × NodeId} :
    p ∈ (latest log).map Save.pair ↔ p ∈ log.map Save.pair := by
  induction log with
  | nil => exact Iff.rfl
  | cons x later ih =>
      rw [latest, List.map_cons, List.mem_cons]
      split
      · next hlater =>
          obtain ⟨y, hy, hpair⟩ := List.any_eq_true.mp hlater
          have hx : x.pair ∈ later.map Save.pair :=
            List.mem_map.mpr ⟨y, hy, of_decide_eq_true hpair⟩
          rw [ih]
          constructor
          · exact Or.inr
          · rintro (rfl | h)
            · exact hx
            · exact h
      · rw [List.map_cons, List.mem_cons, ih]

/-- Of each pair there is one. -/
theorem nodup_latest (log : List Save) : ((latest log).map Save.pair).Nodup := by
  induction log with
  | nil => exact List.nodup_nil
  | cons x later ih =>
      rw [latest]
      split
      · exact ih
      · next hlater =>
          refine List.nodup_cons.mpr ⟨fun hx => hlater ?_, ih⟩
          obtain ⟨y, hy, hpair⟩ := List.mem_map.mp (pair_mem_latest_iff.mp hx)
          exact List.any_eq_true.mpr ⟨y, hy, decide_eq_true hpair⟩

/-- What is not saved again is the latest. -/
theorem mem_latest {front later : List Save} {s : Save} (h : ∀ x ∈ later, x.pair ≠ s.pair) :
    s ∈ latest (front ++ s :: later) := by
  induction front with
  | nil =>
      have hlater : later.any (·.pair = s.pair) = false := by simpa using h
      rw [List.nil_append, latest, hlater, if_neg Bool.false_ne_true]
      exact List.mem_cons_self
  | cons x front ih =>
      rw [List.cons_append, latest]
      split
      · exact ih
      · exact List.mem_cons_of_mem x ih

theorem mem_of_mem_latest {log : List Save} {s : Save} (h : s ∈ latest log) : s ∈ log := by
  induction log with
  | nil => exact h
  | cons x later ih =>
      rw [latest] at h
      split at h
      · exact List.mem_cons_of_mem x (ih h)
      · rcases List.mem_cons.mp h with rfl | h
        · exact List.mem_cons_self
        · exact List.mem_cons_of_mem x (ih h)

/-- Where each pair was saved once, all is the latest. -/
theorem latest_of_nodup {log : List Save} (h : (log.map Save.pair).Nodup) : latest log = log := by
  induction log with
  | nil => rfl
  | cons x later ih =>
      obtain ⟨hx, hlater⟩ := List.nodup_cons.mp h
      have hnew : ¬ later.any (·.pair = x.pair) = true := by
        intro hany
        obtain ⟨y, hy, hpair⟩ := List.any_eq_true.mp hany
        exact hx (List.mem_map.mpr ⟨y, hy, of_decide_eq_true hpair⟩)
      rw [latest, if_neg hnew, ih hlater]

/-! ### What a call does -/

/-- Put a relation into the table. -/
def put (relations : Rows RelationRow) (s : Save) : Rows RelationRow :=
  relations.replace s.fits s.row

/-- The database after relations were put into their table. -/
def withSaved (db : Database) (saves : List Save) : Database :=
  { db with relations := saves.foldl put db.relations }

theorem relations_withSaved (db : Database) (s : Save) :
    (db.withSaved [s]).relations = db.relations.replace s.fits s.row := rfl

/-- The table takes a relation: it is as strong as a number, and both its ends are ideas. -/
structure Takes (db : Database) (s : Save) : Prop where
  number : s.strength.isNaN = false
  source : some s.source.text ∈ db.ideas.toList.map IdeaRow.id
  target : some s.target.text ∈ db.ideas.toList.map IdeaRow.id

variable {db db' : Database} {source : NodeId} {candidates : List (Candidate Float)}

/-- A relation is put into the table if that takes it, and otherwise nothing is done. -/
theorem putRelation_cases {c : Candidate Float} {r : Except StoreError Unit}
    (h : putRelation source c db = (r, db')) :
    (∃ e, r = .error e) ∧ ¬ db.Takes ⟨source, c.id, c.strength⟩ ∧ db' = db ∨
      r = .ok () ∧ db.Takes ⟨source, c.id, c.strength⟩ ∧
        db' = db.withSaved [⟨source, c.id, c.strength⟩] := by
  rw [putRelation, statement] at h
  dsimp only at h
  by_cases hnumber : c.strength.isNaN = true
  · rw [if_pos hnumber] at h
    cases h
    exact Or.inl ⟨⟨_, rfl⟩, fun takes => Bool.eq_false_iff.mp takes.number hnumber, rfl⟩
  rw [if_neg hnumber] at h
  by_cases hends : some source.text ∉ db.ideas.toList.map IdeaRow.id ∨
      some c.id.text ∉ db.ideas.toList.map IdeaRow.id
  · rw [if_pos hends] at h
    cases h
    refine Or.inl ⟨⟨_, rfl⟩, fun takes => ?_, rfl⟩
    rcases hends with hsource | htarget
    · exact hsource takes.source
    · exact htarget takes.target
  · rw [if_neg hends] at h
    cases h
    obtain ⟨hsource, htarget⟩ := not_or.mp hends
    exact Or.inr ⟨rfl, ⟨Bool.eq_false_iff.mpr hnumber, Classical.not_not.mp hsource,
      Classical.not_not.mp htarget⟩, rfl⟩

/-- Relations are put into the table one by one, up to the first that it does not take. -/
theorem forM_putRelation_cases {r : Except StoreError Unit}
    (h : candidates.forM (putRelation source) db = (r, db')) :
    r = .ok () ∧ (∀ s ∈ Save.ofCandidates source candidates, db.Takes s) ∧
        db' = db.withSaved (Save.ofCandidates source candidates) ∨
      (∃ e, r = .error e) ∧ (∃ s ∈ Save.ofCandidates source candidates, ¬ db.Takes s) ∧
        ∃ done, (∀ s ∈ done, db.Takes s) ∧ db' = db.withSaved done := by
  induction candidates generalizing db with
  | nil =>
      cases h
      exact Or.inl ⟨rfl, fun _ hs => absurd hs List.not_mem_nil, rfl⟩
  | cons c rest ih =>
      rw [Save.ofCandidates, List.map_cons]
      rcases bind_cases h with ⟨e, hput, rfl⟩ | ⟨_, mid, hput, hrest⟩
      · rcases putRelation_cases hput with ⟨-, refused, rfl⟩ | ⟨he, -⟩
        · exact Or.inr ⟨⟨e, rfl⟩, ⟨_, List.mem_cons_self, refused⟩, [],
            fun _ hs => absurd hs List.not_mem_nil, rfl⟩
        · cases he
      rcases putRelation_cases hput with ⟨⟨_, he⟩, -⟩ | ⟨-, takes, rfl⟩
      · cases he
      -- The table of ideas is the same, and so the next relations are taken or not as before.
      rcases ih hrest with ⟨rfl, taken, rfl⟩ | ⟨he, ⟨s, hs, refused⟩, done, taken, rfl⟩
      · exact Or.inl ⟨rfl, List.forall_mem_cons.mpr ⟨takes, fun s hs =>
          ⟨(taken s hs).number, (taken s hs).source, (taken s hs).target⟩⟩, rfl⟩
      · refine Or.inr ⟨he, ⟨s, List.mem_cons_of_mem _ hs, fun takes =>
          refused ⟨takes.number, takes.source, takes.target⟩⟩,
          ⟨source, c.id, c.strength⟩ :: done, List.forall_mem_cons.mpr ⟨takes, fun s hs =>
          ⟨(taken s hs).number, (taken s hs).source, (taken s hs).target⟩⟩, rfl⟩

/-- A call saves all its relations; or the table refuses one of them, and then outside a
transaction nothing is done. -/
theorem saveRelations_cases {r : Except StoreError Nat}
    (h : saveRelations source candidates db = (r, db')) :
    r = .ok candidates.length ∧ (∀ s ∈ Save.ofCandidates source candidates, db.Takes s) ∧
        db' = db.withSaved (Save.ofCandidates source candidates) ∨
      (∃ e, r = .error e) ∧ (∃ s ∈ Save.ofCandidates source candidates, ¬ db.Takes s) ∧
        (db.inTransaction = false → db' = db) ∧
        ∃ done, (∀ s ∈ done, db.Takes s) ∧ db' = db.withSaved done := by
  have hq : Blind (do candidates.forM (putRelation source); return candidates.length :
      Query Nat) := (blind_putRelations source candidates).bind fun _ => blind_pure _
  obtain ⟨after, hrun, hends⟩ := hq.batch_cases h
  rcases bind_cases hrun with ⟨e, hputs, rfl⟩ | ⟨_, mid, hputs, hrest⟩
  · rcases forM_putRelation_cases hputs with ⟨he, -⟩ | ⟨-, refused, done, taken, rfl⟩
    · cases he
    refine Or.inr ⟨⟨e, rfl⟩, refused, fun closed => ?_, ?_⟩
    · exact congrArg Prod.snd (h.symm.trans (hq.batch_eq_of_error closed hrun))
    · rcases hends with rfl | ⟨-, rfl⟩
      · exact ⟨done, taken, rfl⟩
      · exact ⟨[], fun _ hs => absurd hs List.not_mem_nil, rfl⟩
  · rcases forM_putRelation_cases hputs with ⟨-, taken, rfl⟩ | ⟨⟨_, he⟩, -⟩
    · cases hrest
      rcases hends with rfl | ⟨⟨_, he⟩, -⟩
      · exact Or.inl ⟨rfl, taken, rfl⟩
      · cases he
    · cases he

/-! ### What the table holds -/

/-- The table of relations holds what is the latest of its pair among all that was saved, and all
that was saved was a number. -/
structure Saved (log : List Save) (db : Database) : Prop where
  unmoved : db.relations.moved = false
  rows : db.relations.toList = (latest log).map Save.row
  numbers : ∀ s ∈ log, s.strength.isNaN = false

variable {log saves : List Save}

/-- A relation that is put into the table is logged. -/
theorem Saved.put (h : Saved log db) {s : Save} (hs : s.strength.isNaN = false) :
    Saved (log ++ [s]) (db.withSaved [s]) where
  unmoved := by
    rw [relations_withSaved, Rows.moved_replace]
    exact h.unmoved
  rows := by
    have hfits : (fun r => !s.fits r) ∘ Save.row = fun x => !decide (x.pair = s.pair) := by
      funext x
      rw [Function.comp, s.fits_row]
    rw [relations_withSaved, Rows.toList_replace h.unmoved, h.rows, List.filter_map, hfits,
      latest_concat, List.map_append, List.map_singleton]
  numbers := List.forall_mem_append.mpr ⟨h.numbers, List.forall_mem_singleton.mpr hs⟩

theorem Saved.withSaved (h : Saved log db) (hsaves : ∀ s ∈ saves, s.strength.isNaN = false) :
    Saved (log ++ saves) (db.withSaved saves) := by
  induction saves generalizing log db with
  | nil =>
      rw [List.append_nil]
      exact h
  | cons s rest ih =>
      obtain ⟨hs, hrest⟩ := List.forall_mem_cons.mp hsaves
      have hboth := ih (h.put hs) hrest
      rwa [List.append_assoc] at hboth

/-- Only the table of relations matters. -/
theorem Saved.of_relations (h : Saved log db) (hsame : db'.relations = db.relations) :
    Saved log db' :=
  ⟨hsame ▸ h.unmoved, hsame ▸ h.rows, h.numbers⟩

/-- What was not the latest might as well never have been saved. -/
theorem Saved.condense (h : Saved log db) : Saved (latest log) db where
  unmoved := h.unmoved
  rows := by rw [latest_of_nodup (nodup_latest log), h.rows]
  numbers s hs := h.numbers s (mem_of_mem_latest hs)

/-! ### What is read again -/

theorem readStrengths_row (saves : List Save) :
    (saves.map Save.row).mapM (fun r => r.strength.toReal.map (r.target, ·))
      = .ok (saves.map fun s => (s.target.text, s.candidate.strength)) := by
  rw [List.mapM_map]
  exact mapM_eq_ok fun s _ => rfl

theorem readTargets_text (saves : List Save) :
    (saves.map fun s => (s.target.text, s.candidate.strength)).mapM
      (fun (target, strength) => return (⟨← readId target, strength⟩ : Candidate Float))
      = .ok (saves.map Save.candidate) := by
  rw [List.mapM_map]
  refine mapM_eq_ok fun s _ => ?_
  simp only [Function.comp, readId_text]
  rfl

/-- What is found are the latest relations of a source, sorted by their strengths. -/
theorem Saved.relationsOf_eq (h : Saved log db) (source : NodeId) : relationsOf source db
    = (.ok ((((latest log).filter fun s => s.source = source).map Save.candidate).mergeSort
        fun c d => decide (d.strength ≤ c.strength)), db) := by
  obtain ⟨kept, hkept⟩ : ∃ kept, kept = (latest log).filter fun s => s.source = source := ⟨_, rfl⟩
  have hrows : db.relations.toList.filter (fun r => r.source = source.text)
      = kept.map Save.row := by
    have hsource : (fun r : RelationRow => decide (r.source = source.text)) ∘ Save.row
        = fun s => decide (s.source = source) := by
      funext s
      simp [Save.row, NodeId.text_inj]
    rw [h.rows, List.filter_map, hsource, hkept]
  -- What is sorted are texts and strengths; relations sort alike.
  have hpairs := List.map_mergeSort (l := kept)
    (r := fun s x => decide (x.candidate.strength ≤ s.candidate.strength))
    (s := fun a b : String × Float => decide (b.2 ≤ a.2))
    (f := fun s => (s.target.text, s.candidate.strength)) fun _ _ _ _ => rfl
  have hcandidates := List.map_mergeSort (l := kept)
    (r := fun s x => decide (x.candidate.strength ≤ s.candidate.strength))
    (s := fun c d : Candidate Float => decide (d.strength ≤ c.strength))
    (f := Save.candidate) fun _ _ _ _ => rfl
  rw [relationsOf, ask, ← hkept, ← hcandidates]
  dsimp only
  rw [hrows, readStrengths_row]
  show ((List.mapM _ (List.mergeSort _ _) : Except StoreError _), db) = _
  rw [← hpairs]
  exact congrArg (·, db) (readTargets_text _)

/-- What is found of a source, given all that was saved: one relation to each target that any was
saved to, as strong as the latest one; the strongest first, and equally strong ones in the order
in which they were saved. -/
structure Recalls (log : List Save) (source : NodeId) (found : List (Candidate Float)) :
    Prop where
  once : (found.map Candidate.id).Nodup
  saved : ∀ target, target ∈ found.map Candidate.id ↔
    ∃ s ∈ log, s.source = source ∧ s.target = target
  strength : ∀ front s later, log = front ++ s :: later → s.source = source →
    (∀ x ∈ later, x.pair ≠ s.pair) → ∃ c ∈ found, c.id = s.target ∧ (c.strength == s.strength) = true
  ranked : Ranked (fun c d => decide (d.strength ≤ c.strength))
    (((latest log).filter fun s => s.source = source).map Save.candidate) found

/-- Numbers are ranked by their strengths. -/
theorem ranked_by_strength {items : List (Candidate Float)}
    (hitems : ∀ c ∈ items, c.strength.isNaN = false) :
    Ranked (fun c d => decide (d.strength ≤ c.strength)) items
      (items.mergeSort fun c d => decide (d.strength ≤ c.strength)) := by
  refine ranked_mergeSort_of_agree
    ((comparable_ge Int).on fun c : Candidate Float => Strength.height c.strength) ?_
  intro c hc d hd
  rw [decide_eq_decide]
  exact (Strength.le_iff_height_le (hitems d hd) (hitems c hc)).symm

/-- The latest relations of a source have different targets. -/
theorem nodup_targets (log : List Save) (source : NodeId) :
    (((latest log).filter fun s => s.source = source).map Save.target).Nodup := by
  refine List.Nodup.of_map (fun target => (source, target)) ?_
  have hpairs : (((latest log).filter fun s => s.source = source).map Save.target).map
      (fun target => (source, target))
      = ((latest log).filter fun s => s.source = source).map Save.pair := by
    rw [List.map_map]
    refine List.map_congr_left fun s hs => ?_
    rw [Function.comp, Save.pair, of_decide_eq_true (List.mem_filter.mp hs).2]
  rw [hpairs]
  exact (nodup_latest log).sublist (List.filter_sublist.map Save.pair)

/-- They lead to whatever any relation was saved to. -/
theorem mem_targets_iff {source target : NodeId} :
    target ∈ ((latest log).filter fun s => s.source = source).map Save.target ↔
      ∃ s ∈ log, s.source = source ∧ s.target = target := by
  constructor
  · intro htarget
    obtain ⟨s, hs, rfl⟩ := List.mem_map.mp htarget
    obtain ⟨hs, hsource⟩ := List.mem_filter.mp hs
    exact ⟨s, mem_of_mem_latest hs, of_decide_eq_true hsource, rfl⟩
  · rintro ⟨s, hs, rfl, rfl⟩
    obtain ⟨x, hx, hpair⟩ := List.mem_map.mp
      (pair_mem_latest_iff.mpr (List.mem_map_of_mem (f := Save.pair) hs))
    obtain ⟨hsource, htarget⟩ := Prod.mk.inj hpair
    exact List.mem_map.mpr ⟨x, List.mem_filter.mpr ⟨hx, decide_eq_true hsource⟩, htarget⟩

theorem Saved.recalls (h : Saved log db) (source : NodeId) :
    ∃ found, relationsOf source db = (.ok found, db) ∧ Recalls log source found := by
  refine ⟨_, h.relationsOf_eq source, ?_⟩
  have hnumbers : ∀ c ∈ ((latest log).filter fun s => s.source = source).map Save.candidate,
      c.strength.isNaN = false := by
    intro c hc
    obtain ⟨s, hs, rfl⟩ := List.mem_map.mp hc
    exact Strength.isNaN_unsigned (h.numbers s (mem_of_mem_latest (List.mem_filter.mp hs).1))
  have ranked := ranked_by_strength hnumbers
  have hids : (((latest log).filter fun s => s.source = source).map Save.candidate).map Candidate.id
      = ((latest log).filter fun s => s.source = source).map Save.target := List.map_map
  refine ⟨?_, fun target => ?_, fun front s later hlog hsource hlater => ?_, ranked⟩
  · rw [(ranked.perm.map Candidate.id).nodup_iff, hids]
    exact nodup_targets log source
  · rw [(ranked.perm.map Candidate.id).mem_iff, hids]
    exact mem_targets_iff
  · subst hlog
    refine ⟨s.candidate, ranked.mem_iff.mpr (List.mem_map_of_mem (List.mem_filter.mpr
      ⟨mem_latest hlater, decide_eq_true hsource⟩)), rfl, Strength.unsigned_beq (h.numbers s ?_)⟩
    exact List.mem_append_right front List.mem_cons_self

end Database

end Ideas
