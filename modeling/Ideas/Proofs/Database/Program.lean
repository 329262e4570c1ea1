/-
Programs on the database, with blocks that run atomically.

A `Program` takes one step after the other, and what it does next depends on what the
steps before it came to.  A step that fails is no end of it: its failure is an answer like
any other.  A block is a program of its own that runs atomically, and it may hold blocks
again.  Whether a block is a transaction or only a part of one is not written anywhere in
the program, but depends on where it is run.

`erase` takes the blocks away and leaves their steps in place.  Inside an open transaction
that makes no difference (`run_erase`), because a transaction stays open for all that is
run in it (`keeps_run`).  So the outermost block is the only one that counts: if it fails,
all is as it was, and if not, all is as its steps have left it (`atomic_blocks`).
-/
import Ideas.Proofs.Database.Transaction

namespace Ideas

namespace Database

/-! ### Programs -/

/-- A step of a program: a query of the database, or a call. -/
inductive Step where
  | getMetadata (key : String)
  | setMetadata (key value : String)
  | prepare
  | getSchemaVersion
  | loadNode (id : NodeId)
  | saveNode (n : Node)
  | updateNode (id : NodeId) (u : Update)
  | bumpGeneration (owner : String)
  | loadIdea (id : NodeId)
  | saveIdea (i : Idea) (n : Node)
  | listIdeas (owner : String) (includeArchived : Bool)
  | setArchived (id : NodeId) (archived : Bool)
  | saveRelations (source : NodeId) (candidates : List (Candidate Float))
  | relationsOf (source : NodeId)
  | statistics
  | call (r : Request)

namespace Step

/-- What a step answers with, be it a value or a failure. -/
def Answer : Step → Type
  | getMetadata _ => Except StoreError (Option String)
  | setMetadata _ _ | prepare | saveNode _ | saveIdea _ _ => Except StoreError Unit
  | getSchemaVersion => Except StoreError (Option Int)
  | loadNode _ => Except StoreError (Option Node)
  | updateNode _ _ | setArchived _ _ => Except StoreError Bool
  | bumpGeneration _ | saveRelations _ _ => Except StoreError Nat
  | loadIdea _ => Except StoreError (Option Idea)
  | listIdeas _ _ => Except StoreError (List Idea)
  | relationsOf _ => Except StoreError (List (Candidate Float))
  | statistics => Statistics
  | call r => Except EngineError r.Answer

/-- Take a step. -/
def run : (s : Step) → Database → s.Answer × Database
  | getMetadata key => Database.getMetadata key
  | setMetadata key value => Database.setMetadata key value
  | prepare => Database.prepare
  | getSchemaVersion => Database.getSchemaVersion
  | loadNode id => Database.loadNode id
  | saveNode n => Database.saveNode n
  | updateNode id u => Database.updateNode id u
  | bumpGeneration owner => Database.bumpGeneration owner
  | loadIdea id => Database.loadIdea id
  | saveIdea i n => Database.saveIdea i n
  | listIdeas owner includeArchived => Database.listIdeas owner includeArchived
  | setArchived id archived => Database.setArchived id archived
  | saveRelations source candidates => Database.saveRelations source candidates
  | relationsOf source => Database.relationsOf source
  | statistics => fun db => (Database.statistics db, db)
  | call r => r.run

/-- A step leaves a transaction open or closed. -/
theorem keeps_run (s : Step) : Keeps s.run := by
  cases s with
  | getMetadata key => exact (blind_getMetadata key).keeps
  | setMetadata key value => exact (blind_setMetadata key value).keeps
  | prepare => exact (blind_setMetadata _ _).keeps
  | getSchemaVersion => exact blind_getSchemaVersion.keeps
  | loadNode id => exact (blind_loadNode id).keeps
  | saveNode n => exact (blind_saveNode n).keeps
  | updateNode id u => exact (blind_updateNode id u).keeps
  | bumpGeneration owner => exact (blind_bumpGeneration owner).keeps
  | loadIdea id => exact (blind_loadIdea id).keeps
  | saveIdea i n => exact keeps_saveIdea i n
  | listIdeas owner includeArchived => exact (blind_listIdeas owner includeArchived).keeps
  | setArchived id archived => exact (blind_setArchived id archived).keeps
  | saveRelations source candidates => exact keeps_saveRelations source candidates
  | relationsOf source => exact (blind_relationsOf source).keeps
  | statistics => exact fun _ => rfl
  | call r => exact Database.keeps_run r

end Step

/-- A program that ends with a value. -/
inductive Program : Type → Type 1
  | done {α : Type} (a : α) : Program α
  | step {α : Type} (s : Step) (next : s.Answer → Program α) : Program α
  /-- A program that may fail, run atomically; what comes next is told how it ended. -/
  | block {ε α β : Type} (body : Program (Except ε β)) (next : Except ε β → Program α) : Program α

namespace Program

variable {α β : Type} {db : Database}

/-- Run a program. -/
def run {α : Type} : Program α → Database → α × Database
  | .done a, db => (a, db)
  | .step s next, db =>
    let (answer, db) := s.run db
    (next answer).run db
  | .block body next, db =>
    let (answer, db) := atomically (fun db => body.run db) db
    (next answer).run db

/-- One program after another. -/
def bind {α β : Type} : Program α → (α → Program β) → Program β
  | .done a, f => f a
  | .step s next, f => .step s fun answer => (next answer).bind f
  | .block body next, f => .block body fun answer => (next answer).bind f

/-- The program without its blocks: their steps are taken in their place. -/
def erase {α : Type} : Program α → Program α
  | .done a => .done a
  | .step s next => .step s fun answer => (next answer).erase
  | .block body next => body.erase.bind fun answer => (next answer).erase

/-- A program without blocks. -/
inductive Flat : {α : Type} → Program α → Prop
  | done {α : Type} (a : α) : Flat (.done a)
  | step {α : Type} (s : Step) (next : s.Answer → Program α) (h : ∀ answer, Flat (next answer)) :
      Flat (.step s next)

/-! ### Erasing blocks -/

theorem Flat.bind {p : Program α} (h : p.Flat) {f : α → Program β} (hf : ∀ a, (f a).Flat) :
    (p.bind f).Flat := by
  induction h with
  | done a => exact hf a
  | step s next _ ih => exact .step s _ ih

/-- Nothing is left to erase. -/
theorem flat_erase (p : Program α) : p.erase.Flat := by
  induction p with
  | done a => exact .done a
  | step s next ih => exact .step s _ ih
  | block body next ihBody ih => exact ihBody.bind ih

theorem run_bind (p : Program α) (f : α → Program β) (db : Database) :
    (p.bind f).run db = (f (p.run db).1).run (p.run db).2 := by
  induction p generalizing db with
  | done a => rfl
  | step s next ih => exact ih _ f _
  | block body next _ ih => exact ih _ f _

/-- A program leaves a transaction open or closed, and so do its blocks. -/
theorem keeps_run (p : Program α) : Keeps p.run := by
  induction p with
  | done a => exact fun _ => rfl
  | step s next ih => exact fun db => (ih _ _).trans (s.keeps_run db)
  | block body next ihBody ih => exact fun db => (ih _ _).trans (ihBody.atomically db)

/-- Inside an open transaction a program does what it does without its blocks. -/
theorem run_erase (p : Program α) (hopen : db.inTransaction = true) :
    p.erase.run db = p.run db := by
  induction p generalizing db with
  | done a => rfl
  | step s next ih => exact ih _ ((s.keeps_run db).trans hopen)
  | block body next ihBody ih =>
      -- The block joins the transaction, and the transaction is still open after it.
      have hjoins : atomically (fun db => body.run db) db = body.run db :=
        transaction_of_inTransaction hopen
      have hstays : (body.run db).2.inTransaction = true := (body.keeps_run db).trans hopen
      rw [erase, run_bind, ihBody hopen, ih _ hstays, run, hjoins]

end Program

/-! ### The outermost block -/

/-- Unification does the same in a transaction of its own, unless it fails. -/
theorem atomically_unify {db : Database} (closed : db.inTransaction = false)
    (fresh a b : NodeId) :
    (∀ u, (unify fresh a b db).1 = .ok u →
      atomically (unify fresh a b) db = unify fresh a b db) ∧
    ∀ e, (unify fresh a b db).1 = .error e →
      atomically (unify fresh a b) db = (.error e, db) := by
  have hinside := (translates_within true).unify fresh a b db
  rcases hrun : unify fresh a b db with ⟨r, after⟩
  rw [hrun] at hinside
  have hclosed : after.inTransaction = false := by
    have hkeeps := keeps_run (.unify fresh a b) db
    rw [closed] at hkeeps
    rw [← hkeeps]
    exact congrArg (·.2.inTransaction) hrun.symm
  refine ⟨?_, ?_⟩
  · rintro u rfl
    rw [atomically_eq_of_ok closed hinside]
    exact congrArg _ (within_self hclosed)
  · rintro e rfl
    exact atomically_eq_of_error closed hinside

/-- An outermost block of a program either fails and leaves all tables as they were, or leaves them
as its steps do in one transaction, whatever blocks they stood in; and it answers as these
steps do.  A block inside another one is no more than its steps, so that what it wrote stays
even if it failed.  To unify atomically comes to the same as to unify, and leaves everything
as it was where that fails. -/
theorem atomic_blocks {db : Database} (closed : db.inTransaction = false) :
    (∀ (ε α : Type) (body : Program (Except ε α)), body.erase.Flat ∧
      (∀ e, (atomically body.run db).1 = .error e →
        (atomically body.run db).2 = db ∧
        (body.erase.run { db with inTransaction := true }).1 = .error e) ∧
      ∀ a, (atomically body.run db).1 = .ok a →
        ∃ after, body.erase.run { db with inTransaction := true } = (.ok a, after) ∧
          (atomically body.run db).2 = { after with inTransaction := false }) ∧
    (∀ (ε α : Type) (body : Program (Except ε α)) (inner : Database),
      inner.inTransaction = true → atomically body.run inner = body.erase.run inner) ∧
    ∀ fresh a b,
      (∀ u, (unify fresh a b db).1 = .ok u →
        atomically (unify fresh a b) db = unify fresh a b db) ∧
      ∀ e, (unify fresh a b db).1 = .error e →
        atomically (unify fresh a b) db = (.error e, db) := by
  refine ⟨?_, ?_, atomically_unify closed⟩
  · intro ε α body
    have herase : body.erase.run { db with inTransaction := true }
        = body.run { db with inTransaction := true } := body.run_erase rfl
    rw [herase]
    rcases hrun : body.run { db with inTransaction := true } with ⟨e | a, after⟩
    · have hfails : atomically body.run db = (.error e, db) := atomically_eq_of_error closed hrun
      rw [hfails]
      refine ⟨body.flat_erase, fun _ he => ⟨rfl, he⟩, ?_⟩
      rintro _ ⟨⟩
    · have hends : atomically body.run db = (.ok a, { after with inTransaction := false }) :=
        atomically_eq_of_ok closed hrun
      rw [hends]
      refine ⟨body.flat_erase, ?_, ?_⟩
      · rintro _ ⟨⟩
      · rintro _ ⟨⟩
        exact ⟨after, rfl, rfl⟩
  · intro ε α body inner hopen
    rw [body.run_erase hopen]
    exact transaction_of_inTransaction hopen

/-- A block that fails after it wrote, inside of one that goes on all the same. -/
def tolerant : Program (Except StoreError Unit) :=
  .block (.step (.setMetadata "draft" "1") fun _ =>
      .done (.error .mismatch : Except StoreError Unit))
    fun _ => .done (.ok ())

/-- A block that ends well, inside of one that is given up after it. -/
def abandoned : Program (Except StoreError Unit) :=
  .block (.step (.setMetadata "draft" "1") fun _ =>
      .done (.ok () : Except StoreError Unit))
    fun _ => .done (.error .mismatch)

/-- What the failing block wrote is there, and what the other one wrote is not. -/
theorem atomic_blocks_nested :
    fresh.inTransaction = false ∧
      (getMetadata "draft" (atomically tolerant.run fresh).2).1 = .ok (some "1") ∧
      (∃ after, tolerant.erase.run { fresh with inTransaction := true } = (.ok (), after) ∧
        (atomically tolerant.run fresh).2 = { after with inTransaction := false }) ∧
      (atomically abandoned.run fresh).2 = fresh := by
  have closed : fresh.inTransaction = false := rfl
  obtain ⟨hblocks, -, -⟩ := atomic_blocks closed
  have htolerant : (atomically tolerant.run fresh).1 = .ok () := by rfl
  have habandoned : (atomically abandoned.run fresh).1 = .error .mismatch := by rfl
  obtain ⟨-, -, hends⟩ := hblocks _ _ tolerant
  obtain ⟨-, hfails, -⟩ := hblocks _ _ abandoned
  exact ⟨closed, by rfl, hends _ htolerant, (hfails _ habandoned).1⟩

end Database

end Ideas
