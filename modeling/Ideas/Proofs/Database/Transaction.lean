/-
Computations inside a transaction and outside of one.

The database notes whether a transaction is open, and a statement does not look there.  So
a computation made of statements does the same inside a transaction as outside of one
(`Blind`), and unification is such a computation, for all that it asks for are statements
(`translates_within`).

A batch does look: outside of a transaction it opens one of its own.  But it closes it
again, and so it leaves a transaction open or closed as it found it (`Keeps`), as every
call and every other query does.
-/
import Ideas.Proofs.Database.Requests
import Ideas.Proofs.Request
import Ideas.Proofs.Translation

namespace Ideas

open NodeStore

namespace Database

variable {ε α β : Type} {db : Database}

/-- The database with a transaction open, or with none. -/
def within (isOpen : Bool) (db : Database) : Database :=
  { db with inTransaction := isOpen }

@[simp] theorem inTransaction_within (isOpen : Bool) (db : Database) :
    (db.within isOpen).inTransaction = isOpen := rfl

@[simp] theorem within_within (isOpen wasOpen : Bool) (db : Database) :
    (db.within wasOpen).within isOpen = db.within isOpen := rfl

@[simp] theorem generationRow?_within (isOpen : Bool) (db : Database) (owner : String) :
    (db.within isOpen).generationRow? owner = db.generationRow? owner := rfl

theorem within_self {isOpen : Bool} (h : db.inTransaction = isOpen) : db.within isOpen = db := by
  cases h
  rfl

/-! ### Computations that do not look whether a transaction is open -/

/-- Whether a transaction is open makes no difference to a computation. -/
def Blind (act : ExceptT ε (StateM Database) α) : Prop :=
  ∀ isOpen, Carries (within isOpen) act act

theorem blind_pure (a : α) : Blind (pure a : ExceptT ε (StateM Database) α) :=
  fun _ => carries_pure a

theorem blind_throw (e : ε) : Blind (throw e : ExceptT ε (StateM Database) α) :=
  fun _ => carries_throw e

theorem Blind.bind {act : ExceptT ε (StateM Database) α} {f : α → ExceptT ε (StateM Database) β}
    (h : Blind act) (hf : ∀ a, Blind (f a)) : Blind (act >>= f) :=
  fun isOpen => (h isOpen).bind fun a => hf a isOpen

theorem blind_ask {f : Database → Except StoreError α}
    (hf : ∀ isOpen db, f (within isOpen db) = f db) : Blind (ask f) := by
  intro isOpen db
  rw [ask, hf]
  rfl

theorem blind_statement {f : Database → Except StoreError (α × Database)}
    (hf : ∀ isOpen db, f (within isOpen db) = (f db).map fun r => (r.1, r.2.within isOpen)) :
    Blind (statement f) := by
  intro isOpen db
  rw [statement, hf]
  cases hrun : f db with
  | error e => rw [statement, hrun]; rfl
  | ok r => rw [statement, hrun]; rfl

theorem Blind.toAction {q : Query α} (h : Blind q) : Blind q.toAction := by
  intro isOpen db
  have hrun := h isOpen db
  rw [toAction_eq hrun, toAction_eq (Prod.eta (q db)).symm]

theorem Blind.orNotFound {q : Query Bool} (h : Blind q) (id : NodeId) :
    Blind (q.orNotFound id) := by
  refine h.toAction.bind fun found => ?_
  cases found with
  | true => exact blind_pure ()
  | false => exact blind_throw _

theorem blind_getMetadata (key : String) : Blind (getMetadata key) :=
  blind_ask fun _ _ => rfl

theorem blind_setMetadata (key value : String) : Blind (setMetadata key value) :=
  blind_statement fun _ _ => rfl

theorem blind_getSchemaVersion : Blind getSchemaVersion :=
  (blind_getMetadata versionKey).bind fun _ => blind_pure _

theorem blind_loadNode (id : NodeId) : Blind (loadNode id) :=
  blind_ask fun _ _ => rfl

theorem blind_saveNode (n : Node) : Blind (saveNode n) := by
  refine (blind_ask fun _ _ => rfl).bind fun r => blind_statement fun isOpen db => ?_
  dsimp only [within]
  split <;> rfl

theorem blind_updateNode (id : NodeId) (u : Update) : Blind (updateNode id u) := by
  refine (blind_ask fun _ _ => rfl).bind fun generation => ?_
  split
  · exact (blind_loadNode id).bind fun _ => blind_pure _
  · refine (blind_statement fun _ _ => rfl).bind fun changed => ?_
    split
    · refine (blind_loadNode id).bind fun found => ?_
      split
      · exact blind_throw _
      · exact blind_pure _
    · exact blind_pure _

theorem blind_bumpGeneration (owner : String) : Blind (bumpGeneration owner) := by
  refine Blind.bind (blind_statement fun isOpen db => ?_) fun cell => ?_
  · rw [generationRow?_within]
    cases db.generationRow? owner <;> rfl
  · exact (blind_ask fun _ _ => rfl).bind fun _ => blind_ask fun _ _ => rfl

theorem blind_loadIdea (id : NodeId) : Blind (loadIdea id) :=
  blind_ask fun _ _ => rfl

theorem blind_insertIdea (r : IdeaRow) : Blind (insertIdea r) := by
  refine blind_statement fun isOpen db => ?_
  dsimp only [within]
  split
  · rfl
  · split <;> rfl

theorem blind_listIdeas (owner : String) (includeArchived : Bool) :
    Blind (listIdeas owner includeArchived) :=
  blind_ask fun _ _ => rfl

theorem blind_setArchived (id : NodeId) (archived : Bool) : Blind (setArchived id archived) :=
  blind_statement fun _ _ => rfl

theorem blind_putRelation (source : NodeId) (c : Candidate Float) :
    Blind (putRelation source c) := by
  refine blind_statement fun isOpen db => ?_
  dsimp only [within]
  split
  · rfl
  · split <;> rfl

theorem blind_putRelations (source : NodeId) (candidates : List (Candidate Float)) :
    Blind (candidates.forM (putRelation source)) := by
  induction candidates with
  | nil => exact blind_pure ()
  | cons c rest ih => exact (blind_putRelation source c).bind fun _ => ih

theorem blind_relationsOf (source : NodeId) : Blind (relationsOf source) :=
  blind_ask fun _ _ => rfl

/-- The requests of a unification are statements. -/
theorem translates_within (isOpen : Bool) : Translates (within isOpen) where
  nodeCount_eq _ := rfl
  get id := (blind_loadNode id).toAction isOpen
  create n := (blind_saveNode n).toAction isOpen
  update id u := (blind_updateNode id u).orNotFound id isOpen
  nextGeneration owner := (blind_bumpGeneration owner).toAction isOpen

/-! ### Computations that leave a transaction as it is -/

/-- A transaction stays open or closed. -/
def Keeps (act : Database → α × Database) : Prop :=
  ∀ db, (act db).2.inTransaction = db.inTransaction

theorem Blind.keeps {act : ExceptT ε (StateM Database) α} (h : Blind act) : Keeps act := by
  intro db
  have hrun := h db.inTransaction db
  rw [within_self rfl] at hrun
  rw [hrun]
  rfl

theorem Keeps.bind {act : StateM Database α} {f : α → StateM Database β} (h : Keeps act)
    (hf : ∀ a, Keeps (f a)) : Keeps (act >>= f) :=
  fun db => (hf _ _).trans (h db)

theorem Keeps.attempt? {act : Action Database α} (h : Keeps act) : Keeps (attempt? act) := by
  have hrun : Keeps act.run := h
  refine hrun.bind fun r => ?_
  cases r <;> exact fun _ => rfl

/-- A transaction of its own is closed when it ends. -/
theorem Keeps.atomically {act : ExceptT ε (StateM Database) α} (h : Keeps act) :
    Keeps (atomically act) := by
  intro db
  cases hopen : db.inTransaction with
  | true =>
      have hjoins : Database.atomically act db = act db := transaction_of_inTransaction hopen
      rw [hjoins, h, hopen]
  | false =>
      rcases hrun : act { db with inTransaction := true } with ⟨e | a, after⟩
      · rw [atomically_eq_of_error hopen hrun]
        exact hopen
      · rw [atomically_eq_of_ok hopen hrun]

theorem keeps_saveIdea (i : Idea) (n : Node) : Keeps (saveIdea i n) := by
  have hbatch : Blind (do saveNode n; insertIdea (.ofIdea i) : Query Unit) :=
    (blind_saveNode n).bind fun _ => blind_insertIdea _
  intro db
  show ((if i.id ≠ n.id then _ else _ : Query Unit) db).2.inTransaction = _
  split
  · rfl
  · exact hbatch.keeps.atomically db

theorem keeps_saveRelations (source : NodeId) (candidates : List (Candidate Float)) :
    Keeps (saveRelations source candidates) := by
  have hbatch : Blind (do candidates.forM (putRelation source); return candidates.length :
      Query Nat) := (blind_putRelations source candidates).bind fun _ => blind_pure _
  exact hbatch.keeps.atomically

theorem keeps_createIdea (i : Idea) (n : Node) :
    Keeps (createIdea i n : Action Database Unit) := by
  intro db
  have hrun := toAction_eq (Prod.eta (saveIdea i n db)).symm
  show ((saveIdea i n).toAction db).2.inTransaction = _
  rw [hrun]
  exact keeps_saveIdea i n db

theorem keeps_discovery (settings : DiscoverySettings) (id : NodeId) :
    Keeps (discovery settings id : Action Database _) := by
  have hidea : Keeps (getIdea id : Action Database _) := (blind_loadIdea id).toAction.keeps
  have hactive : ∀ owner, Keeps (listActive owner : Action Database _) :=
    fun owner => (blind_listIdeas owner false).toAction.keeps
  have hfound : Keeps (discoverRelations settings id : StateM Database _) := by
    refine hidea.attempt?.bind fun i => ?_
    match i with
    | none | some none => exact fun _ => rfl
    | some (some target) =>
        refine (hactive target.owner).attempt?.bind fun pool => ?_
        cases pool <;> exact fun _ => rfl
  exact hfound

/-- A call leaves a transaction open or closed. -/
theorem keeps_run (r : Request) : Keeps (r.run : Action Database _) := by
  have carried : ∀ {α : Type} {act : Action Database α},
      (∀ isOpen, Carries (within isOpen) act act) → Keeps act := fun h => Blind.keeps h
  cases r with
  | get id => exact carried fun isOpen => (translates_within isOpen).get id
  | require id => exact carried fun isOpen => (translates_within isOpen).require id
  | create n => exact carried fun isOpen => (translates_within isOpen).create n
  | update id u => exact carried fun isOpen => (translates_within isOpen).update id u
  | nextGeneration owner =>
      exact carried fun isOpen => (translates_within isOpen).nextGeneration owner
  | createIdea i n => exact keeps_createIdea i n
  | authorIdea i arcs => exact keeps_createIdea i _
  | getIdea id => exact (blind_loadIdea id).toAction.keeps
  | listActive owner => exact (blind_listIdeas owner false).toAction.keeps
  | archiveIdea id => exact ((blind_setArchived id true).orNotFound id).keeps
  | unifyCore a b => exact carried fun isOpen => (translates_within isOpen).unifyCore a b
  | unify fresh a b => exact carried fun isOpen => (translates_within isOpen).unify fresh a b
  | dereference id => exact carried fun isOpen => (translates_within isOpen).dereference id
  | forwardChain id => exact carried fun isOpen => (translates_within isOpen).forwardChain id
  | materialize fresh id =>
      exact carried fun isOpen => (translates_within isOpen).materialize fresh id
  | discover settings id => exact keeps_discovery settings id

end Database

end Ideas
