/-
The database: five tables, and what can be asked of them.

The rows of a table stand in the order in which they were added; one that replaces
another row counts as added then.  A statement either does all it should do or breaks
a rule of the tables and does nothing.  The rules are that keys are not used twice,
that an idea has the id of a stored node, that both ends of a relation are stored
ideas, and that a strength is a number.

A `Query` is made of statements; what was written before one of them failed stays
written, unless the query is a `batch` or runs `atomically`.  Both take everything
back when they fail, except inside a transaction that is already open: then they are
a part of it, and what they wrote stays until the outermost one ends.
-/
import Ideas.Database.Row
import Ideas.Database.Rows

namespace Ideas

/-- The five tables. -/
structure Database where
  metadata : Database.Rows Database.MetadataRow := {}
  nodes : Database.Rows Database.NodeRow := {}
  ideas : Database.Rows Database.IdeaRow := {}
  generations : Database.Rows Database.GenerationRow := {}
  relations : Database.Rows Database.RelationRow := {}
  /-- Whether a transaction is open. -/
  inTransaction : Bool := false

namespace Database

/-- A computation on the database. -/
abbrev Query (α : Type) := ExceptT StoreError (StateM Database) α

/-- Read from the tables. -/
def ask {α : Type} (f : Database → Except StoreError α) : Query α :=
  fun db => (f db, db)

/-- Run a statement; one that fails changes nothing. -/
def statement {α : Type} (f : Database → Except StoreError (α × Database)) : Query α :=
  fun db =>
    match f db with
    | .ok (a, db) => (.ok a, db)
    | .error e => (.error e, db)

/-- A statement that fails changes nothing. -/
theorem statement_eq_of_error {α : Type} {f : Database → Except StoreError (α × Database)}
    {db : Database} {e : StoreError} (h : f db = .error e) :
    statement f db = (.error e, db) := by
  simp [statement, h]

/-! ### Transactions -/

/-- Run `act` on a state that has a database in it, within one transaction: if it fails, the
tables are put back as they were.  Within an open transaction it becomes a part of that one. -/
def transaction {τ ε α : Type} (database : τ → Database) (put : Database → τ → τ)
    (act : τ → Except ε α × τ) (state : τ) : Except ε α × τ :=
  let before := database state
  if before.inTransaction then act state
  else
    match act (put { before with inTransaction := true } state) with
    | (.ok a, after) => (.ok a, put { database after with inTransaction := false } after)
    | (.error e, after) => (.error e, put before after)

/-- Run a computation on the database within one transaction. -/
def atomically {ε α : Type} (act : ExceptT ε (StateM Database) α) :
    ExceptT ε (StateM Database) α :=
  transaction id (fun db _ => db) act

/-- Several statements that belong together. -/
def batch {α : Type} (q : Query α) : Query α :=
  atomically q

/-- Inside an open transaction another one makes no difference. -/
theorem transaction_of_inTransaction {τ ε α : Type} {database : τ → Database}
    {put : Database → τ → τ} {act : τ → Except ε α × τ} {state : τ}
    (h : (database state).inTransaction) : transaction database put act state = act state := by
  simp [transaction, h]

/-- A transaction that fails leaves the database as it was. -/
theorem atomically_eq_of_error {ε α : Type} {act : ExceptT ε (StateM Database) α}
    {db after : Database} {e : ε} (hopen : db.inTransaction = false)
    (h : act { db with inTransaction := true } = (.error e, after)) :
    atomically act db = (.error e, db) := by
  simp [atomically, transaction, hopen, h]

/-- A transaction that succeeds keeps what it wrote. -/
theorem atomically_eq_of_ok {ε α : Type} {act : ExceptT ε (StateM Database) α}
    {db after : Database} {a : α} (hopen : db.inTransaction = false)
    (h : act { db with inTransaction := true } = (.ok a, after)) :
    atomically act db = (.ok a, { after with inTransaction := false }) := by
  simp [atomically, transaction, hopen, h]

/-! ### Properties of the database -/

/-- The value of a property. -/
def getMetadata (key : String) : Query (Option String) :=
  ask fun db =>
    .ok ((db.metadata.toList.find? fun r => r.key = some key).map MetadataRow.value)

/-- Set a property. -/
def setMetadata (key value : String) : Query Unit :=
  statement fun db =>
    .ok ((), { db with
      metadata := db.metadata.replace (fun r => r.key = some key) ⟨some key, value⟩ })

/-- The version of the tables that this library works on. -/
def schemaVersion : Nat := 1

/-- The property that holds the version of the tables. -/
def versionKey : String := "schema_version"

/-- Make the tables ready: note their version. -/
def prepare : Query Unit :=
  setMetadata versionKey (toString schemaVersion)

/-- The version of the tables, where it is noted; a note that is no number counts as zero. -/
def getSchemaVersion : Query (Option Int) := do
  return (← getMetadata versionKey).map fun s => (Decimal.readInt64? s.toList).getD 0

/-- A new database. -/
def fresh : Database :=
  (prepare.run {}).2

/-! ### Nodes -/

/-- The row of a node. -/
def nodeRow? (db : Database) (id : NodeId) : Option NodeRow :=
  db.nodes.toList.find? fun r => r.id = some id.text

/-- The node with an id, if there is one. -/
def loadNode (id : NodeId) : Query (Option Node) :=
  ask fun db =>
    match db.nodeRow? id with
    | none => .ok none
    | some r => r.toNode.map some

/-- Add a row to the table of nodes. -/
def insertNode (r : NodeRow) : Query Unit :=
  statement fun db =>
    if r.id.isSome ∧ r.id ∈ db.nodes.toList.map NodeRow.id then
      .error (.constraint (.unique "nodes.id"))
    else .ok ((), { db with nodes := db.nodes.insert r })

/-- Store a new node. -/
def saveNode (n : Node) : Query Unit := do
  insertNode (← ask fun _ => NodeRow.ofNode n)

/-- Overwrite fields of a node; the answer tells whether there is one with that id.  A forward
reference is written only where there is none. -/
def updateNode (id : NodeId) (u : Update) : Query Bool := do
  let generation ← ask fun _ => u.generation.mapM ofCount
  if u.isEmpty then
    return (← loadNode id).isSome
  let changed ← statement fun db =>
    let fits := fun (r : NodeRow) => r.id = some id.text ∧ (u.forward.isSome → r.forward.isNone)
    .ok (db.nodes.toList.any fun r => fits r, { db with
      nodes := db.nodes.modify (fun r => fits r) (·.overwrite u generation) })
  if !changed && u.forward.isSome then
    if (← loadNode id).isSome then
      throw (.forwardConflict id)
  return changed

/-! ### Generations -/

/-- The row of an owner's counter. -/
def generationRow? (db : Database) (owner : String) : Option GenerationRow :=
  db.generations.toList.find? fun r => r.owner = some owner

/-- Count the generation of an owner up by one, and answer with it. -/
def bumpGeneration (owner : String) : Query Nat := do
  let cell ← statement fun db =>
    match db.generationRow? owner with
    | none =>
      let first := Cell.integer (generationSeed + 1)
      .ok (first, { db with generations := db.generations.insert ⟨some owner, first⟩ })
    | some r =>
      let next := r.value.next
      .ok (next, { db with
        generations := db.generations.modify (fun r => r.owner = some owner) fun r =>
          { r with value := next } })
  let value ← ask fun _ => cell.toInteger
  ask fun _ => toCount value

/-! ### Ideas -/

/-- The idea with an id, if there is one. -/
def loadIdea (id : NodeId) : Query (Option Idea) :=
  ask fun db =>
    match db.ideas.toList.find? fun r => r.id = some id.text with
    | none => .ok none
    | some r => r.toIdea.map some

/-- Add a row to the table of ideas. -/
def insertIdea (r : IdeaRow) : Query Unit :=
  statement fun db =>
    if r.id.isSome ∧ r.id ∈ db.ideas.toList.map IdeaRow.id then
      .error (.constraint (.unique "ideas.id"))
    else if r.id.isSome ∧ r.id ∉ db.nodes.toList.map NodeRow.id then
      .error (.constraint .foreignKey)
    else .ok ((), { db with ideas := db.ideas.insert r })

/-- Store a new idea together with its node. -/
def saveIdea (idea : Idea) (node : Node) : Query Unit := do
  if idea.id ≠ node.id then
    throw (.invalidData (.idMismatch idea.id node.id))
  batch do
    saveNode node
    insertIdea (.ofIdea idea)

/-- The ideas of an owner in the order of their creation, archived ones on request. -/
def listIdeas (owner : String) (includeArchived : Bool) : Query (List Idea) :=
  ask fun db => do
    let rows := db.ideas.toList.filter fun r =>
      r.owner = owner && (includeArchived || r.archived.isInteger 0)
    let checked ← rows.mapM fun r => r.columns.map (r, ·)
    checked.mapM fun (r, columns) => r.ofColumns columns

/-- Set whether an idea is archived; the answer tells whether there is one with that id. -/
def setArchived (id : NodeId) (archived : Bool) : Query Bool :=
  statement fun db =>
    let fits := fun (r : IdeaRow) => r.id = some id.text
    .ok (db.ideas.toList.any fun r => fits r, { db with
      ideas := db.ideas.modify (fun r => fits r) fun r =>
        { r with archived := .integer (if archived then 1 else 0) } })

/-! ### Relations -/

/-- Write one relation, in the place of an earlier one between the same ideas. -/
def putRelation (source : NodeId) (c : Candidate Float) : Query Unit :=
  statement fun db =>
    let ids := db.ideas.toList.map IdeaRow.id
    if c.strength.isNaN then .error (.constraint (.notNull "relations.strength"))
    else if some source.text ∉ ids ∨ some c.id.text ∉ ids then .error (.constraint .foreignKey)
    else
      let earlier := fun (r : RelationRow) => r.source = source.text && r.target = c.id.text
      .ok ((), { db with
        relations := db.relations.replace earlier ⟨source.text, c.id.text, .realOf c.strength⟩ })

/-- Write the relations of an idea, each in the place of an earlier one; the answer is their
number. -/
def saveRelations (source : NodeId) (candidates : List (Candidate Float)) : Query Nat :=
  batch do
    candidates.forM (putRelation source)
    return candidates.length

/-- The relations of an idea, the strongest first, and of equally strong ones the one written
first. -/
def relationsOf (source : NodeId) : Query (List (Candidate Float)) :=
  ask fun db => do
    let rows := db.relations.toList.filter fun r => r.source = source.text
    let read ← rows.mapM fun r => r.strength.toReal.map (r.target, ·)
    let ranked := read.mergeSort fun a b => b.2 ≤ a.2
    ranked.mapM fun (target, strength) => return ⟨← readId target, strength⟩

/-! ### Statistics -/

/-- How much the tables hold. -/
structure Statistics where
  nodes : Nat
  ideas : Nat
  /-- Ideas that are archived. -/
  archived : Nat
  /-- Nodes with a forward reference. -/
  superseded : Nat
  /-- Nodes with a copy. -/
  materialized : Nat
  relations : Nat
deriving DecidableEq, Repr

/-- Count what the tables hold. -/
def statistics (db : Database) : Statistics :=
  { nodes := db.nodes.toList.length
    ideas := db.ideas.toList.length
    archived := db.ideas.toList.countP fun r => r.archived.isInteger 1
    superseded := db.nodes.toList.countP fun r => r.forward.isSome
    materialized := db.nodes.toList.countP fun r => r.copy.isSome
    relations := db.relations.toList.length }

/-! ### The database as a store of nodes -/

/-- A query as the graph sees it. -/
def Query.toAction {α : Type} (q : Query α) : Action Database α :=
  ExceptT.adapt EngineError.ofStore q

/-- A query that answers whether there is a node with the id. -/
def Query.orNotFound (q : Query Bool) (id : NodeId) : Action Database Unit := do
  if !(← q.toAction) then
    throw (.nodeNotFound id)

instance : NodeStore Database where
  nodeCount db := db.nodes.toList.length
  get id := (loadNode id).toAction
  create node := (saveNode node).toAction
  update id u := (updateNode id u).orNotFound id
  nextGeneration owner := (bumpGeneration owner).toAction
  getIdea id := (loadIdea id).toAction
  createIdea idea node := (saveIdea idea node).toAction
  listActive owner := (listIdeas owner false).toAction
  archiveIdea id := (setArchived id true).orNotFound id

end Database

end Ideas
