/-
What can go wrong.

`StoreError` tells what a database or a data directory failed at, and `EngineError`
what an operation on the graph failed at.  Each cause has a constructor of its own,
and `message` is the only place where wording is.

The database refuses data that break a constraint, and data that cannot be what they
should be; both are faults of the data, and `EngineError.ofStore` makes integrity
errors of them.  All other failures of a store may go away by themselves, and only
those are worth a second try.
-/
import Ideas.Arc

namespace Ideas

/-- A rule of the tables that a statement broke. -/
inductive Constraint where
  /-- A row with these values of the named columns is there already. -/
  | unique (columns : String)
  /-- A row refers to a row that is not there. -/
  | foreignKey
  /-- The named column has to have a value. -/
  | notNull (column : String)
deriving DecidableEq, Repr

/-- The wording of a broken rule. -/
def Constraint.message : Constraint → String
  | .unique columns => "UNIQUE constraint failed: " ++ columns
  | .foreignKey => "FOREIGN KEY constraint failed"
  | .notNull column => "NOT NULL constraint failed: " ++ column

/-- Data that cannot be what they should be. -/
inductive InvalidData where
  /-- A stored text is no id. -/
  | badId (text : String)
  /-- A stored number that counts something is below zero. -/
  | negativeInteger (n : Int)
  /-- A number is too large for the tables. -/
  | integerOutOfRange (n : Nat)
  /-- A stored energy is no byte. -/
  | energyOutOfRange (n : Int)
  /-- An idea comes with a node of another id. -/
  | idMismatch (idea node : NodeId)
  /-- A threshold is not between zero and one. -/
  | thresholdOutOfRange (x : Float)

/-- The wording of invalid data. -/
def InvalidData.message : InvalidData → String
  | .badId text => "invalid UUID '" ++ text ++ "'"
  | .negativeInteger n => "negative integer: " ++ toString n
  | .integerOutOfRange n => "integer out of range: " ++ toString n
  | .energyOutOfRange n => "energy out of range: " ++ toString n
  | .idMismatch idea node =>
    "idea " ++ idea.text ++ " must share its node's id " ++ node.text
  | .thresholdOutOfRange x =>
    "discovery.threshold must be in [0, 1), got " ++ Decimal.plainText x

/-- What a store failed at. -/
inductive StoreError where
  /-- A statement broke a rule of the tables and was undone. -/
  | constraint (rule : Constraint)
  /-- A stored value does not fit the type it is read as. -/
  | mismatch
  /-- A stored text is not the JSON it should be. -/
  | json
  /-- A file could not be read or written. -/
  | io
  /-- What should be a database cannot be opened as one. -/
  | notADatabase
  /-- The settings cannot be read. -/
  | config
  | invalidData (cause : InvalidData)
  /-- The node was forwarded before. -/
  | forwardConflict (id : NodeId)
  /-- The store could not be reached. -/
  | unreachable (reason : String)

namespace StoreError

/-- The wording of a store's failure. -/
def message : StoreError → String
  | .constraint rule => "SQLite error: " ++ rule.message
  | .mismatch => "SQLite error"
  | .json => "JSON error"
  | .io => "I/O error"
  | .notADatabase => "SQLite error"
  | .config => "config error"
  | .invalidData cause => "invalid data: " ++ cause.message
  | .forwardConflict id => "node " ++ id.text ++ " is already forwarded"
  | .unreachable reason => reason

/-- Whether the data are at fault, so that trying again is of no use. -/
def isIntegrity : StoreError → Bool
  | .constraint _ => true
  | .invalidData _ => true
  | _ => false

end StoreError

/-- A broken promise of the stored data. -/
inductive Breach where
  /-- A node with this id is there already. -/
  | duplicateNode (id : NodeId)
  /-- An idea comes with a node of another id. -/
  | idMismatch (idea node : NodeId)
  /-- The store refuses the data. -/
  | stored (cause : StoreError)

/-- The wording of a broken promise. -/
def Breach.message : Breach → String
  | .duplicateNode id => "duplicate node id " ++ id.text
  | .idMismatch idea node =>
    "idea " ++ idea.text ++ " must share its node's id " ++ node.text
  | .stored cause => cause.message

/-- What an operation on the graph failed at. -/
inductive EngineError where
  | nodeNotFound (id : NodeId)
  /-- Following forward references came back to this node. -/
  | cycleDetected (id : NodeId)
  /-- Two leaves with different names have to be one node. -/
  | incompatibleLeaves (left right : String)
  | integrity (breach : Breach)
  | storeUnavailable (cause : StoreError)

namespace EngineError

/-- The wording of a failure. -/
def message : EngineError → String
  | .nodeNotFound id => "node not found: " ++ id.text
  | .cycleDetected id => "forward-reference cycle detected at node " ++ id.text
  | .incompatibleLeaves left right =>
    "incompatible leaves: '" ++ left ++ "' does not unify with '" ++ right ++ "'"
  | .integrity breach => "store integrity violation: " ++ breach.message
  | .storeUnavailable cause => "node store unavailable: " ++ cause.message

/-- Only a store that is unavailable may answer differently the next time. -/
def isRetryable : EngineError → Bool
  | .storeUnavailable _ => true
  | _ => false

/-- A store's failure as the graph sees it. -/
def ofStore (e : StoreError) : EngineError :=
  if e.isIntegrity then .integrity (.stored e) else .storeUnavailable e

end EngineError

end Ideas
