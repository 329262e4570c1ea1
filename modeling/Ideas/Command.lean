/-
The command line.

An invocation names a command and its operands.  Three options belong to every
command and may stand before its name as well as behind it; where they stand in both
places, the inner one counts.  Ids may have blanks around them, an energy is a whole
number from one to five, and a limit is a whole number without a minus sign.
Arguments that do not make an invocation are refused as a whole, before anything is
opened.
-/
import Ideas.Command.ArcArgument
import Ideas.Command.Arguments
import Ideas.Decimal.Integer
import Ideas.Draft

namespace Ideas

open Arguments (Rule Setting)

/-- What the program is asked to do. -/
inductive Command where
  /-- Serve tools until the input ends. -/
  | serve
  /-- Store a new idea. -/
  | add (draft : Draft)
  /-- Show a node, its idea and its forward chain. -/
  | inspect (id : NodeId) (asJson : Bool)
  /-- Unify two nodes; `atomic` takes everything back on a failure. -/
  | unify (a b : NodeId) (atomic : Bool)
  /-- List the ideas related to an idea, and perhaps save the list. -/
  | discover (id : NodeId) (limit : Option Nat) (save : Bool)
  /-- Score two ideas against each other. -/
  | score (a b : NodeId)
  | archive (id : NodeId)
  /-- Count what is stored. -/
  | count

/-- A command with the options that belong to every command. -/
structure Invocation where
  dataDir : Option String
  owner : Option String
  /-- Whether to tell more than the answer. -/
  verbose : Bool
  command : Command

namespace Command

/-! ### Operands -/

/-- Read an energy. -/
def energy? (s : String) : Option UInt8 :=
  match Decimal.readInt64? s.toList with
  | some n =>
    if minEnergy.toNat ≤ n.toNat ∧ n.toNat ≤ maxEnergy.toNat then some n.toNat.toUInt8 else none
  | none => none

/-- Read a limit. -/
def limit? (s : String) : Option Nat :=
  if s.startsWith "-" then none
  else ((Decimal.readInt? s.toList).map Int.toNat).filter (· ≤ Decimal.greatestWord)

/-- Read the value of an option that may be missing. -/
def optional {α : Type} (read : String → Option α) : Option String → Option (Option α)
  | none => some none
  | some s => (read s).map some

/-! ### Options -/

/-- The options of every command. -/
def sharedRules : List Rule :=
  [⟨"data-dir", true, false⟩, ⟨"owner", true, false⟩, ⟨"verbose", false, false⟩]

/-- The options that a command has beside those of every command, if there is a command of that
name. -/
def rules? (name : String) : Option (List Rule) :=
  match name with
  | "serve" | "score" | "archive" | "stats" => some []
  | "add" => some
    [⟨"content", true, false⟩, ⟨"tag", true, true⟩, ⟨"energy", true, false⟩, ⟨"arc", true, true⟩]
  | "show" => some [⟨"json", false, false⟩]
  | "unify" => some [⟨"atomic", false, false⟩]
  | "discover" => some [⟨"limit", true, false⟩, ⟨"save", false, false⟩]
  | _ => none

/-- The draft that an added idea is made from. -/
def draft? (title : String) (settings : List Setting) : Option Draft := do
  let energy ← optional energy? (Arguments.value? "energy" settings)
  let arcs ← (Arguments.values "arc" settings).mapM fun s => (Arc.ofArgument s).toOption
  return {
    title, arcs
    content := Arguments.value? "content" settings
    tags := Arguments.values "tag" settings
    energy := energy.getD minEnergy }

/-- The command of a name with its options and its words. -/
def ofParts? (name : String) (settings : List Setting) (words : List String) :
    Option Command := do
  match name, words with
  | "serve", [] => return .serve
  | "add", [title] => return .add (← draft? title settings)
  | "show", [id] => return .inspect (← NodeId.readTrimmed? id) (Arguments.given "json" settings)
  | "unify", [a, b] =>
    return .unify (← NodeId.readTrimmed? a) (← NodeId.readTrimmed? b)
      (Arguments.given "atomic" settings)
  | "discover", [id] =>
    return .discover (← NodeId.readTrimmed? id)
      (← optional limit? (Arguments.value? "limit" settings)) (Arguments.given "save" settings)
  | "score", [a, b] => return .score (← NodeId.readTrimmed? a) (← NodeId.readTrimmed? b)
  | "archive", [id] => return .archive (← NodeId.readTrimmed? id)
  | "stats", [] => return .count
  | _, _ => none

end Command

namespace Invocation

/-- Whether the path of a data directory is usable: it must not be empty. -/
def admitsDataDir (settings : List Setting) : Bool :=
  Arguments.value? "data-dir" settings ≠ some ""

/-- Read the arguments of the program; no answer where they are refused. -/
def ofArguments? (arguments : List String) : Option Invocation := do
  let (outer, rest) ← Arguments.read? Command.sharedRules true arguments
  match rest with
  | [] => none
  | name :: operands =>
    let rules ← Command.rules? name
    let (inner, words) ← Arguments.read? (Command.sharedRules ++ rules) false operands
    if !admitsDataDir outer || !admitsDataDir inner then none
    let value? := fun option =>
      (Arguments.value? option inner).or (Arguments.value? option outer)
    return {
      dataDir := value? "data-dir"
      owner := value? "owner"
      verbose := Arguments.given "verbose" inner || Arguments.given "verbose" outer
      command := ← Command.ofParts? name inner words }

end Invocation

end Ideas
