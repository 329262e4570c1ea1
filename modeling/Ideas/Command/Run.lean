/-
Carrying out commands.

A command works on the database of an open workspace and prints lines.  It stops at
its first failure; what it wrote and printed before stays.  A command makes at most
one new node, whose id is given to it.
-/
import Ideas.Command
import Ideas.Command.Report
import Ideas.Inspection
import Ideas.Unification
import Ideas.Workspace

namespace Ideas

open NodeStore

/-- The database a command works on, and what the command has printed. -/
structure Console where
  database : Database
  output : List String := []
  /-- What is told beside the answer. -/
  notes : List String := []
  /-- Whether there is anything to read on the input. -/
  hasInput : Bool := false

/-- A command that is carried out. -/
abbrev CommandM (α : Type) := ExceptT CommandError (StateM Console) α

namespace CommandM

/-- Print lines. -/
def print (lines : List String) : CommandM Unit :=
  modify fun console => { console with output := console.output ++ lines }

/-- Tell lines beside the answer. -/
def note (lines : List String) : CommandM Unit :=
  modify fun console => { console with notes := console.notes ++ lines }

/-- Work on the database. -/
def onDatabase {ε α : Type} (failure : ε → CommandError)
    (act : ExceptT ε (StateM Database) α) : CommandM α :=
  fun console =>
    let (result, database) := act console.database
    (result.mapError failure, { console with database })

/-- Work on the graph, in the course of an activity. -/
def engine {α : Type} (activity : Activity) (act : Action Database α) : CommandM α :=
  onDatabase (.engine activity) act

end CommandM

namespace Command

open CommandM

variable (workspace : Workspace)

/-- Store a new idea. -/
def runAdd (fresh : NodeId) (draft : Draft) : CommandM Unit := do
  engine .adding (draft.author fresh workspace.owner)
  print [fresh.text]

/-- An id, or a hyphen where there is none. -/
def orHyphen (id : Option NodeId) : String :=
  (id.map NodeId.text).getD "-"

/-- Arcs under a heading, if there are any. -/
def arcLines (heading : String) (arcs : List Arc) : List String :=
  if arcs.isEmpty then []
  else heading :: arcs.map fun arc => "  " ++ arc.label ++ " = " ++ arc.value.display

/-- A node for people. -/
def nodeLines (node : Node) (canonical : Option NodeId) : List String :=
  fieldLines 12 [
    ("id", node.id.text),
    ("type", node.kind.name),
    ("name", node.name.getD "-"),
    ("owner", node.owner),
    ("generation", toString node.generation),
    ("forward", orHyphen node.forward),
    ("copy", orHyphen node.copy),
    ("canonical", orHyphen canonical)]
  ++ arcLines "arcs:" node.arcs ++ arcLines "comp arcs:" node.complement

/-- An idea for people. -/
def ideaLines (idea : Idea) : List String :=
  fieldLines 12 ([
    ("title", idea.title),
    ("tags", ", ".intercalate idea.tags),
    ("energy", toString idea.energy.toNat),
    ("archived", toString idea.archived)]
  ++ (idea.content.map fun content => ("content", content)).toList)

/-- All that is shown of a node, for people. -/
def inspectionLines (i : Inspection) : List String :=
  nodeLines i.node i.canonical? ++ (i.idea.map ideaLines).getD []

/-- Show a node, its idea and its forward chain. -/
def runInspect (id : NodeId) (asJson : Bool) : CommandM Unit := do
  let node ← engine .loadingNode (require id)
  let idea ← engine .loadingIdea (getIdea id)
  let chain ← engine .following (forwardChain id)
  let shown : Inspection := { node, idea, chain := chain.map Node.id }
  print (if asJson then [shown.toJson.sorted.pretty] else inspectionLines shown)

/-- What is told of a forward reference that was written. -/
def forwardingLine (f : Forwarding) : String :=
  "--- " ++ f.node.text ++ " -> " ++ f.target.text ++ " (generation " ++ toString f.generation
    ++ ", +" ++ toString f.received ++ " comp arcs) ---"

/-- Unify two nodes. -/
def runUnify (verbose : Bool) (fresh a b : NodeId) (atomic : Bool) : CommandM Unit := do
  let act : Action Database Unified := Ideas.unify fresh a b
  let u ← engine .unifying (if atomic then Database.atomically act else act)
  print <| fieldLines 11 [
    ("result", u.result.text),
    ("canonical", u.canonical.text),
    ("forwarded", toString u.forwarded.length)]
  if verbose then note (u.forwarded.map forwardingLine)

/-- The settings of discovery, with a limit that was asked for. -/
def limited (settings : DiscoverySettings) (limit : Option Nat) : DiscoverySettings :=
  { settings with limit := limit.getD settings.limit }

/-- A candidate for people. -/
def printCandidate (c : Candidate Float) : CommandM Unit := do
  let idea ← engine .loadingIdea (getIdea c.id)
  let title := (idea.map Idea.title).getD ""
  print [Decimal.fixedText 3 c.strength ++ "  " ++ c.id.text ++ "  " ++ title]

/-- List the ideas related to an idea. -/
def runDiscover (id : NodeId) (limit : Option Nat) (save : Bool) : CommandM Unit := do
  let settings := limited workspace.settings.discovery limit
  let related ← onDatabase CommandError.saving (ExceptT.lift (discoverRelations settings id))
  let found := settings.cap related
  if save then
    let _ ← onDatabase .saving (Database.saveRelations id found)
  if found.isEmpty then print ["(no related ideas)"]
  else found.forM printCandidate

/-- The idea with an id; it is an error if there is none. -/
def loadIdea (id : NodeId) : CommandM Idea := do
  match ← engine .loadingIdea (getIdea id) with
  | some idea => return idea
  | none => throw (.notAnIdea id)

/-- Score two ideas against each other. -/
def runScore (a b : NodeId) : CommandM Unit := do
  let parts := Similarity.breakdown Float (← loadIdea a) (← loadIdea b)
  print <| fieldLines 9 [
    ("title", Decimal.fixedText 3 parts.title),
    ("content", Decimal.fixedText 3 parts.content),
    ("tags", Decimal.fixedText 3 parts.tags),
    ("energy", Decimal.fixedText 3 parts.energy),
    ("total", Decimal.fixedText 3 parts.total)]

/-- Archive an idea. -/
def runArchive (id : NodeId) : CommandM Unit := do
  engine .archiving (archiveIdea id)
  print ["archived " ++ id.text]

/-- Count what is stored. -/
def runCount : CommandM Unit := do
  let s := (← getThe Console).database.statistics
  print <| fieldLines 14 [
    ("owner", workspace.owner),
    ("data_dir", workspace.baseDir),
    ("nodes", toString s.nodes),
    ("ideas", toString s.ideas),
    ("archived", toString s.archived),
    ("superseded", toString s.superseded),
    ("materialized", toString s.materialized),
    ("relations", toString s.relations)]

/-- See whether there is anyone to serve tools to; the serving is left to whoever reads the
input. -/
def runServe : CommandM Unit := do
  if !(← getThe Console).hasInput then throw .noClient

/-- Carry out a command. -/
def run (verbose : Bool) (fresh : NodeId) : Command → CommandM Unit
  | .serve => runServe
  | .add draft => runAdd workspace fresh draft
  | .inspect id asJson => runInspect id asJson
  | .unify a b atomic => runUnify verbose fresh a b atomic
  | .discover id limit save => runDiscover workspace id limit save
  | .score a b => runScore a b
  | .archive id => runArchive id
  | .count => runCount workspace

end Command

/-- What the program finds around it. -/
structure Environment where
  /-- The data directory that the environment names. -/
  dataDir : Option String := none
  home : Option String := none
  /-- The home directory under its other name. -/
  profile : Option String := none
  /-- The name of the working directory. -/
  directory : Option String := none

namespace Invocation

/-- The data directory of an invocation. -/
def baseDir (i : Invocation) (env : Environment) : String :=
  ((i.dataDir.or env.dataDir).getD (defaultBaseDir env.home env.profile))

/-- Open the workspace of an invocation; `settings` is the text of its settings, if there are
any. -/
def workspace (i : Invocation) (env : Environment) (settings : Option String) :
    Except StoreError Workspace :=
  Workspace.open (i.baseDir env) settings i.owner env.directory

/-- Carry out the command of an invocation in its workspace. -/
def run (i : Invocation) (workspace : Workspace) (fresh : NodeId) : CommandM Unit := do
  CommandM.onDatabase .opening Database.prepare
  i.command.run workspace i.verbose fresh

end Invocation

end Ideas
