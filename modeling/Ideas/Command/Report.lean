/-
What a command tells.

Values are listed under names, one to a line, in a column behind the longest name.  A
failure is told by what the command was about and by the causes, the nearest first.
They are numbered where a cause has a cause of its own, and stand further in than the
text around them, line by line.
-/
import Ideas.Error

namespace Ideas

/-! ### Lists of named values -/

/-- Values under their names, in a column that starts `width` characters in. -/
def fieldLines (width : Nat) (fields : List (String × String)) : List String :=
  fields.map fun (name, value) => (name ++ ":").pushn ' ' (width - name.length - 1) ++ value

/-! ### Failures -/

/-- What a command was about when it failed. -/
inductive Activity where
  | adding
  | loadingNode
  | loadingIdea
  | following
  | unifying
  | archiving
deriving DecidableEq, Repr

/-- The wording of an activity's failure. -/
def Activity.failure : Activity → String
  | .adding => "failed to add idea"
  | .loadingNode => "failed to load node"
  | .loadingIdea => "failed to load idea"
  | .following => "failed to follow forward chain"
  | .unifying => "unification failed"
  | .archiving => "failed to archive idea"

/-- Why a command failed. -/
inductive CommandError where
  /-- The workspace could not be opened. -/
  | opening (cause : StoreError)
  | engine (activity : Activity) (cause : EngineError)
  /-- Relations could not be saved. -/
  | saving (cause : StoreError)
  /-- There is no idea with the id. -/
  | notAnIdea (id : NodeId)
  /-- The input ended before anyone asked for a tool. -/
  | noClient

/-- The causes of a failure, the nearest first. -/
structure Causes where
  texts : List String
  /-- Whether the nearest cause has a cause of its own, told or not. -/
  deep : Bool

/-- Whether a store's failure has a cause outside this library, which is not told. -/
def StoreError.isForeign : StoreError → Bool
  | .constraint _ | .mismatch | .json | .io | .notADatabase | .config => true
  | _ => false

/-- A store's failure as a cause. -/
def StoreError.causes (e : StoreError) : Causes :=
  ⟨[e.message], e.isForeign⟩

/-- A failure on the graph as a cause. -/
def EngineError.causes (e : EngineError) : Causes :=
  match e with
  | .storeUnavailable cause =>
    ⟨e.message :: if cause.isForeign then [] else [cause.message], true⟩
  | _ => ⟨[e.message], false⟩

namespace CommandError

/-- The wording of a failure, without its causes. -/
def message : CommandError → String
  | .opening _ => "failed to open workspace"
  | .engine activity _ => activity.failure
  | .saving _ => "failed to save relations"
  | .notAnIdea id => id.text ++ " is not an idea"
  | .noClient => "failed to start MCP server"

/-- The causes of a failure. -/
def causes : CommandError → Causes
  | .opening cause => cause.causes
  | .engine _ cause => cause.causes
  | .saving cause => cause.causes
  | .notAnIdea _ => ⟨[], false⟩
  | .noClient => ⟨["connection closed: initialized request"], false⟩

/-- A cause with what stands in front of its first line and of the others. -/
def causeText (first other cause : String) : String :=
  first ++ ("\n" ++ other).intercalate (cause.splitOn "\n")

/-- The number of a cause, as it stands in front of it. -/
def causeNumber (i : Nat) : String :=
  "".pushn ' ' (5 - (toString i).length) ++ toString i ++ ": "

/-- The causes as they are told. -/
def causeLines (causes : Causes) : List String :=
  if causes.deep then
    causes.texts.mapIdx fun i cause => causeText (causeNumber i) "       " cause
  else causes.texts.map (causeText "    " "    ")

/-- A failure as it is told. -/
def report (e : CommandError) : List String :=
  let head := "Error: " ++ e.message
  if e.causes.texts.isEmpty then [head] else [head, "", "Caused by:"] ++ causeLines e.causes

end CommandError

end Ideas
