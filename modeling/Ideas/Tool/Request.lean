/-
What is asked of a tool, read from its parameters.

A call has the name of a tool, which is a text, and parameters, which are an object or
left out; with anything else in their places it is no call of a tool.  Of parameters of
one name the last counts.  First each has to be of its type; only then are the ids and
the literals in them read.
-/
import Ideas.Codec
import Ideas.Draft
import Ideas.Tool

namespace Ideas

open Json

/-- A tool with what it is asked for. -/
inductive ToolRequest where
  | add (draft : Draft)
  | discover (id : NodeId) (limit : Option Nat) (save : Bool)
  | inspect (id : NodeId)
  | count
  | unify (a b : NodeId)

/-- Why a tool gives no answer. -/
inductive ToolError where
  /-- The request is none that its method can be. -/
  | unknownRequest (method : String)
  | unknownTool
  /-- Parameters are missing or not of their types. -/
  | badParameters
  /-- A text is no id. -/
  | badId (text : String)
  /-- The literal of an arc is a reference whose id cannot be read. -/
  | badArc (label : String)
  | engine (cause : EngineError)

namespace ToolError

/-- The wording of a refusal. -/
def message : ToolError → String
  | .unknownRequest method => method
  | .unknownTool => "tool not found"
  | .badParameters => "failed to deserialize parameters"
  | .badId text => "invalid node id '" ++ text ++ "'"
  | .badArc label => "arc '" ++ label ++ "'"
  | .engine cause => cause.message

/-- The code of a request that nobody understands. -/
def methodNotFound : Int := -32601

/-- The code of a call that its caller has to mend. -/
def invalidParameters : Int := -32602

/-- The code of a failure that is not the caller's. -/
def internalError : Int := -32603

/-- The code of a refusal: only an unavailable store is not the caller's fault. -/
def code : ToolError → Int
  | .unknownRequest _ => methodNotFound
  | .engine cause => if cause.isRetryable then internalError else invalidParameters
  | _ => invalidParameters

end ToolError

namespace ToolRequest

/-! ### Parameters of their types -/

/-- An arc as a parameter: its label and its literal. -/
def arcPair? (v : Json) : Option (String × String) := do
  match ← v.record? ["label", "value"] with
  | [label, value] => return (← required string? label, ← required string? value)
  | _ => none

/-- A parameter that may be missing or null. -/
def maybe {α : Type} (decode : Json → Option α) : Option Json → Option (Option α) :=
  optional none (nullable decode)

/-- The parameters of a new idea: a draft without its arcs, and the arcs as pairs. -/
def draft? (v : Json) : Option (Draft × List (String × String)) := do
  match ← v.record? ["title", "content", "tags", "energy", "arcs"] with
  | [title, content, tags, energy, arcs] =>
    let draft : Draft := {
      title := ← required string? title
      content := ← maybe string? content
      tags := (← maybe (list? string?) tags).getD []
      energy := ((← maybe (natUpTo? 255) energy).map Nat.toUInt8).getD minEnergy }
    return (draft, (← maybe (list? arcPair?) arcs).getD [])
  | _ => none

/-- One parameter that is a text. -/
def text? (name : String) (v : Json) : Option String := do
  match ← v.record? [name] with
  | [text] => required string? text
  | _ => none

/-- The parameters of discovery. -/
def discovery? (v : Json) : Option (String × Option Nat × Bool) := do
  match ← v.record? ["id", "limit", "save"] with
  | [id, limit, save] =>
    return (← required string? id, ← maybe (natUpTo? Decimal.greatestWord) limit,
      (← maybe bool? save).getD false)
  | _ => none

/-- The parameters of a unification. -/
def pair? (v : Json) : Option (String × String) := do
  match ← v.record? ["id1", "id2"] with
  | [a, b] => return (← required string? a, ← required string? b)
  | _ => none

/-! ### Requests -/

/-- Parameters that could be read. -/
def orRefuse {α : Type} : Option α → Except ToolError α
  | some a => .ok a
  | none => .error .badParameters

/-- Read an id. -/
def id (text : String) : Except ToolError NodeId :=
  match NodeId.readTrimmed? text with
  | some id => .ok id
  | none => .error (.badId text)

/-- Read an arc from its label and its literal; blanks around the literal are dropped. -/
def arc : String × String → Except ToolError Arc
  | (label, literal) =>
    match ArcValue.ofLiteral? (Text.trim literal) with
    | some value => .ok ⟨label, value⟩
    | none => .error (.badArc label)

/-- Read the parameters of a tool. -/
def ofParameters (tool : Tool) (v : Json) : Except ToolError ToolRequest := do
  match tool with
  | .add =>
    let (draft, pairs) ← orRefuse (draft? v)
    return .add { draft with arcs := ← pairs.mapM arc }
  | .discover =>
    let (text, limit, save) ← orRefuse (discovery? v)
    return .discover (← id text) limit save
  | .inspect => return .inspect (← id (← orRefuse (text? "id" v)))
  | .count => return .count
  | .unify =>
    let (a, b) ← orRefuse (pair? v)
    return .unify (← id a) (← id b)

/-- The method of a request that calls a tool. -/
def callMethod : String := "tools/call"

/-- The parameters of a call, of which there may be none. -/
def parametersOf : Json → Except ToolError Json
  | .object fields => .ok (.collapsed (.object fields))
  | .null => .ok (.object [])
  | _ => .error (.unknownRequest callMethod)

/-- The name in a call. -/
def nameOf : Json → Except ToolError String
  | .string name => .ok name
  | _ => .error (.unknownRequest callMethod)

/-- Read a call: the name of a tool and its parameters. -/
def ofCall (name parameters : Json) : Except ToolError ToolRequest := do
  let name ← nameOf name
  let parameters ← parametersOf parameters
  match Tool.ofName? name with
  | some tool => ofParameters tool parameters
  | none => .error .unknownTool

end ToolRequest

end Ideas
