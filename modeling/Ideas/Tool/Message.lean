/-
Messages between an assistant and the tools.

A message is a JSON object on a line of its own.  A message with an id is a request
and gets one response with the same id, which holds a result or an error; a message
without one is a notice and gets none.  Requests open the conversation, ask for a sign
of life, list the tools, and call one.
-/
import Ideas.Tool.Answer

namespace Ideas

namespace Tool

/-- The version of the messages that is spoken unless another one is asked for. -/
def protocolVersion : String := "2024-11-05"

/-- The code of a line that is no JSON. -/
def parseError : Int := -32700

/-- A field of an object. -/
def fieldOf (name : String) : Json → Option Json
  | .object fields => (fields.find? fun field => field.1 = name).map Prod.snd
  | _ => none

/-- A response that holds a result. -/
def resultMessage (id result : Json) : Json :=
  .object [("jsonrpc", .string "2.0"), ("id", id), ("result", result)]

/-- A response that holds an error. -/
def errorMessage (id : Json) (code : Int) (message : String) : Json :=
  .object [("jsonrpc", .string "2.0"), ("id", id),
    ("error", .object [("code", .ofInt code), ("message", .string message)])]

/-- What opens the conversation from this side. -/
def greeting (parameters : Json) : Json :=
  .object [
    ("protocolVersion", (fieldOf "protocolVersion" parameters).getD (.string protocolVersion)),
    ("capabilities", .object [("tools", .object [])]),
    ("serverInfo", .object [("name", .string "ideas"), ("version", .string "1.0.0")]),
    ("instructions", .string instructions)]

/-- A tool in the list of tools. -/
def listing (tool : Tool) : Json :=
  .object [
    ("name", .string tool.name),
    ("description", .string tool.description),
    ("inputSchema", .object [("type", .string "object")])]

/-- The result of a call: its answer as a text. -/
def callResult (answer : Json) : Json :=
  .object [
    ("content", .array [.object [("type", .string "text"), ("text", .string answer.pretty)]]),
    ("isError", .bool false)]

/-- Call the tool that the parameters of a request name. -/
def respondToCall (workspace : Workspace) (fresh : NodeId) (id parameters : Json) :
    StateM Database Json := do
  let name := (fieldOf "name" parameters).getD .null
  let arguments := (fieldOf "arguments" parameters).getD .null
  match ← (Tool.call workspace fresh name arguments).run with
  | .ok answer => return resultMessage id (callResult answer)
  | .error e => return errorMessage id e.code e.message

/-- Respond to a request; one of an unknown method is answered with its method. -/
def respondToRequest (workspace : Workspace) (fresh : NodeId) (id : Json) (method : String)
    (parameters : Json) : StateM Database Json :=
  if method = "initialize" then return resultMessage id (greeting parameters)
  else if method = "ping" then return resultMessage id (.object [])
  else if method = "tools/list" then
    return resultMessage id (.object [("tools", Json.ofList listing all)])
  else if method = ToolRequest.callMethod then respondToCall workspace fresh id parameters
  else
    let e := ToolError.unknownRequest method
    return errorMessage id e.code e.message

/-- Respond to a message, if it wants a response. -/
def respond (workspace : Workspace) (fresh : NodeId) (message : Json) :
    StateM Database (Option Json) :=
  let message := message.collapsed
  match fieldOf "id" message, (fieldOf "method" message).bind Json.string? with
  | some id, some method =>
    some <$> respondToRequest workspace fresh id method
      ((fieldOf "params" message).getD (.object []))
  | _, _ => return none

/-- Respond to a line. -/
def respondToLine (workspace : Workspace) (fresh : NodeId) (line : String) :
    StateM Database (Option String) :=
  match Json.read? line with
  | some message => (·.map Json.compact) <$> respond workspace fresh message
  | none => return some (errorMessage .null parseError "parse error").compact

end Tool

end Ideas
