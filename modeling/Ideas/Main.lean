/-
The program.

It reads its arguments and its environment, loads the settings and the database of
the data directory, carries out the command, and keeps the database.  All else that
happens is decided by the library.
-/
import Ideas.Command.OnDisk
import Ideas.Database.Snapshot
import Ideas.Tool.Message

namespace Ideas.Program

/-- How the program is called. -/
def usage : List String := [
  "usage: ig [--data-dir DIR] [--owner NAME] [--verbose] COMMAND",
  "",
  "  serve",
  "  add TITLE [--content TEXT] [--tag TAG]... [--energy 1..5] [--arc LABEL=VALUE]...",
  "  show ID [--json]",
  "  unify ID ID [--atomic]",
  "  discover ID [--limit COUNT] [--save]",
  "  score ID ID",
  "  archive ID",
  "  stats"]

/-- A new id. -/
def freshId : IO NodeId := do
  let bytes ← IO.getRandomBytes 16
  let number := bytes.toList.foldl (fun n byte => 256 * n + byte.toNat) 0
  return NodeId.ofRandomBits (BitVec.ofNat 122 number)

/-- What the program finds around it. -/
def environment : IO Environment := do
  return {
    dataDir := ← IO.getEnv "IG_DATA_DIR"
    home := ← IO.getEnv "HOME"
    profile := ← IO.getEnv "USERPROFILE"
    directory := (← IO.currentDir).fileName }

/-- Make a directory, if there is nothing at its path. -/
def makeDirectory (path : String) : IO Unit := do
  try
    IO.FS.createDir path
  catch
    | .alreadyExists .. => return ()
    | e => throw e

/-- Make all directories of a path that are missing. -/
def makeDirectories (text : String) : IO Unit := do
  let path := Path.ofText text
  for p in path.above ++ [path] do
    makeDirectory p.text

/-- The text of a file, if there is such a file. -/
def readFile? (path : String) : IO (Option String) := do
  try
    return some (← IO.FS.readFile path)
  catch
    | .noFileOrDirectory .. => return none
    | e => throw e

/-- The text of the database of a data directory, if there is one.  It is an error if one of its
files cannot be read. -/
def readDatabase? (dir : String) : IO (Option String) := do
  for name in Workspace.databaseFiles do
    let _ ← readFile? (joinPath dir name)
  readFile? (joinPath dir Workspace.databaseFile)

/-- The database of a data directory; a new one where there is none. -/
def loadDatabase (dir : String) : EIO StoreError Database := do
  match ← IO.toEIO (fun _ => .notADatabase) (readDatabase? dir) with
  | none => return {}
  | some text =>
    match Database.restore? text with
    | some db => return db
    | none => throw .notADatabase

/-- Open the workspace of an invocation and load its database. -/
def openWorkspace (i : Invocation) (env : Environment) : EIO StoreError (Workspace × Database) := do
  let dir := i.baseDir env
  let settings ← IO.toEIO (fun _ => .io) do
    makeDirectories dir
    readFile? (joinPath dir Workspace.settingsFile)
  let workspace ← EIO.ofExcept (i.workspace env settings)
  return (workspace, ← loadDatabase dir)

/-- Write to standard error. -/
def tell (lines : List String) : IO Unit := do
  for line in lines do
    IO.eprintln line

/-- The next line of the input; an empty text at its end. -/
def nextLine : IO String := do
  (← IO.getStdin).getLine

/-- Respond to a line and to all that follow it until the input ends, and keep the database after
every one. -/
partial def serve (workspace : Workspace) (path : String) (db : Database) (line : String) :
    IO Unit := do
  if line.isEmpty then return ()
  let (response, db) := (Tool.respondToLine workspace (← freshId) line).run db
  IO.FS.writeFile path db.snapshot
  if let some text := response then
    IO.println text
    (← IO.getStdout).flush
  serve workspace path db (← nextLine)

/-- Carry out a command in an open workspace; the answer is the exit code. -/
def carryOut (i : Invocation) (workspace : Workspace) (before : Database) : IO UInt32 := do
  let path := joinPath workspace.baseDir Workspace.databaseFile
  let line ←
    match i.command with
    | .serve => nextLine
    | _ => pure ""
  let start : Console := { database := before, hasInput := !line.isEmpty }
  let (result, console) := (i.run workspace (← freshId)).run start
  IO.FS.writeFile path console.database.snapshot
  for line in console.output do
    IO.println line
  tell console.notes
  match result, i.command with
  | .error e, _ =>
    tell e.report
    return 1
  | .ok (), .serve =>
    serve workspace path console.database line
    return 0
  | .ok (), _ => return 0

/-- Open the workspace and carry out the command; the answer is the exit code. -/
def openAndCarryOut (i : Invocation) : IO UInt32 := do
  match ← (openWorkspace i (← environment)).toBaseIO with
  | .ok (workspace, database) => carryOut i workspace database
  | .error e =>
    tell (CommandError.opening e).report
    return 1

/-- Run the program: code two for refused arguments, one for a failure, and zero otherwise. -/
def run (arguments : List String) : IO UInt32 := do
  match Invocation.ofArguments? arguments with
  | none =>
    tell usage
    return 2
  | some i =>
    try openAndCarryOut i
    catch e =>
      tell ["Error: " ++ toString e]
      return 1

end Ideas.Program

/-- The program. -/
def main (arguments : List String) : IO UInt32 :=
  Ideas.Program.run arguments
