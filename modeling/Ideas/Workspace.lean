/-
Workspaces: a database, the settings beside it, and the owner to work for.

The owner is the first usable name of three: the one asked for, the one in the
settings, and the name of the working directory.  A name is made safe by dropping the
blanks around it and by writing an underscore for everything but letters, digits,
hyphens and underscores; it is usable if something is left.
-/
import Ideas.Database
import Ideas.Settings

namespace Ideas

/-- The name of the data directory inside the home directory. -/
def baseDirName : String := ".idea-graph"

/-- The path of an entry of a directory. -/
def joinPath (directory entry : String) : String :=
  if directory = "" then entry
  else if directory.endsWith "/" then directory ++ entry
  else directory ++ "/" ++ entry

/-- The data directory, from the home directory that either of two settings of the environment
names; without them it is in the working directory. -/
def defaultBaseDir (home profile : Option String) : String :=
  joinPath ((home.or profile).getD ".") baseDirName

/-- A character of a name, or an underscore in its place. -/
def sanitizeChar (c : Char) : Char :=
  if Text.isAlphanumeric c || c = '-' || c = '_' then c else '_'

/-- A name that is safe to use for an owner. -/
def sanitizeName (name : String) : String :=
  String.ofList ((Text.trimChars name.toList).map sanitizeChar)

/-- The safe form of a name, if something is left of it. -/
def usableName? (name : Option String) : Option String :=
  (name.map sanitizeName).filter (· ≠ "")

/-- The owner to work for: asked for, from the settings, or from the working directory. -/
def resolveOwner (explicit settings directory : Option String) : String :=
  ((usableName? explicit).or ((usableName? settings).or (usableName? directory))).getD "default"

/-- A workspace, without its database. -/
structure Workspace where
  /-- The path of the data directory. -/
  baseDir : String
  settings : Settings
  owner : String

namespace Workspace

/-- The name of the file that holds the settings. -/
def settingsFile : String := "config.toml"

/-- The name of the file that holds the database. -/
def databaseFile : String := "ideas.db"

/-- The names that are kept for the files of the database: its own, and those of its journals. -/
def databaseFiles : List String :=
  [databaseFile, databaseFile ++ "-journal", databaseFile ++ "-wal", databaseFile ++ "-shm"]

/-- Open a workspace: read the settings, if there are any, and choose the owner. -/
def «open» (baseDir : String) (settings explicit directory : Option String) :
    Except StoreError Workspace := do
  let settings ← match settings with
    | some text => Settings.read text
    | none => pure {}
  return { baseDir, settings, owner := resolveOwner explicit settings.owner directory }

/-- A workspace that works for the given owner, with the usual settings. -/
def inMemory (owner : String) : Workspace :=
  { baseDir := "", settings := {}, owner }

end Workspace

end Ideas
