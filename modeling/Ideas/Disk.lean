/-
Paths, and the disk they lead through.

A path is written as names between slashes.  A single dot stands for the directory that
it is in, and two dots for the one above.  A `Disk` has the directories and the files
that workspaces need, under the names that lead to them from the root.

`makeDirectories` makes the directories that a path leads through, one after another, as
far as they are missing.  It fails where a file is in the way, and leaves the directories
that it made until then.
-/
import Ideas.Database
import Ideas.Workspace

namespace Ideas

/-! ### Paths -/

/-- A path: whether it starts at the root, and the names along it. -/
structure Path where
  fromRoot : Bool
  names : List String
deriving DecidableEq, Repr

namespace Path

/-- The path that a text writes; slashes that follow one another count once. -/
def ofText (text : String) : Path :=
  ⟨text.toList.head? = some '/', ((text.toList.splitOn '/').filter (· ≠ [])).map String.ofList⟩

/-- The text of a path. -/
def text (p : Path) : String :=
  (if p.fromRoot then "/" else "") ++ "/".intercalate p.names

/-- The paths of the directories that a path leads through, its end apart.  Single dots are left
out of them. -/
def above (p : Path) : List Path :=
  let names := p.names.filter (· ≠ ".")
  (List.range (names.length - 1)).map fun n => { p with names := names.take (n + 1) }

example : (ofText "./a//b/.").above = [⟨false, ["a"]⟩] := by decide +kernel

end Path

/-! ### Disks -/

/-- A spot on the disk: the names that lead to it from the root. -/
abbrev Spot := List String

/-- What can be at a spot. -/
inductive DiskEntry where
  | directory
  | textFile (text : String)
  | databaseFile (db : Database)

/-- Directories and files. -/
structure Disk where
  /-- Where paths start that do not start at the root. -/
  workingDirectory : Spot := []
  entries : List (Spot × DiskEntry) := []

/-- A change of a disk. -/
abbrev DiskM (α : Type) := ExceptT StoreError (StateM Disk) α

namespace Disk

/-- What is at a spot; the root is always a directory. -/
def find? (disk : Disk) (spot : Spot) : Option DiskEntry :=
  if spot = [] then some .directory else disk.entries.lookup spot

/-- Whether there is a directory at a spot. -/
def hasDirectory (disk : Disk) (spot : Spot) : Bool :=
  match disk.find? spot with
  | some .directory => true
  | _ => false

/-- Put a directory or a file at a spot, in place of what was there. -/
def put (disk : Disk) (spot : Spot) (entry : DiskEntry) : Disk :=
  { disk with entries := (spot, entry) :: disk.entries.filter (·.1 ≠ spot) }

/-- How many bytes a name can have. -/
def greatestNameSize : Nat := 255

/-- How many bytes the text of a path can have. -/
def greatestPathSize : Nat := 4095

/-- Go from a directory to the spot that a name stands for. -/
def step (disk : Disk) (spot : Spot) (name : String) : Except StoreError Spot :=
  if !disk.hasDirectory spot || greatestNameSize < name.utf8ByteSize then .error .io
  else if name = "." then .ok spot
  else if name = ".." then .ok spot.dropLast
  else .ok (spot ++ [name])

/-- The spot that a path leads to.  All spots on the way are directories, but nothing has to be at
its end. -/
def follow (disk : Disk) (p : Path) : Except StoreError Spot :=
  p.names.foldlM disk.step (if p.fromRoot then [] else disk.workingDirectory)

/-- Make the directory at the end of a path, if it is missing. -/
def makeDirectory (p : Path) : DiskM Spot := do
  let disk ← get
  let spot ← disk.follow p
  match disk.find? spot with
  | some .directory => return spot
  | some _ => throw .io
  | none =>
    set (disk.put spot .directory)
    return spot

/-- Make all directories of a path that are missing; the answer is the last one. -/
def makeDirectories (text : String) : DiskM Spot := do
  if greatestPathSize < text.utf8ByteSize then throw .io
  let p := Path.ofText text
  p.above.forM fun q => discard (makeDirectory q)
  makeDirectory p

/-! ### The files of a workspace -/

/-- The text of the settings in a directory, if there are any. -/
def settings? (disk : Disk) (dir : Spot) : Except StoreError (Option String) :=
  match disk.find? (dir ++ [Workspace.settingsFile]) with
  | none => .ok none
  | some (.textFile text) => .ok (some text)
  | some _ => .error .io

/-- How many bytes the path of a database can have, from the root on. -/
def greatestDatabasePathSize : Nat := 504

/-- The database in a directory; a new one where there is none.  No directory may have the name of
one of its files. -/
def database (disk : Disk) (dir : Spot) : Except StoreError Database :=
  let spot := dir ++ [Workspace.databaseFile]
  if greatestDatabasePathSize < (Path.text ⟨true, spot⟩).utf8ByteSize then .error .notADatabase
  else if Workspace.databaseFiles.any fun name => disk.hasDirectory (dir ++ [name]) then
    .error .notADatabase
  else
    match disk.find? spot with
    | none => .ok {}
    | some (.databaseFile db) => .ok db
    | some _ => .error .notADatabase

/-- Keep the database in a directory. -/
def putDatabase (disk : Disk) (dir : Spot) (db : Database) : Disk :=
  disk.put (dir ++ [Workspace.databaseFile]) (.databaseFile db)

end Disk

end Ideas
