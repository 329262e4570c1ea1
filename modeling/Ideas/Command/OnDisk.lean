/-
Commands on a disk.

An invocation makes its data directory, reads the settings there, and only then looks for
the database.  A step that fails is the last one; what was made before stays.  Once the
database is open, it is kept after the command, whether that fails or not.
-/
import Ideas.Command.Run
import Ideas.Disk

namespace Ideas

/-- What becomes of an invocation. -/
structure Outcome where
  result : Except CommandError Unit
  output : List String := []
  notes : List String := []

namespace Invocation

/-- Open the workspace of an invocation: the spot of its data directory, and what is there. -/
def openOn (i : Invocation) (env : Environment) : DiskM (Spot × Workspace × Database) := do
  let dir ← Disk.makeDirectories (i.baseDir env)
  let disk ← get
  let workspace ← i.workspace env (← disk.settings? dir)
  return (dir, workspace, ← disk.database dir)

/-- Open the workspace of an invocation and carry out the command. -/
def runOn (i : Invocation) (env : Environment) (fresh : NodeId) (disk : Disk) : Outcome × Disk :=
  match (i.openOn env).run disk with
  | (.error e, disk) => ({ result := .error (.opening e) }, disk)
  | (.ok (dir, workspace, database), disk) =>
    let (result, console) := (i.run workspace fresh).run { database }
    ({ result, output := console.output, notes := console.notes },
      disk.putDatabase dir console.database)

end Invocation

end Ideas
