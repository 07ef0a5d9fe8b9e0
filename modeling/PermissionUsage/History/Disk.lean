import PermissionUsage.History.Database
/-!
# Databases on disk

A directory with database files, of which at most one is open. What an open database holds is put
back into its file when another one is opened, or none.
-/

namespace PermissionUsage

/-- The places where a database may be looked for. -/
inductive DatabasePlace where
  | history
  /-- A file in a directory of its own. -/
  | nested
  | garbage
  /-- A path on which a file stands where a directory should be. -/
  | underFile
  | directory
  deriving DecidableEq, Repr

structure Disk where
  path : String
  history : Contents := {}
  nested : Contents := {}
  current : Option (DatabasePlace × Database) := none

namespace Disk

def store (disk : Disk) (place : DatabasePlace) (contents : Contents) : Disk :=
  match place with
  | .history => { disk with history := contents }
  | .nested => { disk with nested := contents }
  | _ => disk

def close (disk : Disk) : Disk :=
  match disk.current with
  | some (place, database) => { disk.store place database.contents with current := none }
  | none => disk

/-- What opening the file at a place finds. -/
def find (disk : Disk) : DatabasePlace → Except OpenError Database
  | .history => (Database.ofContents disk.history).mapError .migration
  | .nested => (Database.ofContents disk.nested).mapError .migration
  | .garbage => .error (.migration .notADatabase)
  | .underFile => .error (.directory (disk.path ++ "/file") .exists)
  | .directory => .error (.file (disk.path ++ "/dir"))

/-- Closes the open database and opens the one at a place. -/
def openAt (disk : Disk) (place : DatabasePlace) : Except OpenError Unit × Disk :=
  let disk := disk.close
  match disk.find place with
  | .ok database => (.ok (), { disk with current := some (place, database) })
  | .error error => (.error error, disk)

/-- Opens the history of accesses and tracks every op that the dashboard can show. -/
def openHistory (disk : Disk) (features : Features) : Except OpenError Unit × Disk :=
  match disk.openAt .history with
  | (.ok (), disk) =>
    (.ok (), { disk with current := disk.current.map fun (place, database) =>
      (place, (database.register (dashboardOps features)).2) })
  | refused => refused

/-- Calls the open database; none if there is none. -/
def call? {α : Type} (disk : Disk) (run : Database → α × Database) : Option (α × Disk) := do
  let (place, database) ← disk.current
  let (answer, database) := run database
  return (answer, { disk with current := some (place, database) })

end Disk

end PermissionUsage
