import PermissionUsage.History.Table
import PermissionUsage.SystemError
/-!
# The database of accesses

A database keeps a table of accesses and the version of its layout. All calls go to one worker. A
call that is refused leaves the database as it was. An overflow while an access is rounded ends the
worker for good: that call and all later ones fail until the database is opened again.
-/

namespace PermissionUsage

/-- Why a layout could not be brought up to date. -/
inductive MigrationError where
  | notADatabase
  /-- The layout is newer than the one known here. -/
  | tooNew (version : Int32)
  | unknownTarget (version : Int)
  deriving DecidableEq, Repr

/-- The version of the layout known here. -/
def currentVersion : Int32 := 1

def MigrationError.message : MigrationError → String
  | .notADatabase => "failed to read user_version pragma: file is not a database: " ++
    "Error code 26: File opened that is not a database file"
  | .tooNew version => s!"database version ({version.toInt}) is newer than supported schema " ++
    s!"({currentVersion.toInt})"
  | .unknownTarget version => s!"migration to version {version} failed: " ++
    s!"unknown migration target version: {version}"

inductive OpenError where
  | directory (path : String) (cause : SystemError)
  | file (path : String)
  | migration (cause : MigrationError)
  deriving DecidableEq, Repr

def OpenError.message : OpenError → String
  | .directory path cause => s!"failed to create database directory {path}: {cause.message}"
  | .file path => s!"failed to open SQLite database: unable to open database file: {path}: " ++
    "Error code 14: Unable to open the database file"
  | .migration cause => s!"failed to run database migrations: {cause.message}"

inductive CallError where
  /-- The worker ended before the call. -/
  | workerGone
  /-- The worker ended during the call. -/
  | workerEnded
  | untracked (op : String)
  /-- Recording for a package failed at an op that is not tracked. -/
  | recording (packageName op : String)
  /-- A row refers to an op that is not tracked. -/
  | danglingOp
  | outOfRange (cause : OutOfRange)
  deriving DecidableEq, Repr

def CallError.message : CallError → String
  | .workerGone => "failed to send command to DB thread: sending on a closed channel"
  | .workerEnded => "database thread terminated unexpectedly"
  | .untracked op => s!"cannot record access of untracked op {op}"
  | .recording packageName op =>
    s!"failed to record access for {packageName}: cannot record access of untracked op {op}"
  | .danglingOp =>
    "FOREIGN KEY constraint failed: Error code 787: Foreign key constraint failed"
  | .outOfRange cause => cause.message

/-- What a database file holds. A new file has the version zero and no ops. -/
structure Contents where
  version : Int32 := 0
  table : Table := .empty

namespace Contents

/-- Brings the layout up to date. The one step there is leads to the current version and keeps what
is there. -/
def migrate (contents : Contents) : Except MigrationError Contents :=
  if currentVersion.toInt < contents.version.toInt then .error (.tooNew contents.version)
  else if contents.version.toInt < 0 then .error (.unknownTarget (contents.version.toInt + 1))
  else .ok { contents with version := currentVersion }

end Contents

structure Database where
  contents : Contents
  isRunning : Bool := true

namespace Database

/-- Opens a database on what a file holds. -/
def ofContents (contents : Contents) : Except MigrationError Database := do
  return { contents := ← contents.migrate }

/-- How a task of the worker ends without a result. -/
inductive TaskFailure where
  | refused (error : CallError)
  | crashed
  deriving DecidableEq, Repr

def TaskFailure.ofRecord (refusal : String → CallError) : RecordError → TaskFailure
  | .untracked op => .refused (refusal op)
  | .overflow _ => .crashed

/-- Has the worker run a task. -/
def call {α : Type} (database : Database) (task : Contents → Except TaskFailure (α × Contents)) :
    Except CallError α × Database :=
  if database.isRunning then
    match task database.contents with
    | .ok (value, contents) => (.ok value, { database with contents })
    | .error (.refused error) => (.error error, database)
    | .error .crashed => (.error .workerEnded, { database with isRunning := false })
  else (.error .workerGone, database)

/-- Has the worker run a task that changes the table and may fail. -/
def change (database : Database) (task : Table → Except TaskFailure Table) :
    Except CallError Unit × Database :=
  database.call fun contents => do
    return ((), { contents with table := ← task contents.table })

/-- Has the worker answer a question. -/
def query {α : Type} (database : Database) (answer : Contents → Except CallError α) :
    Except CallError α :=
  if database.isRunning then answer database.contents else .error .workerGone

/-! ## Ops -/

/-- Starts tracking some ops; the ones that are tracked already stay as they are. -/
def register (database : Database) (ops : List String) : Except CallError Unit × Database :=
  database.change (.ok <| ·.registerAll ops)

def trackedOps (database : Database) : Except CallError (List String) :=
  database.query (.ok ·.table.tracked.toList)

def isTracked (database : Database) (op : String) : Except CallError Bool :=
  database.query (.ok <| op ∈ ·.table.tracked)

/-- Stops tracking an op; the number of ops that this removes. -/
def untrack (database : Database) (op : String) : Except CallError Nat × Database :=
  database.call fun contents =>
    .ok (if op ∈ contents.table.tracked then 1 else 0,
      { contents with table := contents.table.untrack op })

/-! ## Accesses -/

/-- Records accesses of one owner, all of them or none. -/
def record (database : Database) (owner : PackageUser) (accesses : List Access) :
    Except CallError Unit × Database :=
  database.change fun table =>
    (table.recordAll owner accesses).mapError (.ofRecord (.recording owner.packageName))

/-- Records one access, without a word on the package if it fails. -/
def insert (database : Database) (owner : PackageUser) (access : Access) :
    Except CallError Unit × Database :=
  database.change fun table => (table.record owner access).mapError (.ofRecord .untracked)

def addRow (database : Database) (row : Row) : Except CallError Unit × Database :=
  database.change fun table =>
    match table.addRow? row with
    | some table => .ok table
    | none => .error (.refused .danglingOp)

/-- Drops the accesses that started before an instant; their number. -/
def prune (database : Database) (cutoff : Millis) : Except CallError Nat × Database :=
  database.call fun contents =>
    .ok (contents.table.countBefore cutoff,
      { contents with table := contents.table.prune cutoff })

/-! ## The database as a source of access records -/

/-- Reads an op; an op that is not tracked is unknown, any other failure makes the history
unavailable. -/
def readOp {α : Type} (database : Database) (op : String)
    (read : Table → Except OutOfRange α) : Except SourceError α :=
  match database.query fun contents =>
    if op ∈ contents.table.tracked then
      ((read contents.table).map some).mapError CallError.outOfRange
    else .ok none
  with
  | .ok (some answer) => .ok answer
  | .ok none => .error (.unknownOp op)
  | .error error => .error (.unavailable error.message)

def source (database : Database) : AccessSource where
  accesses op start stop := database.readOp op (·.accesses op start stop)
  lastUses op := database.readOp op (·.lastUses op)

/-! ## The version -/

def version (database : Database) : Except CallError Int32 := database.query (.ok ·.version)

/-- Sets the version, which is looked at when the database is opened again. -/
def setVersion (database : Database) (version : Int32) : Except CallError Unit × Database :=
  database.call fun contents => .ok ((), { contents with version })

end Database

end PermissionUsage
