import PermissionUsage.Access.Source
import PermissionUsage.Ordered.Set
/-!
# The table of accesses

The history of accesses as a table: the ops that are tracked and the accesses recorded of them, in
the order in which they were recorded. A row refers to a tracked op; an op that is not tracked any
more takes its rows along.

`Table.accesses` lists a range of time by package, user and time; `Table.lastUses` lists the latest
access of every package and user.
-/

namespace PermissionUsage

/-- A recorded access. User ids are kept wide; the ones that are recorded of accesses fit 32
bits. -/
structure Row where
  op : String
  packageName : String
  userId : Int64
  time : Millis
  duration : Millis
  tag : Option String
  proxyPackage : Option String
  proxyUser : Option Int64
  deriving DecidableEq, Repr, Inhabited

/-- The columns that hold user ids. -/
inductive UserColumn where
  | user
  | proxyUser
  deriving DecidableEq, Repr

/-- A user id that does not fit 32 bits. -/
structure OutOfRange where
  column : UserColumn
  value : Int64
  deriving DecidableEq, Repr

def OutOfRange.message (error : OutOfRange) : String :=
  let column := match error.column with
    | .user => "user_id"
    | .proxyUser => "proxy_user_id"
  s!"{column} contains out of range value {error.value.toInt}"

def narrowUser (column : UserColumn) (value : Int64) : Except OutOfRange UInt32 :=
  if 0 ≤ value.toInt ∧ value.toInt < UInt32.size then .ok (UInt32.ofNat value.toInt.toNat)
  else .error { column, value }

/-- A user id as it is kept. -/
def widenUser (user : UInt32) : Int64 := Int64.ofNat user.toNat

namespace Row

def ofAccess (owner : PackageUser) (access : Access) : Row where
  op := access.op
  packageName := owner.packageName
  userId := widenUser owner.userId
  time := access.time
  duration := access.duration
  tag := access.tag
  proxyPackage := access.proxyPackage
  proxyUser := access.proxyUser.map widenUser

/-- The access of a row and its owner. The user is looked at before the proxy's user. -/
def toAccess (row : Row) : Except OutOfRange (PackageUser × Access) := do
  let userId ← narrowUser .user row.userId
  let proxyUser ← row.proxyUser.mapM (narrowUser .proxyUser)
  return ({ packageName := row.packageName, userId },
    { op := row.op, time := row.time, duration := row.duration, tag := row.tag,
      proxyPackage := row.proxyPackage, proxyUser })

/-- Rows are listed by package, then user, then time. -/
def order : Row → Row → Ordering :=
  compareLex (compareOn (·.packageName)) <|
  compareLex (compareOn (·.userId.toInt)) <|
  compareOn (·.time.toInt)

/-- Rows in order; rows of one owner and time keep the order in which they were recorded. -/
def sort (rows : List Row) : List Row := rows.mergeSort fun a b => (order a b).isLE

end Row

/-- Groups neighbours with the same key. -/
def groupNeighbours {α κ : Type} [DecidableEq κ] (key : α → κ) : List α → List (κ × List α)
  | [] => []
  | a :: rest =>
    match groupNeighbours key rest with
    | (k, group) :: groups =>
      if key a = k then (k, a :: group) :: groups else (key a, [a]) :: (k, group) :: groups
    | [] => [(key a, [a])]

/-- The history: tracked ops and recorded accesses. -/
structure Table where
  tracked : OrderedSet String
  rows : List Row
  op_tracked : ∀ row ∈ rows, row.op ∈ tracked

inductive RecordError where
  | untracked (op : String)
  | overflow (operation : Overflow)
  deriving DecidableEq, Repr

namespace Table

def empty : Table := ⟨.empty, [], by simp⟩

instance : Inhabited Table := ⟨empty⟩

/-! ## Changing -/

def register (table : Table) (op : String) : Table where
  tracked := table.tracked.insert op
  rows := table.rows
  op_tracked row h := OrderedSet.mem_insert.2 (.inr (table.op_tracked row h))

def registerAll (table : Table) (ops : List String) : Table := ops.foldl register table

/-- Adds a row as it is; none if its op is not tracked. -/
def addRow? (table : Table) (row : Row) : Option Table :=
  if h : row.op ∈ table.tracked then
    some {
      tracked := table.tracked
      rows := table.rows ++ [row]
      op_tracked := by
        intro r hr
        rcases List.mem_append.1 hr with hr | hr
        · exact table.op_tracked r hr
        · exact List.mem_singleton.1 hr ▸ h }
  else none

/-- Records an access at minute granularity. -/
def record (table : Table) (owner : PackageUser) (access : Access) :
    Except RecordError Table := do
  if access.op ∉ table.tracked then throw (.untracked access.op)
  let whole ← access.truncated.mapError .overflow
  match table.addRow? (.ofAccess owner whole) with
  | some table => return table
  | none => throw (.untracked access.op)

/-- Records accesses of one owner, all of them or none. -/
def recordAll (table : Table) (owner : PackageUser) (accesses : List Access) :
    Except RecordError Table :=
  accesses.foldlM (·.record owner ·) table

def filter (table : Table) (keep : Row → Bool) : Table where
  tracked := table.tracked
  rows := table.rows.filter keep
  op_tracked row h := table.op_tracked row (List.mem_filter.1 h).1

def isBefore (cutoff : Millis) (row : Row) : Bool := row.time.toInt < cutoff.toInt

/-- Drops the accesses that started before an instant. -/
def prune (table : Table) (cutoff : Millis) : Table := table.filter (!isBefore cutoff ·)

def countBefore (table : Table) (cutoff : Millis) : Nat := table.rows.countP (isBefore cutoff)

/-- Stops tracking an op and drops its accesses. -/
def untrack (table : Table) (op : String) : Table where
  tracked := table.tracked.erase op
  rows := table.rows.filter (·.op ≠ op)
  op_tracked row h := by
    obtain ⟨hrow, hop⟩ := List.mem_filter.1 h
    exact OrderedSet.mem_erase.2 ⟨table.op_tracked row hrow, of_decide_eq_true hop⟩

/-! ## Reading -/

/-- The accesses of an op in a range of time, one batch for each owner, by package, user and
time. -/
def accesses (table : Table) (op : String) (start stop : Millis) :
    Except OutOfRange (List Batch) := do
  let found := table.rows.filter fun row =>
    row.op = op ∧ start.toInt ≤ row.time.toInt ∧ row.time.toInt < stop.toInt
  let owned ← (Row.sort found).mapM Row.toAccess
  return (groupNeighbours (·.1) owned).map fun (owner, group) =>
    { owner, accesses := group.map (·.2) }

def latestTime (rows : List Row) : Millis :=
  match rows with
  | [] => 0
  | row :: rest => Millis.latest row.time (rest.map (·.time))

/-- The latest access of an op for every owner, by package and user. -/
def lastUses (table : Table) (op : String) : Except OutOfRange (List LastUses) := do
  let found := Row.sort (table.rows.filter (·.op = op))
  (groupNeighbours (fun row => (row.packageName, row.userId)) found).mapM
    fun ((packageName, user), group) => do
      let userId ← narrowUser .user user
      return { owner := { packageName, userId }, uses := [{ op, last := latestTime group }] }

end Table

end PermissionUsage
