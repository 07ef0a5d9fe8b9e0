import PermissionUsage.Access.Basic
import PermissionUsage.Access.Merge
/-!
# Where accesses come from

A source of access records answers two questions about an op: its accesses in a range of time, and
the latest access of every owner. Either answer may be refused. `loadAccesses` and `loadLastUses`
ask about several ops and merge the answers owner by owner.
-/

namespace PermissionUsage

/-- Why a source refuses an answer. -/
inductive SourceError where
  /-- The platform does not know the op; older releases lack some. -/
  | unknownOp (op : String)
  /-- The history cannot be read at all. -/
  | unavailable (reason : String)
  deriving DecidableEq, Repr

def SourceError.message : SourceError → String
  | .unknownOp op => s!"app op '{op}' is not recognized by the platform"
  | .unavailable reason => s!"access history unavailable: {reason}"

structure OpUse where
  op : String
  last : Millis
  deriving DecidableEq, Repr, Inhabited

/-- The latest uses of ops by one owner. -/
structure LastUses where
  owner : PackageUser
  uses : List OpUse
  deriving DecidableEq, Repr, Inhabited

structure AccessSource where
  /-- The accesses of an op from `start` up to but not including `stop`, one batch for each
  owner. -/
  accesses : (op : String) → (start stop : Millis) → Except SourceError (List Batch)
  /-- The latest access of an op for every owner that used it. -/
  lastUses : (op : String) → Except SourceError (List LastUses)

/-- The read that a failed load was about. -/
inductive LoadKind where
  | accesses
  | lastUses
  deriving DecidableEq, Repr

/-- Why a load of several ops failed: at one op the source refused for another reason than not
knowing it. -/
structure LoadError where
  kind : LoadKind
  op : String
  cause : SourceError
  deriving DecidableEq, Repr

/-- The text of a failed load, from the outside in. -/
def LoadError.message (error : LoadError) : String :=
  match error.kind with
  | .accesses => s!"failed to read discrete history of {error.op}: {error.cause.message}"
  | .lastUses => s!"failed to read usage of {error.op}: {error.cause.message}"

/-! ## Loading -/

/-- Batches of one owner become one. The first gives label and sensitivity. -/
def Batch.join (first next : Batch) : Batch :=
  first.withAccesses (first.accesses ++ next.accesses)

def LastUses.join (first next : LastUses) : LastUses :=
  { first with uses := first.uses ++ next.uses }

/-- Joining keeps the owner, by which items are merged. -/
theorem Batch.owner_join (first next : Batch) : (first.join next).owner = first.owner := rfl

theorem LastUses.owner_join (first next : LastUses) : (first.join next).owner = first.owner := rfl

/-- Adds batches one after another. -/
def mergeBatches (merged batches : List Batch) : List Batch :=
  mergeAll Batch.owner Batch.join merged batches

/-- Reads one op after another and takes in what was read. An op that the source does not know adds
nothing; any other refusal ends the load. -/
def loadMerged {α γ : Type} (kind : LoadKind) (read : String → Except SourceError α)
    (takeIn : γ → α → γ) (merged : γ) : List String → Except LoadError γ
  | [] => .ok merged
  | op :: ops =>
    match read op with
    | .ok answer => loadMerged kind read takeIn (takeIn merged answer) ops
    | .error (.unknownOp _) => loadMerged kind read takeIn merged ops
    | .error cause => .error { kind, op, cause }

/-- The accesses of several ops in a range of time, one batch for each owner. -/
def AccessSource.loadAccesses (source : AccessSource) (ops : List String) (start stop : Millis) :
    Except LoadError (List Batch) :=
  (loadMerged .accesses (source.accesses · start stop) (Merged.addAll Batch.owner_join) .empty
    ops).map (·.items)

/-- The latest uses of several ops, one item for each owner. -/
def AccessSource.loadLastUses (source : AccessSource) (ops : List String) :
    Except LoadError (List LastUses) :=
  (loadMerged .lastUses source.lastUses (Merged.addAll LastUses.owner_join) .empty
    ops).map (·.items)

end PermissionUsage
