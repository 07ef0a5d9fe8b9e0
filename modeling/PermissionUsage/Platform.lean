import PermissionUsage.Access.Source
import PermissionUsage.Package.Services
/-!
# Platform

A platform held in memory: the services, the accesses in the order in which they were added, and
what is wrong with reading them. It is a source of access records: an op's accesses are grouped by
owner in the order of each owner's first access.
-/

namespace PermissionUsage

structure OwnedAccess where
  owner : PackageUser
  access : Access
  deriving DecidableEq, Repr, Inhabited

/-- A platform: its services, its accesses and its faults. -/
structure Platform extends Services where
  accesses : List OwnedAccess
  /-- Ops that the platform does not recognize. -/
  isUnknown : String → Bool
  /-- If set, every read is refused with it, whatever the op. -/
  failure : Option SourceError

namespace Platform

/-- A platform with one user and nothing installed. -/
def fresh : Platform where
  profiles := [0]
  isQuiet _ := false
  showsWhenQuiet _ := false
  isExempted _ := false
  packageInfo _ := none
  attribution _ := none
  permissionFlags _ _ := {}
  accesses := []
  isUnknown _ := false
  failure := none

/-! ## Reading -/

/-- The refusal that a read of an op meets, if any. -/
def refusal (platform : Platform) (op : String) : Option SourceError :=
  platform.failure.or (if platform.isUnknown op then some (.unknownOp op) else none)

/-- Groups accesses by owner, in the order of each owner's first access. -/
def batches (accesses : List OwnedAccess) : List Batch :=
  mergeBatches [] (accesses.map fun a => { owner := a.owner, accesses := [a.access] })

/-- The latest access of every owner, in the order of each owner's first access. -/
def latestByOwner (op : String) (accesses : List OwnedAccess) : List LastUses :=
  accesses.foldl (fun uses a =>
    mergeItem LastUses.owner (fun first next =>
        { first with uses := first.uses.map fun use =>
            { use with last := next.uses.foldl (fun t u => Millis.later t u.last) use.last } })
      { owner := a.owner, uses := [{ op, last := a.access.time }] } uses) []

/-- The accesses of an op within a range of time, grouped by owner. -/
def accessesOf (platform : Platform) (op : String) (start stop : Millis) : List Batch :=
  batches <| platform.accesses.filter fun a =>
    a.access.op = op ∧ start.toInt ≤ a.access.time.toInt ∧ a.access.time.toInt < stop.toInt

def readAccesses (platform : Platform) (op : String) (start stop : Millis) :
    Except SourceError (List Batch) :=
  match platform.refusal op with
  | some error => .error error
  | none => .ok (platform.accessesOf op start stop)

/-- The latest access of an op by every owner. -/
def lastUsesOf (platform : Platform) (op : String) : List LastUses :=
  latestByOwner op <| platform.accesses.filter (·.access.op = op)

def readLastUses (platform : Platform) (op : String) : Except SourceError (List LastUses) :=
  match platform.refusal op with
  | some error => .error error
  | none => .ok (platform.lastUsesOf op)

def source (platform : Platform) : AccessSource where
  accesses := platform.readAccesses
  lastUses := platform.readLastUses

/-! ## Changing -/

/-- `f` with another value at `a`. -/
def set {α β : Type} [DecidableEq α] (f : α → β) (a : α) (b : β) : α → β :=
  fun x => if x = a then b else f x

def installInfo (platform : Platform) (userId : UInt32) (info : PackageInfo) : Platform :=
  { platform with packageInfo := set platform.packageInfo ⟨info.packageName, userId⟩ (some info) }

/-- Installs a package that requests some permissions, all of them granted. -/
def install (platform : Platform) (owner : PackageUser) (permissions : List String)
    (isSystem : Bool) : Platform :=
  platform.installInfo owner.userId
    { packageName := owner.packageName, requestedPermissions := permissions,
      requestedFlags := permissions.map fun _ => .granted, isSystem }

def uninstall (platform : Platform) (owner : PackageUser) : Platform :=
  { platform with packageInfo := set platform.packageInfo owner none }

/-- Sets how a package labels its attribution tags. -/
def setAttribution (platform : Platform) (owner : PackageUser) (info : Attribution) : Platform :=
  { platform with attribution := set platform.attribution owner (some info) }

def setFlags (platform : Platform) (permission : String) (owner : PackageUser)
    (flags : PermissionFlags) : Platform :=
  let ofOwner := set (platform.permissionFlags permission) owner flags
  { platform with permissionFlags := set platform.permissionFlags permission ofOwner }

def setProfiles (platform : Platform) (profiles : List UInt32) : Platform :=
  { platform with profiles }

/-- Sets or unsets both quiet marks of a profile. -/
def setQuiet (platform : Platform) (user : UInt32) (quiet shows : Bool) : Platform :=
  { platform with
    isQuiet := set platform.isQuiet user quiet
    showsWhenQuiet := set platform.showsWhenQuiet user shows }

/-- Keeps a package out of the usage history. -/
def exempt (platform : Platform) (packageName : String) : Platform :=
  { platform with isExempted := set platform.isExempted packageName true }

def forgetOp (platform : Platform) (op : String) : Platform :=
  { platform with isUnknown := set platform.isUnknown op true }

def failWith (platform : Platform) (error : SourceError) : Platform :=
  { platform with failure := some error }

/-- Adds accesses of one owner after all others. -/
def addAccesses (platform : Platform) (owner : PackageUser) (accesses : List Access) : Platform :=
  { platform with accesses := platform.accesses ++ accesses.map fun access => { owner, access } }

def clearAccesses (platform : Platform) : Platform := { platform with accesses := [] }

end Platform

end PermissionUsage
