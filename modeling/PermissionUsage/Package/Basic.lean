import PermissionUsage.Group.Ops
import PermissionUsage.Ordered.Map
/-!
# Packages

A package as one user has it, what its installation says about the permissions it requests, and how
its attribution tags become labels.
-/

namespace PermissionUsage

/-- A package of one user. The same package of another user is another owner of accesses. -/
structure PackageUser where
  packageName : String
  userId : UInt32
  deriving DecidableEq, Repr, Inhabited

/-! ## Flags -/

/-- The platform's flags of one permission of one package and user. -/
structure PermissionFlags where
  bits : UInt32 := 0
  deriving DecidableEq, Repr, Inhabited

namespace PermissionFlags

/-- The permission is switched off for an app that does not know it can be. -/
def revokedCompat : PermissionFlags := ⟨8⟩

/-- The use is user sensitive when the permission is granted. -/
def sensitiveWhenGranted : PermissionFlags := ⟨0x100⟩

/-- The use is user sensitive when the permission is denied. -/
def sensitiveWhenDenied : PermissionFlags := ⟨0x200⟩

/-- All bits of `other`, which has at least one, are set. -/
def contains (flags other : PermissionFlags) : Bool :=
  flags.bits &&& other.bits = other.bits ∧ other.bits ≠ 0

def union (flags other : PermissionFlags) : PermissionFlags := ⟨flags.bits ||| other.bits⟩

end PermissionFlags

/-- The flags of a requested permission as the package information reports them. -/
structure RequestedFlags where
  bits : UInt32 := 0
  deriving DecidableEq, Repr, Inhabited

namespace RequestedFlags

def granted : RequestedFlags := ⟨2⟩

def isGranted (flags : RequestedFlags) : Bool := flags.bits &&& granted.bits ≠ 0

end RequestedFlags

/-! ## Package information -/

structure PackageInfo where
  packageName : String
  requestedPermissions : List String
  /-- One entry for each requested permission, by position; it may be shorter. -/
  requestedFlags : List RequestedFlags
  isSystem : Bool
  deriving DecidableEq, Repr, Inhabited

namespace PackageInfo

/-- The flags of the permission at an index; none are set where none are reported. -/
def flagsAt (info : PackageInfo) (index : Nat) : RequestedFlags :=
  info.requestedFlags[index]?.getD {}

/-- The package requests a permission that counts for the usage history of a group. -/
def requests (info : PackageInfo) (group : PermissionGroup) : Bool :=
  info.requestedPermissions.any (Permission.usageGroup? · = some group)

end PackageInfo

/-! ## Attribution -/

/-- How the attribution tags of a package map to labels that a user can read. -/
structure Attribution where
  userVisible : Bool
  tagResources : Option (OrderedMap String UInt32)
  resourceLabels : Option (OrderedMap UInt32 String)
  deriving DecidableEq

namespace Attribution

/-- The label of a tag, through its resource. No tag, a tag without a resource and a resource
without a label have none. -/
def labelOf (info : Attribution) (tag : Option String) : Option String := do
  let resource ← (← info.tagResources).get? (← tag)
  (← info.resourceLabels).get? resource

/-- Accesses of the package are told apart by label. -/
def groupsByLabel (info : Attribution) : Bool := info.userVisible && info.tagResources.isSome

end Attribution

end PermissionUsage
