import PermissionUsage.Package.Basic
/-!
# Platform services

What the platform answers about users, packages, permissions and roles, and the two questions asked
of it: whose usage may be shown at all, and which usage is user sensitive, that is, shown without
the system toggle.
-/

namespace PermissionUsage

/-- The platform's answers about users, roles, packages and permissions. -/
structure Services where
  profiles : List UInt32
  isQuiet : UInt32 → Bool
  /-- The profile is shown although it may be in quiet mode. -/
  showsWhenQuiet : UInt32 → Bool
  /-- The package holds a role that keeps it out of the usage history. -/
  isExempted : String → Bool
  packageInfo : PackageUser → Option PackageInfo
  attribution : PackageUser → Option Attribution
  permissionFlags : String → PackageUser → PermissionFlags

namespace Services

/-! ## Visibility -/

/-- A profile is shown unless it is in quiet mode and not shown anyway. -/
def shows (services : Services) (user : UInt32) : Bool :=
  !services.isQuiet user || services.showsWhenQuiet user

def visibleProfiles (services : Services) : List UInt32 := services.profiles.filter services.shows

/-- The owner's user is among the profiles shown and its package is not exempted. -/
def isVisible (services : Services) (owner : PackageUser) : Bool :=
  services.visibleProfiles.contains owner.userId && !services.isExempted owner.packageName

/-- The package is installed and requests a permission of the group. -/
def requests (services : Services) (group : PermissionGroup) (owner : PackageUser) : Bool :=
  (services.packageInfo owner).any (·.requests group)

/-! ## Sensitivity -/

def telecomPackage : String := "com.android.server.telecom"

/-- Camera and microphone are touched by the telecom package as part of every call. -/
def isCallPlumbing (packageName : String) (group : PermissionGroup) : Bool :=
  packageName = telecomPackage ∧ (group = .camera ∨ group = .microphone)

/-- The flags of a permission make its use user sensitive. A grant that is revoked for
compatibility counts as a denial. -/
def flagsSensitive (requested : RequestedFlags) (flags : PermissionFlags) : Bool :=
  if requested.isGranted && !flags.contains .revokedCompat then
    flags.contains .sensitiveWhenGranted
  else flags.contains .sensitiveWhenDenied

/-- The use of a group by a package is user sensitive: always for an app that is not part of the
system, and for a system app if the flags of one of the group's permissions say so. -/
def isSensitive (services : Services) (group : PermissionGroup) (owner : PackageUser) : Bool :=
  !isCallPlumbing owner.packageName group &&
    (services.packageInfo owner).any fun info =>
      !info.isSystem ||
        info.requestedPermissions.zipIdx.any fun (permission, index) =>
          Permission.group? permission = some group &&
            flagsSensitive (info.flagsAt index) (services.permissionFlags permission owner)

end Services

end PermissionUsage
