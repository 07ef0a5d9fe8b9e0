import PermissionUsage.Access.Source
import PermissionUsage.Episode.Timeline
import PermissionUsage.Package.Services
/-!
# Last uses of groups

What the privacy dashboard is made of: for every visible package the last use of each dashboard
group that the package still requests.
-/

namespace PermissionUsage

structure GroupUse where
  owner : PackageUser
  group : PermissionGroup
  last : Millis
  isSensitive : Bool
  deriving DecidableEq, Repr

/-- The dashboard's uses while they are being computed, or those of the last computation. -/
inductive DashboardState where
  | loading
  | success (uses : List GroupUse)
  deriving DecidableEq

namespace LastUses

def latest? : List Millis → Option Millis
  | [] => none
  | first :: rest => some (Millis.latest first rest)

/-- The last use of a group through any of some ops. -/
def lastOf (uses : LastUses) (ops : List String) (group : PermissionGroup) : Option Millis :=
  latest? <| (uses.uses.filter fun use =>
    ops.contains use.op && groupOfOp use.op = some group).map (·.last)

/-- The last use of each group that was used, in the order of the groups. -/
def groupUses (uses : LastUses) (ops : List String) (sensitive : PermissionGroup → Bool) :
    List GroupUse :=
  PermissionGroup.all.filterMap fun group => do
    return { owner := uses.owner, group, last := ← uses.lastOf ops group,
             isSensitive := sensitive group }

end LastUses

/-- The computation of the privacy dashboard under some features. -/
structure Dashboard where
  features : Features
  deriving DecidableEq, Repr

namespace Dashboard

/-- The ops whose last uses are read. -/
def ops (dashboard : Dashboard) : List String := dashboardOps dashboard.features

/-- The last uses of groups in a snapshot of last uses of ops: those of visible owners whose package
requests the group. -/
def compute (dashboard : Dashboard) (services : Services) (uses : List LastUses) : List GroupUse :=
  ((uses.filter (services.isVisible ·.owner)).flatMap fun item =>
      item.groupUses dashboard.ops (services.isSensitive · item.owner)).filter fun use =>
    services.requests use.group use.owner

/-- The last uses of groups as they are now. -/
def loadAndCompute (dashboard : Dashboard) (source : AccessSource) (services : Services) :
    Except ComputeError (List GroupUse) := do
  let uses ← (source.loadLastUses dashboard.ops).mapError .load
  return dashboard.compute services uses

end Dashboard

end PermissionUsage
