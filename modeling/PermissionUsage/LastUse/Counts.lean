import PermissionUsage.Episode.Rows
import PermissionUsage.LastUse.Groups
import PermissionUsage.Ordered.Map
/-!
# Counts of the privacy dashboard

How many packages used each group inside the selected window.
-/

namespace PermissionUsage

inductive DashboardView where
  | loading
  | success (containsSystemUsage : Bool) (counts : OrderedMap PermissionGroup Nat)
  deriving DecidableEq

namespace DashboardView

def countOne (counts : OrderedMap PermissionGroup Nat) (group : PermissionGroup) :
    OrderedMap PermissionGroup Nat :=
  counts.insert group ((counts.get? group).getD 0 + 1)

def noUses : OrderedMap PermissionGroup Nat :=
  .ofList (PermissionGroup.dashboard.map (·, 0))

/-- The number of uses of each group; every dashboard group has a count. -/
def countsOf (uses : List GroupUse) : OrderedMap PermissionGroup Nat :=
  (uses.map (·.group)).foldl countOne noUses

def ofUses (state : DashboardState) (toggles : Toggles) (features : Features) (now : Millis) :
    Checked DashboardView :=
  match state with
  | .loading => return .loading
  | .success uses => do
    let start ← windowStart features toggles.showSevenDays now
    let inWindow := uses.filter (start.toInt < ·.last.toInt)
    return .success (inWindow.any (!·.isSensitive))
      (countsOf (inWindow.filter fun use => toggles.showSystem || use.isSensitive))

end DashboardView

end PermissionUsage
