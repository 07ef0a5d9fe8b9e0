import PermissionUsage.Episode.Basic
/-!
# Rows of the usage details

What a user sees of a timeline: the episodes that reach into the selected window, newest first,
without the ones that are not user sensitive unless system usage is shown.
-/

namespace PermissionUsage

/-- One row of the usage details page. -/
structure EpisodeRow where
  owner : PackageUser
  group : PermissionGroup
  start : Millis
  finish : Millis
  /-- None for a duration that is not positive. -/
  duration : Option Millis
  label : Option String
  /-- There is a label to show. -/
  showsLabel : Bool
  tags : OrderedSet String
  /-- The package and user through which the access was made, if both are known. -/
  proxy : Option PackageUser
  isEmergencyLocation : Bool
  deriving DecidableEq

/-- The usage details page of a group. -/
inductive DetailsView where
  | loading
  | success (rows : List EpisodeRow) (containsSystemUsages : Bool)
  deriving DecidableEq

/-- The start of the window that a user selected, not before the epoch. Seven days need the feature
and the toggle, else it is a day. -/
def windowStart (features : Features) (showSevenDays : Bool) (now : Millis) : Checked Millis := do
  let window : Millis :=
    if features.sevenDayToggle && showSevenDays then 604800000 else Millis.oneDay
  return Millis.later 0 (← now.sub window)

namespace Episode

def proxy (episode : Episode) : Option PackageUser := do
  return { packageName := ← episode.proxyPackage, userId := ← episode.proxyUser }

def row (episode : Episode) (group : PermissionGroup) (features : Features) : EpisodeRow where
  owner := episode.owner
  group
  start := episode.start
  finish := episode.finish
  duration := if 0 < episode.duration.toInt then some episode.duration else none
  label := episode.label
  showsLabel := episode.label.any (· ≠ "")
  tags := episode.tags.getD .empty
  proxy := episode.proxy
  isEmergencyLocation := features.locationBypass ∧ Op.emergencyLocation ∈ episode.ops

/-- The episode is listed: it ends inside the window and is user sensitive, or system usage is
shown. -/
def isListed (episode : Episode) (toggles : Toggles) (start : Millis) : Bool :=
  start.toInt < episode.finish.toInt ∧ (toggles.showSystem ∨ episode.isSensitive)

end Episode

namespace DetailsView

/-- The listed episodes as rows, newest first; episodes with the same start keep their order. -/
def rows (episodes : List Episode) (group : PermissionGroup) (toggles : Toggles)
    (features : Features) (start : Millis) : List EpisodeRow :=
  ((episodes.filter (·.isListed toggles start)).map (·.row group features)).mergeSort
    fun a b => b.start.toInt ≤ a.start.toInt

/-- The usage details page of a timeline at `now`. -/
def ofTimeline (state : TimelineState) (group : PermissionGroup) (toggles : Toggles)
    (features : Features) (now : Millis) : Checked DetailsView :=
  match state with
  | .loading => return .loading
  | .success episodes => do
    let start ← windowStart features toggles.showSevenDays now
    return .success (rows episodes group toggles features start) (episodes.any (!·.isSensitive))

end DetailsView

end PermissionUsage
