import PermissionUsage.Time
/-!
# User settings

What a user can switch: the display toggles of the usage screens, the device and release features,
and the logging level, each with its default.
-/

namespace PermissionUsage

/-- The display toggles of the usage screens. -/
structure Toggles where
  /-- Usages that are not user sensitive are listed too. -/
  showSystem : Bool := false
  /-- Seven days are shown instead of one. -/
  showSevenDays : Bool := false
  deriving DecidableEq, Repr, Inhabited

/-- Device and release gates that change what is read, clustered and shown. -/
structure Features where
  /-- Emergency location is tracked and clusters only with itself. -/
  locationBypass : Bool := false
  /-- The seven day view may be selected; otherwise a day is shown. -/
  sevenDayToggle : Bool := true
  /-- A handheld device keeps seven days of history, any other one day. -/
  handheld : Bool := true
  deriving DecidableEq, Repr, Inhabited

structure Logging where
  level : String := "info"
  deriving DecidableEq, Repr, Inhabited

structure Settings where
  toggles : Toggles := default
  features : Features := default
  logging : Logging := default
  deriving DecidableEq, Repr, Inhabited

/-- How far back the discrete history is read. -/
def Features.historyWindow (features : Features) : Millis :=
  if features.handheld then 604800000 else Millis.oneDay

end PermissionUsage
