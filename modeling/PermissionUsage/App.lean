import PermissionUsage.Episode.Rows
import PermissionUsage.LastUse.Counts
import PermissionUsage.Live.Schedule
import PermissionUsage.Settings.Place
/-!
# The application

The application ties its settings to live subscriptions: a subscription is started with the features
of the settings and keeps them, while a page is made with the features and toggles that are set when
it is looked at.
-/

namespace PermissionUsage

inductive AppError where
  | dataDirectory (path : String) (cause : SystemError)
  | settings (cause : SettingsError)
  deriving DecidableEq, Repr

/-- The text of a failed set-up, from the outside in. -/
def AppError.message : AppError → String
  | .dataDirectory path cause => s!"failed to create data directory {path}: {cause.message}"
  | .settings cause => cause.message

/-- The application with its data directory. It is open while its settings are. -/
structure App where
  data : SettingsDirectory
  /-- A file stands where the data directory should be. -/
  isObstructed : Bool := false
  session : Session := {}

namespace App

/-- The settings of the open application. -/
def settings? (app : App) : Option Settings := app.data.current.map (·.2)

/-- Sets the application up, anew if it is open: with the settings of its data directory and without
listeners. -/
def setUp (app : App) : Except AppError Settings × App :=
  if app.isObstructed then
    (.error (.dataDirectory app.data.path .exists),
      { app with data := { app.data with current := none } })
  else
    match app.data.openAt .file with
    | (.ok settings, data) =>
      (.ok settings, { app with
        data
        session := app.session.withHub
          { app.session.hub with registry := app.session.hub.registry.clear } })
    | (.error cause, data) => (.error (.settings cause), { app with data })

/-- Calls the store of the open application; none if it is not open. -/
def call? {α : Type} (app : App) (run : SettingsStore → α × SettingsStore) : Option (α × App) := do
  let (answer, data) ← app.data.call? run
  return (answer, { app with data })

end App

namespace Settings

/-- The use case of a group's timeline, with the features of the settings. -/
def timeline (settings : Settings) (group : PermissionGroup) : Except GroupError UseCase :=
  (Timeline.ofGroup group settings.features).map .timeline

def dashboard (settings : Settings) : UseCase := .dashboard { features := settings.features }

def detailsView (settings : Settings) (state : TimelineState) (group : PermissionGroup)
    (now : Millis) : Checked DetailsView :=
  DetailsView.ofTimeline state group settings.toggles settings.features now

def dashboardView (settings : Settings) (state : DashboardState) (now : Millis) :
    Checked DashboardView :=
  DashboardView.ofUses state settings.toggles settings.features now

end Settings

end PermissionUsage
