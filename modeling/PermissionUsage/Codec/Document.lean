import PermissionUsage.Codec.Access
import PermissionUsage.Codec.Change
import PermissionUsage.Codec.Episode
import PermissionUsage.Codec.LastUse
import PermissionUsage.Codec.Package
import PermissionUsage.Codec.Settings
import PermissionUsage.Json.Reader
import PermissionUsage.Json.Writer
/-!
# Documents by name

The types of documents that this library exchanges, each under its public name, and the normal form
of a document: what is written after it was read.
-/

namespace PermissionUsage

def ofText? {α : Type} [Codec α] (text : String) : Option α := (Json.parse? text).bind decode

def toText {α : Type} [Codec α] (value : α) : String := (encode value).compact

/-- The compact form of a document of a type, if it is one. -/
def normalText (α : Type) [Codec α] (text : String) : Option String :=
  (ofText? text : Option α).map toText

/-- The normal form of documents of each type, by the public name of the type. -/
def documentTypes : List (String × (String → Option String)) := [
  ("DiscreteAccess", normalText Access),
  ("PackageAccessBatch", normalText Batch),
  ("TimelineEntry", normalText Episode),
  ("TimelineState", normalText TimelineState),
  ("OpUsage", normalText OpUse),
  ("PackageOpUsage", normalText LastUses),
  ("PermissionGroupUsage", normalText GroupUse),
  ("PermissionGroupUsageState", normalText DashboardState),
  ("PermissionGroup", normalText PermissionGroup),
  ("PermissionFlags", normalText PermissionFlags),
  ("RequestedPermissionFlags", normalText RequestedFlags),
  ("PackageInfo", normalText PackageInfo),
  ("AttributionInfo", normalText Attribution),
  ("DetailsToggles", normalText Toggles),
  ("FeatureFlags", normalText Features),
  ("LoggingSettings", normalText Logging),
  ("UserSettings", normalText Settings),
  ("AccessRow", normalText EpisodeRow),
  ("UsageDetailsUiState", normalText DetailsView),
  ("DashboardUiState", normalText DashboardView),
  ("ChangeKind", normalText ChangeKind),
  ("ChangeEvent", normalText ChangeEvent),
  ("ExtraPermissionLink", normalText ScopesLink)]

end PermissionUsage
