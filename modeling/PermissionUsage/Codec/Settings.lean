import PermissionUsage.Codec.Basic
import PermissionUsage.Settings.Basic
/-!
# Documents of settings

Every field of the settings may be missing and then has its default. The text of a settings file is
the pretty form.
-/

namespace PermissionUsage

instance : Codec Toggles where
  encode toggles := .object [
    ("showSystem", encode toggles.showSystem),
    ("show7Days", encode toggles.showSevenDays)]
  decode json := do
    match ← json.fieldsOrFewer? ["showSystem", "show7Days"] with
    | [showSystem, showSevenDays] =>
      return {
        showSystem := ← Json.orDefault false showSystem
        showSevenDays := ← Json.orDefault false showSevenDays }
    | _ => none

instance : Codec Features where
  encode features := .object [
    ("locationBypassEnabled", encode features.locationBypass),
    ("sevenDayToggleEnabled", encode features.sevenDayToggle),
    ("handheld", encode features.handheld)]
  decode json := do
    match ← json.fieldsOrFewer? ["locationBypassEnabled", "sevenDayToggleEnabled", "handheld"] with
    | [locationBypass, sevenDayToggle, handheld] =>
      return {
        locationBypass := ← Json.orDefault false locationBypass
        sevenDayToggle := ← Json.orDefault true sevenDayToggle
        handheld := ← Json.orDefault true handheld }
    | _ => none

instance : Codec Logging where
  encode logging := .object [("level", encode logging.level)]
  decode json := do
    match ← json.fieldsOrFewer? ["level"] with
    | [level] => return { level := ← Json.orDefault "info" level }
    | _ => none

instance : Codec Settings where
  encode settings := .object [
    ("toggles", encode settings.toggles),
    ("features", encode settings.features),
    ("logging", encode settings.logging)]
  decode json := do
    match ← json.fieldsOrFewer? ["toggles", "features", "logging"] with
    | [toggles, features, logging] =>
      return {
        toggles := ← Json.orDefault {} toggles
        features := ← Json.orDefault {} features
        logging := ← Json.orDefault {} logging }
    | _ => none

end PermissionUsage
