import PermissionUsage.Codec.Package
import PermissionUsage.Episode.Rows
/-!
# Documents about episodes

Timelines and the usage details made of them.
-/

namespace PermissionUsage

instance : Codec Episode where
  encode episode := .object [
    ("packageName", encode episode.owner.packageName),
    ("userId", encode episode.owner.userId),
    ("opNames", encode episode.ops),
    ("accessStartMillis", encode episode.start),
    ("accessEndMillis", encode episode.finish),
    ("durationMillis", encode episode.duration),
    ("isUserSensitive", encode episode.isSensitive),
    ("attributionLabel", encode episode.label),
    ("attributionTags", encode episode.tags),
    ("proxyPackageName", encode episode.proxyPackage),
    ("proxyUserId", encode episode.proxyUser)]
  decode json := do
    match ← json.fields? ["packageName", "userId", "opNames", "accessStartMillis",
        "accessEndMillis", "durationMillis", "isUserSensitive", "attributionLabel",
        "attributionTags", "proxyPackageName", "proxyUserId"] with
    | [packageName, userId, ops, start, finish, duration, isSensitive, label, tags, proxyPackage,
        proxyUser] =>
      return {
        owner := ⟨← Json.required packageName, ← Json.required userId⟩
        ops := ← Json.required ops
        start := ← Json.required start
        finish := ← Json.required finish
        duration := ← Json.required duration
        isSensitive := ← Json.required isSensitive
        label := ← Json.optional label
        tags := ← Json.optional tags
        proxyPackage := ← Json.optional proxyPackage
        proxyUser := ← Json.optional proxyUser }
    | _ => none

instance : Codec TimelineState where
  encode
    | .loading => .object [("state", .text "loading")]
    | .success episodes => .object [("state", .text "success"), ("entries", encode episodes)]
  decode json := do
    match ← json.adjacent? "state" "entries" with
    | ("loading", none, _) => return .loading
    | ("loading", some .null, _) => return .loading
    | ("success", some episodes, _) => return .success (← decode episodes)
    | _ => none

/-- A proxy is a list of its package and its user. -/
def EpisodeRow.encodeProxy (proxy : PackageUser) : Json :=
  .arr [encode proxy.packageName, encode proxy.userId]

/-- Reads a proxy; null is none. -/
def EpisodeRow.decodeProxy : Option Json → Option (Option PackageUser)
  | none => some none
  | some .null => some none
  | some (.arr [packageName, userId]) => do
    return some ⟨← decode packageName, ← decode userId⟩
  | _ => none

def EpisodeRow.decodeFrom (passage : Json.Passage) (json : Json) : Option EpisodeRow := do
  match ← json.fields? ["userId", "packageName", "permissionGroup", "accessStartMillis",
      "accessEndMillis", "durationMillis", "attributionLabel", "showingAttributionLabel",
      "attributionTags", "proxy", "isEmergencyLocationAccess"] with
  | [userId, packageName, group, start, finish, duration, label, showsLabel, tags, proxy,
      isEmergencyLocation] =>
    return {
      owner := ⟨← Json.required packageName, ← Json.required userId⟩
      group := ← PermissionGroup.decodeFrom passage (← group)
      start := ← Json.required start
      finish := ← Json.required finish
      duration := ← Json.optional duration
      label := ← Json.optional label
      showsLabel := ← Json.required showsLabel
      tags := ← Json.required tags
      proxy := ← decodeProxy proxy
      isEmergencyLocation := ← Json.required isEmergencyLocation }
  | _ => none

instance : Codec EpisodeRow where
  encode row := .object [
    ("userId", encode row.owner.userId),
    ("packageName", encode row.owner.packageName),
    ("permissionGroup", encode row.group),
    ("accessStartMillis", encode row.start),
    ("accessEndMillis", encode row.finish),
    ("durationMillis", encode row.duration),
    ("attributionLabel", encode row.label),
    ("showingAttributionLabel", encode row.showsLabel),
    ("attributionTags", encode row.tags),
    ("proxy", (row.proxy.map EpisodeRow.encodeProxy).getD .null),
    ("isEmergencyLocationAccess", encode row.isEmergencyLocation)]
  decode := EpisodeRow.decodeFrom .direct

/-- Reads the list of items, each as it comes. -/
def Json.items? {α : Type} (read : Json → Option α) : Option Json → Option (List α)
  | some (.arr items) => items.mapM read
  | _ => none

instance : Codec DetailsView where
  encode
    | .loading => .object [("state", .text "loading")]
    | .success rows containsSystemUsages => .object [
      ("state", .text "success"),
      ("rows", encode rows),
      ("containsSystemUsages", encode containsSystemUsages)]
  decode json := do
    let (state, fields) ← json.tagged? "state"
    match state with
    | "loading" => if fields.isEmptyRecord then some .loading else none
    | "success" =>
      match ← fields.fields? ["rows", "containsSystemUsages"] with
      | [rows, containsSystemUsages] =>
        return .success (← Json.items? (EpisodeRow.decodeFrom .held) rows)
          (← Json.required containsSystemUsages)
      | _ => none
    | _ => none

end PermissionUsage
