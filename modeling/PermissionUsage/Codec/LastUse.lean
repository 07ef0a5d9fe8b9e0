import PermissionUsage.Codec.Access
import PermissionUsage.Codec.Episode
import PermissionUsage.LastUse.Counts
/-!
# Documents about last uses

The uses of groups and the counts made of them.
-/

namespace PermissionUsage

def GroupUse.decodeFrom (passage : Json.Passage) (json : Json) : Option GroupUse := do
  match ← json.fields? ["packageName", "userId", "permissionGroup", "lastAccessMillis",
      "isUserSensitive"] with
  | [packageName, userId, group, last, isSensitive] =>
    return {
      owner := ⟨← Json.required packageName, ← Json.required userId⟩
      group := ← PermissionGroup.decodeFrom passage (← group)
      last := ← Json.required last
      isSensitive := ← Json.required isSensitive }
  | _ => none

instance : Codec GroupUse where
  encode use := .object [
    ("packageName", encode use.owner.packageName),
    ("userId", encode use.owner.userId),
    ("permissionGroup", encode use.group),
    ("lastAccessMillis", encode use.last),
    ("isUserSensitive", encode use.isSensitive)]
  decode := GroupUse.decodeFrom .direct

instance : Codec DashboardState where
  encode
    | .loading => .object [("state", .text "loading")]
    | .success uses => .object [("state", .text "success"), ("usages", encode uses)]
  decode json := do
    match ← json.adjacent? "state" "usages" with
    | ("loading", none, _) => return .loading
    | ("loading", some .null, _) => return .loading
    | ("success", uses, passage) =>
      return .success (← Json.items? (GroupUse.decodeFrom passage) uses)
    | _ => none

/-- The counts of groups, a member for each. -/
instance : Codec (OrderedMap PermissionGroup Nat) where
  encode := Json.ofMap PermissionGroup.name
  decode := Json.toMap? (·.text.bind PermissionGroup.ofName?)

instance : Codec DashboardView where
  encode
    | .loading => .object [("state", .text "loading")]
    | .success containsSystemUsage counts => .object [
      ("state", .text "success"),
      ("containsSystemAppUsage", encode containsSystemUsage),
      ("usageCounts", encode counts)]
  decode json := do
    let (state, fields) ← json.tagged? "state"
    match state with
    | "loading" => if fields.isEmptyRecord then some .loading else none
    | "success" =>
      match ← fields.fields? ["containsSystemAppUsage", "usageCounts"] with
      | [containsSystemUsage, counts] =>
        return .success (← Json.required containsSystemUsage) (← Json.required counts)
      | _ => none
    | _ => none

end PermissionUsage
