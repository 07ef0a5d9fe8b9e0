import PermissionUsage.Codec.Basic
import PermissionUsage.Package.Basic
import PermissionUsage.ScopesLink
/-!
# Documents about packages

Groups, links, flags, package information and attribution.
-/

namespace PermissionUsage

def PermissionGroup.decodeFrom (passage : Json.Passage) (json : Json) : Option PermissionGroup := do
  PermissionGroup.ofName? (← Json.variantName? passage json)

instance : Codec PermissionGroup where
  encode group := .text group.name
  decode := PermissionGroup.decodeFrom .direct

def ScopesLink.name : ScopesLink → String
  | storageScopes => "storageScopes"
  | contactScopes => "contactScopes"

instance : Codec ScopesLink where
  encode link := .text link.name
  decode json := do
    let name ← Json.variantName? .direct json
    ScopesLink.all.find? (·.name = name)

instance : Codec PermissionFlags where
  encode flags := encode flags.bits
  decode json := (decode json).map PermissionFlags.mk

instance : Codec RequestedFlags where
  encode flags := encode flags.bits
  decode json := (decode json).map RequestedFlags.mk

instance : Codec PackageInfo where
  encode info := .object [
    ("packageName", encode info.packageName),
    ("requestedPermissions", encode info.requestedPermissions),
    ("requestedPermissionsFlags", encode info.requestedFlags),
    ("isSystem", encode info.isSystem)]
  decode json := do
    match ← json.fields? ["packageName", "requestedPermissions", "requestedPermissionsFlags",
        "isSystem"] with
    | [packageName, permissions, flags, isSystem] =>
      return {
        packageName := ← Json.required packageName
        requestedPermissions := ← Json.required permissions
        requestedFlags := ← Json.required flags
        isSystem := ← Json.required isSystem }
    | _ => none

/-! ## Attribution -/

instance : Codec (OrderedMap String UInt32) where
  encode := Json.ofMap id
  decode := Json.toMap? (·.text)

/-- The number of a resource as the name of a member: digits that stand for themselves. -/
def resourceKey? (name : Json.Name) : Option UInt32 := do
  guard !name.isRoundabout
  let n ← Decimal.parse? (← name.text)
  if n < UInt32.size then some (UInt32.ofNat n) else none

/-- The members of the map of resources to labels: named by the resource's number, and listed in the
order of those names. -/
def resourceMembers (labels : OrderedMap UInt32 String) : List (String × Json) :=
  (labels.toList.map fun (resource, label) =>
    (Decimal.render resource.toNat, encode label)).mergeSort fun a b => (compare a.1 b.1).isLE

instance : Codec (OrderedMap UInt32 String) where
  encode labels := .object (resourceMembers labels)
  decode := Json.toMap? resourceKey?

/-- The members of an attribution are written in the order of their names. -/
instance : Codec Attribution where
  encode info := .object [
    ("areUserVisible", encode info.userVisible),
    ("resourceLabelMap", encode info.resourceLabels),
    ("tagResourceMap", encode info.tagResources)]
  decode json := do
    match ← json.fields? ["areUserVisible", "tagResourceMap", "resourceLabelMap"] with
    | [userVisible, tagResources, resourceLabels] =>
      return {
        userVisible := ← Json.required userVisible
        tagResources := ← Json.optional tagResources
        resourceLabels := ← Json.optional resourceLabels }
    | _ => none

end PermissionUsage
