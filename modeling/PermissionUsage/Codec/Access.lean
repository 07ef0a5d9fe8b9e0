import PermissionUsage.Access.Source
import PermissionUsage.Codec.Basic
/-!
# Documents about accesses

Accesses, batches and last uses of ops.
-/

namespace PermissionUsage

instance : Codec Access where
  encode access := .object [
    ("opName", encode access.op),
    ("accessTimeMillis", encode access.time),
    ("durationMillis", encode access.duration),
    ("attributionTag", encode access.tag),
    ("proxyPackageName", encode access.proxyPackage),
    ("proxyUserId", encode access.proxyUser)]
  decode json := do
    match ← json.fields? ["opName", "accessTimeMillis", "durationMillis", "attributionTag",
        "proxyPackageName", "proxyUserId"] with
    | [op, time, duration, tag, proxyPackage, proxyUser] =>
      return {
        op := ← Json.required op
        time := ← Json.required time
        duration := ← Json.required duration
        tag := ← Json.optional tag
        proxyPackage := ← Json.optional proxyPackage
        proxyUser := ← Json.optional proxyUser }
    | _ => none

instance : Codec Batch where
  encode batch := .object [
    ("packageName", encode batch.owner.packageName),
    ("userId", encode batch.owner.userId),
    ("accesses", encode batch.accesses),
    ("attributionLabel", encode batch.label),
    ("isUserSensitive", encode batch.isSensitive)]
  decode json := do
    match ← json.fields? ["packageName", "userId", "accesses", "attributionLabel",
        "isUserSensitive"] with
    | [packageName, userId, accesses, label, isSensitive] =>
      return {
        owner := ⟨← Json.required packageName, ← Json.required userId⟩
        accesses := ← Json.required accesses
        label := ← Json.optional label
        isSensitive := ← Json.required isSensitive }
    | _ => none

instance : Codec OpUse where
  encode use := .object [
    ("opName", encode use.op),
    ("lastAccessMillis", encode use.last)]
  decode json := do
    match ← json.fields? ["opName", "lastAccessMillis"] with
    | [op, last] => return { op := ← Json.required op, last := ← Json.required last }
    | _ => none

instance : Codec LastUses where
  encode uses := .object [
    ("packageName", encode uses.owner.packageName),
    ("userId", encode uses.owner.userId),
    ("opUsages", encode uses.uses)]
  decode json := do
    match ← json.fields? ["packageName", "userId", "opUsages"] with
    | [packageName, userId, uses] =>
      return {
        owner := ⟨← Json.required packageName, ← Json.required userId⟩
        uses := ← Json.required uses }
    | _ => none

end PermissionUsage
