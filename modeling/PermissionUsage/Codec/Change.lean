import PermissionUsage.Change.Event
import PermissionUsage.Codec.Basic
/-!
# Documents of changes

Changes and their kinds.
-/

namespace PermissionUsage

def ChangeKind.ofName? (name : String) : Option ChangeKind := all.find? (·.name = name)

def ChangeKind.decodeFrom (passage : Json.Passage) (json : Json) : Option ChangeKind := do
  ChangeKind.ofName? (← Json.variantName? passage json)

/-- The kind that the tag of a change tells: its name or, in a held document, its place among the
kinds. -/
def ChangeKind.ofTag? (passage : Json.Passage) : Json → Option ChangeKind
  | .str name => name.bind ChangeKind.ofName?
  | .int n => if passage = .held ∧ 0 ≤ n then all[n.toNat]? else none
  | _ => none

instance : Codec ChangeKind where
  encode kind := .text kind.name
  decode := ChangeKind.decodeFrom .direct

/-- The members that name the owner of a change. -/
def ChangeEvent.ownerMembers (owner : PackageUser) : List (String × Json) :=
  [("packageName", encode owner.packageName), ("userId", encode owner.userId)]

/-- Reads a change of an op that has no fields but the op and the owner. -/
def ChangeEvent.decodeOpChange (make : String → PackageUser → ChangeEvent) (fields : Json) :
    Option ChangeEvent := do
  match ← fields.fields? ["opName", "packageName", "userId"] with
  | [op, packageName, userId] =>
    return make (← Json.required op) ⟨← Json.required packageName, ← Json.required userId⟩
  | _ => none

/-- Reads a change that has no fields but the owner. -/
def ChangeEvent.decodeOwnerChange (make : PackageUser → ChangeEvent) (fields : Json) :
    Option ChangeEvent := do
  match ← fields.fields? ["packageName", "userId"] with
  | [packageName, userId] =>
    return make ⟨← Json.required packageName, ← Json.required userId⟩
  | _ => none

def ChangeEvent.decodeFrom (passage : Json.Passage) (json : Json) : Option ChangeEvent := do
  let (tag, fields) ← json.untag? "kind"
  match ← ChangeKind.ofTag? passage tag with
  | .opChanged => ChangeEvent.decodeOpChange .opChanged fields
  | .opNoted => ChangeEvent.decodeOpChange .opNoted fields
  | .opActiveChanged =>
    match ← fields.fields? ["opName", "packageName", "userId", "active"] with
    | [op, packageName, userId, active] =>
      return .opActiveChanged (← Json.required op)
        ⟨← Json.required packageName, ← Json.required userId⟩ (← Json.required active)
    | _ => none
  | .packageChanged => ChangeEvent.decodeOwnerChange .packageChanged fields
  | .permissionsChanged => ChangeEvent.decodeOwnerChange .permissionsChanged fields

instance : Codec ChangeEvent where
  encode event := .object <| ("kind", .text event.kind.name) ::
    match event with
    | .opChanged op owner => ("opName", encode op) :: ChangeEvent.ownerMembers owner
    | .opNoted op owner => ("opName", encode op) :: ChangeEvent.ownerMembers owner
    | .opActiveChanged op owner active =>
      ("opName", encode op) :: ChangeEvent.ownerMembers owner ++ [("active", encode active)]
    | .packageChanged owner => ChangeEvent.ownerMembers owner
    | .permissionsChanged owner => ChangeEvent.ownerMembers owner
  decode := ChangeEvent.decodeFrom .direct

end PermissionUsage
