import PermissionUsage.Codec.Change
import PermissionUsage.Codec.LastUse
import PermissionUsage.Proofs.Codec.Containers
/-!
# Records in documents lose nothing

The plain enumerations and the records without variants are read back from their documents: each
field is found under its name (`Json.fields?_object`) and read by the codec of its type. A record
that holds a group is read the same way directly and held in memory, since a group is always written
as a string.
-/

namespace PermissionUsage

open LawfulCodec

namespace Json

/-- A field that has to be given is read if its value is. -/
@[simp] theorem required_encode {α : Type} [Codec α] [LawfulCodec α] (a : α) :
    required (some (encode a)) = some a := decode_encode a

/-- A field that may be missing is read if its value is, null included. -/
@[simp] theorem optional_encode {α : Type} [Codec α] [LawfulCodec α] [NeverNull α] (a : Option α) :
    optional (some (encode a)) = some a := decode_encode a

/-- The name of a variant is read from a string, whichever way it comes. -/
theorem variantName?_text (passage : Passage) (name : String) :
    variantName? passage (.text name) = some name := rfl

end Json

/-! ## Enumerations -/

/-- A group is written as a string, which says the same held in memory. -/
@[simp] theorem PermissionGroup.decodeFrom_encode (passage : Json.Passage)
    (group : PermissionGroup) : decodeFrom passage (encode group) = some group := by
  show (Json.variantName? passage (.text group.name)).bind ofName? = some group
  rw [Json.variantName?_text]
  exact ofName?_name group

instance : LawfulCodec PermissionGroup where
  decode_encode := PermissionGroup.decodeFrom_encode .direct
  hasWrittenNames_encode _ := trivial

instance : LawfulCodec ScopesLink where
  decode_encode link := by
    cases link <;> decide
  hasWrittenNames_encode _ := trivial

/-- Kinds of changes have different names. -/
theorem ChangeKind.ofName?_name (kind : ChangeKind) : ofName? kind.name = some kind := by
  cases kind <;> decide

instance : LawfulCodec ChangeKind where
  decode_encode kind := by
    show (Json.variantName? .direct (.text kind.name)).bind ChangeKind.ofName? = some kind
    rw [Json.variantName?_text]
    exact kind.ofName?_name
  hasWrittenNames_encode _ := trivial

/-! ## Packages -/

instance : LawfulCodec PermissionFlags where
  decode_encode flags := by
    show (decode (encode flags.bits)).map PermissionFlags.mk = some flags
    rw [decode_encode]
    rfl
  hasWrittenNames_encode _ := trivial

instance : LawfulCodec RequestedFlags where
  decode_encode flags := by
    show (decode (encode flags.bits)).map RequestedFlags.mk = some flags
    rw [decode_encode]
    rfl
  hasWrittenNames_encode _ := trivial

instance : LawfulCodec PackageInfo where
  decode_encode info := by
    have hfields : Json.fields?
        ["packageName", "requestedPermissions", "requestedPermissionsFlags", "isSystem"]
        (encode info) =
        some [some (encode info.packageName), some (encode info.requestedPermissions),
          some (encode info.requestedFlags), some (encode info.isSystem)] :=
      Json.fields?_object (by simp)
    -- all that matters of the document from here on is which fields are found in it
    generalize encode info = json at hfields ⊢
    show Option.bind _ _ = _
    rw [hfields, Option.bind_some]
    simp only [Json.required_encode]
    rfl
  hasWrittenNames_encode info :=
    Json.hasWrittenNames_object (by simp [hasWrittenNames_encode])

/-! ### Attributions -/

namespace Attribution

variable {info : Attribution}

/-- How an attribution may be written: its fields may come in any order, and so may the entries of
its maps. -/
inductive IsWrittenAs (info : Attribution) : Json → Prop
  | object {tags labels : Json} {members : List (String × Json)}
    (htags : Json.IsMapOf id info.tagResources tags)
    (hlabels : Json.IsMapOf (fun resource : UInt32 => Decimal.render resource.toNat)
      info.resourceLabels labels)
    (hmembers : members.Perm [("areUserVisible", encode info.userVisible),
      ("tagResourceMap", tags), ("resourceLabelMap", labels)]) :
    IsWrittenAs info (.object members)

/-- **An attribution is read back from its members in any order.** The fields are found by name, and
what is collected into a map does not tell in which order it came. -/
theorem IsWrittenAs.decode_eq {json : Json} (h : info.IsWrittenAs json) :
    decode json = some info := by
  cases h with
  | @object tags labels members htags hlabels hmembers =>
    let fields : List (String × Json) := [("areUserVisible", encode info.userVisible),
      ("tagResourceMap", tags), ("resourceLabelMap", labels)]
    have hnodup : (members.map (·.1)).Nodup := (hmembers.map _).nodup_iff.2 (by simp)
    have hfields : Json.fields? (fields.map (·.1)) (.object members) =
        some (fields.map fun m => some m.2) :=
      Json.fields?_of_subset hnodup fun m hm => hmembers.mem_iff.2 hm
    have htags : decode tags = some info.tagResources := htags.decode_eq (fun _ => rfl) rfl
    have hlabels : decode labels = some info.resourceLabels :=
      hlabels.decode_eq resourceKey?_render rfl
    show Option.bind (Json.fields? (fields.map (·.1)) (.object members)) _ = _
    rw [hfields]
    simp [fields, Json.optional, htags, hlabels]

/-- However it is written, all its names are texts. -/
theorem IsWrittenAs.hasWrittenNames {json : Json} (h : info.IsWrittenAs json) :
    json.HasWrittenNames := by
  cases h with
  | object htags hlabels hmembers =>
    refine Json.hasWrittenNames_object fun m hm => ?_
    have hm := hmembers.mem_iff.1 hm
    simp only [List.mem_cons, List.not_mem_nil, or_false] at hm
    rcases hm with rfl | rfl | rfl
    · exact hasWrittenNames_encode info.userVisible
    · exact htags.hasWrittenNames
    · exact hlabels.hasWrittenNames

/-- In the document of an attribution the members are in the order of their names. -/
theorem isWrittenAs_encode (info : Attribution) : info.IsWrittenAs (encode info) := by
  have htags : Json.IsMapOf id info.tagResources (encode info.tagResources) := by
    cases info.tagResources with
    | none => exact .missing
    | some map => exact .given (.refl map.toList)
  have hlabels : Json.IsMapOf (fun resource : UInt32 => Decimal.render resource.toNat)
      info.resourceLabels (encode info.resourceLabels) := by
    cases info.resourceLabels with
    | none => exact .missing
    | some map =>
      show Json.IsMapOf _ _ (.object (resourceMembers map))
      rw [resourceMembers_eq]
      exact .given map.perm_resourceEntries
  exact .object htags hlabels (.cons _ (.swap _ _ _))

end Attribution

instance : LawfulCodec Attribution where
  decode_encode info := info.isWrittenAs_encode.decode_eq
  hasWrittenNames_encode info := info.isWrittenAs_encode.hasWrittenNames

/-! ## Accesses -/

instance : LawfulCodec Access where
  decode_encode access := by
    have hfields : Json.fields?
        ["opName", "accessTimeMillis", "durationMillis", "attributionTag", "proxyPackageName",
          "proxyUserId"] (encode access) =
        some [some (encode access.op), some (encode access.time), some (encode access.duration),
          some (encode access.tag), some (encode access.proxyPackage),
          some (encode access.proxyUser)] :=
      Json.fields?_object (by simp)
    generalize encode access = json at hfields ⊢
    show Option.bind _ _ = _
    rw [hfields, Option.bind_some]
    simp only [Json.required_encode, Json.optional_encode]
    rfl
  hasWrittenNames_encode access :=
    Json.hasWrittenNames_object (by simp [hasWrittenNames_encode])

instance : LawfulCodec Batch where
  decode_encode batch := by
    have hfields : Json.fields?
        ["packageName", "userId", "accesses", "attributionLabel", "isUserSensitive"]
        (encode batch) =
        some [some (encode batch.owner.packageName), some (encode batch.owner.userId),
          some (encode batch.accesses), some (encode batch.label),
          some (encode batch.isSensitive)] :=
      Json.fields?_object (by simp)
    generalize encode batch = json at hfields ⊢
    show Option.bind _ _ = _
    rw [hfields, Option.bind_some]
    simp only [Json.required_encode, Json.optional_encode]
    rfl
  hasWrittenNames_encode batch :=
    Json.hasWrittenNames_object (by simp [hasWrittenNames_encode])

/-! ## Last uses -/

instance : LawfulCodec OpUse where
  decode_encode use := by
    have hfields : Json.fields? ["opName", "lastAccessMillis"] (encode use) =
        some [some (encode use.op), some (encode use.last)] :=
      Json.fields?_object (by simp)
    generalize encode use = json at hfields ⊢
    show Option.bind _ _ = _
    rw [hfields, Option.bind_some]
    simp only [Json.required_encode]
    rfl
  hasWrittenNames_encode use :=
    Json.hasWrittenNames_object (by simp [hasWrittenNames_encode])

instance : LawfulCodec LastUses where
  decode_encode uses := by
    have hfields : Json.fields? ["packageName", "userId", "opUsages"] (encode uses) =
        some [some (encode uses.owner.packageName), some (encode uses.owner.userId),
          some (encode uses.uses)] :=
      Json.fields?_object (by simp)
    generalize encode uses = json at hfields ⊢
    show Option.bind _ _ = _
    rw [hfields, Option.bind_some]
    simp only [Json.required_encode]
    rfl
  hasWrittenNames_encode uses :=
    Json.hasWrittenNames_object (by simp [hasWrittenNames_encode])

/-- A use of a group is read back, directly or held in memory. -/
theorem GroupUse.decodeFrom_encode (passage : Json.Passage) (use : GroupUse) :
    decodeFrom passage (encode use) = some use := by
  have hfields : Json.fields?
      ["packageName", "userId", "permissionGroup", "lastAccessMillis", "isUserSensitive"]
      (encode use) =
      some [some (encode use.owner.packageName), some (encode use.owner.userId),
        some (encode use.group), some (encode use.last), some (encode use.isSensitive)] :=
    Json.fields?_object (by simp)
  generalize encode use = json at hfields ⊢
  show Option.bind _ _ = _
  rw [hfields, Option.bind_some]
  simp only [Json.required_encode, PermissionGroup.decodeFrom_encode, Option.bind_eq_bind,
    Option.bind_some]
  rfl

instance : LawfulCodec GroupUse where
  decode_encode := GroupUse.decodeFrom_encode .direct
  hasWrittenNames_encode use :=
    Json.hasWrittenNames_object (by simp [hasWrittenNames_encode])

/-! ## Episodes -/

instance : LawfulCodec Episode where
  decode_encode episode := by
    have hfields : Json.fields?
        ["packageName", "userId", "opNames", "accessStartMillis", "accessEndMillis",
          "durationMillis", "isUserSensitive", "attributionLabel", "attributionTags",
          "proxyPackageName", "proxyUserId"] (encode episode) =
        some [some (encode episode.owner.packageName), some (encode episode.owner.userId),
          some (encode episode.ops), some (encode episode.start), some (encode episode.finish),
          some (encode episode.duration), some (encode episode.isSensitive),
          some (encode episode.label), some (encode episode.tags),
          some (encode episode.proxyPackage), some (encode episode.proxyUser)] :=
      Json.fields?_object (by simp)
    generalize encode episode = json at hfields ⊢
    show Option.bind _ _ = _
    rw [hfields, Option.bind_some]
    simp only [Json.required_encode, Json.optional_encode]
    rfl
  hasWrittenNames_encode episode :=
    Json.hasWrittenNames_object (by simp [hasWrittenNames_encode])

namespace EpisodeRow

/-- A proxy as it is written: null for none. -/
def proxyJson (proxy : Option PackageUser) : Json := (proxy.map encodeProxy).getD .null

/-- A proxy is written as a pair or null, and read back from either. -/
@[simp] theorem decodeProxy_proxyJson (proxy : Option PackageUser) :
    decodeProxy (some (proxyJson proxy)) = some proxy := by
  cases proxy with
  | none => rfl
  | some proxy =>
    show decodeProxy (some (.arr [encode proxy.packageName, encode proxy.userId])) = _
    simp only [decodeProxy, decode_encode, Option.bind_eq_bind, Option.bind_some]
    rfl

theorem hasWrittenNames_proxyJson (proxy : Option PackageUser) :
    (proxyJson proxy).HasWrittenNames := by
  cases proxy with
  | none => trivial
  | some proxy => exact ⟨trivial, trivial, trivial⟩

/-- A row is read back, directly or held in memory. -/
theorem decodeFrom_encode (passage : Json.Passage) (row : EpisodeRow) :
    decodeFrom passage (encode row) = some row := by
  have hfields : Json.fields?
      ["userId", "packageName", "permissionGroup", "accessStartMillis", "accessEndMillis",
        "durationMillis", "attributionLabel", "showingAttributionLabel", "attributionTags", "proxy",
        "isEmergencyLocationAccess"] (encode row) =
      some [some (encode row.owner.userId), some (encode row.owner.packageName),
        some (encode row.group), some (encode row.start), some (encode row.finish),
        some (encode row.duration), some (encode row.label), some (encode row.showsLabel),
        some (encode row.tags), some (proxyJson row.proxy),
        some (encode row.isEmergencyLocation)] :=
    Json.fields?_object (by simp)
  generalize encode row = json at hfields ⊢
  show Option.bind _ _ = _
  rw [hfields, Option.bind_some]
  simp only [Json.required_encode, Json.optional_encode, Option.bind_eq_bind, Option.bind_some,
    PermissionGroup.decodeFrom_encode, decodeProxy_proxyJson]
  rfl

end EpisodeRow

instance : LawfulCodec EpisodeRow where
  decode_encode := EpisodeRow.decodeFrom_encode .direct
  hasWrittenNames_encode row := by
    have hproxy := EpisodeRow.hasWrittenNames_proxyJson row.proxy
    refine Json.hasWrittenNames_object ?_
    simp only [List.forall_mem_cons, hasWrittenNames_encode, true_and]
    exact ⟨hproxy, nofun⟩

end PermissionUsage
