import Mathlib.Data.Option.Basic
import PermissionUsage.Proofs.Codec.Records
/-!
# Variants in documents lose nothing

A document with variants names its variant in one of its members. What comes with the name is read
back.

* `Json.adjacent?_content`: a content beside the name is found, and it is not held, since it is
  written behind the name.
* `Json.untag?_object`: a record whose tag is among its members is held before it is read, and is
  found without its tag. For this it has to be proper and not nested too deep (`HeldCodec`).

A dashboard view is read back if its counts fit (`DashboardView.decode_encode`); every other type is
lawful.
-/

namespace PermissionUsage

open LawfulCodec

namespace Json

/-! ## A name beside its content -/

variable {tag content name : String}

/-- A variant without content is told by its tag alone. -/
theorem adjacent?_nothing (hne : tag ≠ content) :
    adjacent? tag content (object [(tag, .text name)]) = some (name, none, .direct) := by
  have htag : member? [(({ text := some tag } : Name), .text name)] tag =
      some (some (.text name)) := by
    simp [member?]
  have hcontent : member? [(({ text := some tag } : Name), .text name)] content = some none := by
    simp [member?, hne]
  simp [adjacent?, object, htag, hcontent, variantName?_text]

/-- A variant with content comes as tag and content, in the order in which they are written. -/
theorem adjacent?_content (hne : tag ≠ content) (value : Json) :
    adjacent? tag content (object [(tag, .text name), (content, value)]) =
      some (name, some value, .direct) := by
  have htag : member? [(({ text := some tag } : Name), .text name),
      ({ text := some content }, value)] tag = some (some (.text name)) := by
    simp [member?, hne.symm]
  have hcontent : member? [(({ text := some tag } : Name), .text name),
      ({ text := some content }, value)] content = some (some value) := by
    simp [member?, hne]
  simp [adjacent?, object, htag, hcontent, variantName?_text]

/-! ## What can be held -/

/-- The value is proper, and arrays and objects are nested at most so many levels deep in it. -/
structure FitsWithin (levels : Nat) (json : Json) : Prop where
  isProper : json.isProper = true
  depth_le : json.depth ≤ levels

namespace FitsWithin

variable {levels : Nat}

/-- What fits within some levels fits within more. -/
theorem mono {more : Nat} {json : Json} (fits : json.FitsWithin levels) (h : levels ≤ more) :
    json.FitsWithin more := ⟨fits.isProper, fits.depth_le.trans h⟩

/-- An array is one level deeper than its items. -/
theorem arr {items : List Json} (fits : ∀ item ∈ items, item.FitsWithin levels) :
    (Json.arr items).FitsWithin (levels + 1) := by
  have hitems : areProperItems items = true ∧ depthOfItems items ≤ levels := by
    induction items with
    | nil => exact ⟨rfl, Nat.zero_le _⟩
    | cons item rest ih =>
      obtain ⟨hitem, hrest⟩ := List.forall_mem_cons.1 fits
      obtain ⟨hproper, hdepth⟩ := ih hrest
      constructor
      · rw [areProperItems, hitem.isProper, hproper]
        rfl
      · rw [depthOfItems]
        exact Nat.max_le.2 ⟨hitem.depth_le, hdepth⟩
  exact ⟨hitems.1, Nat.succ_le_succ hitems.2⟩

/-- An object is one level deeper than its members. -/
theorem object {members : List (String × Json)} (fits : ∀ m ∈ members, m.2.FitsWithin levels) :
    (object members).FitsWithin (levels + 1) := by
  have hmembers : ∀ written : List (Name × Json),
      written = members.map (fun m => ({ text := some m.1 }, m.2)) →
      areProperMembers written = true ∧ depthOfMembers written ≤ levels := by
    rintro written rfl
    induction members with
    | nil => exact ⟨rfl, Nat.zero_le _⟩
    | cons m rest ih =>
      obtain ⟨hm, hrest⟩ := List.forall_mem_cons.1 fits
      obtain ⟨hproper, hdepth⟩ := ih hrest
      constructor
      · rw [List.map_cons, areProperMembers, hm.isProper, hproper]
        rfl
      · rw [List.map_cons, depthOfMembers]
        exact Nat.max_le.2 ⟨hm.depth_le, hdepth⟩
  obtain ⟨hproper, hdepth⟩ := hmembers _ rfl
  exact ⟨hproper, Nat.succ_le_succ hdepth⟩

/-- What fits within the levels that memory has can be held there. -/
theorem canBeHeld {json : Json} (fits : json.FitsWithin levels) (h : levels ≤ heldDepth) :
    canBeHeld 0 json = true := by
  have hdepth : json.depth + 0 ≤ heldDepth := fits.depth_le.trans h
  rw [Json.canBeHeld, fits.isProper, decide_eq_true hdepth]
  rfl

end FitsWithin

/-! ## A tag among the members of a record -/

variable {members : List (String × Json)}

/-- A record that can be held is found without its tag. -/
theorem untag?_object {levels : Nat} {value : Json} (hnew : tag ∉ members.map (·.1))
    (fits : (object ((tag, value) :: members)).FitsWithin levels) (h : levels ≤ heldDepth) :
    untag? tag (object ((tag, value) :: members)) = some (value, object members) := by
  let tagMember : Name × Json := ({ text := some tag }, value)
  let written : List (Name × Json) := members.map fun m => ({ text := some m.1 }, m.2)
  have hother : ∀ m ∈ written, m.1.text ≠ some tag := by
    intro m hm htext
    obtain ⟨n, hn, rfl⟩ := List.mem_map.1 hm
    exact hnew (List.mem_map.2 ⟨n, hn, Option.some.inj htext⟩)
  have hfound : (tagMember :: written).filter (·.1.text = some tag) = [tagMember] := by
    have hnone : written.filter (·.1.text = some tag) = [] :=
      List.filter_eq_nil_iff.2 fun m hm => by simpa using hother m hm
    rw [List.filter_cons_of_pos (by simp [tagMember]), hnone]
  have hrest : (tagMember :: written).filter (·.1.text ≠ some tag) = written := by
    have hall : written.filter (·.1.text ≠ some tag) = written :=
      List.filter_eq_self.2 fun m hm => by simpa using hother m hm
    rw [List.filter_cons_of_neg (by simp [tagMember]), hall]
  have hheld := fits.canBeHeld h
  have hobject : object ((tag, value) :: members) = .obj (tagMember :: written) := rfl
  rw [hobject] at hheld ⊢
  simp only [untag?, hheld, hfound, hrest, Bool.not_true, Bool.false_eq_true, if_false]
  rfl

/-- A record that names its variant in its tag is found with its other fields. -/
theorem exists_tagged? {levels : Nat} {name : String} (hnodup : (tag :: members.map (·.1)).Nodup)
    (fits : (object ((tag, .text name) :: members)).FitsWithin levels) (h : levels ≤ heldDepth) :
    ∃ fields, tagged? tag (object ((tag, .text name) :: members)) = some (name, fields) ∧
      fields? (members.map (·.1)) fields = some (members.map fun m => some m.2) := by
  obtain ⟨hnew, hnodup⟩ := List.nodup_cons.1 hnodup
  refine ⟨object members, ?_, fields?_object hnodup⟩
  rw [tagged?, untag?_object hnew fits h]
  rfl

end Json

open Json (FitsWithin)

/-! ## Codecs whose documents can be held -/

/-- The documents of the codec are proper and nested at most so many levels deep. -/
class HeldCodec (α : Type) [Codec α] (levels : outParam Nat) : Prop where
  fitsWithin_encode (a : α) : (encode a).FitsWithin levels

open HeldCodec

theorem Json.FitsWithin.int {n : Int} (fits : n.natAbs < UInt64.size) : (Json.int n).FitsWithin 0 :=
  ⟨by simp [Json.isProper, isFiniteInt, fits], Nat.le_refl 0⟩

instance : HeldCodec Bool 0 := ⟨fun _ => ⟨rfl, Nat.le_refl 0⟩⟩

instance : HeldCodec String 0 := ⟨fun _ => ⟨rfl, Nat.le_refl 0⟩⟩

instance : HeldCodec PermissionGroup 0 := ⟨fun _ => ⟨rfl, Nat.le_refl 0⟩⟩

instance : HeldCodec Millis 0 where
  fitsWithin_encode t := by
    have hmin := t.le_toInt
    have hmax := t.toInt_lt
    have hsize : UInt64.size = 18446744073709551616 := rfl
    exact .int (by omega)

instance : HeldCodec UInt32 0 where
  fitsWithin_encode n := by
    have hmax := n.toNat_lt_size
    have hsize : UInt32.size ≤ UInt64.size := by decide
    exact .int (by omega)

theorem fitsWithin_scalar {α : Type} [Codec α] [HeldCodec α 0] (a : α) (levels : Nat) :
    (encode a).FitsWithin levels := (fitsWithin_encode a).mono (Nat.zero_le levels)

section

variable {α : Type} [Codec α] {levels : Nat} [HeldCodec α levels]

instance : HeldCodec (Option α) levels where
  fitsWithin_encode
    | none => ⟨rfl, Nat.zero_le _⟩
    | some a => fitsWithin_encode a

instance : HeldCodec (List α) (levels + 1) where
  fitsWithin_encode _ := .arr (List.forall_mem_map.2 fun a _ => fitsWithin_encode a)

instance [Ord α] [Std.TransOrd α] [Std.LawfulEqOrd α] : HeldCodec (OrderedSet α) (levels + 1) where
  fitsWithin_encode set := fitsWithin_encode set.toList

end

instance : HeldCodec EpisodeRow 2 where
  fitsWithin_encode row := by
    -- only the tags and the proxy are more than scalars
    have hproxy : (EpisodeRow.proxyJson row.proxy).FitsWithin 1 := by
      cases row.proxy with
      | none => exact ⟨rfl, Nat.zero_le _⟩
      | some proxy =>
        refine .arr ?_
        simp only [List.forall_mem_cons]
        exact ⟨fitsWithin_encode proxy.packageName, fitsWithin_encode proxy.userId, nofun⟩
    refine .object ?_
    simp only [List.forall_mem_cons]
    exact ⟨fitsWithin_scalar row.owner.userId 1, fitsWithin_scalar row.owner.packageName 1,
      fitsWithin_scalar row.group 1, fitsWithin_scalar row.start 1, fitsWithin_scalar row.finish 1,
      fitsWithin_scalar row.duration 1, fitsWithin_scalar row.label 1,
      fitsWithin_scalar row.showsLabel 1, fitsWithin_encode row.tags, hproxy,
      fitsWithin_scalar row.isEmergencyLocation 1, nofun⟩

/-! ## States with a content -/

instance : LawfulCodec TimelineState where
  decode_encode
    | .loading => by
      have hstate : (encode TimelineState.loading).adjacent? "state" "entries" =
          some ("loading", none, .direct) := Json.adjacent?_nothing (by decide)
      show Option.bind _ _ = _
      rw [hstate]
      rfl
    | .success episodes => by
      have hstate : (encode (TimelineState.success episodes)).adjacent? "state" "entries" =
          some ("success", some (encode episodes), .direct) :=
        Json.adjacent?_content (by decide) _
      generalize encode (TimelineState.success episodes) = json at hstate ⊢
      show Option.bind _ _ = _
      rw [hstate, Option.bind_some]
      show Option.bind (decode (encode episodes)) _ = _
      rw [decode_encode]
      rfl
  hasWrittenNames_encode
    | .loading => ⟨rfl, trivial, trivial⟩
    | .success episodes => Json.hasWrittenNames_object (by simp [hasWrittenNames_encode])

/-- A list of items is read item by item, each as it comes. -/
theorem Json.items?_encode {α : Type} [Codec α] {read : Json → Option α}
    (h : ∀ a, read (encode a) = some a) (items : List α) :
    Json.items? read (some (encode items)) = some items :=
  Json.mapM_map_encode fun a _ => h a

instance : LawfulCodec DashboardState where
  decode_encode
    | .loading => by
      have hstate : (encode DashboardState.loading).adjacent? "state" "usages" =
          some ("loading", none, .direct) := Json.adjacent?_nothing (by decide)
      show Option.bind _ _ = _
      rw [hstate]
      rfl
    | .success uses => by
      have hstate : (encode (DashboardState.success uses)).adjacent? "state" "usages" =
          some ("success", some (encode uses), .direct) :=
        Json.adjacent?_content (by decide) _
      generalize encode (DashboardState.success uses) = json at hstate ⊢
      show Option.bind _ _ = _
      rw [hstate, Option.bind_some]
      show Option.bind (Json.items? (GroupUse.decodeFrom .direct) (some (encode uses))) _ = _
      rw [Json.items?_encode (GroupUse.decodeFrom_encode .direct)]
      rfl
  hasWrittenNames_encode
    | .loading => ⟨rfl, trivial, trivial⟩
    | .success uses => Json.hasWrittenNames_object (by simp [hasWrittenNames_encode])

/-! ## Views with their rows or counts -/

instance : LawfulCodec DetailsView where
  decode_encode
    | .loading => by decide
    | .success rows containsSystemUsages => by
      have fits : (encode (DetailsView.success rows containsSystemUsages)).FitsWithin 4 := by
        refine .object ?_
        simp only [List.forall_mem_cons]
        exact ⟨fitsWithin_scalar "success" 3, fitsWithin_encode rows,
          fitsWithin_scalar containsSystemUsages 3, nofun⟩
      obtain ⟨fields, htag, hfields⟩ : ∃ fields,
          (encode (DetailsView.success rows containsSystemUsages)).tagged? "state" =
            some ("success", fields) ∧
          fields.fields? ["rows", "containsSystemUsages"] =
            some [some (encode rows), some (encode containsSystemUsages)] :=
        Json.exists_tagged? (by simp) fits (by decide)
      generalize encode (DetailsView.success rows containsSystemUsages) = json at htag ⊢
      show Option.bind _ _ = _
      rw [htag, Option.bind_some]
      show Option.bind (Json.fields? _ fields) _ = _
      rw [hfields, Option.bind_some]
      simp only [Json.items?_encode (EpisodeRow.decodeFrom_encode .held), Json.required_encode]
      rfl
  hasWrittenNames_encode
    | .loading => ⟨rfl, trivial, trivial⟩
    | .success rows containsSystemUsages =>
      Json.hasWrittenNames_object (by simp [hasWrittenNames_encode])

/-- Counts that fit 64 bits are read back from their members. -/
theorem decode_encode_counts {counts : OrderedMap PermissionGroup Nat}
    (fits : ∀ e ∈ counts.toList, e.2 < UInt64.size) : decode (encode counts) = some counts :=
  Json.toMap?_object PermissionGroup.ofName?_name (fun e he => decode_encode_count (fits e he))
    (.refl _)

/-- Counts that have room in a document can be held in memory as well. -/
theorem fitsWithin_counts {counts : OrderedMap PermissionGroup Nat}
    (fits : ∀ e ∈ counts.toList, e.2 < UInt64.size) : (encode counts).FitsWithin 1 := by
  refine .object (List.forall_mem_map.2 fun e he => .int ?_)
  simpa using fits e he

namespace DashboardView

/-- Every count of the view fits 64 bits. -/
def CountsFit : DashboardView → Prop
  | .loading => True
  | .success _ counts => ∀ e ∈ counts.toList, e.2 < UInt64.size

/-- A dashboard view is read back if its counts have room. -/
theorem decode_encode {view : DashboardView} (fits : view.CountsFit) :
    decode (encode view) = some view := by
  cases view with
  | loading => decide
  | success containsSystemUsage counts =>
    have hcounts : Json.required (some (encode counts)) = some counts := decode_encode_counts fits
    have held : (encode (DashboardView.success containsSystemUsage counts)).FitsWithin 2 := by
      refine .object ?_
      simp only [List.forall_mem_cons]
      exact ⟨fitsWithin_scalar "success" 1, fitsWithin_scalar containsSystemUsage 1,
        fitsWithin_counts fits, nofun⟩
    obtain ⟨fields, htag, hfields⟩ : ∃ fields,
        (encode (DashboardView.success containsSystemUsage counts)).tagged? "state" =
          some ("success", fields) ∧
        fields.fields? ["containsSystemAppUsage", "usageCounts"] =
          some [some (encode containsSystemUsage), some (encode counts)] :=
      Json.exists_tagged? (by simp) held (by decide)
    generalize encode (DashboardView.success containsSystemUsage counts) = json at htag ⊢
    show Option.bind _ _ = _
    rw [htag, Option.bind_some]
    show Option.bind (Json.fields? _ fields) _ = _
    rw [hfields, Option.bind_some]
    simp only [Json.required_encode, hcounts]
    rfl

theorem hasWrittenNames_encode (view : DashboardView) : (encode view).HasWrittenNames := by
  cases view with
  | loading => exact ⟨rfl, trivial, trivial⟩
  | success containsSystemUsage counts =>
    have hcounts : (encode counts).HasWrittenNames :=
      Json.hasWrittenNames_object (List.forall_mem_map.2 fun _ _ => trivial)
    exact Json.hasWrittenNames_object
      (by simp [hcounts, LawfulCodec.hasWrittenNames_encode])

end DashboardView

/-! ## Changes -/

namespace ChangeEvent

theorem ofTag?_name (kind : ChangeKind) :
    ChangeKind.ofTag? .direct (.text kind.name) = some kind := kind.ofName?_name

/-- The members of the document of a change behind its kind. -/
def members : ChangeEvent → List (String × Json)
  | .opChanged op owner => ("opName", encode op) :: ownerMembers owner
  | .opNoted op owner => ("opName", encode op) :: ownerMembers owner
  | .opActiveChanged op owner active =>
    ("opName", encode op) :: ownerMembers owner ++ [("active", encode active)]
  | .packageChanged owner => ownerMembers owner
  | .permissionsChanged owner => ownerMembers owner

/-- The kind comes first in the document of an event, and the rest follows in the same object. -/
theorem encode_eq_object (event : ChangeEvent) :
    encode event = .object (("kind", .text event.kind.name) :: event.members) := by
  cases event <;> rfl

/-- Nothing in an event is nested. -/
theorem fitsWithin_members (event : ChangeEvent) : ∀ m ∈ event.members, m.2.FitsWithin 0 := by
  cases event <;> simp [members, ownerMembers, fitsWithin_encode]

/-- The kind is taken out of an event, and what is left is held. -/
theorem untag?_encode (event : ChangeEvent) :
    (encode event).untag? "kind" = some (.text event.kind.name, .object event.members) := by
  have hnew : "kind" ∉ event.members.map (·.1) := by
    cases event <;> simp [members, ownerMembers]
  have hmembers : ∀ m ∈ ("kind", Json.text event.kind.name) :: event.members,
      m.2.FitsWithin 0 :=
    List.forall_mem_cons.2 ⟨fitsWithin_encode event.kind.name, event.fitsWithin_members⟩
  rw [encode_eq_object]
  exact Json.untag?_object hnew (.object hmembers) (by decide)

/-- An event about an op is made from its op and its owner. -/
theorem decodeOpChange_members (make : String → PackageUser → ChangeEvent) (op : String)
    (owner : PackageUser) :
    decodeOpChange make (.object (("opName", encode op) :: ownerMembers owner)) =
      some (make op owner) := by
  have hfields : Json.fields? ["opName", "packageName", "userId"]
      (.object (("opName", encode op) :: ownerMembers owner)) =
      some [some (encode op), some (encode owner.packageName), some (encode owner.userId)] :=
    Json.fields?_object (by simp [ownerMembers])
  generalize Json.object _ = fields at hfields ⊢
  rw [decodeOpChange, hfields, Option.bind_eq_bind, Option.bind_some]
  simp only [Json.required_encode]
  rfl

/-- An event about a package is made from its owner. -/
theorem decodeOwnerChange_members (make : PackageUser → ChangeEvent) (owner : PackageUser) :
    decodeOwnerChange make (.object (ownerMembers owner)) = some (make owner) := by
  have hfields : Json.fields? ["packageName", "userId"] (.object (ownerMembers owner)) =
      some [some (encode owner.packageName), some (encode owner.userId)] :=
    Json.fields?_object (by simp [ownerMembers])
  generalize Json.object _ = fields at hfields ⊢
  rw [decodeOwnerChange, hfields, Option.bind_eq_bind, Option.bind_some]
  simp only [Json.required_encode]
  rfl

end ChangeEvent

instance : LawfulCodec ChangeEvent where
  decode_encode event := by
    have htag := event.untag?_encode
    generalize encode event = json at htag ⊢
    show Option.bind _ _ = _
    rw [htag, Option.bind_some]
    show Option.bind _ _ = _
    rw [ChangeEvent.ofTag?_name, Option.bind_some]
    -- the kind says which fields are read
    cases event with
    | opChanged op owner => exact ChangeEvent.decodeOpChange_members .opChanged op owner
    | opNoted op owner => exact ChangeEvent.decodeOpChange_members .opNoted op owner
    | opActiveChanged op owner active =>
      have hfields : Json.fields? ["opName", "packageName", "userId", "active"]
          (.object (ChangeEvent.opActiveChanged op owner active).members) =
          some [some (encode op), some (encode owner.packageName), some (encode owner.userId),
            some (encode active)] :=
        Json.fields?_object (by simp [ChangeEvent.members, ChangeEvent.ownerMembers])
      generalize Json.object _ = fields at hfields ⊢
      show Option.bind (Json.fields? _ fields) _ = _
      rw [hfields, Option.bind_some]
      simp only [Json.required_encode]
      rfl
    | packageChanged owner => exact ChangeEvent.decodeOwnerChange_members .packageChanged owner
    | permissionsChanged owner =>
      exact ChangeEvent.decodeOwnerChange_members .permissionsChanged owner
  hasWrittenNames_encode event := by
    rw [ChangeEvent.encode_eq_object]
    refine Json.hasWrittenNames_object (List.forall_mem_cons.2 ⟨trivial, ?_⟩)
    cases event <;> simp [ChangeEvent.members, ChangeEvent.ownerMembers, hasWrittenNames_encode]

end PermissionUsage
