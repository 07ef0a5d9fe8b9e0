import Mathlib.Data.List.Nodup
import PermissionUsage.Proofs.Json.RoundTrip
import PermissionUsage.Settings.Store
/-!
# Codecs that lose nothing

A codec is *lawful* if reading what it writes gives the value back, and if its documents have only
names that survive being written.

* `fields?_object`: the fields of a record are read as they were written, if no name is given twice.
* `LawfulCodec.parse?_pretty`: a value is read back from the pretty text of its document.
-/

namespace PermissionUsage

namespace Json

section

variable {members : List (String × Json)}

/-- Members whose names are texts are written as they are. -/
theorem areWrittenMembers_map (h : ∀ m ∈ members, m.2.HasWrittenNames) :
    AreWrittenMembers (members.map fun (name, value) => ({ text := some name }, value)) := by
  induction members with
  | nil => trivial
  | cons m rest ih =>
    obtain ⟨hvalue, hrest⟩ := List.forall_mem_cons.1 h
    exact ⟨rfl, hvalue, ih hrest⟩

theorem hasWrittenNames_object (h : ∀ m ∈ members, m.2.HasWrittenNames) :
    (object members).HasWrittenNames := areWrittenMembers_map h

@[simp] theorem hasWrittenNames_text (s : String) : (text s).HasWrittenNames := trivial

/-- Under a name there is only the member itself. -/
theorem filter_name (hnodup : (members.map (·.1)).Nodup) {member : String × Json}
    (h : member ∈ members) : members.filter (·.1 = member.1) = [member] := by
  induction members with
  | nil => cases h
  | cons m rest ih =>
    obtain ⟨hnew, hnodup⟩ := List.nodup_cons.1 hnodup
    rcases List.mem_cons.1 h with rfl | h
    · have hnone : rest.filter (·.1 = member.1) = [] := by
        refine List.filter_eq_nil_iff.2 fun m hm hname => hnew ?_
        exact List.mem_map.2 ⟨m, hm, of_decide_eq_true hname⟩
      rw [List.filter_cons_of_pos (by simp), hnone]
    · have hother : m.1 ≠ member.1 := by
        intro hname
        exact hnew (List.mem_map.2 ⟨member, h, hname.symm⟩)
      rw [List.filter_cons_of_neg (by simpa using hother)]
      exact ih hnodup h

/-- The only member of a name is found. -/
theorem member?_map {name : String} {value : Json} (hnodup : (members.map (·.1)).Nodup)
    (h : (name, value) ∈ members) :
    member? (members.map fun (name, value) => ({ text := some name }, value)) name =
      some (some value) := by
  have honly : members.filter (·.1 = name) = [(name, value)] := filter_name hnodup h
  have hfilter : (members.map fun (name, value) => (({ text := some name } : Name), value)).filter
      (·.1.text = some name) = [({ text := some name }, value)] := by
    rw [List.filter_map]
    simp only [Function.comp_def, Option.some.injEq, honly, List.map_cons, List.map_nil]
  rw [member?, hfilter]

/-- Some of the members of a record, in any order, are read as they were written. -/
theorem fields?_of_subset {fields : List (String × Json)} (hnodup : (members.map (·.1)).Nodup)
    (hmem : ∀ m ∈ fields, m ∈ members) :
    fields? (fields.map (·.1)) (object members) = some (fields.map fun m => some m.2) := by
  have hnames : (members.map fun (name, value) => (({ text := some name } : Name), value)).all
      (·.1.text.isSome) := by
    simp
  have hfields : (fields.map (·.1)).mapM
      (member? (members.map fun (name, value) => (({ text := some name } : Name), value))) =
        some (fields.map fun m => some m.2) := by
    induction fields with
    | nil => rfl
    | cons m rest ih =>
      obtain ⟨hm, hrest⟩ := List.forall_mem_cons.1 hmem
      rw [List.map_cons, List.mapM_cons, member?_map hnodup hm, ih hrest]
      rfl
  show (guard _ >>= fun _ => _) = _
  rw [hnames]
  exact hfields

/-- A record is read field by field from an object with its members in the order of the fields. -/
theorem fields?_object (hnodup : (members.map (·.1)).Nodup) :
    fields? (members.map (·.1)) (object members) = some (members.map fun m => some m.2) :=
  fields?_of_subset hnodup fun _ hm => hm

/-- So is a record all of whose fields have defaults. -/
theorem fieldsOrFewer?_object (hnodup : (members.map (·.1)).Nodup) :
    fieldsOrFewer? (members.map (·.1)) (object members) = some (members.map fun m => some m.2) :=
  fields?_object hnodup

end

end Json

/-- A codec that reads back what it writes, also from the text of its documents. -/
class LawfulCodec (α : Type) [Codec α] : Prop where
  decode_encode (a : α) : decode (encode a) = some a
  hasWrittenNames_encode (a : α) : (encode a).HasWrittenNames

namespace LawfulCodec

/-- A value is read back from the file form of its document, blanks and line ends included. -/
theorem parse?_pretty {α : Type} [Codec α] [LawfulCodec α] (a : α) :
    (Json.parse? (encode a).pretty).bind decode = some a := by
  rw [Json.parse?_pretty _ (hasWrittenNames_encode a), Option.bind_some, decode_encode]

end LawfulCodec

open LawfulCodec

instance : LawfulCodec Bool where
  decode_encode _ := rfl
  hasWrittenNames_encode _ := trivial

instance : LawfulCodec String where
  decode_encode _ := rfl
  hasWrittenNames_encode _ := trivial

/-! ## Settings -/

instance : LawfulCodec Toggles where
  decode_encode toggles := by
    have hfields : Json.fieldsOrFewer? ["showSystem", "show7Days"] (encode toggles) =
        some [some (encode toggles.showSystem), some (encode toggles.showSevenDays)] :=
      Json.fieldsOrFewer?_object (by simp)
    show Option.bind _ _ = _
    rw [hfields]
    rfl
  hasWrittenNames_encode toggles :=
    Json.hasWrittenNames_object (by simp [hasWrittenNames_encode])

instance : LawfulCodec Features where
  decode_encode features := by
    have hfields : Json.fieldsOrFewer?
        ["locationBypassEnabled", "sevenDayToggleEnabled", "handheld"] (encode features) =
        some [some (encode features.locationBypass), some (encode features.sevenDayToggle),
          some (encode features.handheld)] :=
      Json.fieldsOrFewer?_object (by simp)
    show Option.bind _ _ = _
    rw [hfields]
    rfl
  hasWrittenNames_encode features :=
    Json.hasWrittenNames_object (by simp [hasWrittenNames_encode])

instance : LawfulCodec Logging where
  decode_encode logging := by
    have hfields : Json.fieldsOrFewer? ["level"] (encode logging) =
        some [some (encode logging.level)] :=
      Json.fieldsOrFewer?_object (by simp)
    show Option.bind _ _ = _
    rw [hfields]
    rfl
  hasWrittenNames_encode logging :=
    Json.hasWrittenNames_object (by simp [hasWrittenNames_encode])

instance : LawfulCodec Settings where
  decode_encode settings := by
    have hfields : Json.fieldsOrFewer? ["toggles", "features", "logging"] (encode settings) =
        some [some (encode settings.toggles), some (encode settings.features),
          some (encode settings.logging)] :=
      Json.fieldsOrFewer?_object (by simp)
    show Option.bind _ _ = _
    rw [hfields]
    simp [Json.orDefault, decode_encode]
  hasWrittenNames_encode settings :=
    Json.hasWrittenNames_object (by simp [hasWrittenNames_encode])

namespace Settings

/-- Settings are read back from the text of their file. -/
theorem ofFileText?_toFileText (settings : Settings) :
    ofFileText? settings.toFileText = some settings := parse?_pretty settings

end Settings

end PermissionUsage
