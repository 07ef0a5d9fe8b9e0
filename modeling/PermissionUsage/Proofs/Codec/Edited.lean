import Mathlib.Data.List.Forall2
import PermissionUsage.Proofs.Codec.Lawful
/-!
# Edited records

What is read of the document of a record after members were deleted from it, moved and inserted.

* `Json.EditOf`: such a document, and which fields were kept.
* `Json.exists_member?`: a field is found if it was kept, with its value, and is missing otherwise.
* `Json.EditOf.exists_fieldsOrFewer?`: so those of the fields are read that were kept.
* `Json.IsRead.orDefault`: a field that was deleted has its default.
-/

namespace PermissionUsage

open LawfulCodec

namespace Json

variable {keeps : String → Bool} {edited : String → Json → Json → Prop}

/-- A member that stands for a field of a record: it has its name, and its value up to edits. -/
structure StandsFor (edited : String → Json → Json → Prop) (field : String × Json)
    (member : Name × Json) : Prop where
  name : member.1.text = some field.1
  value : edited field.1 field.2 member.2

/-- An object that is made from a record: of its members only some are kept, with values that may be
edited too, others are inserted under names that the record does not have, and all of them stand in
any order. -/
inductive EditOf (keeps : String → Bool) (edited : String → Json → Json → Prop) (record : Json) :
    Json → Prop
  | obj {fields : List (String × Json)} {kept others members : List (Name × Json)}
    (hrecord : record = object fields)
    (hkept : List.Forall₂ (StandsFor edited) (fields.filter fun field => keeps field.1) kept)
    (hothers : ∀ m ∈ others, ∃ name, m.1.text = some name ∧ name ∉ fields.map (·.1))
    (hmembers : members.Perm (kept ++ others)) : EditOf keeps edited record (.obj members)

/-- What is found of a field of a record in an edited one. -/
inductive IsRead (keeps : String → Bool) (edited : String → Json → Json → Prop)
    (field : String × Json) : Option Json → Prop
  | kept {value : Json} (h : keeps field.1 = true) (hvalue : edited field.1 field.2 value) :
    IsRead keeps edited field (some value)
  | deleted (h : keeps field.1 = false) : IsRead keeps edited field none

theorem object_injective : Function.Injective object := by
  intro fields fields' h
  refine List.map_injective_iff.2 ?_ (Json.obj.inj h)
  rintro ⟨name, value⟩ ⟨name', value'⟩ hmember
  cases hmember
  rfl

/-- Members that stand for fields have texts as names. -/
theorem isSome_of_standsFor {fields : List (String × Json)} {kept : List (Name × Json)}
    (h : List.Forall₂ (StandsFor edited) fields kept) : ∀ m ∈ kept, m.1.text.isSome = true := by
  induction h with
  | nil => exact nofun
  | cons h _ ih =>
    refine List.forall_mem_cons.2 ⟨?_, ih⟩
    rw [h.name]
    rfl

section Members

variable {fields : List (String × Json)} {kept others members : List (Name × Json)}
  (hkept : List.Forall₂ (StandsFor edited) (fields.filter fun field => keeps field.1) kept)
  (hothers : ∀ m ∈ others, ∃ name, m.1.text = some name ∧ name ∉ fields.map (·.1))
  (hmembers : members.Perm (kept ++ others))
include hothers hmembers

/-- The members under the name of a field are those that stand for it. -/
theorem perm_filter_name {field : String × Json} (h : field ∈ fields) :
    (members.filter (·.1.text = some field.1)).Perm (kept.filter (·.1.text = some field.1)) := by
  have hnone : others.filter (·.1.text = some field.1) = [] := by
    refine List.filter_eq_nil_iff.2 fun m hm hsame => ?_
    obtain ⟨name, hname, hnew⟩ := hothers m hm
    obtain rfl : name = field.1 := Option.some.inj (hname.symm.trans (of_decide_eq_true hsame))
    exact hnew (List.mem_map_of_mem h)
  have hperm := hmembers.filter (·.1.text = some field.1)
  rwa [List.filter_append, hnone, List.append_nil] at hperm

include hkept

/-- All names in an edited record are texts. -/
theorem all_isSome_of_edit : members.all (·.1.text.isSome) = true := by
  refine List.all_eq_true.2 fun m hm => ?_
  rcases List.mem_append.1 (hmembers.subset hm) with hm | hm
  · exact isSome_of_standsFor hkept m hm
  · obtain ⟨name, hname, -⟩ := hothers m hm
    rw [hname]
    rfl

/-- A field that was kept is found with its value, and a deleted one is found missing: no other
member has its name. -/
theorem exists_member? (hnodup : (fields.map (·.1)).Nodup) {field : String × Json}
    (h : field ∈ fields) :
    ∃ read, member? members field.1 = some read ∧ IsRead keeps edited field read := by
  have hperm := perm_filter_name hothers hmembers h
  -- at most the field itself is kept under its name
  have hfields : (fields.filter fun f => keeps f.1).filter (·.1 = field.1) =
      if keeps field.1 then [field] else [] := by
    rw [List.filter_comm, filter_name hnodup h]
    cases hkeeps : keeps field.1 <;> simp [hkeeps]
  have hstands : List.Forall₂ (StandsFor edited) (if keeps field.1 then [field] else [])
      (kept.filter (·.1.text = some field.1)) := by
    rw [← hfields]
    refine List.rel_filter (fun f m hm => ?_) hkept
    simp [hm.name]
  unfold member?
  cases hkeeps : keeps field.1 with
  | false =>
    rw [hkeeps] at hstands
    rw [List.forall₂_nil_left_iff.1 hstands] at hperm
    rw [List.perm_nil.1 hperm]
    exact ⟨none, rfl, .deleted hkeeps⟩
  | true =>
    rw [hkeeps] at hstands
    obtain ⟨member, _, hmember, hnil, hfilter⟩ := List.forall₂_cons_left_iff.1 hstands
    rw [List.forall₂_nil_left_iff.1 hnil] at hfilter
    rw [hfilter] at hperm
    rw [List.perm_singleton.1 hperm]
    exact ⟨some member.2, rfl, .kept hkeeps hmember.value⟩

/-- Some fields of a record are found in an edited one. -/
theorem exists_members? (hnodup : (fields.map (·.1)).Nodup) {found : List (String × Json)}
    (h : ∀ field ∈ found, field ∈ fields) :
    ∃ read, (found.map (·.1)).mapM (member? members) = some read ∧
      List.Forall₂ (IsRead keeps edited) found read := by
  induction found with
  | nil => exact ⟨[], rfl, .nil⟩
  | cons field found ih =>
    obtain ⟨hfield, hfound⟩ := List.forall_mem_cons.1 h
    obtain ⟨value, hvalue, hisRead⟩ := exists_member? hkept hothers hmembers hnodup hfield
    obtain ⟨read, hread, hall⟩ := ih hfound
    refine ⟨value :: read, ?_, .cons hisRead hall⟩
    rw [List.map_cons, List.mapM_cons, hvalue, hread]
    rfl

end Members

/-- Of an edited record the fields that were kept are read, and no others. -/
theorem EditOf.exists_fieldsOrFewer? {fields : List (String × Json)} {json : Json}
    (h : EditOf keeps edited (object fields) json) (hnodup : (fields.map (·.1)).Nodup) :
    ∃ read, json.fieldsOrFewer? (fields.map (·.1)) = some read ∧
      List.Forall₂ (IsRead keeps edited) fields read := by
  cases h with
  | obj hrecord hkept hothers hmembers =>
    obtain rfl := object_injective hrecord
    obtain ⟨read, hread, hall⟩ := exists_members? hkept hothers hmembers hnodup fun _ h => h
    refine ⟨read, ?_, hall⟩
    show (guard _ >>= fun _ => _) = _
    rw [all_isSome_of_edit hkept hothers hmembers]
    exact hread

/-- A field is read with its default if it was deleted. -/
theorem IsRead.orDefault {α : Type} [Codec α] {field : String × Json} {read : Option Json}
    {a : α} (h : IsRead keeps edited field read) (value : α)
    (hvalue : ∀ json, edited field.1 field.2 json → decode json = some a) :
    orDefault value read = some (if keeps field.1 then a else value) := by
  cases h with
  | kept h hedited =>
    rw [if_pos h]
    exact hvalue _ hedited
  | deleted h =>
    rw [h]
    rfl

/-- A field is read as it was written, or with its default. -/
theorem IsRead.orDefault_encode {α : Type} [Codec α] [LawfulCodec α] {name : String}
    {read : Option Json} {a : α} (h : IsRead keeps (fun _ => Eq) (name, encode a) read)
    (value : α) : Json.orDefault value read = some (if keeps name then a else value) := by
  refine h.orDefault value fun json hsame => ?_
  rw [← hsame]
  exact decode_encode a

end Json

end PermissionUsage
