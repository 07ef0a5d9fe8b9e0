import PermissionUsage.Codec.Package
import PermissionUsage.Proofs.Codec.Lawful
/-!
# Containers in documents lose nothing

Numbers, values that may be missing, lists, sets and maps are read back from their documents.

* A missing value is written as null, so it is told apart from the others only where null stands for
  no value (`NeverNull`).
* `Json.mapM_map_encode`: a list is read back item by item, whatever reads the items.
* `Json.toMap?_object`: a map is read back from its entries in any order. The members of a map with
  numbers as keys are sorted by the texts of the numbers, not by the numbers.
-/

namespace PermissionUsage

open LawfulCodec

/-! ## Numbers -/

instance : LawfulCodec Millis where
  decode_encode := Millis.ofInt?_toInt
  hasWrittenNames_encode _ := trivial

instance : LawfulCodec UInt32 where
  decode_encode n := by
    have hrange : 0 ≤ (n.toNat : Int) ∧ (n.toNat : Int) < UInt32.size := by
      have hsize := n.toNat_lt_size
      omega
    show (if _ then some (UInt32.ofNat (n.toNat : Int).toNat) else none) = some n
    rw [if_pos hrange, Int.toNat_natCast, UInt32.ofNat_toNat]
  hasWrittenNames_encode _ := trivial

/-- A count that fits 64 bits is read back. -/
theorem decode_encode_count {n : Nat} (fits : n < UInt64.size) : decode (encode n) = some n := by
  have hrange : 0 ≤ (n : Int) ∧ (n : Int) < UInt64.size := by omega
  show (if _ then some (n : Int).toNat else none) = some n
  rw [if_pos hrange, Int.toNat_natCast]

/-! ## Values that may be missing -/

/-- Null stands for no value of the type. -/
class NeverNull (α : Type) [Codec α] : Prop where
  encode_ne_null (a : α) : encode a ≠ .null

instance : NeverNull String := ⟨nofun⟩

instance : NeverNull Millis := ⟨nofun⟩

instance : NeverNull UInt32 := ⟨nofun⟩

/-- Where null stands for no value, anything else stands for a value. -/
theorem decode_of_ne_null {α : Type} [Codec α] {json : Json} (h : json ≠ .null) :
    (decode json : Option (Option α)) = (decode json).map some := by
  cases json with
  | null => exact absurd rfl h
  | _ => rfl

instance {α : Type} [Codec α] [LawfulCodec α] [NeverNull α] : LawfulCodec (Option α) where
  decode_encode
    | none => rfl
    | some a => by
      have hread : (decode (encode a) : Option (Option α)) = (decode (encode a)).map some :=
        decode_of_ne_null (NeverNull.encode_ne_null a)
      rw [decode_encode] at hread
      exact hread
  hasWrittenNames_encode
    | none => trivial
    | some a => hasWrittenNames_encode a

/-! ## Lists and sets -/

namespace Json

theorem haveWrittenNames_iff {items : List Json} :
    HaveWrittenNames items ↔ ∀ item ∈ items, item.HasWrittenNames := by
  induction items with
  | nil => exact iff_of_true trivial nofun
  | cons item rest ih => rw [HaveWrittenNames, ih, List.forall_mem_cons]

/-- What reads every item of a list reads the list. -/
theorem mapM_map_encode {α : Type} [Codec α] {read : Json → Option α} {items : List α}
    (h : ∀ a ∈ items, read (encode a) = some a) : (items.map encode).mapM read = some items := by
  induction items with
  | nil => rfl
  | cons a rest ih =>
    obtain ⟨ha, hrest⟩ := List.forall_mem_cons.1 h
    rw [List.map_cons, List.mapM_cons, ha, ih hrest]
    rfl

end Json

section Items

variable {α : Type} [Codec α] [LawfulCodec α]

instance : LawfulCodec (List α) where
  decode_encode _ := Json.mapM_map_encode fun a _ => decode_encode a
  hasWrittenNames_encode items := by
    have hitems : ∀ item ∈ items.map encode, item.HasWrittenNames :=
      List.forall_mem_map.2 fun a _ => hasWrittenNames_encode a
    exact Json.haveWrittenNames_iff.2 hitems

variable [Ord α] [Std.TransOrd α] [Std.LawfulEqOrd α]

instance : LawfulCodec (OrderedSet α) where
  decode_encode set := by
    show (decode (encode set.toList)).map OrderedSet.ofList = some set
    rw [decode_encode, Option.map_some, OrderedSet.ofList_toList]
  hasWrittenNames_encode set := hasWrittenNames_encode set.toList

omit [LawfulCodec α] in
instance : NeverNull (OrderedSet α) := ⟨nofun⟩

end Items

/-! ## Maps -/

namespace Json

variable {κ ν : Type} [Codec ν] {key : κ → String}

/-- The member of an object that stands for an entry of a map. -/
def memberOf (key : κ → String) (entry : κ × ν) : String × Json := (key entry.1, encode entry.2)

theorem hasWrittenNames_object_memberOf [LawfulCodec ν] (entries : List (κ × ν)) :
    (object (entries.map (memberOf key))).HasWrittenNames :=
  hasWrittenNames_object (List.forall_mem_map.2 fun e _ => hasWrittenNames_encode e.2)

variable [Ord κ] [Std.TransOrd κ] [Std.LawfulEqOrd κ]

/-- A map is read back from the members of its entries, in whatever order they are. -/
theorem toMap?_object [DecidableEq κ] {key? : Name → Option κ} {map : OrderedMap κ ν}
    {entries : List (κ × ν)} (hkey : ∀ k, key? { text := some (key k) } = some k)
    (hvalue : ∀ e ∈ map.toList, decode (encode e.2) = some e.2)
    (hperm : entries.Perm map.toList) :
    toMap? key? (object (entries.map (memberOf key))) = some map := by
  have hmembers : ∀ entries : List (κ × ν), (∀ e ∈ entries, decode (encode e.2) = some e.2) →
      ((entries.map (memberOf key)).map fun m => (({ text := some m.1 } : Name), m.2)).mapM
        (fun m => return (← key? m.1, ← decode m.2)) = some entries := by
    intro entries hentries
    induction entries with
    | nil => rfl
    | cons e rest ih =>
      obtain ⟨he, hrest⟩ := List.forall_mem_cons.1 hentries
      rw [List.map_cons, List.map_cons, List.mapM_cons, ih hrest]
      simp [memberOf, hkey, he]
  have hentries := hmembers entries fun e he => hvalue e (hperm.mem_iff.1 he)
  show Option.bind _ _ = _
  rw [hentries, ← OrderedMap.ofList_eq_of_perm hperm]
  rfl

/-- How a map that may be missing may be written: with its entries in any order. -/
inductive IsMapOf (key : κ → String) : Option (OrderedMap κ ν) → Json → Prop
  | missing : IsMapOf key none .null
  | given {map : OrderedMap κ ν} {entries : List (κ × ν)} (hperm : entries.Perm map.toList) :
    IsMapOf key (some map) (object (entries.map (memberOf key)))

omit [Std.TransOrd κ] [Std.LawfulEqOrd κ] in
/-- However the entries of a map are ordered, their names are texts. -/
theorem IsMapOf.hasWrittenNames [LawfulCodec ν] {map : Option (OrderedMap κ ν)} {json : Json}
    (h : IsMapOf key map json) : json.HasWrittenNames := by
  cases h with
  | missing => trivial
  | given => exact hasWrittenNames_object_memberOf _

/-- A map that may be missing is read back, in whatever order its entries are written. -/
theorem IsMapOf.decode_eq [DecidableEq κ] [LawfulCodec ν] [Codec (OrderedMap κ ν)]
    {map : Option (OrderedMap κ ν)} {json : Json} (h : IsMapOf key map json)
    {key? : Name → Option κ} (hkey : ∀ k, key? { text := some (key k) } = some k)
    (hdecode : (decode : Json → Option (OrderedMap κ ν)) = toMap? key?) :
    decode json = some map := by
  cases h with
  | missing => rfl
  | @given map entries hperm =>
    have hmap : decode (object (entries.map (memberOf key))) = some map := by
      rw [hdecode]
      exact toMap?_object hkey (fun e _ => decode_encode e.2) hperm
    exact congrArg (Option.map some) hmap

end Json

/-! ### Maps of resources -/

/-- A number is read back from its digits. -/
theorem Decimal.parse?_render (n : Nat) : parse? (render n) = some n := by
  unfold parse? render
  rw [String.toList_ofList, if_pos (isPlain_digits n), ofDigits_digits]

/-- The number of a resource is read back from the name of its member. -/
theorem resourceKey?_render (resource : UInt32) :
    resourceKey? { text := some (Decimal.render resource.toNat) } = some resource := by
  show (Decimal.parse? (Decimal.render resource.toNat) >>= fun n =>
    if n < UInt32.size then some (UInt32.ofNat n) else none) = _
  rw [Decimal.parse?_render]
  show (if resource.toNat < UInt32.size then _ else _) = _
  rw [if_pos resource.toNat_lt_size, UInt32.ofNat_toNat]

/-- The entries of a map of resources in the order of the texts of their numbers. -/
def resourceEntries (labels : OrderedMap UInt32 String) : List (UInt32 × String) :=
  labels.toList.mergeSort fun a b =>
    (compare (Decimal.render a.1.toNat) (Decimal.render b.1.toNat)).isLE

/-- Sorting the members is sorting the entries, for the members are compared by the texts of their
resources. -/
theorem resourceMembers_eq (labels : OrderedMap UInt32 String) :
    resourceMembers labels = (resourceEntries labels).map
      (Json.memberOf fun resource => Decimal.render resource.toNat) := by
  let member : UInt32 × String → String × Json :=
    Json.memberOf fun resource => Decimal.render resource.toNat
  -- the texts of the numbers are compared before or after the members are made
  have hsort : (resourceEntries labels).map member =
      (labels.toList.map member).mergeSort fun a b => (compare a.1 b.1).isLE :=
    List.map_mergeSort fun _ _ _ _ => rfl
  exact hsort.symm

/-- Sorting by text loses no entry. -/
theorem OrderedMap.perm_resourceEntries (labels : OrderedMap UInt32 String) :
    (resourceEntries labels).Perm labels.toList := List.mergeSort_perm _ _

end PermissionUsage
