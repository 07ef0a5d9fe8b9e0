import PermissionUsage.Json.Decimal
import PermissionUsage.Json.Value
import PermissionUsage.Ordered.Map
import PermissionUsage.Ordered.Set
import PermissionUsage.Time
/-!
# Documents of values

A codec writes values of a type as JSON and reads them back. Reading is strict about types and
ranges: an integer is written without fraction and fits, nothing is converted. `Json.fields?` is the
rule for records, the functions on variants the two ways in which a document tells its variants
apart.
-/

namespace PermissionUsage

/-- How values of a type are written as JSON and read back. -/
class Codec (α : Type) where
  encode : α → Json
  decode : Json → Option α

export Codec (encode decode)

/-! ## Scalars and containers -/

instance : Codec Bool where
  encode := .bool
  decode
    | .bool b => some b
    | _ => none

instance : Codec String where
  encode := .text
  decode
    | .str text => text
    | _ => none

instance : Codec Millis where
  encode t := .int t.toInt
  decode
    | .int n => Millis.ofInt? n
    | _ => none

instance : Codec UInt32 where
  encode n := .int n.toNat
  decode
    | .int n => if 0 ≤ n ∧ n < UInt32.size then some (UInt32.ofNat n.toNat) else none
    | _ => none

/-- Counts fit 64 bits. -/
instance : Codec Nat where
  encode n := .int n
  decode
    | .int n => if 0 ≤ n ∧ n < UInt64.size then some n.toNat else none
    | _ => none

instance {α : Type} [Codec α] : Codec (Option α) where
  encode
    | none => .null
    | some a => encode a
  decode
    | .null => some none
    | json => (decode json).map some

instance {α : Type} [Codec α] : Codec (List α) where
  encode items := .arr (items.map encode)
  decode
    | .arr items => items.mapM decode
    | _ => none

/-- A set is the list of its elements; reading drops what is repeated. -/
instance {α : Type} [Ord α] [Std.TransOrd α] [Std.LawfulEqOrd α] [Codec α] :
    Codec (OrderedSet α) where
  encode set := encode set.toList
  decode json := (decode json).map OrderedSet.ofList

namespace Json

/-! ## Records

A record is an object with a member for each field. Members with other names are passed over, a
field that is given twice is refused. A record may also be the array of all its fields in order.
-/

/-- The value of a field among the members of an object: missing, given, or refused. -/
def member? (members : List (Name × Json)) (name : String) : Option (Option Json) :=
  match members.filter (·.1.text = some name) with
  | [] => some none
  | [(_, value)] => some (some value)
  | _ => none

/-- The fields of a record by their names, each with its value if it is given. -/
def fields? (names : List String) : Json → Option (List (Option Json))
  | .obj members => do
    guard (members.all (·.1.text.isSome))
    names.mapM (member? members)
  | .arr items => if items.length = names.length then some (items.map some) else none
  | _ => none

/-- The fields of a record all of which have defaults; as an array it may stop early. -/
def fieldsOrFewer? (names : List String) : Json → Option (List (Option Json))
  | .arr items =>
    if items.length ≤ names.length then
      some (items.map some ++ List.replicate (names.length - items.length) none)
    else none
  | json => fields? names json

/-- A field that has to be given. -/
def required {α : Type} [Codec α] (field : Option Json) : Option α := field.bind decode

/-- A field that may be missing or null. -/
def optional {α : Type} [Codec α] : Option Json → Option (Option α)
  | none => some none
  | some json => decode json

/-- A field that has a default if it is missing. -/
def orDefault {α : Type} [Codec α] (value : α) : Option Json → Option α
  | none => some value
  | some json => decode json

/-! ## Variants -/

/-- How a value reaches its decoder: directly, or *held* in memory because it came before it was
known which variant it belongs to. -/
inductive Passage where
  | direct
  | held
  deriving DecidableEq, Repr

/-- The payload of a variant that has none: null, and for a held value also an empty object. -/
def isNoPayload : Passage → Json → Bool
  | _, .null => true
  | .held, .obj [] => true
  | _, _ => false

/-- The name of a variant without payload: a string, or an object with the name as its only
member. -/
def variantName? (passage : Passage) : Json → Option String
  | .str name => name
  | .obj [(name, payload)] => if isNoPayload passage payload then name.text else none
  | _ => none

/-- The number of levels that may be nested in a document of which some is held. -/
def heldDepth : Nat := 127

/-- A value can be held at a level of its document: it is proper and not nested too deep. -/
def canBeHeld (level : Nat) (json : Json) : Bool :=
  json.isProper && json.depth + level ≤ heldDepth

/-- Takes the tag off a document that tells its variant in a member of its record: the tag and the
record without it. As an array the document starts with the tag. -/
def untag? (tag : String) (json : Json) : Option (Json × Json) :=
  if !json.canBeHeld 0 then none
  else match json with
    | .obj members =>
      match members.filter (·.1.text = some tag) with
      | [(_, value)] => some (value, .obj (members.filter (·.1.text ≠ some tag)))
      | _ => none
    | .arr (value :: fields) => some (value, .arr fields)
    | _ => none

/-- Reads a document whose tag is the name of its variant: the name and the record without it. -/
def tagged? (tag : String) (json : Json) : Option (String × Json) :=
  match untag? tag json with
  | some (.str (some name), fields) => some (name, fields)
  | _ => none

def isEmptyRecord : Json → Bool
  | .obj _ => true
  | .arr [] => true
  | _ => false

/-- Reads a document that names its variant in one member and holds the content in another: the
name, the content if given, and how it comes. Content in front of the name is held. As an array the
document is the name, as a string, and the content. -/
def adjacent? (tag content : String) : Json → Option (String × Option Json × Passage)
  | .obj members => do
    guard (members.all (·.1.text.isSome))
    let name ← variantName? .direct (← (← member? members tag))
    let value ← member? members content
    let passage : Passage :=
      if (members.find? fun m => m.1.text = some tag ∨ m.1.text = some content).any
          (·.1.text = some tag) then .direct else .held
    guard (passage = .direct ∨ value.all (canBeHeld 1))
    return (name, value, passage)
  | .arr [.str (some name), value] => some (name, some value, .direct)
  | _ => none

/-! ## Maps -/

/-- An object with a member for each entry of a map; keys are written by `key`. -/
def ofMap {κ ν : Type} [Ord κ] [Codec ν] (key : κ → String) (map : OrderedMap κ ν) : Json :=
  object (map.toList.map fun (k, v) => (key k, encode v))

/-- The map of an object's members; of members with the same key the last one counts. -/
def toMap? {κ ν : Type} [Ord κ] [Std.TransOrd κ] [Std.LawfulEqOrd κ] [Codec ν]
    (key? : Name → Option κ) : Json → Option (OrderedMap κ ν)
  | .obj members => do
    return OrderedMap.ofList (← members.mapM fun (name, value) => do
      return (← key? name, ← decode value))
  | _ => none

end Json

end PermissionUsage
