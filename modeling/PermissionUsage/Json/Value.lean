import PermissionUsage.Json.Magnitude
/-!
# JSON values

The values of JSON documents as far as this library tells them apart. Numbers are integers, or
`real` for every number that is written with a fraction or an exponent or is the negative zero; of
these it is known whether they are in range. Texts are strings, or none for a literal whose escapes
hold an unpaired surrogate: it is well formed, but no text.
-/

namespace PermissionUsage

/-- The name of a member as its literal is written: the text, and whether the literal escapes a
character that could stand for itself. -/
structure Json.Name where
  text : Option String
  isRoundabout : Bool := false
  deriving DecidableEq, Repr, Inhabited

/-- A JSON value. An object keeps its members in order, also those with the same name. -/
inductive Json where
  | null
  | bool (value : Bool)
  | int (value : Int)
  | real (isFinite : Bool)
  | str (text : Option String)
  | arr (items : List Json)
  | obj (members : List (Json.Name × Json))
  deriving Repr, Inhabited

namespace Json

def text (s : String) : Json := .str (some s)

/-- An object whose members have proper names. -/
def object (members : List (String × Json)) : Json :=
  .obj (members.map fun (name, value) => ({ text := some name }, value))

mutual

/-- How deep arrays and objects are nested in a value. -/
def depth : Json → Nat
  | .arr items => depthOfItems items + 1
  | .obj members => depthOfMembers members + 1
  | _ => 0

def depthOfItems : List Json → Nat
  | [] => 0
  | item :: rest => max item.depth (depthOfItems rest)

def depthOfMembers : List (Name × Json) → Nat
  | [] => 0
  | (_, value) :: rest => max value.depth (depthOfMembers rest)

end

mutual

/-- Every string in a value is a text and every number is in range. -/
def isProper : Json → Bool
  | .int n => isFiniteInt n
  | .real isFinite => isFinite
  | .str text => text.isSome
  | .arr items => areProperItems items
  | .obj members => areProperMembers members
  | _ => true

def areProperItems : List Json → Bool
  | [] => true
  | item :: rest => item.isProper && areProperItems rest

def areProperMembers : List (Name × Json) → Bool
  | [] => true
  | (name, value) :: rest => name.text.isSome && value.isProper && areProperMembers rest

end

end Json

end PermissionUsage
