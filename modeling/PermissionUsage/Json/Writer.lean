import PermissionUsage.Json.Decimal
import PermissionUsage.Json.Value
/-!
# Writing JSON

The two written forms of a value: *compact*, without white space, and *pretty*, with a line for each
item and member, indented by two spaces, and a blank behind each colon.

A value that is told apart only roughly is written as one of those it stands for: a `real` as `0.5`
or, out of range, as `1e999`, a string without a text as one unpaired surrogate.
-/

namespace PermissionUsage.Json

/-! ## Scalars -/

def hexDigit (d : Nat) : Char := Char.ofNat (if d < 10 then 48 + d else 87 + d)

/-- A character inside a string literal. Quotes, backslashes and control characters are escaped, by
a short escape where there is one. -/
def escape (c : Char) : List Char :=
  if c = '"' then ['\\', '"']
  else if c = '\\' then ['\\', '\\']
  else if c = '\x08' then ['\\', 'b']
  else if c = '\x0c' then ['\\', 'f']
  else if c = '\n' then ['\\', 'n']
  else if c = '\r' then ['\\', 'r']
  else if c = '\t' then ['\\', 't']
  else if c.toNat < 0x20 then
    ['\\', 'u', '0', '0', hexDigit (c.toNat / 16), hexDigit (c.toNat % 16)]
  else [c]

def literal : Option String → List Char
  | some text => '"' :: text.toList.flatMap escape ++ ['"']
  | none => ['"', '\\', 'u', 'd', '8', '0', '0', '"']

def integer : Int → List Char
  | .ofNat n => Decimal.digits n
  | .negSucc n => '-' :: Decimal.digits (n + 1)

def nonInteger (isFinite : Bool) : List Char :=
  if isFinite then ['0', '.', '5'] else ['1', 'e', '9', '9', '9']

def truth (b : Bool) : List Char := if b then ['t', 'r', 'u', 'e'] else ['f', 'a', 'l', 's', 'e']

/-! ## The compact form -/

mutual

def compactChars : Json → List Char
  | .null => ['n', 'u', 'l', 'l']
  | .bool b => truth b
  | .int n => integer n
  | .real isFinite => nonInteger isFinite
  | .str text => literal text
  | .arr [] => ['[', ']']
  | .arr (item :: items) => '[' :: compactChars item ++ compactItems items ++ [']']
  | .obj [] => ['\x7b', '\x7d']
  | .obj ((name, value) :: members) =>
    '\x7b' :: literal name.text ++ ':' :: compactChars value ++ compactMembers members ++ ['\x7d']

/-- Items, each one behind a comma. -/
def compactItems : List Json → List Char
  | [] => []
  | item :: items => ',' :: compactChars item ++ compactItems items

def compactMembers : List (Name × Json) → List Char
  | [] => []
  | (name, value) :: members =>
    ',' :: literal name.text ++ ':' :: compactChars value ++ compactMembers members

end

def compact (json : Json) : String := String.ofList json.compactChars

/-! ## The pretty form -/

/-- A new line at a level of indentation. -/
def newLine (level : Nat) : List Char := '\n' :: List.replicate (2 * level) ' '

mutual

/-- A value with a line for each item and member, those of the value itself one level further in. -/
def prettyChars (level : Nat) : Json → List Char
  | .null => ['n', 'u', 'l', 'l']
  | .bool b => truth b
  | .int n => integer n
  | .real isFinite => nonInteger isFinite
  | .str text => literal text
  | .arr [] => ['[', ']']
  | .arr (item :: items) =>
    '[' :: newLine (level + 1) ++ prettyChars (level + 1) item ++ prettyItems level items ++
      newLine level ++ [']']
  | .obj [] => ['\x7b', '\x7d']
  | .obj ((name, value) :: members) =>
    '\x7b' :: newLine (level + 1) ++ literal name.text ++ ':' :: ' ' ::
      prettyChars (level + 1) value ++ prettyMembers level members ++ newLine level ++ ['\x7d']

/-- Items, each one on a new line behind a comma. -/
def prettyItems (level : Nat) : List Json → List Char
  | [] => []
  | item :: items =>
    ',' :: newLine (level + 1) ++ prettyChars (level + 1) item ++ prettyItems level items

def prettyMembers (level : Nat) : List (Name × Json) → List Char
  | [] => []
  | (name, value) :: members =>
    ',' :: newLine (level + 1) ++ literal name.text ++ ':' :: ' ' ::
      prettyChars (level + 1) value ++ prettyMembers level members

end

def pretty (json : Json) : String := String.ofList (json.prettyChars 0)

end PermissionUsage.Json
