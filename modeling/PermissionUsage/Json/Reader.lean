import PermissionUsage.Json.Token
/-!
# Reading JSON

Reading is one walk over the tokens of a text, which holds the arrays and objects that are still
open. The walk accepts exactly one value and nothing behind it.
-/

namespace PermissionUsage.Json

/-- An array or object that is still open, with what it holds so far, last item first. -/
inductive Frame where
  | arr (items : List Json)
  | obj (members : List (Name × Json)) (name : Name)
  deriving Repr

/-- Where a walk over tokens stands: what it expects next, and what is still open. -/
inductive Expecting where
  | value (stack : List Frame)
  | firstItem (stack : List Frame)
  | firstName (stack : List Frame)
  | name (members : List (Name × Json)) (stack : List Frame)
  | colon (members : List (Name × Json)) (name : Name) (stack : List Frame)
  /-- Whatever may follow a complete value. -/
  | after (value : Json) (stack : List Frame)
  deriving Repr

/-- Takes a token where a value has to start. -/
def startValue (stack : List Frame) : Token → Option Expecting
  | .null => some (.after .null stack)
  | .bool b => some (.after (.bool b) stack)
  | .int n => some (.after (.int n) stack)
  | .real isFinite => some (.after (.real isFinite) stack)
  | .str literal => some (.after (.str literal.text) stack)
  | .openArr => some (.firstItem stack)
  | .openObj => some (.firstName stack)
  | _ => none

def Expecting.step : Expecting → Token → Option Expecting
  | .value stack, token => startValue stack token
  | .firstItem stack, .closeArr => some (.after (.arr []) stack)
  | .firstItem stack, token => startValue (.arr [] :: stack) token
  | .firstName stack, .closeObj => some (.after (.obj []) stack)
  | .firstName stack, .str key => some (.colon [] key stack)
  | .name members stack, .str key => some (.colon members key stack)
  | .colon members key stack, .colon => some (.value (.obj members key :: stack))
  | .after v (.arr items :: stack), .comma => some (.value (.arr (v :: items) :: stack))
  | .after v (.arr items :: stack), .closeArr => some (.after (.arr (v :: items).reverse) stack)
  | .after v (.obj members key :: stack), .comma => some (.name ((key, v) :: members) stack)
  | .after v (.obj members key :: stack), .closeObj =>
    some (.after (.obj ((key, v) :: members).reverse) stack)
  | _, _ => none

def Expecting.value? : Expecting → Option Json
  | .after v [] => some v
  | _ => none

def ofTokens? (tokens : List Token) : Option Json := do
  (← tokens.foldlM Expecting.step (.value [])).value?

def parse? (text : String) : Option Json := do
  ofTokens? (← tokens? text.toList)

end PermissionUsage.Json
