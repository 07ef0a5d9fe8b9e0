import PermissionUsage.Json.Value
/-!
# Tokens of JSON

JSON text is cut into tokens: punctuation, words, numbers and strings, with white space between
them. The cut is strict: what is no token of JSON has none.
-/

namespace PermissionUsage.Json

inductive Token where
  | openArr
  | closeArr
  | openObj
  | closeObj
  | colon
  | comma
  | null
  | bool (value : Bool)
  | int (value : Int)
  | real (isFinite : Bool)
  | str (literal : Name)
  deriving DecidableEq, Repr

def isBlank (c : Char) : Bool := c = ' ' || c = '\t' || c = '\n' || c = '\r'

/-! ## Numbers -/

def isNumberChar (c : Char) : Bool :=
  c.isDigit || c = '-' || c = '+' || c = '.' || c = 'e' || c = 'E'

def isDigits (cs : List Char) : Bool := cs ≠ [] ∧ cs.all Char.isDigit

/-- The end of a number from its exponent on: nothing, or an `e`, a sign if wanted, and digits. -/
def isExponent : List Char → Bool
  | [] => true
  | e :: rest => (e = 'e' || e = 'E') &&
    match rest with
    | '+' :: digits => isDigits digits
    | '-' :: digits => isDigits digits
    | digits => isDigits digits

/-- The end of a number after its integer part: a point and digits if wanted, then an exponent. -/
def isFraction : List Char → Bool
  | '.' :: rest =>
    isDigits (rest.takeWhile Char.isDigit) && isExponent (rest.dropWhile Char.isDigit)
  | rest => isExponent rest

def fractionDigits : List Char → List Char
  | '.' :: rest => rest.takeWhile Char.isDigit
  | _ => []

/-- The value of the exponent with which a number ends. -/
def exponentValue : List Char → Int
  | _ :: '-' :: digits => -Decimal.ofDigits digits
  | _ :: '+' :: digits => Decimal.ofDigits digits
  | _ :: digits => Decimal.ofDigits digits
  | [] => 0

/-- The size of a number from its integer part and the rest. -/
def magnitude (whole rest : List Char) : Magnitude :=
  .ofDigits whole (fractionDigits rest) <| exponentValue <|
    rest.dropWhile fun c => c = '.' || c.isDigit

/-- The token of a number's characters. -/
def numberToken? (cs : List Char) : Option Token :=
  let (negative, cs) := match cs with
    | '-' :: rest => (true, rest)
    | cs => (false, cs)
  let whole := cs.takeWhile Char.isDigit
  let rest := cs.dropWhile Char.isDigit
  if !Decimal.isPlain whole || !isFraction rest then none
  else if rest ≠ [] then some (.real (magnitude whole rest).isFinite)
  else match negative, Decimal.ofDigits whole with
    | false, n => some (.int n)
    | true, 0 => some (.real true)
    | true, n + 1 => some (.int (Int.negSucc n))

/-! ## Strings -/

/-- One character of a string literal, as itself or escaped, or half of one: an escaped
surrogate. -/
inductive Piece where
  | char (c : Char)
  | escape (c : Char)
  | surrogate (code : Nat)
  deriving DecidableEq, Repr

def hexValue? (c : Char) : Option Nat :=
  if c.isDigit then some (c.toNat - 48)
  else if 'a' ≤ c ∧ c ≤ 'f' then some (c.toNat - 87)
  else if 'A' ≤ c ∧ c ≤ 'F' then some (c.toNat - 55)
  else none

def hexCode? (a b c d : Char) : Option Nat := do
  return (((← hexValue? a) * 16 + (← hexValue? b)) * 16 + (← hexValue? c)) * 16 + (← hexValue? d)

/-- The piece that an escaped code stands for. -/
def pieceOfCode (code : Nat) : Piece :=
  if 0xD800 ≤ code ∧ code ≤ 0xDFFF then .surrogate code else .escape (Char.ofNat code)

/-- The character that a short escape stands for. -/
def shortEscape? : Char → Option Char
  | '"' => some '"'
  | '\\' => some '\\'
  | '/' => some '/'
  | 'b' => some '\x08'
  | 'f' => some '\x0c'
  | 'n' => some '\n'
  | 'r' => some '\r'
  | 't' => some '\t'
  | _ => none

/-- Reads a string literal from behind its opening quote: its pieces and what follows the closing
quote. Control characters have to be escaped. -/
def scanString : List Char → Option (List Piece × List Char)
  | [] => none
  | '"' :: rest => some ([], rest)
  | '\\' :: 'u' :: a :: b :: c :: d :: rest => do
    let code ← hexCode? a b c d
    let (pieces, rest) ← scanString rest
    return (pieceOfCode code :: pieces, rest)
  | '\\' :: c :: rest => do
    let c ← shortEscape? c
    let (pieces, rest) ← scanString rest
    return (.escape c :: pieces, rest)
  | c :: rest =>
    if c = '\\' ∨ c.toNat < 0x20 then none
    else do
      let (pieces, rest) ← scanString rest
      return (.char c :: pieces, rest)

/-- The text of a literal's pieces. Two surrogates that stand together as a pair make one
character; any other surrogate leaves the literal without a text. -/
def joinPieces : List Piece → Option (List Char)
  | [] => some []
  | .char c :: rest => (joinPieces rest).map (c :: ·)
  | .escape c :: rest => (joinPieces rest).map (c :: ·)
  | .surrogate high :: .surrogate low :: rest =>
    if high < 0xDC00 ∧ 0xDC00 ≤ low then
      (joinPieces rest).map (Char.ofNat (0x10000 + (high - 0xD800) * 0x400 + (low - 0xDC00)) :: ·)
    else none
  | .surrogate _ :: _ => none

/-- The piece escapes what could stand for itself. -/
def Piece.isRoundabout : Piece → Bool
  | .char _ => false
  | .escape c => c ≠ '"' ∧ c ≠ '\\' ∧ 0x20 ≤ c.toNat
  | .surrogate _ => true

def stringToken (pieces : List Piece) : Token :=
  .str {
    text := (joinPieces pieces).map String.ofList
    isRoundabout := pieces.any Piece.isRoundabout }

/-- Scanning a string uses up at least its closing quote. -/
theorem length_lt_of_scanString {cs rest : List Char} {pieces : List Piece}
    (h : scanString cs = some (pieces, rest)) : rest.length < cs.length := by
  fun_induction scanString cs generalizing pieces with
  | case1 => cases h
  | case2 => cases h; simp
  | case3 a b c d tail ih =>
    obtain ⟨_, -, h⟩ := Option.bind_eq_some_iff.1 h
    obtain ⟨⟨_, _⟩, hscan, h⟩ := Option.bind_eq_some_iff.1 h
    obtain ⟨-, rfl⟩ := Prod.mk.inj (Option.some.inj h)
    have := ih hscan
    simp only [List.length_cons] at this ⊢
    omega
  | case4 c tail _ ih =>
    obtain ⟨_, -, h⟩ := Option.bind_eq_some_iff.1 h
    obtain ⟨⟨_, _⟩, hscan, h⟩ := Option.bind_eq_some_iff.1 h
    obtain ⟨-, rfl⟩ := Prod.mk.inj (Option.some.inj h)
    have := ih hscan
    simp only [List.length_cons] at this ⊢
    omega
  | case5 => cases h
  | case6 c tail _ _ _ _ ih =>
    obtain ⟨⟨_, _⟩, hscan, h⟩ := Option.bind_eq_some_iff.1 h
    obtain ⟨-, rfl⟩ := Prod.mk.inj (Option.some.inj h)
    have := ih hscan
    simp only [List.length_cons] at this ⊢
    omega

/-! ## All tokens of a text -/

def punctuation? : Char → Option Token
  | '[' => some .openArr
  | ']' => some .closeArr
  | '{' => some .openObj
  | '}' => some .closeObj
  | ':' => some .colon
  | ',' => some .comma
  | _ => none

/-- The first token of a text that does not start with white space, and what follows it. -/
def firstToken? : List Char → Option (Token × List Char)
  | [] => none
  | 'n' :: 'u' :: 'l' :: 'l' :: rest => some (.null, rest)
  | 't' :: 'r' :: 'u' :: 'e' :: rest => some (.bool true, rest)
  | 'f' :: 'a' :: 'l' :: 's' :: 'e' :: rest => some (.bool false, rest)
  | '"' :: rest => do
    let (pieces, rest) ← scanString rest
    return (stringToken pieces, rest)
  | c :: rest =>
    match punctuation? c with
    | some token => some (token, rest)
    | none =>
      if isNumberChar c then do
        let token ← numberToken? (c :: rest.takeWhile isNumberChar)
        return (token, rest.dropWhile isNumberChar)
      else none

/-- Every token uses up a character, so a text is cut into tokens in finitely many steps. -/
theorem length_lt_of_firstToken? {cs rest : List Char} {token : Token}
    (h : firstToken? cs = some (token, rest)) : rest.length < cs.length := by
  unfold firstToken? at h
  split at h
  · cases h
  · cases h; simp; omega
  · cases h; simp; omega
  · cases h; simp; omega
  · obtain ⟨⟨_, _⟩, hscan, h⟩ := Option.bind_eq_some_iff.1 h
    obtain ⟨-, rfl⟩ := Prod.mk.inj (Option.some.inj h)
    have := length_lt_of_scanString hscan
    simp only [List.length_cons]
    omega
  · next c tail _ _ _ _ =>
    split at h
    · cases h; simp
    · split at h
      · obtain ⟨_, -, h⟩ := Option.bind_eq_some_iff.1 h
        obtain ⟨-, rfl⟩ := Prod.mk.inj (Option.some.inj h)
        have := (List.dropWhile_sublist (p := isNumberChar) (l := tail)).length_le
        simp only [List.length_cons]
        omega
      · cases h

def tokens? : List Char → Option (List Token)
  | [] => some []
  | c :: cs =>
    if isBlank c then tokens? cs
    else match _h : firstToken? (c :: cs) with
      | none => none
      | some (token, rest) => (tokens? rest).map (token :: ·)
  termination_by cs => cs.length
  decreasing_by
    · simp
    · exact length_lt_of_firstToken? _h

end PermissionUsage.Json
