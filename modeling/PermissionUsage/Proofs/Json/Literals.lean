import Mathlib.Data.List.Basic
import Mathlib.Data.List.TakeWhile
import PermissionUsage.Json.Token
/-!
# Spelled literals are read

How strings and numbers may be spelled, and that a spelling is the first token of every text that
starts with it.

* `firstToken?_name`: a string may be followed by anything, since it ends with its quote.
* `firstToken?_int`, `firstToken?_real`: a number has to be followed by a character that is not part
  of a number (`EndsNumber`), or by nothing.
-/

namespace PermissionUsage.Json

/-! ## Strings -/

/-- A character that has to be escaped in a string literal. -/
def IsEscaped (c : Char) : Prop := c = '"' ∨ c = '\\' ∨ c.toNat < 0x20

instance (c : Char) : Decidable (IsEscaped c) := inferInstanceAs (Decidable (_ ∨ _ ∨ _))

/-- How the pieces of a string literal are spelled: a character as itself or by a short escape, any
character and each half of a pair by its code. -/
inductive SpellsPieces : List Piece → List Char → Prop
  | nil : SpellsPieces [] []
  | plain {c : Char} {pieces : List Piece} {cs : List Char} (h : ¬IsEscaped c)
    (rest : SpellsPieces pieces cs) : SpellsPieces (.char c :: pieces) (c :: cs)
  | short {e c : Char} {pieces : List Piece} {cs : List Char} (h : shortEscape? e = some c)
    (rest : SpellsPieces pieces cs) : SpellsPieces (.escape c :: pieces) ('\\' :: e :: cs)
  | code {a b c d : Char} {code : Nat} {pieces : List Piece} {cs : List Char}
    (h : hexCode? a b c d = some code) (rest : SpellsPieces pieces cs) :
    SpellsPieces (pieceOfCode code :: pieces) ('\\' :: 'u' :: a :: b :: c :: d :: cs)

/-- What a literal with these pieces is read as. -/
def nameOfPieces (pieces : List Piece) : Name where
  text := (joinPieces pieces).map String.ofList
  isRoundabout := pieces.any Piece.isRoundabout

/-- A string literal between its quotes. -/
inductive SpellsName : Name → List Char → Prop
  | quoted {pieces : List Piece} {cs : List Char} (h : SpellsPieces pieces cs) :
    SpellsName (nameOfPieces pieces) ('"' :: (cs ++ ['"']))

/-- A piece in front of what is scanned further on. -/
def prepend (piece : Piece) (scanned : List Piece × List Char) : List Piece × List Char :=
  (piece :: scanned.1, scanned.2)

/-- A character that needs no escape stands for itself. -/
theorem scanString_plain {c : Char} (h : ¬IsEscaped c) (rest : List Char) :
    scanString (c :: rest) = (scanString rest).map (prepend (.char c)) := by
  have hquote : c ≠ '"' := fun hc => h (.inl hc)
  have hbackslash : c ≠ '\\' := fun hc => h (.inr (.inl hc))
  have hprintable : ¬c.toNat < 0x20 := fun hc => h (.inr (.inr hc))
  rw [scanString]
  · rw [if_neg (not_or.2 ⟨hbackslash, hprintable⟩)]
    cases scanString rest <;> rfl
  · exact fun hc => hquote hc
  · exact fun _ _ _ _ _ hc _ => hbackslash hc
  · exact fun _ _ hc _ => hbackslash hc

/-- A short escape stands for one character. -/
theorem scanString_short {e c : Char} (h : shortEscape? e = some c) (rest : List Char) :
    scanString ('\\' :: e :: rest) = (scanString rest).map (prepend (.escape c)) := by
  rw [scanString]
  · rw [h]
    cases scanString rest <;> rfl
  · rintro _ _ _ _ _ rfl
    cases h

/-- Four hexadecimal digits stand for a code unit, which may be half of a character. -/
theorem scanString_unicode {a b c d : Char} {code : Nat} (h : hexCode? a b c d = some code)
    (rest : List Char) :
    scanString ('\\' :: 'u' :: a :: b :: c :: d :: rest) =
      (scanString rest).map (prepend (pieceOfCode code)) := by
  rw [scanString, h]
  cases scanString rest <;> rfl

/-- Spelled pieces are scanned up to the closing quote. -/
theorem scanString_of_spells {pieces : List Piece} {cs : List Char} (h : SpellsPieces pieces cs)
    (rest : List Char) : scanString (cs ++ '"' :: rest) = some (pieces, rest) := by
  induction h with
  | nil => rw [List.nil_append, scanString]
  | plain h _ ih =>
    rw [List.cons_append, scanString_plain h, ih]
    rfl
  | short h _ ih =>
    rw [List.cons_append, List.cons_append, scanString_short h, ih]
    rfl
  | code h _ ih =>
    simp only [List.cons_append]
    rw [scanString_unicode h, ih]
    rfl

/-- A spelled name is read as one token, wherever it stands. -/
theorem firstToken?_name {name : Name} {cs : List Char} (h : SpellsName name cs)
    (rest : List Char) : firstToken? (cs ++ rest) = some (.str name, rest) := by
  cases h with
  | quoted h =>
    have hscan := scanString_of_spells h rest
    rw [List.cons_append, List.append_assoc, List.singleton_append, firstToken?, hscan]
    rfl

/-! ## Where a run of characters ends -/

section Runs

variable {p : Char → Bool} {cs rest : List Char} (h : ∀ c ∈ cs, p c = true)
  (hrest : ∀ c ∈ rest.head?, p c = false)
include h hrest

/-- A run of characters is taken up to the first that does not belong to it. -/
theorem takeWhile_run : (cs ++ rest).takeWhile p = cs := by
  have hnone : rest.takeWhile p = [] := by
    cases rest with
    | nil => rfl
    | cons c rest => simp [hrest c rfl]
  rw [List.takeWhile_append_of_pos h, hnone, List.append_nil]

/-- What follows the run is left. -/
theorem dropWhile_run : (cs ++ rest).dropWhile p = rest := by
  have hall : rest.dropWhile p = rest := by
    cases rest with
    | nil => rfl
    | cons c rest => simp [hrest c rfl]
  rw [List.dropWhile_append_of_pos h, hall]

end Runs

/-! ## Numbers -/

/-- A number without fraction and exponent. The negative zero is none of these. -/
inductive SpellsInt : Int → List Char → Prop
  | natural {digits : List Char} (h : Decimal.isPlain digits = true) :
    SpellsInt (Decimal.ofDigits digits) digits
  | negative {digits : List Char} (h : Decimal.isPlain digits = true) (nonzero : digits ≠ ['0']) :
    SpellsInt (-Decimal.ofDigits digits) ('-' :: digits)

/-- The fraction of a number, if it has one. -/
inductive IsFractionPart : List Char → Prop
  | none : IsFractionPart []
  | digits {digits : List Char} (h : isDigits digits = true) : IsFractionPart ('.' :: digits)

/-- The exponent of a number, if it has one. -/
inductive IsExponentPart : List Char → Prop
  | none : IsExponentPart []
  | digits {e : Char} {sign digits : List Char} (he : e = 'e' ∨ e = 'E')
    (hsign : sign = [] ∨ sign = ['+'] ∨ sign = ['-']) (h : isDigits digits = true) :
    IsExponentPart (e :: (sign ++ digits))

/-- A number with a fraction or an exponent, or the negative zero; whether it is in range. -/
inductive SpellsReal : Bool → List Char → Prop
  | negativeZero : SpellsReal true ['-', '0']
  | parts {sign digits fraction exponent : List Char} (hsign : sign = [] ∨ sign = ['-'])
    (hdigits : Decimal.isPlain digits = true) (hfraction : IsFractionPart fraction)
    (hexponent : IsExponentPart exponent) (nonempty : fraction ++ exponent ≠ []) :
    SpellsReal (magnitude digits (fraction ++ exponent)).isFinite
      (sign ++ (digits ++ (fraction ++ exponent)))

theorem isDigits_iff {cs : List Char} :
    isDigits cs = true ↔ cs ≠ [] ∧ ∀ c ∈ cs, c.isDigit = true := by
  rw [isDigits, decide_eq_true_eq, List.all_eq_true]

/-- A plain number is a run of digits. -/
theorem isDigits_of_isPlain {cs : List Char} (h : Decimal.isPlain cs = true) :
    isDigits cs = true := by
  obtain ⟨hne, hall, -⟩ := of_decide_eq_true h
  exact decide_eq_true ⟨hne, hall⟩

/-! ### The end of a number -/

/-- Digits start neither with a sign nor with a point. -/
theorem ne_of_isDigits {cs : List Char} (h : isDigits cs = true) {c : Char}
    (hc : c.isDigit = false) (rest : List Char) : cs ≠ c :: rest := by
  rintro rfl
  rw [(isDigits_iff.1 h).2 c List.mem_cons_self] at hc
  cases hc

/-- An exponent part is recognized as one, or as none if there is none. -/
theorem isExponent_of_part {cs : List Char} (h : IsExponentPart cs) : isExponent cs = true := by
  cases h with
  | none => rfl
  | @digits e sign digits he hsign h =>
    have he : (decide (e = 'e') || decide (e = 'E')) = true := by simpa using he
    rcases hsign with rfl | rfl | rfl
    · rw [List.nil_append, isExponent, he, Bool.true_and]
      · exact h
      · exact fun rest heq => ne_of_isDigits h rfl rest heq
      · exact fun rest heq => ne_of_isDigits h rfl rest heq
    · show (_ && isDigits digits) = true
      rw [he, Bool.true_and, h]
    · show (_ && isDigits digits) = true
      rw [he, Bool.true_and, h]

/-- An exponent part begins with its letter, so the digits and the point in front of it end there.
-/
theorem head?_exponent {cs : List Char} (h : IsExponentPart cs) :
    ∀ c ∈ cs.head?, c.isDigit = false ∧ c ≠ '.' := by
  cases h with
  | none => exact nofun
  | digits he =>
    intro c hc
    obtain rfl := Option.some.inj hc
    rcases he with rfl | rfl <;> decide

/-- A fraction part is recognized in front of an exponent part. -/
theorem isFraction_of_parts {fraction exponent : List Char} (hfraction : IsFractionPart fraction)
    (hexponent : IsExponentPart exponent) : isFraction (fraction ++ exponent) = true := by
  have hexp := isExponent_of_part hexponent
  cases hfraction with
  | none =>
    rw [List.nil_append]
    unfold isFraction
    split
    · next rest => exact absurd rfl (head?_exponent hexponent '.' rfl).2
    · exact hexp
  | digits h =>
    have hstop : ∀ c ∈ exponent.head?, c.isDigit = false :=
      fun c hc => (head?_exponent hexponent c hc).1
    have hdigits := (isDigits_iff.1 h).2
    rw [List.cons_append, isFraction, takeWhile_run hdigits hstop, dropWhile_run hdigits hstop, h,
      hexp]
    rfl

/-- The whole digits end where a fraction or an exponent begins. -/
theorem head?_parts {fraction exponent : List Char} (hfraction : IsFractionPart fraction)
    (hexponent : IsExponentPart exponent) :
    ∀ c ∈ (fraction ++ exponent).head?, c.isDigit = false := by
  cases hfraction with
  | none => exact fun c hc => (head?_exponent hexponent c hc).1
  | digits =>
    intro c hc
    obtain rfl := Option.some.inj hc
    rfl

/-! ### The token of a number -/

section NumberToken

variable {digits rest : List Char} (hdigits : Decimal.isPlain digits = true)
  (hstop : ∀ c ∈ rest.head?, c.isDigit = false)
include hdigits hstop

/-- The token of a number without a sign. -/
theorem numberToken?_unsigned (hfraction : isFraction rest = true) :
    numberToken? (digits ++ rest) = some (if rest = [] then .int (Decimal.ofDigits digits)
      else .real (magnitude digits rest).isFinite) := by
  have hplain := isDigits_of_isPlain hdigits
  have hall := (isDigits_iff.1 hplain).2
  -- digits do not start with a sign
  have hsign : ∀ tail, digits ++ rest ≠ '-' :: tail := by
    intro tail heq
    obtain ⟨c, ds, rfl⟩ := List.exists_cons_of_ne_nil (isDigits_iff.1 hplain).1
    obtain ⟨rfl, -⟩ := List.cons.inj heq
    exact ne_of_isDigits hplain rfl ds rfl
  unfold numberToken?
  split
  next negative cs hcs =>
    split at hcs
    · next h => exact absurd h (hsign _)
    · cases hcs
      simp only [takeWhile_run hall hstop, dropWhile_run hall hstop, hdigits, hfraction]
      cases rest <;> rfl

/-- The token of a number behind its minus sign. -/
theorem numberToken?_signed (hfraction : isFraction rest = true) :
    numberToken? ('-' :: (digits ++ rest)) = some (if rest = [] then
        if Decimal.ofDigits digits = 0 then .real true else .int (-Decimal.ofDigits digits)
      else .real (magnitude digits rest).isFinite) := by
  have hall := (isDigits_iff.1 (isDigits_of_isPlain hdigits)).2
  simp only [numberToken?, takeWhile_run hall hstop, dropWhile_run hall hstop, hdigits, hfraction]
  cases rest with
  | nil => cases Decimal.ofDigits digits <;> rfl
  | cons => rfl

end NumberToken

/-- Reading on never makes a number smaller. -/
theorem le_foldl_digits (cs : List Char) (n : Nat) :
    n ≤ cs.foldl (fun n c => 10 * n + (c.toNat - 48)) n := by
  induction cs generalizing n with
  | nil => exact Nat.le_refl n
  | cons c rest ih =>
    have hrest := ih (10 * n + (c.toNat - 48))
    rw [List.foldl_cons]
    omega

/-- A digit other than zero counts something. -/
theorem toNat_of_isDigit {c : Char} (h : c.isDigit = true) (hne : c ≠ '0') : 48 < c.toNat := by
  rw [Char.isDigit, Bool.and_eq_true, decide_eq_true_eq, decide_eq_true_eq] at h
  have hle : 48 ≤ c.toNat := UInt32.le_iff_toNat_le.1 h.1
  have hother : c.toNat ≠ 48 := fun heq => hne (Char.ext (UInt32.toNat_inj.1 heq))
  omega

/-- Only zero is spelled with a zero in front. -/
theorem ofDigits_ne_zero {digits : List Char} (h : Decimal.isPlain digits = true)
    (nonzero : digits ≠ ['0']) : Decimal.ofDigits digits ≠ 0 := by
  obtain ⟨hne, hall, hzero⟩ := of_decide_eq_true h
  obtain ⟨c, rest, rfl⟩ := List.exists_cons_of_ne_nil hne
  have hc : c ≠ '0' := fun heq => nonzero (hzero (congrArg some heq))
  have hfirst := toNat_of_isDigit (List.all_eq_true.1 hall c List.mem_cons_self) hc
  have hle := le_foldl_digits rest (10 * 0 + (c.toNat - 48))
  show rest.foldl _ (10 * 0 + (c.toNat - 48)) ≠ 0
  omega

/-- Spelled integers are read as integers. -/
theorem numberToken?_int {n : Int} {cs : List Char} (h : SpellsInt n cs) :
    numberToken? cs = some (.int n) := by
  cases h with
  | natural h =>
    have htoken := @numberToken?_unsigned cs [] h nofun rfl
    rwa [List.append_nil, if_pos rfl] at htoken
  | @negative digits h nonzero =>
    have htoken := @numberToken?_signed digits [] h nofun rfl
    rwa [List.append_nil, if_pos rfl, if_neg (ofDigits_ne_zero h nonzero)] at htoken

/-- Spelled numbers with a fraction or an exponent are read as such, and whether they are in range.
-/
theorem numberToken?_real {isFinite : Bool} {cs : List Char} (h : SpellsReal isFinite cs) :
    numberToken? cs = some (.real isFinite) := by
  cases h with
  | negativeZero => rfl
  | parts hsign hdigits hfraction hexponent nonempty =>
    have hparts := isFraction_of_parts hfraction hexponent
    have hstop := head?_parts hfraction hexponent
    rcases hsign with rfl | rfl
    · rw [List.nil_append, numberToken?_unsigned hdigits hstop hparts, if_neg nonempty]
    · rw [List.singleton_append, numberToken?_signed hdigits hstop hparts, if_neg nonempty]

/-! ### A number is the first token -/

/-- A text before which a number ends: it does not start with a character of a number. -/
def EndsNumber (rest : List Char) : Prop := ∀ c ∈ rest.head?, isNumberChar c = false

theorem endsNumber_nil : EndsNumber [] := by
  intro c hc
  cases hc

/-- A number ends in front of a character that no number has. -/
theorem endsNumber_cons {c : Char} (h : isNumberChar c = false) (rest : List Char) :
    EndsNumber (c :: rest) := by
  intro d hd
  obtain rfl := Option.some.inj hd
  exact h

/-- Whether a number ends is decided by the first character that follows. -/
theorem EndsNumber.append {cs rest : List Char} (h : EndsNumber cs) (hrest : EndsNumber rest) :
    EndsNumber (cs ++ rest) := by
  cases cs with
  | nil => exact hrest
  | cons c cs => exact h

/-- A number is read as one token if a character follows that ends it. -/
theorem firstToken?_number {cs : List Char} {token : Token} (hne : cs ≠ [])
    (h : ∀ c ∈ cs, isNumberChar c = true) (htoken : numberToken? cs = some token)
    {rest : List Char} (hrest : EndsNumber rest) :
    firstToken? (cs ++ rest) = some (token, rest) := by
  obtain ⟨c, tail, rfl⟩ := List.exists_cons_of_ne_nil hne
  obtain ⟨hc, htail⟩ := List.forall_mem_cons.1 h
  -- a character of a number starts no other token
  have hother : ∀ d : Char, isNumberChar d = false → c ≠ d := by
    rintro d hd rfl
    exact absurd hc (Bool.eq_false_iff.1 hd)
  have hpunctuation : punctuation? c = none := by
    unfold punctuation?
    split <;> first | rfl | exact absurd hc (by decide)
  rw [List.cons_append, firstToken?, hpunctuation]
  · simp only [hc, if_true, takeWhile_run htail hrest, htoken, dropWhile_run htail hrest]
    rfl
  · exact fun _ h => absurd h (hother 'n' (by decide))
  · exact fun _ h => absurd h (hother 't' (by decide))
  · exact fun _ h => absurd h (hother 'f' (by decide))
  · exact hother '"' (by decide)

/-- Digits belong to numbers. -/
theorem isNumberChar_of_isDigits {cs : List Char} (h : isDigits cs = true) :
    ∀ c ∈ cs, isNumberChar c = true := by
  intro c hc
  simp [isNumberChar, (isDigits_iff.1 h).2 c hc]

/-- A spelled integer is one token in front of what ends a number. -/
theorem firstToken?_int {n : Int} {cs : List Char} (h : SpellsInt n cs) {rest : List Char}
    (hrest : EndsNumber rest) : firstToken? (cs ++ rest) = some (.int n, rest) := by
  have hchars : cs ≠ [] ∧ ∀ c ∈ cs, isNumberChar c = true := by
    cases h with
    | natural h =>
      have hdigits := isDigits_of_isPlain h
      exact ⟨(isDigits_iff.1 hdigits).1, isNumberChar_of_isDigits hdigits⟩
    | negative h =>
      have hdigits := isNumberChar_of_isDigits (isDigits_of_isPlain h)
      exact ⟨List.cons_ne_nil _ _, List.forall_mem_cons.2 ⟨rfl, hdigits⟩⟩
  exact firstToken?_number hchars.1 hchars.2 (numberToken?_int h) hrest

/-- Points, signs and exponents belong to numbers. -/
theorem isNumberChar_of_parts {fraction exponent : List Char} (hfraction : IsFractionPart fraction)
    (hexponent : IsExponentPart exponent) :
    ∀ c ∈ fraction ++ exponent, isNumberChar c = true := by
  refine List.forall_mem_append.2 ⟨?_, ?_⟩
  · cases hfraction with
    | none => exact nofun
    | digits h => exact List.forall_mem_cons.2 ⟨rfl, isNumberChar_of_isDigits h⟩
  · cases hexponent with
    | none => exact nofun
    | digits he hsign h =>
      have hdigits := isNumberChar_of_isDigits h
      refine List.forall_mem_cons.2 ⟨?_, List.forall_mem_append.2 ⟨?_, hdigits⟩⟩
      · rcases he with rfl | rfl <;> rfl
      · rcases hsign with rfl | rfl | rfl
        · exact nofun
        · exact List.forall_mem_singleton.2 rfl
        · exact List.forall_mem_singleton.2 rfl

theorem firstToken?_real {isFinite : Bool} {cs : List Char} (h : SpellsReal isFinite cs)
    {rest : List Char} (hrest : EndsNumber rest) :
    firstToken? (cs ++ rest) = some (.real isFinite, rest) := by
  have hchars : cs ≠ [] ∧ ∀ c ∈ cs, isNumberChar c = true := by
    cases h with
    | negativeZero =>
      exact ⟨List.cons_ne_nil _ _, List.forall_mem_cons.2 ⟨rfl, List.forall_mem_singleton.2 rfl⟩⟩
    | parts hsign hdigits hfraction hexponent nonempty =>
      have hdigits := isNumberChar_of_isDigits (isDigits_of_isPlain hdigits)
      have hparts := isNumberChar_of_parts hfraction hexponent
      refine ⟨?_, List.forall_mem_append.2 ⟨?_, List.forall_mem_append.2 ⟨hdigits, hparts⟩⟩⟩
      · exact List.append_ne_nil_of_right_ne_nil _ (List.append_ne_nil_of_right_ne_nil _ nonempty)
      · rcases hsign with rfl | rfl
        · exact nofun
        · exact List.forall_mem_singleton.2 rfl
  exact firstToken?_number hchars.1 hchars.2 (numberToken?_real h) hrest

end PermissionUsage.Json
