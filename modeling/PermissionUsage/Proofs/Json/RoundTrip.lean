import PermissionUsage.Proofs.Json.Grammar
/-!
# A written value is read

Both written forms of a value are among its spellings, so they are read as the value itself.

* `spellsName_literal`, `spellsInt_integer`, `spellsReal_nonInteger`: a written literal is spelled.
* `spells_prettyChars`, `spells_compactChars`: and so is either form of a value.
* `parse?_pretty`, `parse?_compact`: either form of a value is read as the value itself.

The reader keeps of a name how it was escaped, so only values survive whose names are those of
written literals (`Json.HasWrittenNames`).
-/

namespace PermissionUsage

/-! ## Digits -/

namespace Decimal

theorem digits_ne_nil (n : Nat) : digits n ≠ [] := by
  rw [digits]
  split
  · exact List.cons_ne_nil _ _
  · exact List.append_ne_nil_of_right_ne_nil _ (List.cons_ne_nil _ _)

/-- Only zero is written as zero. -/
theorem digit_eq_zero_iff {d : Nat} (h : d < 10) : digit d = '0' ↔ d = 0 := by
  have hall : ∀ d : Fin 10, digit d = '0' ↔ (d : Nat) = 0 := by decide
  exact hall ⟨d, h⟩

/-- Only zero is written with a zero in front. -/
theorem head?_digits (n : Nat) (h : (digits n).head? = some '0') : n = 0 := by
  induction n using Nat.strongRecOn with
  | ind n ih =>
    rw [digits] at h
    split at h
    · next hsmall => exact (digit_eq_zero_iff hsmall).1 (Option.some.inj h)
    · next hlarge =>
      rw [List.head?_append_of_ne_nil _ (digits_ne_nil _)] at h
      have hzero : n / 10 = 0 := ih (n / 10) (by omega) h
      omega

/-- The digits of a number are plain: no zero leads them, unless it is the number. -/
theorem isPlain_digits (n : Nat) : isPlain (digits n) := by
  have hdigits : (digits n).all Char.isDigit := List.all_eq_true.2 (isDigit_of_mem_digits n)
  refine decide_eq_true ⟨digits_ne_nil n, hdigits, fun hhead => ?_⟩
  rw [head?_digits n hhead, digits]
  rfl

end Decimal

namespace Json

/-! ## Written literals -/

/-- The piece of a string literal that a character is written as. -/
def pieceOf (c : Char) : Piece := if IsEscaped c then .escape c else .char c

/-- No character is escaped that could stand for itself. -/
theorem isRoundabout_pieceOf (c : Char) : (pieceOf c).isRoundabout = false := by
  unfold pieceOf
  split
  · next h =>
    refine decide_eq_false fun hroundabout => ?_
    obtain ⟨hquote, hbackslash, hprintable⟩ := hroundabout
    rcases h with h | h | h
    · exact hquote h
    · exact hbackslash h
    · exact Nat.not_lt.2 hprintable h
  · rfl

/-- Pieces that stand for whole characters are joined to these. -/
theorem joinPieces_map_pieceOf (cs : List Char) : joinPieces (cs.map pieceOf) = some cs := by
  induction cs with
  | nil => rfl
  | cons c rest ih =>
    rw [List.map_cons, pieceOf]
    split <;> rw [joinPieces, ih] <;> rfl

/-- The code of a control character is read back from its two last digits. -/
theorem hexCode?_of_control {n : Nat} (h : n < 0x20) :
    hexCode? '0' '0' (hexDigit (n / 16)) (hexDigit (n % 16)) = some n := by
  have hall : ∀ n : Fin 0x20,
      hexCode? '0' '0' (hexDigit (n / 16)) (hexDigit (n % 16)) = some (n : Nat) := by decide
  exact hall ⟨n, h⟩

/-- A character that is written, escaped where it must be, spells its piece. -/
theorem spellsPieces_escape (c : Char) {pieces : List Piece} {cs : List Char}
    (hrest : SpellsPieces pieces cs) : SpellsPieces (pieceOf c :: pieces) (escape c ++ cs) := by
  unfold escape
  -- first the characters with a short escape, then the other control characters
  split
  · next h => subst h; exact .short rfl hrest
  split
  · next h => subst h; exact .short rfl hrest
  split
  · next h => subst h; exact .short rfl hrest
  split
  · next h => subst h; exact .short rfl hrest
  split
  · next h => subst h; exact .short rfl hrest
  split
  · next h => subst h; exact .short rfl hrest
  split
  · next h => subst h; exact .short rfl hrest
  split
  · next h =>
    have hpiece : pieceOfCode c.toNat = pieceOf c := by
      rw [pieceOfCode, if_neg (by omega), Char.ofNat_toNat, pieceOf, if_pos (.inr (.inr h))]
    rw [← hpiece]
    exact .code (hexCode?_of_control h) hrest
  · next hquote hbackslash _ _ _ _ _ hprintable =>
    have hplain : ¬IsEscaped c := by
      rintro (h | h | h)
      · exact hquote h
      · exact hbackslash h
      · exact hprintable h
    rw [pieceOf, if_neg hplain]
    exact .plain hplain hrest

theorem spellsPieces_flatMap_escape (cs : List Char) :
    SpellsPieces (cs.map pieceOf) (cs.flatMap escape) := by
  induction cs with
  | nil => exact .nil
  | cons c cs ih => exact spellsPieces_escape c ih

/-- The name that a literal is read as. A string without a text is written as an escape. -/
def Name.ofLiteral (text : Option String) : Name := { text, isRoundabout := text.isNone }

theorem nameOfPieces_map_pieceOf (text : String) :
    nameOfPieces (text.toList.map pieceOf) = .ofLiteral (some text) := by
  -- nothing is escaped needlessly, so the name is the one that is written directly
  have hdirect : (text.toList.map pieceOf).any Piece.isRoundabout = false := by
    rw [List.any_map, List.any_eq_false]
    intro c _
    simp [isRoundabout_pieceOf]
  unfold nameOfPieces
  rw [hdirect, joinPieces_map_pieceOf, Option.map_some, String.ofList_toList]
  rfl

/-- The literal that is written for a name spells the name. -/
theorem spellsName_literal (text : Option String) :
    SpellsName (.ofLiteral text) (literal text) := by
  cases text with
  | none =>
    have hcode : hexCode? 'd' '8' '0' '0' = some 0xD800 := rfl
    exact .quoted (.code hcode .nil)
  | some text =>
    rw [← nameOfPieces_map_pieceOf]
    exact .quoted (spellsPieces_flatMap_escape text.toList)

/-- The digits that are written for an integer spell it, with its sign. -/
theorem spellsInt_integer (n : Int) : SpellsInt n (integer n) := by
  cases n with
  | ofNat n =>
    have h := SpellsInt.natural (Decimal.isPlain_digits n)
    rwa [Decimal.ofDigits_digits] at h
  | negSucc n =>
    -- a minus sign never stands in front of zero
    have hzero : Decimal.digits (n + 1) ≠ ['0'] := by
      intro h
      have hhead : (Decimal.digits (n + 1)).head? = some '0' := by rw [h]; rfl
      exact Nat.succ_ne_zero n (Decimal.head?_digits (n + 1) hhead)
    have h := SpellsInt.negative (Decimal.isPlain_digits (n + 1)) hzero
    rwa [Decimal.ofDigits_digits] at h

/-- A number without a value here is written in a form that spells it. -/
theorem spellsReal_nonInteger (isFinite : Bool) : SpellsReal isFinite (nonInteger isFinite) := by
  cases isFinite with
  | true =>
    have hwhole : Decimal.isPlain ['0'] = true := rfl
    have hfraction : isDigits ['5'] = true := rfl
    exact .parts (.inl rfl) hwhole (.digits hfraction) .none (List.cons_ne_nil _ _)
  | false =>
    have hwhole : Decimal.isPlain ['1'] = true := rfl
    have hexponent : isDigits ['9', '9', '9'] = true := rfl
    exact .parts (.inl rfl) hwhole .none (.digits (.inl rfl) (.inl rfl) hexponent)
      (List.cons_ne_nil _ _)

/-! ## Written values -/

mutual

/-- Every name in a value is one that is read from a written literal. -/
def HasWrittenNames : Json → Prop
  | .arr items => HaveWrittenNames items
  | .obj members => AreWrittenMembers members
  | _ => True

def HaveWrittenNames : List Json → Prop
  | [] => True
  | item :: items => item.HasWrittenNames ∧ HaveWrittenNames items

def AreWrittenMembers : List (Name × Json) → Prop
  | [] => True
  | (name, value) :: members =>
    name = .ofLiteral name.text ∧ value.HasWrittenNames ∧ AreWrittenMembers members

end

theorem spellsName_written {name : Name} (h : name = .ofLiteral name.text) :
    SpellsName name (literal name.text) := by
  have hname := spellsName_literal name.text
  rwa [← h] at hname

theorem areBlank_nil : AreBlank [] := nofun

theorem areBlank_space : AreBlank [' '] := List.forall_mem_singleton.2 rfl

theorem areBlank_newLine (level : Nat) : AreBlank (newLine level) := by
  refine List.forall_mem_cons.2 ⟨rfl, fun c hc => ?_⟩
  rw [List.eq_of_mem_replicate hc]
  rfl

/-! ### The pretty form -/

mutual

/-- **The file form spells its value**, at every level of indentation. -/
theorem spells_prettyChars (level : Nat) (json : Json) (h : json.HasWrittenNames) :
    Spells json (prettyChars level json) :=
  match json with
  | .null => .null
  | .bool b => .bool b
  | .int n => .int (spellsInt_integer n)
  | .real isFinite => .real (spellsReal_nonInteger isFinite)
  | .str text => .str (spellsName_literal text)
  | .arr [] => .noItems areBlank_nil
  | .obj [] => .noMembers areBlank_nil
  | .arr (item :: items) => by
    obtain ⟨hitem, hitems⟩ := h
    have hall := spellsItems_pretty level items hitems (spells_prettyChars (level + 1) item hitem)
    simp only [prettyChars, List.cons_append, List.append_assoc]
    simpa only [List.append_assoc] using Spells.arr hall
  | .obj ((name, value) :: members) => by
    obtain ⟨hname, hvalue, hmembers⟩ := h
    have hall := spellsMembers_pretty level members hmembers (spellsName_written hname)
      (spells_prettyChars (level + 1) value hvalue)
    simp only [prettyChars, List.cons_append, List.append_assoc]
    simpa only [List.cons_append, List.append_assoc] using Spells.obj hall

/-- Items from a spelled one on, up to the new line behind the last one. -/
theorem spellsItems_pretty (level : Nat) (items : List Json) (h : HaveWrittenNames items)
    {item : Json} {cs : List Char} (hitem : Spells item cs) :
    SpellsItems (item :: items)
      (newLine (level + 1) ++ (cs ++ (prettyItems level items ++ newLine level))) :=
  match items with
  | [] => .last (areBlank_newLine _) hitem (areBlank_newLine _)
  | next :: items => by
    obtain ⟨hnext, hitems⟩ := h
    have hrest := spellsItems_pretty level items hitems (spells_prettyChars (level + 1) next hnext)
    simp only [prettyItems, List.cons_append, List.append_assoc]
    exact .cons (areBlank_newLine _) hitem areBlank_nil hrest

/-- The members of an object in file form spell them, each on a line of its own. -/
theorem spellsMembers_pretty (level : Nat) (members : List (Name × Json))
    (h : AreWrittenMembers members) {name : Name} {value : Json} {key cs : List Char}
    (hname : SpellsName name key) (hvalue : Spells value cs) :
    SpellsMembers ((name, value) :: members)
      (newLine (level + 1) ++ (key ++ (':' :: ' ' :: (cs ++
        (prettyMembers level members ++ newLine level))))) :=
  match members with
  | [] => .last (areBlank_newLine _) hname areBlank_nil areBlank_space hvalue (areBlank_newLine _)
  | (next, json) :: members => by
    obtain ⟨hnext, hjson, hmembers⟩ := h
    have hrest := spellsMembers_pretty level members hmembers (spellsName_written hnext)
      (spells_prettyChars (level + 1) json hjson)
    simp only [prettyMembers, List.cons_append, List.append_assoc]
    exact .cons (areBlank_newLine _) hname areBlank_nil areBlank_space hvalue areBlank_nil hrest

end

/-! ### The compact form -/

mutual

/-- **The compact form spells its value.** -/
theorem spells_compactChars (json : Json) (h : json.HasWrittenNames) :
    Spells json (compactChars json) :=
  match json with
  | .null => .null
  | .bool b => .bool b
  | .int n => .int (spellsInt_integer n)
  | .real isFinite => .real (spellsReal_nonInteger isFinite)
  | .str text => .str (spellsName_literal text)
  | .arr [] => .noItems areBlank_nil
  | .obj [] => .noMembers areBlank_nil
  | .arr (item :: items) => .arr (spellsItems_compact items h.2 (spells_compactChars item h.1))
  | .obj ((name, value) :: members) => by
    obtain ⟨hname, hvalue, hmembers⟩ := h
    have hall := spellsMembers_compact members hmembers (spellsName_written hname)
      (spells_compactChars value hvalue)
    simp only [compactChars, List.cons_append, List.append_assoc]
    simpa only [List.cons_append, List.append_assoc] using Spells.obj hall

/-- Items from a spelled one on. -/
theorem spellsItems_compact (items : List Json) (h : HaveWrittenNames items) {item : Json}
    {cs : List Char} (hitem : Spells item cs) :
    SpellsItems (item :: items) (cs ++ compactItems items) :=
  match items with
  | [] => .last areBlank_nil hitem areBlank_nil
  | next :: items =>
    .cons areBlank_nil hitem areBlank_nil
      (spellsItems_compact items h.2 (spells_compactChars next h.1))

/-- The members of an object in compact form spell them. -/
theorem spellsMembers_compact (members : List (Name × Json)) (h : AreWrittenMembers members)
    {name : Name} {value : Json} {key cs : List Char} (hname : SpellsName name key)
    (hvalue : Spells value cs) :
    SpellsMembers ((name, value) :: members) (key ++ ':' :: (cs ++ compactMembers members)) :=
  match members with
  | [] => .last areBlank_nil hname areBlank_nil areBlank_nil hvalue areBlank_nil
  | (next, json) :: members => by
    obtain ⟨hnext, hjson, hmembers⟩ := h
    have hrest := spellsMembers_compact members hmembers (spellsName_written hnext)
      (spells_compactChars json hjson)
    simp only [compactMembers, List.cons_append, List.append_assoc]
    exact .cons areBlank_nil hname areBlank_nil areBlank_nil hvalue areBlank_nil hrest

end

/-! ### The whole text -/

/-- What spells a value is a text of it. -/
theorem Spells.isTextOf {json : Json} {cs : List Char} (h : Spells json cs) :
    IsTextOf json (String.ofList cs) := by
  have htext := IsTextOf.text areBlank_nil h areBlank_nil
  rwa [List.append_nil, List.nil_append] at htext

/-- The pretty form of a value is read as the value. -/
theorem parse?_pretty (json : Json) (h : json.HasWrittenNames) : parse? json.pretty = some json :=
  parse?_of_isTextOf (spells_prettyChars 0 json h).isTextOf

/-- The compact form of a value is read as the value. -/
theorem parse?_compact (json : Json) (h : json.HasWrittenNames) :
    parse? json.compact = some json :=
  parse?_of_isTextOf (spells_compactChars json h).isTextOf

end Json

end PermissionUsage
