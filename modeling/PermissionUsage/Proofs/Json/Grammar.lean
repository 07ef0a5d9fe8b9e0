import PermissionUsage.Json.Reader
import PermissionUsage.Json.Writer
import PermissionUsage.Proofs.Json.Literals
/-!
# What the grammar spells is read

The grammar of JSON as a relation between values and texts: white space may stand around every
value, name and bracket, and literals may be spelled in any way that they allow.

* `Spells`: the grammar of values, `IsTextOf` of whole texts.
* `Reads`: some characters are cut into tokens, wherever they stand.
* `exists_tokens`: what spells a value is cut into tokens that lead the reader past that value.
* `parse?_of_isTextOf`: so every text of a value is read as the value.
-/

namespace PermissionUsage.Json

/-! ## The grammar -/

/-- White space, or nothing. -/
def AreBlank (cs : List Char) : Prop := ∀ c ∈ cs, isBlank c = true

mutual

/-- The spellings of a value. -/
inductive Spells : Json → List Char → Prop
  | null : Spells .null ['n', 'u', 'l', 'l']
  | bool (b : Bool) : Spells (.bool b) (truth b)
  | int {n : Int} {cs : List Char} (h : SpellsInt n cs) : Spells (.int n) cs
  | real {isFinite : Bool} {cs : List Char} (h : SpellsReal isFinite cs) :
    Spells (.real isFinite) cs
  | str {name : Name} {cs : List Char} (h : SpellsName name cs) : Spells (.str name.text) cs
  | noItems {blank : List Char} (h : AreBlank blank) : Spells (.arr []) ('[' :: (blank ++ [']']))
  | arr {items : List Json} {cs : List Char} (h : SpellsItems items cs) :
    Spells (.arr items) ('[' :: (cs ++ [']']))
  | noMembers {blank : List Char} (h : AreBlank blank) :
    Spells (.obj []) ('\x7b' :: (blank ++ ['\x7d']))
  | obj {members : List (Name × Json)} {cs : List Char} (h : SpellsMembers members cs) :
    Spells (.obj members) ('\x7b' :: (cs ++ ['\x7d']))

/-- Items with a comma between any two. -/
inductive SpellsItems : List Json → List Char → Prop
  | last {item : Json} {front cs back : List Char} (hfront : AreBlank front) (h : Spells item cs)
    (hback : AreBlank back) : SpellsItems [item] (front ++ (cs ++ back))
  | cons {item : Json} {items : List Json} {front cs back rest : List Char}
    (hfront : AreBlank front) (h : Spells item cs) (hback : AreBlank back)
    (hrest : SpellsItems items rest) :
    SpellsItems (item :: items) (front ++ (cs ++ (back ++ ',' :: rest)))

/-- Members with a comma between any two. -/
inductive SpellsMembers : List (Name × Json) → List Char → Prop
  | last {name : Name} {value : Json} {front key back front' cs back' : List Char}
    (hfront : AreBlank front) (hname : SpellsName name key) (hback : AreBlank back)
    (hfront' : AreBlank front') (h : Spells value cs) (hback' : AreBlank back') :
    SpellsMembers [(name, value)] (front ++ (key ++ (back ++ ':' :: (front' ++ (cs ++ back')))))
  | cons {name : Name} {value : Json} {members : List (Name × Json)}
    {front key back front' cs back' rest : List Char}
    (hfront : AreBlank front) (hname : SpellsName name key) (hback : AreBlank back)
    (hfront' : AreBlank front') (h : Spells value cs) (hback' : AreBlank back')
    (hrest : SpellsMembers members rest) :
    SpellsMembers ((name, value) :: members)
      (front ++ (key ++ (back ++ ':' :: (front' ++ (cs ++ (back' ++ ',' :: rest))))))

end

/-- A text is that of a value: it spells the value, with white space around it. -/
inductive IsTextOf : Json → String → Prop
  | text {json : Json} {front cs back : List Char} (hfront : AreBlank front) (h : Spells json cs)
    (hback : AreBlank back) : IsTextOf json (String.ofList (front ++ (cs ++ back)))

/-! ## From the text to tokens -/

/-- Blanks between tokens are skipped. -/
theorem tokens?_blank {c : Char} (h : isBlank c = true) (cs : List Char) :
    tokens? (c :: cs) = tokens? cs := by
  rw [tokens?, if_pos h]

/-- No token starts with white space. -/
theorem firstToken?_blank {c : Char} (h : isBlank c = true) (cs : List Char) :
    firstToken? (c :: cs) = none := by
  simp only [isBlank, Bool.or_eq_true, decide_eq_true_eq] at h
  obtain ((rfl | rfl) | rfl) | rfl := h <;> rfl

/-- A punctuation character is a token by itself. -/
theorem firstToken?_punctuation {c : Char} {token : Token} (h : punctuation? c = some token)
    (rest : List Char) : firstToken? (c :: rest) = some (token, rest) := by
  unfold punctuation? at h
  split at h <;> cases h <;> rfl

/-- The tokens of a text are its first one and those of the rest. -/
theorem tokens?_of_firstToken? {cs rest : List Char} {token : Token}
    (h : firstToken? cs = some (token, rest)) : tokens? cs = (tokens? rest).map (token :: ·) := by
  cases cs with
  | nil => cases h
  | cons c cs =>
    have hvisible : ¬isBlank c = true := by
      intro hblank
      rw [firstToken?_blank hblank] at h
      cases h
    rw [tokens?, if_neg hvisible]
    split
    · next hnone => rw [hnone] at h; cases h
    · next hsome => rw [hsome] at h; cases h; rfl

theorem endsNumber_of_blank {cs : List Char} (h : AreBlank cs) : EndsNumber cs := by
  intro c hc
  have hblank := h c (List.mem_of_mem_head? hc)
  simp only [isBlank, Bool.or_eq_true, decide_eq_true_eq] at hblank
  obtain ((rfl | rfl) | rfl) | rfl := hblank <;> rfl

/-- A number ends in front of blanks, and in front of what follows it without blanks. -/
theorem endsNumber_blank_cons {blank : List Char} (h : AreBlank blank) {c : Char}
    (hc : isNumberChar c = false) (rest : List Char) : EndsNumber (blank ++ c :: rest) :=
  (endsNumber_of_blank h).append (endsNumber_cons hc rest)

/-- Some characters are cut into these tokens, in front of anything before which a number ends. -/
def Reads (cs : List Char) (ts : List Token) : Prop :=
  ∀ rest, EndsNumber rest → tokens? (cs ++ rest) = (tokens? rest).map (ts ++ ·)

namespace Reads

variable {cs ds : List Char} {ts us : List Token}

theorem nil : Reads [] [] := by
  intro rest _
  simp

/-- A token that may be followed by anything. -/
theorem token {token : Token} (hfirst : ∀ rest, firstToken? (cs ++ rest) = some (token, rest))
    (h : Reads ds ts) : Reads (cs ++ ds) (token :: ts) := by
  intro rest hrest
  rw [List.append_assoc, tokens?_of_firstToken? (hfirst _), h rest hrest, Option.map_map]
  rfl

/-- A token that may only be followed by what ends a number. -/
theorem single {token : Token}
    (hfirst : ∀ rest, EndsNumber rest → firstToken? (cs ++ rest) = some (token, rest)) :
    Reads cs [token] := by
  intro rest hrest
  rw [tokens?_of_firstToken? (hfirst rest hrest)]
  rfl

/-- Punctuation is read in front of anything. -/
theorem punctuation {c : Char} {token : Token} (htoken : punctuation? c = some token)
    (h : Reads ds ts) : Reads (c :: ds) (token :: ts) := by
  have hfirst : ∀ rest, firstToken? ([c] ++ rest) = some (token, rest) :=
    firstToken?_punctuation htoken
  exact Reads.token hfirst h

/-- Texts are read one after another if the first does not run into the second. -/
theorem append (h : Reads cs ts) (hends : EndsNumber ds) (hds : Reads ds us) :
    Reads (cs ++ ds) (ts ++ us) := by
  intro rest hrest
  rw [List.append_assoc, h _ (hends.append hrest), hds rest hrest, Option.map_map]
  simp only [Function.comp_def, List.append_assoc]

/-- Blanks in front change nothing. -/
theorem blank (hblank : AreBlank cs) (h : Reads ds ts) : Reads (cs ++ ds) ts := by
  induction cs with
  | nil => exact h
  | cons c cs ih =>
    obtain ⟨hc, hcs⟩ := List.forall_mem_cons.1 hblank
    intro rest hrest
    rw [List.cons_append, List.cons_append, tokens?_blank hc]
    exact ih hcs rest hrest

/-- White space is cut into no tokens. -/
theorem areBlank (hblank : AreBlank cs) : Reads cs [] := by
  have h := blank hblank nil
  rwa [List.append_nil] at h

/-- The name of a member in front of its value. -/
theorem name {name : Name} {front key back : List Char} (hfront : AreBlank front)
    (hname : SpellsName name key) (hback : AreBlank back) (h : Reads cs ts) :
    Reads (front ++ (key ++ (back ++ ':' :: cs))) (.str name :: .colon :: ts) :=
  blank hfront (token (firstToken?_name hname) (blank hback (punctuation rfl h)))

end Reads

/-! ## From tokens to the value -/

/-- The tokens lead the reader from one place to another. -/
def Leads (ts : List Token) (start finish : Expecting) : Prop :=
  ts.foldlM Expecting.step start = some finish

namespace Leads

variable {ts us : List Token} {start middle finish : Expecting}

theorem append (h : Leads ts start middle) (h' : Leads us middle finish) :
    Leads (ts ++ us) start finish := by
  unfold Leads at h h' ⊢
  rw [List.foldlM_append, h]
  exact h'

/-- A reader takes one token and then the others. -/
theorem cons {token : Token} (h : start.step token = some middle) (h' : Leads us middle finish) :
    Leads (token :: us) start finish := by
  unfold Leads at h' ⊢
  rw [List.foldlM_cons, h]
  exact h'

end Leads

/-- Behind the opening of an array the first item is taken like any other value, since no value
starts with the closing bracket. -/
theorem Leads.firstItem {ts : List Token} {stack left : List Frame} {value : Json}
    (h : Leads ts (.value (.arr [] :: stack)) (.after value left)) :
    Leads ts (.firstItem stack) (.after value left) := by
  cases ts with
  | nil => cases h
  | cons token ts =>
    cases token with
    | closeArr => cases h
    | _ => exact h

/-- Behind the opening of an object the first name is taken like any other. -/
theorem Leads.firstName {ts : List Token} {stack left : List Frame} {value : Json}
    (h : Leads ts (.name [] stack) (.after value left)) :
    Leads ts (.firstName stack) (.after value left) := by
  cases ts with
  | nil => cases h
  | cons token ts =>
    cases token with
    | str => exact h
    | _ => cases h

mutual

/-- What spells a value is cut into tokens that lead past the value. -/
theorem exists_tokens {json : Json} {cs : List Char} : Spells json cs →
    ∃ ts, Reads cs ts ∧ ∀ stack, Leads ts (.value stack) (.after json stack)
  | .null => ⟨[.null], .single fun _ _ => rfl, fun _ => rfl⟩
  | .bool true => ⟨[.bool true], .single fun _ _ => rfl, fun _ => rfl⟩
  | .bool false => ⟨[.bool false], .single fun _ _ => rfl, fun _ => rfl⟩
  | .int h => ⟨[.int _], .single fun _ => firstToken?_int h, fun _ => rfl⟩
  | .real h => ⟨[.real _], .single fun _ => firstToken?_real h, fun _ => rfl⟩
  | .str h => ⟨[.str _], .single fun rest _ => firstToken?_name h rest, fun _ => rfl⟩
  | .noItems h => ⟨[.openArr, .closeArr],
      .punctuation rfl (.blank h (.punctuation rfl .nil)), fun _ => rfl⟩
  | .noMembers h => ⟨[.openObj, .closeObj],
      .punctuation rfl (.blank h (.punctuation rfl .nil)), fun _ => rfl⟩
  | .arr h => by
    -- the reader is behind the bracket and has taken no item yet
    obtain ⟨ts, hreads, hleads⟩ := exists_itemTokens h
    refine ⟨.openArr :: (ts ++ [.closeArr]), .punctuation rfl ?_, fun stack => ?_⟩
    · exact hreads.append (endsNumber_cons rfl []) (.punctuation rfl .nil)
    · exact .cons rfl (.firstItem (hleads [] stack))
  | .obj h => by
    obtain ⟨ts, hreads, hleads⟩ := exists_memberTokens h
    refine ⟨.openObj :: (ts ++ [.closeObj]), .punctuation rfl ?_, fun stack => ?_⟩
    · exact hreads.append (endsNumber_cons rfl []) (.punctuation rfl .nil)
    · exact .cons rfl (.firstName (hleads [] stack))

/-- The same of items, from behind those that the reader has taken to behind the bracket. -/
theorem exists_itemTokens {items : List Json} {cs : List Char} : SpellsItems items cs →
    ∃ ts, Reads cs ts ∧ ∀ done stack, Leads (ts ++ [.closeArr]) (.value (.arr done :: stack))
      (.after (.arr (done.reverse ++ items)) stack)
  | .last hfront h hback => by
    obtain ⟨ts, hreads, hleads⟩ := exists_tokens h
    refine ⟨ts ++ [], .blank hfront (hreads.append (endsNumber_of_blank hback) (.areBlank hback)),
      fun done stack => ?_⟩
    rw [List.append_nil, ← List.reverse_cons]
    exact (hleads (.arr done :: stack)).append (.cons rfl rfl)
  | @SpellsItems.cons item items _ _ _ _ hfront h hback hrest => by
    obtain ⟨ts, hreads, hleads⟩ := exists_tokens h
    obtain ⟨us, hreads', hleads'⟩ := exists_itemTokens hrest
    refine ⟨ts ++ .comma :: us, .blank hfront (hreads.append (endsNumber_blank_cons hback rfl _)
      (.blank hback (.punctuation rfl hreads'))), fun done stack => ?_⟩
    -- the rest is read with one more item taken
    have hlast := hleads' (item :: done) stack
    rw [List.reverse_cons, List.append_assoc, List.singleton_append] at hlast
    rw [List.append_assoc, List.cons_append]
    exact (hleads (.arr done :: stack)).append (.cons rfl hlast)

theorem exists_memberTokens {members : List (Name × Json)} {cs : List Char} :
    SpellsMembers members cs →
    ∃ ts, Reads cs ts ∧ ∀ done stack, Leads (ts ++ [.closeObj]) (.name done stack)
      (.after (.obj (done.reverse ++ members)) stack)
  | @SpellsMembers.last name _ _ _ _ _ _ _ hfront hname hback hfront' h hback' => by
    obtain ⟨ts, hreads, hleads⟩ := exists_tokens h
    refine ⟨.str name :: .colon :: (ts ++ []), .name hfront hname hback (.blank hfront'
      (hreads.append (endsNumber_of_blank hback') (.areBlank hback'))), fun done stack => ?_⟩
    rw [List.append_nil, ← List.reverse_cons]
    exact .cons rfl (.cons rfl ((hleads (.obj done name :: stack)).append (.cons rfl rfl)))
  | @SpellsMembers.cons name value _ _ _ _ _ _ _ _ hfront hname hback hfront' h hback' hrest => by
    obtain ⟨ts, hreads, hleads⟩ := exists_tokens h
    obtain ⟨us, hreads', hleads'⟩ := exists_memberTokens hrest
    refine ⟨.str name :: .colon :: (ts ++ .comma :: us), .name hfront hname hback (.blank hfront'
      (hreads.append (endsNumber_blank_cons hback' rfl _)
        (.blank hback' (.punctuation rfl hreads')))), fun done stack => ?_⟩
    -- the rest is read with one more member taken
    have hlast := hleads' ((name, value) :: done) stack
    rw [List.reverse_cons, List.append_assoc, List.singleton_append] at hlast
    rw [List.cons_append, List.cons_append, List.append_assoc, List.cons_append]
    exact .cons rfl (.cons rfl ((hleads (.obj done name :: stack)).append (.cons rfl hlast)))

end

/-- **What the grammar spells is read.** A text of a value is read as the value. -/
theorem parse?_of_isTextOf {json : Json} {text : String} (h : IsTextOf json text) :
    parse? text = some json := by
  cases h with
  | text hfront h hback =>
    obtain ⟨ts, hreads, hleads⟩ := exists_tokens h
    have htokens := Reads.blank hfront
      (hreads.append (endsNumber_of_blank hback) (.areBlank hback)) [] endsNumber_nil
    rw [List.append_nil, List.append_nil, tokens?, Option.map_some, List.append_nil] at htokens
    unfold parse?
    rw [String.toList_ofList, htokens]
    show (ts.foldlM Expecting.step (.value [])).bind Expecting.value? = _
    rw [hleads []]
    rfl

end PermissionUsage.Json
