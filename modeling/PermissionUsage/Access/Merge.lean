/-!
# Merging by key

Items are collected into a list with at most one item for each key: an item is joined to the one of
its key, or comes last if there is none. `mergeItem` searches the list for the key. `Merged` has an
index of where the item of each key stands, which is right at any time, and comes to the same list:
`Merged.items_addAll`.
-/

namespace PermissionUsage

section

variable {α κ : Type} [DecidableEq κ] {key : α → κ} {join : α → α → α}

/-- Adds an item to a list with at most one item for each key: it is joined to the item of its key,
or comes last. -/
def mergeItem (key : α → κ) (join : α → α → α) (item : α) : List α → List α
  | [] => [item]
  | first :: rest =>
    if key first = key item then join first item :: rest
    else first :: mergeItem key join item rest

/-- Adds items one after another. -/
def mergeAll (key : α → κ) (join : α → α → α) (merged items : List α) : List α :=
  items.foldl (fun merged item => mergeItem key join item merged) merged

/-! ## Where the item of a key stands -/

/-- An item that changes under its key stays where it is found. -/
theorem findIdx?_modify {change : α → α} (keeps : ∀ a, key (change a) = key a) (items : List α)
    (position : Nat) (k : κ) :
    (items.modify position change).findIdx? (key · = k) = items.findIdx? (key · = k) := by
  induction items generalizing position with
  | nil => rw [List.modify_nil]
  | cons first rest ih =>
    cases position with
    | zero => rw [List.modify_zero_cons, List.findIdx?_cons, List.findIdx?_cons, keeps]
    | succ position =>
      rw [List.modify_succ_cons, List.findIdx?_cons, List.findIdx?_cons, ih]

/-- Where the key of an item stands, the item is joined. -/
theorem mergeItem_of_some {item : α} {items : List α} {position : Nat}
    (h : items.findIdx? (key · = key item) = some position) :
    mergeItem key join item items = items.modify position (join · item) := by
  induction items generalizing position with
  | nil => cases h
  | cons first rest ih =>
    rw [List.findIdx?_cons] at h
    rw [mergeItem]
    by_cases hfirst : key first = key item
    · rw [if_pos (decide_eq_true hfirst)] at h
      obtain rfl := Option.some.inj h
      rw [if_pos hfirst, List.modify_zero_cons]
    · rw [decide_eq_false hfirst, if_neg Bool.false_ne_true] at h
      obtain ⟨before, hbefore, rfl⟩ := Option.map_eq_some_iff.1 h
      rw [if_neg hfirst, List.modify_succ_cons, ih hbefore]

/-- Where the key of an item does not stand, the item comes last. -/
theorem mergeItem_of_none {item : α} {items : List α}
    (h : items.findIdx? (key · = key item) = none) :
    mergeItem key join item items = items ++ [item] := by
  induction items with
  | nil => rfl
  | cons first rest ih =>
    obtain ⟨hfirst, hrest⟩ := List.forall_mem_cons.1 (List.findIdx?_eq_none_iff.1 h)
    rw [mergeItem, if_neg (of_decide_eq_false hfirst), ih (List.findIdx?_eq_none_iff.2 hrest)]
    rfl

/-- An item of a new key that comes last is found there. -/
theorem findIdx?_concat {item : α} {items : List α}
    (h : items.findIdx? (key · = key item) = none) (k : κ) :
    (items ++ [item]).findIdx? (key · = k) =
      if k = key item then some items.length else items.findIdx? (key · = k) := by
  rw [List.findIdx?_append, List.findIdx?_singleton]
  by_cases hk : k = key item
  · subst hk
    rw [h, if_pos rfl, decide_eq_true rfl, if_pos rfl]
    exact congrArg some (Nat.zero_add _)
  · rw [if_neg hk, decide_eq_false (Ne.symm hk), if_neg Bool.false_ne_true]
    exact Option.or_none

/-! ## Merging with an index -/

/-- Items with at most one for each key, and where the item of each key stands. -/
structure Merged (key : α → κ) where
  items : List α
  index : List (κ × Nat)
  /-- The index knows the keys of the items and no others, and where they stand. -/
  indexed : ∀ k, index.lookup k = items.findIdx? (key · = k)

namespace Merged

def empty : Merged key := ⟨[], [], fun _ => rfl⟩

/-- Adds an item: it is joined to the one at the position of its key, or comes last and gets a
position in the index. -/
def add (keeps : ∀ a b, key (join a b) = key a) (merged : Merged key) (item : α) : Merged key where
  items :=
    match merged.index.lookup (key item) with
    | some position => merged.items.modify position (join · item)
    | none => merged.items ++ [item]
  index :=
    match merged.index.lookup (key item) with
    | some _ => merged.index
    | none => (key item, merged.items.length) :: merged.index
  indexed k := by
    cases h : merged.index.lookup (key item) with
    | some position => rw [findIdx?_modify fun a => keeps a item, merged.indexed]
    | none =>
      rw [merged.indexed] at h
      rw [findIdx?_concat h, List.lookup_cons, merged.indexed]
      by_cases hk : k = key item
      · rw [if_pos hk, beq_iff_eq.2 hk]
      · rw [if_neg hk, beq_eq_false_iff_ne.2 hk]

def addAll (keeps : ∀ a b, key (join a b) = key a) (merged : Merged key) (items : List α) :
    Merged key :=
  items.foldl (fun merged item => merged.add keeps item) merged

variable {keeps : ∀ a b, key (join a b) = key a}

/-- The index finds what a search through the items finds. -/
theorem items_add (merged : Merged key) (item : α) :
    (merged.add keeps item).items = mergeItem key join item merged.items := by
  unfold add
  dsimp only
  split
  · next position h =>
    rw [merged.indexed] at h
    exact (mergeItem_of_some h).symm
  · next h =>
    rw [merged.indexed] at h
    exact (mergeItem_of_none h).symm

/-- **The index finds what a search finds.** Adding items through the index merges them as a search
through the items would. -/
theorem items_addAll (merged : Merged key) (items : List α) :
    (merged.addAll keeps items).items = mergeAll key join merged.items items := by
  induction items generalizing merged with
  | nil => rfl
  | cons item rest ih =>
    show ((merged.add keeps item).addAll keeps rest).items = _
    rw [ih, items_add]
    rfl

end Merged

end

end PermissionUsage
