import Mathlib.Data.List.Induction
import Mathlib.Data.List.Nodup
/-!
# Lists with keys

A list with at most one item for each key is known by what is found in it for a key: two such lists
in which the same is found are the same up to their order (`perm_of_find?_eq`). Making items from
others without changing their keys can change places with picking out a key
(`filter_flatMap_of_key`).

Where items are collected by their keys, the keys stand in the order in which they are first seen.
`FirstSeen` says so without a walk over the items: no other list is in that order
(`FirstSeen.unique`), and one more key comes last or has been seen (`FirstSeen.concat_of_notMem`,
`FirstSeen.concat_of_mem`).
-/

namespace PermissionUsage

section Keyed

variable {α κ : Type} [DecidableEq κ] {key : α → κ}

/-- An item is found under its own key if no other item has that key. -/
theorem find?_of_mem {l : List α} (nodup : (l.map key).Nodup) {a : α} (h : a ∈ l) :
    l.find? (key · = key a) = some a := by
  induction l with
  | nil => cases h
  | cons first rest ih =>
    rw [List.map_cons, List.nodup_cons] at nodup
    rw [List.find?_cons]
    rcases List.mem_cons.1 h with rfl | h
    · rw [decide_eq_true rfl]
    · have hne : key first ≠ key a := fun heq => nodup.1 (heq ▸ List.mem_map_of_mem h)
      rw [decide_eq_false hne]
      exact ih nodup.2 h

theorem mem_iff_find? {l : List α} (nodup : (l.map key).Nodup) {a : α} :
    a ∈ l ↔ l.find? (key · = key a) = some a :=
  ⟨find?_of_mem nodup, List.mem_of_find?_eq_some⟩

/-- Two lists with at most one item for each key in which the same is found for every key are the
same up to their order. -/
theorem perm_of_find?_eq {l l' : List α} (nodup : (l.map key).Nodup) (nodup' : (l'.map key).Nodup)
    (h : ∀ k, l.find? (key · = k) = l'.find? (key · = k)) : l.Perm l' := by
  refine (List.perm_ext_iff_of_nodup (.of_map _ nodup) (.of_map _ nodup')).2 fun a => ?_
  rw [mem_iff_find? nodup, mem_iff_find? nodup', h]

/-- Under a key there is what is found for it and nothing else. -/
theorem filter_eq_toList_find? {l : List α} (nodup : (l.map key).Nodup) (k : κ) :
    l.filter (key · = k) = (l.find? (key · = k)).toList := by
  induction l with
  | nil => rfl
  | cons first rest ih =>
    rw [List.map_cons, List.nodup_cons] at nodup
    rw [List.filter_cons, List.find?_cons]
    by_cases h : key first = k
    · have hrest : rest.filter (key · = k) = [] := by
        refine List.filter_eq_nil_iff.2 fun a ha hkey => nodup.1 ?_
        rw [h, ← of_decide_eq_true hkey]
        exact List.mem_map_of_mem ha
      rw [decide_eq_true h, if_pos rfl, hrest]
      rfl
    · rw [decide_eq_false h, if_neg Bool.false_ne_true]
      exact ih nodup.2

/-- Items of one key are made from elements of that key, if making them keeps the key. -/
theorem filter_flatMap_of_key {β : Type} {key' : β → κ} {make : α → List β}
    (keeps : ∀ a, ∀ b ∈ make a, key' b = key a) (l : List α) (k : κ) :
    (l.flatMap make).filter (key' · = k) = (l.filter (key · = k)).flatMap make := by
  induction l with
  | nil => rfl
  | cons a rest ih =>
    rw [List.flatMap_cons, List.filter_append, ih, List.filter_cons]
    by_cases h : key a = k
    · have hall : (make a).filter (key' · = k) = make a :=
        List.filter_eq_self.2 fun b hb => decide_eq_true ((keeps a b hb).trans h)
      rw [hall, decide_eq_true h]
      rfl
    · have hnone : (make a).filter (key' · = k) = [] := by
        apply List.filter_eq_nil_iff.2
        intro b hb hkey
        exact h ((keeps a b hb).symm.trans (of_decide_eq_true hkey))
      rw [hnone, decide_eq_false h]
      rfl

end Keyed

/-! ## Keys in the order in which they are first seen -/

section FirstSeen

variable {κ : Type} [BEq κ] {keys firsts others : List κ}

/-- `firsts` are the keys, each of them once, in the order in which they are first seen. -/
structure FirstSeen (keys firsts : List κ) : Prop where
  mem : ∀ k, k ∈ firsts ↔ k ∈ keys
  inOrder : firsts.Pairwise (keys.idxOf · < keys.idxOf ·)

namespace FirstSeen

theorem nil : FirstSeen ([] : List κ) [] := ⟨fun _ => Iff.rfl, .nil⟩

/-- No key is named twice. -/
theorem nodup (h : FirstSeen keys firsts) : firsts.Nodup := by
  apply h.inOrder.imp
  intro k l hlt heq
  rw [heq] at hlt
  omega

/-- Only one list names the keys in the order in which they are first seen. -/
theorem unique (h : FirstSeen keys firsts) (h' : FirstSeen keys others) : firsts = others := by
  have hperm : firsts.Perm others :=
    (List.perm_ext_iff_of_nodup h.nodup h'.nodup).2 fun k => (h.mem k).trans (h'.mem k).symm
  refine hperm.eq_of_pairwise (fun k l _ _ hkl hlk => ?_) h.inOrder h'.inOrder
  omega

variable [LawfulBEq κ]

/-- Keys that come later leave the ones that are there in their order. -/
theorem inOrder_append (h : FirstSeen keys firsts) (more : List κ) :
    firsts.Pairwise ((keys ++ more).idxOf · < (keys ++ more).idxOf ·) := by
  apply h.inOrder.imp_of_mem
  intro k l hk hl hlt
  rwa [List.idxOf_append_of_mem ((h.mem k).1 hk), List.idxOf_append_of_mem ((h.mem l).1 hl)]

/-- A key that has been seen changes nothing. -/
theorem concat_of_mem (h : FirstSeen keys firsts) {k : κ} (hk : k ∈ keys) :
    FirstSeen (keys ++ [k]) firsts where
  mem l := by
    rw [h.mem, List.mem_append, List.mem_singleton]
    refine ⟨.inl, ?_⟩
    rintro (hl | rfl)
    · exact hl
    · exact hk
  inOrder := h.inOrder_append [k]

/-- A new key comes last. -/
theorem concat_of_notMem (h : FirstSeen keys firsts) {k : κ} (hk : k ∉ keys) :
    FirstSeen (keys ++ [k]) (firsts ++ [k]) where
  mem l := by simp [h.mem]
  inOrder := by
    refine List.pairwise_append.2 ⟨h.inOrder_append [k], List.pairwise_singleton _ _, ?_⟩
    intro l hl k' hk'
    obtain rfl := List.mem_singleton.1 hk'
    have hmem : l ∈ keys := (h.mem l).1 hl
    have hlt : keys.idxOf l < keys.length := List.idxOf_lt_length_iff.2 hmem
    rw [List.idxOf_append_of_mem hmem, List.idxOf_append_of_notMem hk]
    omega

end FirstSeen

end FirstSeen

end PermissionUsage
