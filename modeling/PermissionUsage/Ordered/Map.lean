/-!
# Ordered maps

A finite map kept as its list of entries with strictly increasing keys, so that two maps with the
same entries are the same value (`ext_get?`). A key that is written again takes the new value.
-/

namespace PermissionUsage

/-- A finite map, listed with strictly increasing keys. -/
structure OrderedMap (κ ν : Type) [Ord κ] where
  toList : List (κ × ν)
  increasing : toList.Pairwise (compare ·.1 ·.1 = .lt)

namespace OrderedMap

variable {κ ν : Type} [Ord κ]

instance [DecidableEq κ] [DecidableEq ν] : DecidableEq (OrderedMap κ ν) := fun m n =>
  decidable_of_iff (m.toList = n.toList) ⟨fun h => by cases m; cases n; simp_all, fun h => h ▸ rfl⟩

/-- A map is known by its list of entries. -/
@[ext] theorem ext {m n : OrderedMap κ ν} (h : m.toList = n.toList) : m = n := by
  cases m; cases n; simp_all

def empty : OrderedMap κ ν := ⟨[], .nil⟩

instance : Inhabited (OrderedMap κ ν) := ⟨empty⟩

def get? [DecidableEq κ] (m : OrderedMap κ ν) (k : κ) : Option ν := m.toList.lookup k

/-- Puts an entry into its place; an entry with the same key gives way. -/
def insertSorted (k : κ) (v : ν) : List (κ × ν) → List (κ × ν)
  | [] => [(k, v)]
  | (l, w) :: rest =>
    match compare k l with
    | .lt => (k, v) :: (l, w) :: rest
    | .eq => (k, v) :: rest
    | .gt => (l, w) :: insertSorted k v rest

section Lawful

variable [Std.TransOrd κ] [Std.LawfulEqOrd κ]

omit [Std.TransOrd κ] [Std.LawfulEqOrd κ] in
/-- An entry is either the one that was put in or was there before. -/
theorem key_of_mem_insertSorted {k : κ} {v : ν} {l : List (κ × ν)} {e : κ × ν}
    (h : e ∈ insertSorted k v l) : e.1 = k ∨ e ∈ l := by
  induction l with
  | nil => simp [insertSorted] at h; simp [h]
  | cons f rest ih =>
    obtain ⟨l, w⟩ := f
    rw [insertSorted] at h
    split at h
    · rcases List.mem_cons.1 h with rfl | h
      · exact .inl rfl
      · exact .inr h
    · rcases List.mem_cons.1 h with rfl | h
      · exact .inl rfl
      · exact .inr (List.mem_cons_of_mem _ h)
    · rcases List.mem_cons.1 h with rfl | h
      · exact .inr (by simp)
      · exact (ih h).imp_right (List.mem_cons_of_mem _)

/-- The keys stay increasing, and no key is listed twice: an entry with the same key gives way. -/
theorem insertSorted_increasing (k : κ) (v : ν) {l : List (κ × ν)}
    (h : l.Pairwise (compare ·.1 ·.1 = .lt)) :
    (insertSorted k v l).Pairwise (compare ·.1 ·.1 = .lt) := by
  induction l with
  | nil => simp [insertSorted]
  | cons f rest ih =>
    obtain ⟨l, w⟩ := f
    obtain ⟨hl, hrest⟩ := List.pairwise_cons.1 h
    rw [insertSorted]
    split
    · next hkl =>
      refine List.pairwise_cons.2 ⟨fun x hx => ?_, h⟩
      rcases List.mem_cons.1 hx with rfl | hx
      · exact hkl
      · exact Std.TransCmp.lt_trans hkl (hl x hx)
    · next hkl =>
      obtain rfl := Std.LawfulEqOrd.eq_of_compare hkl
      exact List.pairwise_cons.2 ⟨hl, hrest⟩
    · next hkl =>
      refine List.pairwise_cons.2 ⟨fun x hx => ?_, ih hrest⟩
      rcases key_of_mem_insertSorted hx with hx | hx
      · rw [hx]; exact Std.OrientedCmp.lt_of_gt hkl
      · exact hl x hx

def insert (m : OrderedMap κ ν) (k : κ) (v : ν) : OrderedMap κ ν :=
  ⟨insertSorted k v m.toList, insertSorted_increasing k v m.increasing⟩

/-- The map of a list of entries, of which the last one for a key counts. -/
def ofList (l : List (κ × ν)) : OrderedMap κ ν := l.foldl (fun m e => m.insert e.1 e.2) empty

/-! ### What is found in a map -/

section Lookup

variable [DecidableEq κ]

omit [Std.TransOrd κ] in
/-- An entry that is put in is found under its key, and nothing else changes. This needs no order of
the list. -/
theorem lookup_insertSorted (k : κ) (v : ν) (l : List (κ × ν)) (q : κ) :
    (insertSorted k v l).lookup q = if q = k then some v else l.lookup q := by
  induction l with
  | nil =>
    rw [insertSorted, List.lookup_cons]
    split <;> simp_all
  | cons f rest ih =>
    obtain ⟨m, w⟩ := f
    rw [insertSorted]
    split
    · rw [List.lookup_cons]
      split <;> simp_all
    · next hkm =>
      obtain rfl := Std.LawfulEqOrd.eq_of_compare hkm
      rw [List.lookup_cons, List.lookup_cons]
      split <;> simp_all
    · next hkm =>
      have hne : m ≠ k := by
        rintro rfl
        rw [Std.ReflOrd.compare_self] at hkm
        cases hkm
      rw [List.lookup_cons, List.lookup_cons, ih]
      split <;> simp_all

theorem get?_insert (m : OrderedMap κ ν) (k : κ) (v : ν) (q : κ) :
    (m.insert k v).get? q = if q = k then some v else m.get? q :=
  lookup_insertSorted k v m.toList q

omit [Std.LawfulEqOrd κ] in
/-- What is found under a key is what is listed under it, since no key is listed twice. -/
theorem get?_eq_some_iff {m : OrderedMap κ ν} {k : κ} {v : ν} :
    m.get? k = some v ↔ (k, v) ∈ m.toList := by
  rw [get?, List.lookup_eq_some_iff]
  constructor
  · rintro ⟨before, after, heq, -⟩
    rw [heq]
    exact List.mem_append_right _ List.mem_cons_self
  · intro h
    obtain ⟨before, after, heq⟩ := List.append_of_mem h
    refine ⟨before, after, heq, fun e he => bne_iff_ne.2 ?_⟩
    -- a key in front of `k` is less than `k`
    have hlt : compare e.1 k = .lt :=
      (List.pairwise_append.1 (heq ▸ m.increasing)).2.2 e he _ List.mem_cons_self
    rintro rfl
    rw [Std.ReflOrd.compare_self] at hlt
    cases hlt

/-- The keys of a list of entries are different from each other. -/
abbrev HasDistinctKeys (l : List (κ × ν)) : Prop := l.Pairwise (·.1 ≠ ·.1)

omit [Std.LawfulEqOrd κ] [DecidableEq κ] in
/-- Increasing keys differ. -/
theorem hasDistinctKeys_toList (m : OrderedMap κ ν) : HasDistinctKeys m.toList := by
  refine m.increasing.imp fun {e f} hlt heq => ?_
  rw [heq, Std.ReflOrd.compare_self] at hlt
  cases hlt

omit [Std.LawfulEqOrd κ] in
/-- Two maps in which the same is found for every key are the same value. -/
theorem ext_get? {m n : OrderedMap κ ν} (h : ∀ k, m.get? k = n.get? k) : m = n := by
  have hnodup : ∀ m : OrderedMap κ ν, m.toList.Nodup :=
    fun m => m.hasDistinctKeys_toList.imp fun hne heq => hne (congrArg Prod.fst heq)
  have hmem : ∀ e, e ∈ m.toList ↔ e ∈ n.toList := by
    rintro ⟨k, v⟩
    rw [← get?_eq_some_iff, ← get?_eq_some_iff, h]
  have hperm : m.toList.Perm n.toList :=
    (List.perm_ext_iff_of_nodup (hnodup m) (hnodup n)).2 hmem
  refine ext (hperm.eq_of_pairwise (fun e f _ _ hef hfe => ?_) m.increasing n.increasing)
  rw [Std.OrientedCmp.gt_of_lt hfe] at hef
  cases hef

/-! ### What is collected from a list -/

/-- A list without repeated keys puts its entries into a map and leaves the others. -/
theorem get?_foldl_insert {l : List (κ × ν)} (distinct : HasDistinctKeys l) (m : OrderedMap κ ν)
    {k : κ} {v : ν} :
    (l.foldl (fun m e => m.insert e.1 e.2) m).get? k = some v ↔
      (k, v) ∈ l ∨ (∀ e ∈ l, e.1 ≠ k) ∧ m.get? k = some v := by
  induction l generalizing m with
  | nil => simp
  | cons e rest ih =>
    obtain ⟨q, w⟩ := e
    obtain ⟨hnew, hrest⟩ := List.pairwise_cons.1 distinct
    rw [List.foldl_cons, ih hrest, get?_insert, List.mem_cons, List.forall_mem_cons]
    by_cases hk : k = q
    · -- the entry of this key is the first one, and no other has the key
      subst hk
      have hnone : (k, v) ∉ rest := fun h => hnew _ h rfl
      have hother : ∀ f ∈ rest, f.1 ≠ k := fun f hf => (hnew f hf).symm
      rw [if_pos rfl, Option.some.injEq, and_iff_right hother, Prod.mk.injEq, or_iff_right hnone]
      simp [hnone, eq_comm]
    · rw [if_neg hk]
      simp [hk, Ne.symm hk]

/-- A map is collected from its entries in any order. -/
theorem ofList_eq_of_perm {m : OrderedMap κ ν} {l : List (κ × ν)} (h : l.Perm m.toList) :
    ofList l = m := by
  have distinct : HasDistinctKeys l :=
    (h.pairwise_iff Ne.symm).2 m.hasDistinctKeys_toList
  refine ext_get? fun k => Option.ext fun v => ?_
  have hempty : (empty : OrderedMap κ ν).get? k = none := rfl
  rw [ofList, get?_foldl_insert distinct, hempty, get?_eq_some_iff, h.mem_iff]
  simp

end Lookup

end Lawful

end OrderedMap

end PermissionUsage
