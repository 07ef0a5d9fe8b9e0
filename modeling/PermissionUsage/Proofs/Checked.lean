import Mathlib.Data.List.Chain
import Mathlib.Data.List.Forall2
import PermissionUsage.Time
/-!
# Checked computations

When a checked computation has a result, step by step: a sequence of two (`bind_eq_ok_iff`), one
over a list (`mapM_eq_ok_iff`), a sum and a difference (`exists_add_eq_ok_iff`,
`exists_sub_eq_ok_iff`). The results of a list go one by one with its elements, and what is known of
the elements carries over to them (`pairwise_of_forall₂`, `isChain_of_forall₂`). The latest and the
earliest of some instants are the maximum and the minimum of their values (`max?_map_toInt`,
`min?_map_toInt`).
-/

namespace PermissionUsage

/-- Sorting by a comparison puts a list in the order of that comparison. -/
theorem pairwise_mergeSort_isLE {α : Type} {cmp : α → α → Ordering} [Std.TransCmp cmp]
    (l : List α) : (l.mergeSort fun a b => (cmp a b).isLE).Pairwise fun a b => (cmp a b).isLE := by
  have htotal : ∀ a b, ((cmp a b).isLE || (cmp b a).isLE) = true := by
    intro a b
    rcases h : cmp a b with _ | _ | _
    · rfl
    · rfl
    · rw [Std.OrientedCmp.gt_iff_lt.1 h]
      rfl
  exact List.pairwise_mergeSort (fun _ _ _ => Std.TransCmp.isLE_trans) htotal l

section Except

variable {ε α β γ : Type}

/-- A composed computation has a result if both parts have one. -/
theorem bind_eq_ok_iff {x : Except ε α} {f : α → Except ε β} {b : β} :
    x >>= f = .ok b ↔ ∃ a, x = .ok a ∧ f a = .ok b := by
  cases x with
  | error e => exact ⟨nofun, nofun⟩
  | ok a => exact ⟨fun h => ⟨a, rfl, h⟩, fun ⟨_, ha, h⟩ => Except.ok.inj ha ▸ h⟩

/-- Renaming errors leaves results alone. -/
theorem mapError_eq_ok_iff {x : Except ε α} {f : ε → γ} {a : α} :
    x.mapError f = .ok a ↔ x = .ok a := by
  cases x with
  | error e => exact ⟨nofun, nofun⟩
  | ok b => exact ⟨fun h => congrArg _ (Except.ok.inj h), fun h => congrArg _ (Except.ok.inj h)⟩

theorem toOption_eq_some_iff {x : Except ε α} {a : α} : x.toOption = some a ↔ x = .ok a := by
  cases x with
  | error e => exact ⟨nofun, nofun⟩
  | ok b => exact ⟨fun h => congrArg Except.ok (Option.some.inj h),
      fun h => congrArg some (Except.ok.inj h)⟩

/-- A computation over a list has a result if each element has one, and these are the results. -/
theorem mapM_eq_ok_iff {f : α → Except ε β} {l : List α} {r : List β} :
    l.mapM f = .ok r ↔ List.Forall₂ (fun a b => f a = .ok b) l r := by
  induction l generalizing r with
  | nil =>
    rw [List.mapM_nil, List.forall₂_nil_left_iff]
    exact ⟨fun h => (Except.ok.inj h).symm, fun h => h ▸ rfl⟩
  | cons a rest ih =>
    rw [List.mapM_cons, bind_eq_ok_iff, List.forall₂_cons_left_iff]
    constructor
    · rintro ⟨b, hb, h⟩
      obtain ⟨bs, hbs, h⟩ := bind_eq_ok_iff.1 h
      exact ⟨b, bs, hb, ih.1 hbs, (Except.ok.inj h).symm⟩
    · rintro ⟨b, bs, hb, hbs, rfl⟩
      exact ⟨b, hb, bind_eq_ok_iff.2 ⟨bs, ih.2 hbs, rfl⟩⟩

/-- What is known of each element and what goes with it is known of the lists. -/
theorem map_eq_map_of_forall₂ {R : α → β → Prop} {f : α → γ} {g : β → γ}
    (hR : ∀ a b, R a b → g b = f a) {l : List α} {r : List β} (h : List.Forall₂ R l r) :
    r.map g = l.map f := by
  induction h with
  | nil => rfl
  | cons hab _ ih => rw [List.map_cons, List.map_cons, hR _ _ hab, ih]

/-- What is known of each result is known of all results, in order. -/
theorem map_eq_map_of_mapM {f : α → Except ε β} {value : β → γ} {g : α → γ}
    (hf : ∀ a b, f a = .ok b → value b = g a) {l : List α} {r : List β} (h : l.mapM f = .ok r) :
    r.map value = l.map g :=
  map_eq_map_of_forall₂ hf (mapM_eq_ok_iff.1 h)

/-- If every element has a partner, a whole list has a list of partners. -/
theorem exists_forall₂ {R : α → β → Prop} {l : List α} (h : ∀ a ∈ l, ∃ b, R a b) :
    ∃ r, List.Forall₂ R l r := by
  induction l with
  | nil => exact ⟨[], .nil⟩
  | cons a rest ih =>
    obtain ⟨⟨b, hb⟩, hrest⟩ := List.forall_mem_cons.1 h
    obtain ⟨bs, hbs⟩ := ih hrest
    exact ⟨b :: bs, .cons hb hbs⟩

/-- What goes one by one with the elements of several lists falls into as many lists. -/
theorem forall₂_flatMap_left {R : β → γ → Prop} {g : α → List β} {l : List α} {r : List γ}
    (h : List.Forall₂ R (l.flatMap g) r) :
    ∃ rs : List (List γ), List.Forall₂ (fun a bs => List.Forall₂ R (g a) bs) l rs ∧
      r = rs.flatten := by
  induction l generalizing r with
  | nil => exact ⟨[], .nil, List.forall₂_nil_left_iff.1 h⟩
  | cons a rest ih =>
    rw [List.flatMap_cons] at h
    have hfront := List.forall₂_take (g a).length h
    have hback := List.forall₂_drop (g a).length h
    rw [List.take_left] at hfront
    rw [List.drop_left] at hback
    obtain ⟨rs, hrs, heq⟩ := ih hback
    exact ⟨_ :: rs, .cons hfront hrs, by rw [List.flatten_cons, ← heq, List.take_append_drop]⟩

/-- Every partner is the partner of some element. -/
theorem exists_mem_of_forall₂ {R : α → β → Prop} {l : List α} {r : List β}
    (h : List.Forall₂ R l r) : ∀ b ∈ r, ∃ a ∈ l, R a b := by
  induction h with
  | nil => exact nofun
  | cons hab _ ih =>
    refine List.forall_mem_cons.2 ⟨⟨_, List.mem_cons_self, hab⟩, fun b hb => ?_⟩
    obtain ⟨a, ha, hR⟩ := ih b hb
    exact ⟨a, List.mem_cons_of_mem _ ha, hR⟩

/-- What is known of the elements of two lists carries over to what goes with them. -/
theorem forall₂_of_forall₂ {δ : Type} {R : α → β → Prop} {S : α → γ → Prop}
    {T : β → δ → Prop} {P : γ → δ → Prop} (hP : ∀ a b c d, R a b → S a c → T b d → P c d)
    {l : List α} {r : List β} {own : List γ} {own' : List δ} (h : List.Forall₂ R l r)
    (hown : List.Forall₂ S l own) (hown' : List.Forall₂ T r own') :
    List.Forall₂ P own own' := by
  induction h generalizing own own' with
  | nil =>
    cases hown
    cases hown'
    exact .nil
  | cons hR _ ih =>
    obtain ⟨c, cs, hS, hcs, rfl⟩ := List.forall₂_cons_left_iff.1 hown
    obtain ⟨d, ds, hT, hds, rfl⟩ := List.forall₂_cons_left_iff.1 hown'
    exact .cons (hP _ _ _ _ hR hS hT) (ih hcs hds)

/-- What holds of any two elements of a list holds of what goes with them. -/
theorem pairwise_of_forall₂ {R : α → β → Prop} {S : α → α → Prop} {T : β → β → Prop} {l : List α}
    {r : List β} (h : List.Forall₂ R l r) (hl : l.Pairwise S)
    (hT : ∀ a a' b b', R a b → R a' b' → S a a' → T b b') : r.Pairwise T := by
  rw [List.pairwise_iff_getElem] at hl ⊢
  intro i j hi hj hij
  have hlength := h.length_eq
  have hil : i < l.length := by omega
  have hjl : j < l.length := by omega
  exact hT _ _ _ _ (h.get hil hi) (h.get hjl hj) (hl i j hil hjl hij)

/-- What holds of neighbours in a list holds of what goes with them. -/
theorem isChain_of_forall₂ {R : α → β → Prop} {S : α → α → Prop} {T : β → β → Prop} {l : List α}
    {r : List β} (h : List.Forall₂ R l r) (hl : l.IsChain S)
    (hT : ∀ a a' b b', R a b → R a' b' → S a a' → T b b') : r.IsChain T := by
  rw [List.isChain_iff_getElem] at hl ⊢
  intro i hi
  have hlength := h.length_eq
  have hil : i + 1 < l.length := by omega
  exact hT _ _ _ _ (h.get (Nat.lt_of_succ_lt hil) (Nat.lt_of_succ_lt hi)) (h.get hil hi) (hl i hil)

/-- A traversal has a result if every element has one. -/
theorem exists_mapM_eq_ok {f : α → Except ε β} {l : List α} (h : ∀ a ∈ l, ∃ b, f a = .ok b) :
    ∃ r, l.mapM f = .ok r := by
  obtain ⟨r, hr⟩ := exists_forall₂ h
  exact ⟨r, mapM_eq_ok_iff.2 hr⟩

end Except

namespace Millis

def Fits (n : Int) : Prop := -0x8000000000000000 ≤ n ∧ n < 0x8000000000000000

instance (n : Int) : Decidable (Fits n) := inferInstanceAs (Decidable (_ ∧ _))

theorem fits_toInt (t : Millis) : Fits t.toInt := ⟨t.le_toInt, t.toInt_lt⟩

/-- A result exists exactly if the exact integer is in the 64-bit range. -/
theorem exists_checked_eq_ok_iff {operation : Overflow} {n : Int} :
    (∃ t, checked operation n = .ok t) ↔ Fits n := by
  constructor
  · rintro ⟨t, h⟩
    rw [← checked_eq_ok_iff.1 h]
    exact fits_toInt t
  · intro h
    exact ⟨Int64.ofInt n, checked_eq_ok_iff.2 (Int64.toInt_ofInt_of_le h.1 h.2)⟩

theorem exists_add_eq_ok_iff {a b : Millis} : (∃ t, add a b = .ok t) ↔ Fits (a.toInt + b.toInt) :=
  exists_checked_eq_ok_iff

theorem exists_sub_eq_ok_iff {a b : Millis} : (∃ t, sub a b = .ok t) ↔ Fits (a.toInt - b.toInt) :=
  exists_checked_eq_ok_iff

/-- The latest of some instants, as the greatest of their integers. -/
theorem max?_map_toInt (first : Millis) (rest : List Millis) :
    ((first :: rest).map Int64.toInt).max? = some (latest first rest).toInt := by
  rw [List.map_cons, List.max?_cons', latest, List.foldl_map]
  exact congrArg some (List.foldl_hom Int64.toInt fun a b => (toInt_later a b).symm)

/-- The earliest of some instants, as the least of their integers. -/
theorem min?_map_toInt (first : Millis) (rest : List Millis) :
    ((first :: rest).map Int64.toInt).min? = some (earliest first rest).toInt := by
  rw [List.map_cons, List.min?_cons', earliest, List.foldl_map]
  exact congrArg some (List.foldl_hom Int64.toInt fun a b => (toInt_earlier a b).symm)

end Millis

end PermissionUsage
