import Mathlib.Data.List.Pairwise
import PermissionUsage.History.Table
import PermissionUsage.Proofs.Checked
/-!
# Listing rows by owner

A listing sorts rows and groups neighbours, and looks at the last group only. `Lists` says what
comes out of it: one batch for each owner that has a row, in order, with exactly the rows of that
owner.

* `flatMap_groupNeighbours`, `of_mem_groupNeighbours`, `pairwise_groupNeighbours`: grouping keeps
  what is there, and on a sorted list no key comes up twice.
* `toAccess_ofAccess`: the row of an access is read back as the access; a user id that was recorded
  always fits.
* `Table.lists_accesses`: what a table of rows of accesses lists.
-/

namespace PermissionUsage

/-! ## Grouping neighbours -/

section Grouping

variable {α κ : Type} [DecidableEq κ] {key : α → κ}

/-- One element more in front: a group of its own, or one more in the first group. -/
theorem groupNeighbours_cons (key : α → κ) (a : α) (rest : List α) :
    (groupNeighbours key (a :: rest) = (key a, [a]) :: groupNeighbours key rest ∧
        ∀ entry ∈ (groupNeighbours key rest).head?, key a ≠ entry.1) ∨
      ∃ group groups, groupNeighbours key rest = (key a, group) :: groups ∧
        groupNeighbours key (a :: rest) = (key a, a :: group) :: groups := by
  rw [groupNeighbours]
  rcases groupNeighbours key rest with _ | ⟨⟨k, group⟩, groups⟩
  · exact .inl ⟨rfl, nofun⟩
  · by_cases h : key a = k
    · subst h
      exact .inr ⟨group, groups, rfl, if_pos rfl⟩
    · refine .inl ⟨if_neg h, fun entry hentry => ?_⟩
      obtain rfl := Option.some.inj hentry
      exact h

/-- The groups in a row are the list itself. -/
theorem flatMap_groupNeighbours (key : α → κ) (l : List α) :
    (groupNeighbours key l).flatMap (·.2) = l := by
  induction l with
  | nil => rfl
  | cons a rest ih =>
    -- in both cases the element stands in front of what the other groups hold
    rcases groupNeighbours_cons key a rest with ⟨h, -⟩ | ⟨group, groups, hrest, h⟩
    · rw [h, List.flatMap_cons, ih]
      rfl
    · rw [hrest, List.flatMap_cons] at ih
      rw [h, List.flatMap_cons, List.cons_append, ih]

/-- A group is not empty, and all of it has the key of the group. -/
theorem of_mem_groupNeighbours {l : List α} :
    ∀ entry ∈ groupNeighbours key l, entry.2 ≠ [] ∧ ∀ a ∈ entry.2, key a = entry.1 := by
  induction l with
  | nil => exact nofun
  | cons a rest ih =>
    rcases groupNeighbours_cons key a rest with ⟨h, -⟩ | ⟨group, groups, hrest, h⟩
    · rw [h]
      refine List.forall_mem_cons.2 ⟨⟨List.cons_ne_nil _ _, ?_⟩, ih⟩
      exact List.forall_mem_singleton.2 rfl
    · rw [hrest] at ih
      obtain ⟨⟨-, hgroup⟩, hgroups⟩ := List.forall_mem_cons.1 ih
      rw [h]
      refine List.forall_mem_cons.2 ⟨⟨List.cons_ne_nil _ _, ?_⟩, hgroups⟩
      exact List.forall_mem_cons.2 ⟨rfl, hgroup⟩

/-- What is in a group is in the list. -/
theorem mem_of_mem_groupNeighbours {l : List α} {entry : κ × List α}
    (h : entry ∈ groupNeighbours key l) {a : α} (ha : a ∈ entry.2) : a ∈ l := by
  rw [← flatMap_groupNeighbours key l]
  exact List.mem_flatMap.2 ⟨entry, h, ha⟩

variable {before : κ → κ → Prop}

/-- On a list in the order of its keys, the groups come in that order and none twice. -/
theorem pairwise_groupNeighbours (trans : ∀ {a b c}, before a b → before b c → before a c)
    {l : List α} (sorted : l.Pairwise fun a b => key a = key b ∨ before (key a) (key b)) :
    (groupNeighbours key l).Pairwise fun a b => before a.1 b.1 := by
  induction l with
  | nil => exact .nil
  | cons a rest ih =>
    obtain ⟨hfirst, hrest⟩ := List.pairwise_cons.1 sorted
    have hlater : ∀ entry ∈ groupNeighbours key rest, key a = entry.1 ∨ before (key a) entry.1 := by
      intro entry hentry
      obtain ⟨hne, hkey⟩ := of_mem_groupNeighbours entry hentry
      obtain ⟨b, hb⟩ := List.exists_mem_of_ne_nil _ hne
      rw [← hkey b hb]
      exact hfirst b (mem_of_mem_groupNeighbours hentry hb)
    have hgroups := ih hrest
    rcases groupNeighbours_cons key a rest with ⟨h, hdiffers⟩ | ⟨group, groups, heq, h⟩
    · rw [h]
      refine List.pairwise_cons.2 ⟨fun entry hentry => ?_, hgroups⟩
      rcases hrest : groupNeighbours key rest with _ | ⟨first, further⟩
      · rw [hrest] at hentry
        cases hentry
      · -- the first key is another one and comes later, all others come later still
        rw [hrest] at hentry hgroups hlater hdiffers
        have hbefore : before (key a) first.1 :=
          (hlater first List.mem_cons_self).resolve_left (hdiffers first rfl)
        rcases List.mem_cons.1 hentry with rfl | hentry
        · exact hbefore
        · exact trans hbefore ((List.pairwise_cons.1 hgroups).1 entry hentry)
    · rw [heq] at hgroups
      obtain ⟨hgroup, hgroups⟩ := List.pairwise_cons.1 hgroups
      rw [h]
      exact List.pairwise_cons.2 ⟨hgroup, hgroups⟩

/-- Elements that are made from others fall into groups as those do. -/
theorem groupNeighbours_map {β κ' : Type} [DecidableEq κ'] (key : α → κ) {key' : β → κ'}
    {make : α → β} {name : κ → κ'} (injective : Function.Injective name)
    (keys : ∀ a, key' (make a) = name (key a)) (l : List α) :
    groupNeighbours key' (l.map make) =
      (groupNeighbours key l).map fun entry => (name entry.1, entry.2.map make) := by
  induction l with
  | nil => rfl
  | cons a rest ih =>
    rw [List.map_cons, groupNeighbours, ih, groupNeighbours]
    rcases groupNeighbours key rest with _ | ⟨⟨k, group⟩, groups⟩
    · simp [keys]
    · by_cases h : key a = k
      · simp [keys, h]
      · have hname : name (key a) ≠ name k := fun heq => h (injective heq)
        simp [keys, h, hname]

/-- Among groups with different keys, the elements with the key of a group are those of the
group. -/
theorem filter_flatMap_of_mem {groups : List (κ × List α)}
    (distinct : groups.Pairwise fun a b => a.1 ≠ b.1)
    (hkeys : ∀ entry ∈ groups, ∀ a ∈ entry.2, key a = entry.1) {entry : κ × List α}
    (h : entry ∈ groups) : (groups.flatMap (·.2)).filter (key · = entry.1) = entry.2 := by
  induction groups with
  | nil => cases h
  | cons first rest ih =>
    obtain ⟨hdistinct, distinct⟩ := List.pairwise_cons.1 distinct
    obtain ⟨hfirst, hrest⟩ := List.forall_mem_cons.1 hkeys
    rw [List.flatMap_cons, List.filter_append]
    rcases List.mem_cons.1 h with rfl | h
    · have hown : entry.2.filter (key · = entry.1) = entry.2 :=
        List.filter_eq_self.2 fun a ha => decide_eq_true (hfirst a ha)
      have hothers : (rest.flatMap (·.2)).filter (key · = entry.1) = [] := by
        refine List.filter_eq_nil_iff.2 fun a ha hkey => ?_
        obtain ⟨other, hother, ha⟩ := List.mem_flatMap.1 ha
        rw [hrest other hother a ha] at hkey
        exact hdistinct other hother (of_decide_eq_true hkey).symm
      rw [hown, hothers, List.append_nil]
    · have hown : first.2.filter (key · = entry.1) = [] := by
        refine List.filter_eq_nil_iff.2 fun a ha hkey => ?_
        rw [hfirst a ha] at hkey
        exact hdistinct entry h (of_decide_eq_true hkey)
      rw [hown, List.nil_append, ih distinct hrest h]

end Grouping

/-! ## Owners and rows -/

namespace PackageUser

/-- Owners are listed by package, then user. -/
def Before (a b : PackageUser) : Prop :=
  compare a.packageName b.packageName = .lt ∨ a.packageName = b.packageName ∧ a.userId < b.userId

/-- The order of the listing is transitive. -/
theorem Before.trans {a b c : PackageUser} (h : a.Before b) (h' : b.Before c) : a.Before c := by
  rcases h with h | ⟨heq, h⟩
  · rcases h' with h' | ⟨heq', -⟩
    · exact .inl (Std.TransCmp.lt_trans h h')
    · exact .inl (heq' ▸ h)
  · rcases h' with h' | ⟨heq', h'⟩
    · exact .inl (heq ▸ h')
    · exact .inr ⟨heq.trans heq', UInt32.lt_trans h h'⟩

theorem Before.ne {a b : PackageUser} (h : a.Before b) : a ≠ b := by
  rintro rfl
  rcases h with h | ⟨-, h⟩
  · have hself : compare a.packageName a.packageName = .eq := Std.ReflCmp.compare_self
    rw [hself] at h
    cases h
  · exact UInt32.lt_irrefl _ h

end PackageUser

theorem toInt_widenUser (user : UInt32) : (widenUser user).toInt = user.toNat :=
  Int64.toInt_ofNat_of_lt (Nat.lt_trans user.toNat_lt (by decide))

/-- So no two users are stored alike. -/
theorem widenUser_injective : Function.Injective widenUser := by
  intro a b h
  have hvalue := congrArg Int64.toInt h
  rw [toInt_widenUser, toInt_widenUser] at hvalue
  exact UInt32.toNat_inj.1 (Int.ofNat_inj.1 hvalue)

/-- A user id that was recorded always fits. -/
theorem narrowUser_widenUser (column : UserColumn) (user : UInt32) :
    narrowUser column (widenUser user) = .ok user := by
  have hlt := user.toNat_lt_size
  unfold narrowUser
  rw [toInt_widenUser, if_pos (by omega), Int.toNat_natCast, UInt32.ofNat_toNat]

namespace Row

/-- A stored row is read back as it was. -/
theorem toAccess_ofAccess (owner : PackageUser) (access : Access) :
    (ofAccess owner access).toAccess = .ok (owner, access) := by
  have hproxy : (access.proxyUser.map widenUser).mapM (narrowUser .proxyUser) =
      .ok access.proxyUser := by
    cases access.proxyUser with
    | none => rfl
    | some user =>
      show (narrowUser .proxyUser (widenUser user)).map some = _
      rw [narrowUser_widenUser]
      rfl
  unfold toAccess ofAccess
  rw [narrowUser_widenUser]
  show (access.proxyUser.map widenUser).mapM (narrowUser .proxyUser) >>= _ = _
  rw [hproxy]
  rfl

instance : Std.TransCmp order := inferInstanceAs (Std.TransCmp (compareLex _ _))

/-- Rows in order are in the order of their owners and, for one owner, of their times. -/
theorem of_order {a b : PackageUser × Access}
    (h : (order (ofAccess a.1 a.2) (ofAccess b.1 b.2)).isLE) :
    (a.1 = b.1 ∧ a.2.time.toInt ≤ b.2.time.toInt) ∨ a.1.Before b.1 := by
  obtain ⟨⟨package, user⟩, access⟩ := a
  obtain ⟨⟨package', user'⟩, access'⟩ := b
  change ((compare package package').then ((compare (widenUser user).toInt
    (widenUser user').toInt).then (compare access.time.toInt access'.time.toInt))).isLE at h
  rcases hpackage : compare package package' with _ | _ | _
  · exact .inr (.inl hpackage)
  · rw [hpackage] at h
    obtain rfl := Std.LawfulEqOrd.eq_of_compare hpackage
    rw [toInt_widenUser, toInt_widenUser] at h
    rcases huser : compare (user.toNat : Int) (user'.toNat : Int) with _ | _ | _
    · have hlt : user.toNat < user'.toNat := Int.ofNat_lt.1 (Std.compare_eq_lt.1 huser)
      exact .inr (.inr ⟨rfl, UInt32.lt_iff_toNat_lt.2 hlt⟩)
    · rw [huser] at h
      have heq : user.toNat = user'.toNat :=
        Int.ofNat_inj.1 (Std.LawfulEqOrd.eq_of_compare huser)
      exact .inl ⟨by rw [UInt32.toNat_inj.1 heq], Std.isLE_compare.1 h⟩
    · rw [huser] at h
      cases h
  · rw [hpackage] at h
    cases h

end Row

/-! ## Listings -/

/-- Batches list some accesses with their owners: one batch for each owner that has one, in order,
and each batch has the accesses of its owner, by time. -/
structure Lists (rows : List (PackageUser × Access)) (batches : List Batch) : Prop where
  ascending : batches.Pairwise (·.owner.Before ·.owner)
  owners : ∀ owner, (∃ batch ∈ batches, batch.owner = owner) ↔ ∃ row ∈ rows, row.1 = owner
  accesses : ∀ batch ∈ batches,
    batch.accesses.Perm ((rows.filter (·.1 = batch.owner)).map (·.2))
  ordered : ∀ batch ∈ batches, batch.accesses.Pairwise (·.time.toInt ≤ ·.time.toInt)
  plain : ∀ batch ∈ batches, batch.label = none ∧ batch.isSensitive = false

/-- Rows of accesses are read back as the accesses. -/
theorem mapM_toAccess (owned : List (PackageUser × Access)) :
    (owned.map fun r => Row.ofAccess r.1 r.2).mapM Row.toAccess = .ok owned := by
  rw [mapM_eq_ok_iff, List.forall₂_map_left_iff, List.forall₂_same]
  exact fun r _ => Row.toAccess_ofAccess r.1 r.2

/-- Rows of accesses that are sorted are rows of the same accesses, by owner and time. -/
theorem exists_sort_eq (rows : List (PackageUser × Access)) :
    ∃ owned : List (PackageUser × Access), Row.sort (rows.map fun r => Row.ofAccess r.1 r.2) =
        owned.map (fun r => Row.ofAccess r.1 r.2) ∧ owned.Perm rows ∧
      owned.Pairwise fun a b =>
        (a.1 = b.1 ∧ a.2.time.toInt ≤ b.2.time.toInt) ∨ a.1.Before b.1 := by
  let sorted := Row.sort (rows.map fun r => Row.ofAccess r.1 r.2)
  have hperm : sorted.Perm (rows.map fun r => Row.ofAccess r.1 r.2) := List.mergeSort_perm _ _
  have hrow : ∀ row ∈ sorted, ∃ entry : PackageUser × Access,
      row = Row.ofAccess entry.1 entry.2 := by
    intro row hrow
    obtain ⟨entry, -, rfl⟩ := List.mem_map.1 (hperm.mem_iff.1 hrow)
    exact ⟨entry, rfl⟩
  obtain ⟨owned, howned⟩ := exists_forall₂ hrow
  have hsorted : sorted = owned.map fun r => Row.ofAccess r.1 r.2 := by
    rw [← List.forall₂_eq_eq_eq, List.forall₂_map_right_iff]
    exact howned
  refine ⟨owned, hsorted, ?_, ?_⟩
  · -- reading the rows back undoes both maps
    have hback : ∀ entries : List (PackageUser × Access),
        (entries.map fun r => Row.ofAccess r.1 r.2).filterMap (·.toAccess.toOption) = entries := by
      intro entries
      rw [List.filterMap_map]
      refine (List.filterMap_congr fun r _ => ?_).trans List.filterMap_some
      exact congrArg Except.toOption (Row.toAccess_ofAccess r.1 r.2)
    rw [hsorted] at hperm
    have hread := hperm.filterMap (·.toAccess.toOption)
    rwa [hback, hback] at hread
  · have hpairwise : sorted.Pairwise fun a b => (Row.order a b).isLE := pairwise_mergeSort_isLE _
    rw [hsorted, List.pairwise_map] at hpairwise
    exact hpairwise.imp Row.of_order

/-- Accesses in the order of their owners and times, grouped by owner, list them. -/
theorem lists_groupNeighbours {rows owned : List (PackageUser × Access)} (perm : owned.Perm rows)
    (sorted : owned.Pairwise fun a b =>
      (a.1 = b.1 ∧ a.2.time.toInt ≤ b.2.time.toInt) ∨ a.1.Before b.1) :
    Lists rows ((groupNeighbours (·.1) owned).map fun (owner, group) =>
      { owner, accesses := group.map (·.2) }) := by
  have hkeys : owned.Pairwise fun a b => a.1 = b.1 ∨ a.1.Before b.1 :=
    sorted.imp fun h => h.imp And.left id
  have hgroups : (groupNeighbours (·.1) owned).Pairwise fun a b => a.1.Before b.1 :=
    @pairwise_groupNeighbours _ _ _ (·.1) PackageUser.Before PackageUser.Before.trans owned hkeys
  have hfilter : ∀ entry ∈ groupNeighbours (·.1) owned, owned.filter (·.1 = entry.1) = entry.2 := by
    intro entry hentry
    have hfilter := filter_flatMap_of_mem (hgroups.imp PackageUser.Before.ne)
      (fun entry hentry => (of_mem_groupNeighbours entry hentry).2) hentry
    rwa [flatMap_groupNeighbours] at hfilter
  refine ⟨List.pairwise_map.2 hgroups, fun owner => ⟨?_, ?_⟩, ?_, ?_, ?_⟩
  · rintro ⟨batch, hbatch, rfl⟩
    obtain ⟨entry, hentry, rfl⟩ := List.mem_map.1 hbatch
    obtain ⟨hne, hkey⟩ := of_mem_groupNeighbours entry hentry
    obtain ⟨row, hrow⟩ := List.exists_mem_of_ne_nil _ hne
    exact ⟨row, perm.mem_iff.1 (mem_of_mem_groupNeighbours hentry hrow), hkey row hrow⟩
  · rintro ⟨row, hrow, rfl⟩
    rw [← perm.mem_iff, ← flatMap_groupNeighbours (·.1) owned] at hrow
    obtain ⟨entry, hentry, hrow⟩ := List.mem_flatMap.1 hrow
    exact ⟨_, List.mem_map_of_mem hentry, ((of_mem_groupNeighbours entry hentry).2 row hrow).symm⟩
  · refine List.forall_mem_map.2 fun entry hentry => ?_
    show (entry.2.map (·.2)).Perm ((rows.filter (·.1 = entry.1)).map (·.2))
    rw [← hfilter entry hentry]
    exact (perm.filter _).map _
  · refine List.forall_mem_map.2 fun entry hentry => List.pairwise_map.2 ?_
    rw [← hfilter entry hentry]
    refine (sorted.filter _).imp_of_mem fun ha hb h => ?_
    -- two accesses of one group have one owner, so their times decide
    have ha := of_decide_eq_true (List.mem_filter.1 ha).2
    have hb := of_decide_eq_true (List.mem_filter.1 hb).2
    rcases h with ⟨-, hle⟩ | hbefore
    · exact hle
    · exact absurd (ha.trans hb.symm) hbefore.ne
  · exact List.forall_mem_map.2 fun entry _ => ⟨rfl, rfl⟩

/-- A table of rows of accesses lists the accesses of an op in a range of time. -/
theorem Table.lists_accesses {table : Table} {rows : List (PackageUser × Access)}
    (h : table.rows = rows.map fun r => Row.ofAccess r.1 r.2) (op : String) (start stop : Millis) :
    ∃ batches, table.accesses op start stop = .ok batches ∧
      Lists (rows.filter fun r => r.2.op = op ∧ start.toInt ≤ r.2.time.toInt ∧
        r.2.time.toInt < stop.toInt) batches := by
  have hfound : table.rows.filter (fun row => row.op = op ∧ start.toInt ≤ row.time.toInt ∧
      row.time.toInt < stop.toInt) = (rows.filter fun r => r.2.op = op ∧
        start.toInt ≤ r.2.time.toInt ∧ r.2.time.toInt < stop.toInt).map
          fun r => Row.ofAccess r.1 r.2 := by
    rw [h, List.filter_map]
    rfl
  obtain ⟨owned, hsort, hperm, hsorted⟩ := exists_sort_eq (rows.filter fun r =>
    r.2.op = op ∧ start.toInt ≤ r.2.time.toInt ∧ r.2.time.toInt < stop.toInt)
  refine ⟨_, ?_, lists_groupNeighbours hperm hsorted⟩
  unfold Table.accesses
  rw [hfound]
  exact bind_eq_ok_iff.2 ⟨owned, by rw [hsort, mapM_toAccess], rfl⟩

end PermissionUsage
