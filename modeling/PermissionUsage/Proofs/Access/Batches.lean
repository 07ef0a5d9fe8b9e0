import Mathlib.Data.Multiset.Bind
import PermissionUsage.Proofs.Access.Labels
import PermissionUsage.Proofs.Access.Merging
/-!
# Batches that hold the same

Two sources may list the same accesses in another order: other owners first, and other accesses of
an owner first. `Batch.Alike` says of two batches, and `AllAlike` of two lists of batches, that
nothing but such an order tells them apart.

* `Collects`: batches hold some accesses, one batch for each owner.
* `Collects.allAlike`: batches that hold the same accesses are alike.
* `collects_mergeBatches`: merged batches hold what the batches held that were merged.
* `AccessSource.exists_loadAccesses`: a load of several ops holds what each of them should list.
* `Batch.Alike.byLabel`: splitting by label keeps batches alike.
-/

namespace PermissionUsage

/-! ## Alike -/

namespace Batch

/-- Two batches differ at most in the order of their accesses. -/
structure Alike (batch other : Batch) : Prop where
  owner : batch.owner = other.owner
  label : batch.label = other.label
  isSensitive : batch.isSensitive = other.isSensitive
  accesses : batch.accesses.Perm other.accesses

theorem Alike.symm {batch other : Batch} (h : batch.Alike other) : other.Alike batch :=
  ⟨h.owner.symm, h.label.symm, h.isSensitive.symm, h.accesses.symm⟩

/-- Batches that are alike make the same batch of the same accesses. -/
theorem Alike.withAccesses_eq {batch other : Batch} (h : batch.Alike other) :
    batch.withAccesses = other.withAccesses := by
  funext accesses
  unfold Batch.withAccesses
  rw [h.owner, h.label, h.isSensitive]

end Batch

/-- The batches of two lists go one by one with each other, in some order, and are alike. -/
def AllAlike (batches others : List Batch) : Prop :=
  Multiset.Rel Batch.Alike (batches : Multiset Batch) (others : Multiset Batch)

section Rel

theorem coe_filter {α : Type} (keep : α → Bool) (l : List α) :
    (l.filter keep : Multiset α) = (l : Multiset α).filter (keep · = true) := by
  simp only [Multiset.filter_coe, Bool.decide_eq_true]

variable {α β γ δ : Type} {R : α → β → Prop} {S : γ → δ → Prop}

/-- Related lists stay related where elements are kept by related conditions. -/
theorem rel_filter {keep : α → Bool} {keep' : β → Bool} {l : List α} {l' : List β}
    (h : Multiset.Rel R (l : Multiset α) (l' : Multiset β))
    (hkeep : ∀ a b, R a b → keep a = keep' b) :
    Multiset.Rel R (l.filter keep : Multiset α) (l'.filter keep' : Multiset β) := by
  rw [coe_filter, coe_filter]
  generalize (l : Multiset α) = s, (l' : Multiset β) = t at h ⊢
  induction h with
  | zero => exact .zero
  | @cons a b s t hab _ ih =>
    rw [Multiset.filter_cons, Multiset.filter_cons, hkeep a b hab]
    split
    · exact Multiset.Rel.add (.cons hab .zero) ih
    · rwa [zero_add, zero_add]

/-- Related lists stay related under related functions. -/
theorem rel_map {f : α → γ} {g : β → δ} {l : List α} {l' : List β}
    (h : Multiset.Rel R (l : Multiset α) (l' : Multiset β)) (hfg : ∀ a b, R a b → S (f a) (g b)) :
    Multiset.Rel S (l.map f : Multiset γ) (l'.map g : Multiset δ) := by
  rw [← Multiset.map_coe, ← Multiset.map_coe, Multiset.rel_map]
  exact h.mono fun a _ b _ hab => hfg a b hab

/-- Related lists stay related where each element becomes several. -/
theorem rel_flatMap {f : α → List γ} {g : β → List δ} {l : List α} {l' : List β}
    (h : Multiset.Rel R (l : Multiset α) (l' : Multiset β))
    (hfg : ∀ a b, R a b → Multiset.Rel S (f a : Multiset γ) (g b : Multiset δ)) :
    Multiset.Rel S (l.flatMap f : Multiset γ) (l'.flatMap g : Multiset δ) := by
  rw [← Multiset.coe_bind, ← Multiset.coe_bind]
  exact Multiset.rel_bind (fun a b hab => hfg a b hab) h

/-- What is made of elements that go with each other is the same up to its order. -/
theorem perm_flatMap_of_rel {f : α → List γ} {g : β → List γ} {l : List α} {l' : List β}
    (h : Multiset.Rel R (l : Multiset α) (l' : Multiset β)) (hfg : ∀ a b, R a b → f a = g b) :
    (l.flatMap f).Perm (l'.flatMap g) :=
  Multiset.coe_eq_coe.1 <| Multiset.rel_eq.1 <| rel_flatMap h fun a b hab =>
    Multiset.rel_eq.2 (congrArg _ (hfg a b hab))

end Rel

theorem AllAlike.symm {batches others : List Batch} (h : AllAlike batches others) :
    AllAlike others batches :=
  Multiset.rel_flip.1 (h.mono fun _ _ _ _ => Batch.Alike.symm)

/-! ## Holding accesses -/

/-- The accesses of an owner. -/
def accessesBy (rows : List (PackageUser × Access)) (owner : PackageUser) : List Access :=
  (rows.filter (·.1 = owner)).map (·.2)

/-- Rows in another order give an owner the same accesses in another order. -/
theorem accessesBy_perm {rows rows' : List (PackageUser × Access)} (h : rows.Perm rows')
    (owner : PackageUser) : (accessesBy rows owner).Perm (accessesBy rows' owner) :=
  (h.filter _).map _

/-- An owner has the accesses of the rows with its name. -/
theorem mem_accessesBy_iff {rows : List (PackageUser × Access)} {owner : PackageUser} {a : Access} :
    a ∈ accessesBy rows owner ↔ (owner, a) ∈ rows := by
  unfold accessesBy
  simp

/-- Batches hold some accesses: one batch for each owner that has one, without a label or
sensitivity, and in it the accesses of its owner. -/
structure Collects (rows : List (PackageUser × Access)) (batches : List Batch) : Prop where
  nodup : (batches.map (·.owner)).Nodup
  owners : ∀ owner, (∃ batch ∈ batches, batch.owner = owner) ↔ ∃ row ∈ rows, row.1 = owner
  accesses : ∀ batch ∈ batches, batch.accesses.Perm (accessesBy rows batch.owner)
  plain : ∀ batch ∈ batches, batch.label = none ∧ batch.isSensitive = false

namespace Collects

variable {rows rows' : List (PackageUser × Access)} {batches batches' : List Batch}

theorem nil : Collects [] [] where
  nodup := List.nodup_nil
  owners _ := ⟨nofun, nofun⟩
  accesses := nofun
  plain := nofun

/-- Rows in another order are collected by the same batches. -/
theorem of_perm (h : Collects rows batches) (perm : rows.Perm rows') : Collects rows' batches where
  nodup := h.nodup
  owners owner := by
    rw [h.owners]
    exact exists_congr fun row => and_congr_left fun _ => perm.mem_iff
  accesses batch hbatch := (h.accesses batch hbatch).trans (accessesBy_perm perm batch.owner)
  plain := h.plain

/-- No batch is made for an owner without accesses. -/
theorem nonempty (h : Collects rows batches) : ∀ batch ∈ batches, batch.accesses ≠ [] := by
  intro batch hbatch hnil
  obtain ⟨row, hrow, howner⟩ := (h.owners batch.owner).1 ⟨batch, hbatch, rfl⟩
  have hmem : row.2 ∈ accessesBy rows batch.owner := mem_accessesBy_iff.2 (howner ▸ hrow)
  rw [← (h.accesses batch hbatch).mem_iff, hnil] at hmem
  cases hmem

/-- What batches hold is what is in them. -/
theorem perm_flatMap_rows (h : Collects rows batches) : (batches.flatMap Batch.rows).Perm rows := by
  have hbatch : ∀ batch ∈ batches, batch.rows.Perm (rows.filter (·.1 = batch.owner)) := by
    intro batch hbatch
    have hpairs : (accessesBy rows batch.owner).map (batch.owner, ·) =
        rows.filter (·.1 = batch.owner) := by
      rw [accessesBy, List.map_map]
      refine (List.map_congr_left fun row hrow => ?_).trans (List.map_id _)
      rw [← of_decide_eq_true (List.mem_filter.1 hrow).2]
      rfl
    rw [← hpairs]
    exact (h.accesses batch hbatch).map _
  have howner : ∀ row ∈ rows, row.1 ∈ batches.map (·.owner) := by
    intro row hrow
    obtain ⟨batch, hbatch, heq⟩ := (h.owners row.1).2 ⟨row, hrow, rfl⟩
    exact heq ▸ List.mem_map_of_mem hbatch
  have hgroups := perm_flatMap_filter (fun row : PackageUser × Access => row.1) h.nodup howner
  rw [List.flatMap_map] at hgroups
  exact (List.Perm.flatMap_left batches hbatch).trans hgroups

/-- Batches that hold the same accesses are alike. -/
theorem allAlike (h : Collects rows batches) (h' : Collects rows' batches')
    (perm : rows.Perm rows') : AllAlike batches batches' := by
  have hmem : ∀ owner, owner ∈ batches.map (·.owner) ↔ owner ∈ batches'.map (·.owner) := by
    intro owner
    rw [List.mem_map, List.mem_map, h.owners, (h'.of_perm perm.symm).owners]
  have howners : (batches.map (·.owner)).Perm (batches'.map (·.owner)) :=
    (List.perm_ext_iff_of_nodup h.nodup h'.nodup).2 hmem
  have hrel : Multiset.Rel (fun batch batch' => batch.owner = batch'.owner)
      (batches : Multiset Batch) (batches' : Multiset Batch) := by
    rw [← Multiset.rel_map, Multiset.rel_eq]
    exact Multiset.coe_eq_coe.2 howners
  -- batches of one owner have the accesses of that owner
  refine hrel.mono fun batch hbatch batch' hbatch' howner => ?_
  obtain ⟨hlabel, hsensitive⟩ := h.plain batch hbatch
  obtain ⟨hlabel', hsensitive'⟩ := h'.plain batch' hbatch'
  refine ⟨howner, hlabel.trans hlabel'.symm, hsensitive.trans hsensitive'.symm, ?_⟩
  refine (h.accesses batch hbatch).trans (.trans ?_ (h'.accesses batch' hbatch').symm)
  rw [howner]
  exact accessesBy_perm perm batch'.owner

end Collects

/-! ## Merged batches -/

/-- The accesses of an owner are those of its batches, batch after batch. -/
theorem accessesBy_flatMap_rows (found : List Batch) (owner : PackageUser) :
    accessesBy (found.flatMap Batch.rows) owner =
      (found.filter (·.owner = owner)).flatMap (·.accesses) := by
  unfold accessesBy
  induction found with
  | nil => rfl
  | cons batch rest ih =>
    rw [List.flatMap_cons, List.filter_append, List.map_append, ih, List.filter_cons]
    by_cases h : batch.owner = owner <;> simp [Batch.rows, List.filter_map, Function.comp_def, h]

/-- A merged batch is the first of its owner's batches, with the accesses of all of them. -/
theorem of_mem_mergeBatches {found : List Batch} {batch : Batch}
    (h : batch ∈ mergeBatches [] found) :
    ∃ first ∈ found, first.owner = batch.owner ∧ batch = { first with
      accesses := (found.filter (·.owner = batch.owner)).flatMap (·.accesses) } := by
  have hjoined : joined Batch.join (found.filter (·.owner = batch.owner)) = some batch :=
    joined_of_mem_mergeAll Batch.owner_join h
  cases hown : found.filter (·.owner = batch.owner) with
  | nil => rw [hown] at hjoined; cases hjoined
  | cons first rest =>
    rw [hown, Batch.addsUp.joined_cons] at hjoined
    have hfirst : first ∈ found.filter (·.owner = batch.owner) := hown ▸ List.mem_cons_self
    obtain ⟨hfirst, howner⟩ := List.mem_filter.1 hfirst
    exact ⟨first, hfirst, of_decide_eq_true howner, (Option.some.inj hjoined).symm⟩

/-- No owner of a batch is lost. -/
theorem exists_mem_mergeBatches {found : List Batch} {source : Batch} (h : source ∈ found) :
    ∃ batch ∈ mergeBatches [] found, batch.owner = source.owner := by
  have hmem : source ∈ found.filter (·.owner = source.owner) :=
    List.mem_filter.2 ⟨h, decide_eq_true rfl⟩
  obtain ⟨first, rest, hown⟩ := List.exists_cons_of_ne_nil (List.ne_nil_of_mem hmem)
  have hfind : (mergeBatches [] found).find? (·.owner = source.owner) =
      joined Batch.join (found.filter (·.owner = source.owner)) :=
    find?_mergeAll Batch.owner_join found source.owner
  rw [hown, Batch.addsUp.joined_cons] at hfind
  exact ⟨_, List.mem_of_find?_eq_some hfind, by simpa using List.find?_some hfind⟩

/-- Merged batches hold what was in the batches, if none of those was empty. -/
theorem collects_mergeBatches {found : List Batch}
    (nonempty : ∀ batch ∈ found, batch.accesses ≠ [])
    (plain : ∀ batch ∈ found, batch.label = none ∧ batch.isSensitive = false) :
    Collects (found.flatMap Batch.rows) (mergeBatches [] found) where
  nodup := nodup_mergeAll Batch.owner_join found
  owners owner := by
    constructor
    · rintro ⟨batch, hmem, rfl⟩
      obtain ⟨first, hfirst, howner, -⟩ := of_mem_mergeBatches hmem
      obtain ⟨a, ha⟩ := List.exists_mem_of_ne_nil _ (nonempty first hfirst)
      exact ⟨(first.owner, a),
        List.mem_flatMap.2 ⟨first, hfirst, List.mem_map_of_mem ha⟩, howner⟩
    · rintro ⟨row, hrow, rfl⟩
      obtain ⟨source, hsource, hrow⟩ := List.mem_flatMap.1 hrow
      obtain ⟨a, -, rfl⟩ := List.mem_map.1 hrow
      exact exists_mem_mergeBatches hsource
  accesses batch hmem := by
    obtain ⟨first, -, -, heq⟩ := of_mem_mergeBatches hmem
    rw [accessesBy_flatMap_rows]
    exact .of_eq (congrArg Batch.accesses heq)
  plain batch hmem := by
    obtain ⟨first, hfirst, -, heq⟩ := of_mem_mergeBatches hmem
    rw [heq]
    exact plain first hfirst

/-! ## Loaded batches -/

/-- A source answers a read with all that it should list, or it does not know the op and should list
nothing. -/
def AccessSource.Answers (source : AccessSource) (start stop : Millis) (op : String)
    (rows : List (PackageUser × Access)) : Prop :=
  (∃ batches, source.accesses op start stop = .ok batches ∧ Collects rows batches) ∨
    (source.accesses op start stop = .error (.unknownOp op) ∧ rows = [])

/-- A load of several ops holds what the source should list for each of them. -/
theorem AccessSource.exists_loadAccesses {source : AccessSource} {start stop : Millis}
    {ops : List String} {rows : String → List (PackageUser × Access)}
    (answers : ∀ op ∈ ops, source.Answers start stop op (rows op)) :
    ∃ batches, source.loadAccesses ops start stop = .ok batches ∧
      Collects (ops.flatMap rows) batches := by
  let found := ops.flatMap fun op => answered (source.accesses op start stop)
  have hcollects : ∀ op ∈ ops, Collects (rows op) (answered (source.accesses op start stop)) := by
    intro op hop
    rcases answers op hop with ⟨batches, hread, h⟩ | ⟨hread, hrows⟩
    · rw [hread]
      exact h
    · rw [hread, hrows]
      exact .nil
  have hfound : ∀ batch ∈ found, ∃ op ∈ ops, batch ∈ answered (source.accesses op start stop) :=
    fun _ => List.mem_flatMap.1
  have hload : source.loadAccesses ops start stop = .ok (mergeBatches [] found) := by
    rw [source.loadAccesses_eq]
    refine loadMerged_eq_ok (fun op hop cause hread => ?_) []
    rcases answers op hop with ⟨batches, hok, -⟩ | ⟨herror, -⟩
    · cases hok.symm.trans hread
    · exact ⟨op, (Except.error.inj (herror.symm.trans hread)).symm⟩
  refine ⟨_, hload, (collects_mergeBatches (fun batch hbatch => ?_) fun batch hbatch => ?_).of_perm
    ?_⟩
  · obtain ⟨op, hop, hmem⟩ := hfound batch hbatch
    exact (hcollects op hop).nonempty batch hmem
  · obtain ⟨op, hop, hmem⟩ := hfound batch hbatch
    exact (hcollects op hop).plain batch hmem
  · -- what was found is, op by op, what each answer holds
    rw [List.flatMap_assoc]
    exact List.Perm.flatMap_left ops fun op hop => (hcollects op hop).perm_flatMap_rows

/-- What is loaded of an owner was listed for that owner and one of the ops. -/
theorem AccessSource.mem_of_loadAccesses {source : AccessSource} {ops : List String}
    {start stop : Millis} {batches : List Batch}
    (hload : source.loadAccesses ops start stop = .ok batches) {batch : Batch}
    (hbatch : batch ∈ batches) {a : Access} (ha : a ∈ batch.accesses) :
    ∃ op ∈ ops, ∃ found, source.accesses op start stop = .ok found ∧
      ∃ listed ∈ found, listed.owner = batch.owner ∧ a ∈ listed.accesses := by
  rw [source.loadAccesses_eq] at hload
  obtain rfl := eq_of_loadMerged hload
  obtain ⟨first, -, -, heq⟩ := of_mem_mergeBatches hbatch
  rw [heq] at ha
  obtain ⟨listed, hlisted, ha⟩ := List.mem_flatMap.1 ha
  obtain ⟨hlisted, howner⟩ := List.mem_filter.1 hlisted
  obtain ⟨op, hop, hread⟩ := List.mem_flatMap.1 hlisted
  cases hanswer : source.accesses op start stop with
  | error cause =>
    rw [hanswer] at hread
    cases hread
  | ok found =>
    rw [hanswer] at hread
    exact ⟨op, hop, found, hanswer, listed, hread, of_decide_eq_true howner, ha⟩

/-! ## Splitting by label -/

namespace Batch

variable {batch other : Batch}

/-- What batches that are alike have under a label is alike. -/
theorem Alike.under (h : batch.Alike other) (info : Attribution) (label : Option String) :
    (batch.under info label).Alike (other.under info label) :=
  ⟨h.owner, rfl, h.isSensitive, h.accesses.filter _⟩

/-- The parts of batches that are alike have the same labels. -/
theorem Alike.labels (h : batch.Alike other) {info : Attribution} {parts others : List Batch}
    (splits : batch.SplitsByLabel info parts) (splits' : other.SplitsByLabel info others) :
    (parts.map (·.label)).Perm (others.map (·.label)) := by
  refine (List.perm_ext_iff_of_nodup splits.distinct splits'.distinct).2 fun label => ?_
  rw [splits.firstSeen.mem, splits'.firstSeen.mem]
  exact (h.accesses.map _).mem_iff

/-- Batches that are alike have alike parts under every label. -/
theorem Alike.byLabel (h : batch.Alike other) (info : Option Attribution) :
    AllAlike (batch.byLabel info) (other.byLabel info) := by
  have hwhole : AllAlike [batch] [other] := .cons h .zero
  cases info with
  | none => exact hwhole
  | some info =>
    by_cases hgroups : info.groupsByLabel
    · have splits := batch.splitsByLabel_byLabel hgroups
      have splits' := other.splitsByLabel_byLabel hgroups
      have hlabels := Multiset.rel_eq.2 (Multiset.coe_eq_coe.2 (h.labels splits splits'))
      rw [splits.eq_map_under, splits'.eq_map_under]
      refine rel_map hlabels fun label label' heq => ?_
      rw [heq]
      exact h.under info label'
    · rw [Batch.byLabel, Batch.byLabel, if_neg hgroups, if_neg hgroups]
      exact hwhole

end Batch

end PermissionUsage
