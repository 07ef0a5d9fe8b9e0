import PermissionUsage.Access.Labels
import PermissionUsage.Proofs.Access.Merging
/-!
# Splitting by label

`Batch.SplitsByLabel` says what the parts of a batch are without the way in which they are found:
one part for each label, in the order in which the labels are first seen, with the accesses under
its label in their order.

* `Attribution.of_mem_group`: what the groups hold that grow access by access.
* `Batch.splitsByLabel_byLabel`: so the parts that are made of them split the batch by label.
* `Batch.SplitsByLabel.unique`: there is one way to do so. A part is not split again
  (`Batch.byLabel_partitions`).

Every access is kept, and kept once (`Batch.perm_byLabel`). What a part has of the batch, and under
which label, is `Batch.of_mem_byLabel`.
-/

namespace PermissionUsage

section Grouping

variable {α κ : Type}

/-- Grouping by a key loses nothing and duplicates nothing, if every key is listed once. -/
theorem perm_flatMap_filter [DecidableEq κ] (key : α → κ) {keys : List κ} (nodup : keys.Nodup)
    {l : List α} (h : ∀ a ∈ l, key a ∈ keys) :
    (keys.flatMap fun k => l.filter (key · = k)).Perm l := by
  induction keys generalizing l with
  | nil =>
    rw [List.eq_nil_iff_forall_not_mem.2 fun a ha => List.not_mem_nil (h a ha)]
    exact .nil
  | cons k rest ih =>
    obtain ⟨hk, nodup⟩ := List.nodup_cons.1 nodup
    let others := l.filter fun a => !decide (key a = k)
    have hothers : ∀ a ∈ others, key a ∈ rest := by
      intro a ha
      obtain ⟨ha, hne⟩ := List.mem_filter.1 ha
      exact List.mem_of_ne_of_mem (by simpa using hne) (h a ha)
    -- the groups of the later keys do not meet the group of the first
    have hlater : ∀ k' ∈ rest, l.filter (key · = k') = others.filter (key · = k') := by
      intro k' hk'
      have hne : k' ≠ k := fun heq => hk (heq ▸ hk')
      rw [List.filter_filter]
      refine List.filter_congr fun a _ => ?_
      by_cases ha : key a = k'
      · simp [ha, hne]
      · simp [ha]
    have hsame : (rest.flatMap fun k' => l.filter (key · = k')) =
        rest.flatMap fun k' => others.filter (key · = k') := by
      rw [List.flatMap_def, List.flatMap_def, List.map_congr_left hlater]
    rw [List.flatMap_cons, hsame]
    exact ((ih nodup hothers).append_left _).trans (List.filter_append_perm _ l)

end Grouping

/-! ## Groups that grow access by access -/

/-- A group that an access joins has one access more. -/
theorem LabelGroup.addsUp : AddsUp LabelGroup.join LabelGroup.accesses
    fun first accesses => { first with accesses } :=
  ⟨fun _ => rfl, fun _ _ => rfl, fun _ _ _ => rfl, fun _ _ => rfl⟩

theorem LabelGroup.label_join (first next : LabelGroup) :
    (first.join next).label = first.label := rfl

namespace Attribution

variable (info : Attribution) (accesses : List Access)

/-- What one access adds to the groups. -/
def single (access : Access) : LabelGroup := ⟨info.labelOf access.tag, [access]⟩

/-- Growing the groups access by access is merging by label. -/
theorem group_eq_mergeAll :
    info.group accesses =
      mergeAll LabelGroup.label LabelGroup.join [] (accesses.map info.single) := by
  rw [mergeAll, List.foldl_map]
  rfl

/-- The labels of the groups stand in the order in which they are first seen. -/
theorem firstSeen_group :
    FirstSeen (accesses.map (info.labelOf ·.tag)) ((info.group accesses).map (·.label)) := by
  have hlabels : (accesses.map info.single).map (·.label) = accesses.map (info.labelOf ·.tag) :=
    List.map_map
  rw [group_eq_mergeAll, ← hlabels]
  exact firstSeen_mergeAll LabelGroup.label_join _

variable {info accesses}

/-- A group has the accesses under its label, of which there is at least one. -/
theorem of_mem_group {group : LabelGroup} (h : group ∈ info.group accesses) :
    group.accesses ≠ [] ∧
      group.accesses = accesses.filter (info.labelOf ·.tag = group.label) := by
  rw [group_eq_mergeAll] at h
  have hjoined := joined_of_mem_mergeAll LabelGroup.label_join h
  have hown : (accesses.map info.single).filter (·.label = group.label) =
      (accesses.filter (info.labelOf ·.tag = group.label)).map info.single := List.filter_map
  rw [hown] at hjoined
  cases hunder : accesses.filter (info.labelOf ·.tag = group.label) with
  | nil =>
    rw [hunder] at hjoined
    cases hjoined
  | cons first rest =>
    rw [hunder, List.map_cons, LabelGroup.addsUp.joined_cons, ← List.map_cons,
      List.flatMap_map] at hjoined
    have haccesses : (first :: rest).flatMap (fun a => (info.single a).accesses) =
        group.accesses := congrArg LabelGroup.accesses (Option.some.inj hjoined)
    have hgroup : group.accesses = first :: rest :=
      haccesses.symm.trans (List.flatMap_singleton' _)
    exact ⟨hgroup ▸ List.cons_ne_nil _ _, hgroup⟩

end Attribution

namespace Batch

/-! ## There is one way to split by label -/

/-- What a batch has under a label. Having no label counts as a label. -/
def under (batch : Batch) (info : Attribution) (label : Option String) : Batch :=
  { batch with accesses := batch.accesses.filter (info.labelOf ·.tag = label), label }

section Splits

variable {batch : Batch} {info : Attribution} {parts : List Batch}

/-- The parts of a batch that is split by label. Having no label counts as a label. -/
structure SplitsByLabel (batch : Batch) (info : Attribution) (parts : List Batch) : Prop where
  firstSeen : FirstSeen (batch.accesses.map (info.labelOf ·.tag)) (parts.map (·.label))
  distinct : (parts.map (·.label)).Nodup
  nonempty : ∀ part ∈ parts, part.accesses ≠ []
  accesses : ∀ part ∈ parts,
    part.accesses = batch.accesses.filter (info.labelOf ·.tag = part.label)
  kept : ∀ part ∈ parts, part.owner = batch.owner ∧ part.isSensitive = batch.isSensitive

/-- The groups of a batch are its parts: `Attribution.of_mem_group` says what they hold. -/
theorem splitsByLabel_byLabel (batch : Batch) (groups : info.groupsByLabel = true) :
    batch.SplitsByLabel info (batch.byLabel (some info)) := by
  rw [byLabel, if_pos groups]
  have firstSeen := info.firstSeen_group batch.accesses
  refine ⟨?_, ?_, ?_, ?_, ?_⟩
  · rw [List.map_map]
    exact firstSeen
  · rw [List.map_map]
    exact firstSeen.nodup
  · exact List.forall_mem_map.2 fun group hgroup => (Attribution.of_mem_group hgroup).1
  · exact List.forall_mem_map.2 fun group hgroup => (Attribution.of_mem_group hgroup).2
  · exact List.forall_mem_map.2 fun _ _ => ⟨rfl, rfl⟩

/-- A part is what the batch has under the label of the part. -/
theorem SplitsByLabel.eq_map_under (h : batch.SplitsByLabel info parts) :
    parts = (parts.map (·.label)).map (batch.under info) := by
  rw [List.map_map]
  refine (List.map_id parts).symm.trans (List.map_congr_left fun part hpart => ?_)
  obtain ⟨howner, hsensitive⟩ := h.kept part hpart
  show part = batch.under info part.label
  unfold under
  rw [← h.accesses part hpart, ← howner, ← hsensitive]

/-- The labels of the parts follow from the batch, and so do the parts. -/
theorem SplitsByLabel.unique {others : List Batch} (h : batch.SplitsByLabel info parts)
    (h' : batch.SplitsByLabel info others) : parts = others := by
  rw [h.eq_map_under, h'.eq_map_under, h.firstSeen.unique h'.firstSeen]

/-- A batch splits into the parts that are found, and in no other way. -/
theorem splitsByLabel_iff (groups : info.groupsByLabel = true) :
    batch.SplitsByLabel info parts ↔ parts = batch.byLabel (some info) := by
  have hsplits := batch.splitsByLabel_byLabel groups
  refine ⟨fun h => h.unique hsplits, ?_⟩
  rintro rfl
  exact hsplits

/-- A part is its own only part. -/
theorem SplitsByLabel.of_mem (h : batch.SplitsByLabel info parts) {part : Batch}
    (hpart : part ∈ parts) : part.SplitsByLabel info [part] := by
  have hlabel : ∀ a ∈ part.accesses, info.labelOf a.tag = part.label := by
    intro a ha
    rw [h.accesses part hpart] at ha
    exact of_decide_eq_true (List.mem_filter.1 ha).2
  obtain ⟨first, rest, haccesses⟩ := List.exists_cons_of_ne_nil (h.nonempty part hpart)
  refine ⟨⟨fun label => ?_, List.pairwise_singleton _ _⟩, List.nodup_singleton _, ?_, ?_, ?_⟩
  · rw [List.map_singleton, List.mem_singleton, List.mem_map]
    constructor
    · rintro rfl
      have hfirst : first ∈ part.accesses := haccesses ▸ List.mem_cons_self
      exact ⟨first, hfirst, hlabel first hfirst⟩
    · rintro ⟨a, ha, rfl⟩
      exact hlabel a ha
  · exact List.forall_mem_singleton.2 (h.nonempty part hpart)
  · intro other hother
    obtain rfl := List.mem_singleton.1 hother
    exact (List.filter_eq_self.2 fun a ha => decide_eq_true (hlabel a ha)).symm
  · exact List.forall_mem_singleton.2 ⟨rfl, rfl⟩

/-- A part that is split again stays whole, being its own only part. -/
theorem byLabel_of_mem (groups : info.groupsByLabel = true) {part : Batch}
    (hpart : part ∈ batch.byLabel (some info)) : part.byLabel (some info) = [part] :=
  ((splitsByLabel_iff groups).1 (((splitsByLabel_iff groups).2 rfl).of_mem hpart)).symm

/-- **Splitting by label is a stable partition.** If the accesses of a package are told apart by
label, a batch is split into one part for each label: the parts that `SplitsByLabel` describes, and
no others. Each part, split again, is just that part. -/
theorem byLabel_partitions (batch : Batch) {info : Attribution}
    (groups : info.groupsByLabel = true) :
    (∀ parts, batch.byLabel (some info) = parts ↔ batch.SplitsByLabel info parts) ∧
      ∀ part ∈ batch.byLabel (some info), part.byLabel (some info) = [part] :=
  ⟨fun _ => eq_comm.trans (splitsByLabel_iff groups).symm, fun _ => byLabel_of_mem groups⟩

end Splits

/-! ## Splits keep the accesses -/

/-- The label under which an access of a batch is shown. -/
def labelFor (batch : Batch) (info : Option Attribution) (access : Access) : Option String :=
  match info with
  | none => batch.label
  | some info => if info.groupsByLabel then info.labelOf access.tag else batch.label

/-- Splitting loses no access and duplicates none. -/
theorem perm_byLabel (batch : Batch) (info : Option Attribution) :
    ((batch.byLabel info).flatMap (·.accesses)).Perm batch.accesses := by
  have hwhole : ([batch].flatMap (·.accesses)).Perm batch.accesses := by
    rw [List.flatMap_singleton]
  cases info with
  | none => exact hwhole
  | some info =>
    by_cases hgroups : info.groupsByLabel
    · have hsplits := batch.splitsByLabel_byLabel hgroups
      rw [hsplits.eq_map_under, List.flatMap_map]
      refine perm_flatMap_filter (fun a : Access => info.labelOf a.tag) hsplits.distinct ?_
      intro a ha
      exact (hsplits.firstSeen.mem _).2 (List.mem_map_of_mem ha)
    · rw [byLabel, if_neg hgroups]
      exact hwhole

/-- A part is a part of the batch, and its accesses have its label. -/
theorem of_mem_byLabel {batch part : Batch} {info : Option Attribution}
    (h : part ∈ batch.byLabel info) :
    part.owner = batch.owner ∧ part.isSensitive = batch.isSensitive ∧
      ∀ a ∈ part.accesses, a ∈ batch.accesses ∧ part.label = batch.labelFor info a := by
  cases info with
  | none =>
    obtain rfl := List.mem_singleton.1 h
    exact ⟨rfl, rfl, fun a ha => ⟨ha, rfl⟩⟩
  | some info =>
    by_cases hgroups : info.groupsByLabel
    · have hsplits := batch.splitsByLabel_byLabel hgroups
      obtain ⟨howner, hsensitive⟩ := hsplits.kept part h
      refine ⟨howner, hsensitive, fun a ha => ?_⟩
      rw [hsplits.accesses part h] at ha
      obtain ⟨ha, hlabel⟩ := List.mem_filter.1 ha
      exact ⟨ha, (of_decide_eq_true hlabel).symm.trans (if_pos hgroups).symm⟩
    · rw [byLabel, if_neg hgroups] at h
      obtain rfl := List.mem_singleton.1 h
      exact ⟨rfl, rfl, fun a ha => ⟨ha, (if_neg hgroups).symm⟩⟩

/-! ### A day with a map -/

namespace MapDay

def tagged (tag : Option String) (time : Millis) : Access :=
  { op := Op.fineLocation, time, duration := -1, tag }

/-- Two tags share a label, one has an empty label, one a resource without a label, and one has no
resource. -/
def legend : Attribution where
  userVisible := true
  tagResources := some (.ofList [("ads", 2), ("blank", 3), ("lost", 4), ("nav", 1), ("route", 1)])
  resourceLabels := some (.ofList [(1, "Navigation"), (2, "Ads"), (3, "")])

def day : Batch where
  owner := ⟨"com.example.map", 0⟩
  accesses := [tagged "nav" 60000, tagged "lost" 120000, tagged "ads" 180000, tagged "route" 180000,
    tagged none 240000, tagged "blank" 300000, tagged "unmapped" 300000]
  isSensitive := true

/-- The day under its labels. -/
def parts : List Batch :=
  [{ day with accesses := [tagged "nav" 60000, tagged "route" 180000], label := "Navigation" },
    { day with accesses := [tagged "lost" 120000, tagged none 240000, tagged "unmapped" 300000] },
    { day with accesses := [tagged "ads" 180000], label := "Ads" },
    { day with accesses := [tagged "blank" 300000], label := "" }]

end MapDay

open MapDay in
theorem byLabel_partitions_of_mapDay :
    legend.groupsByLabel = true ∧ day.SplitsByLabel legend parts ∧
      ∀ part ∈ parts, part.byLabel (some legend) = [part] := by
  have hgroups : legend.groupsByLabel = true := by decide
  have hparts : day.byLabel (some legend) = parts := by decide +kernel
  obtain ⟨hsplits, hagain⟩ := byLabel_partitions day hgroups
  rw [hparts] at hagain
  exact ⟨hgroups, (hsplits parts).1 hparts, hagain⟩

end Batch

end PermissionUsage
