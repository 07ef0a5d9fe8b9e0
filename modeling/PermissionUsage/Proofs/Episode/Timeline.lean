import PermissionUsage.Episode.Timeline
import PermissionUsage.Platform
import PermissionUsage.Proofs.Access.Labels
import PermissionUsage.Proofs.Episode.Summary
/-!
# A timeline tells of every access once

A timeline goes through six stages: two visibility filters, the filter of requests, sensitivity,
labels, and clusters. `Timeline.compute_tells` follows one access through all of them.

* `Services.Keeps`: whose accesses are told at all, in the words of the platform.
* `Cuts`: some clusters are what is left when batches are cut into pieces, none of them empty. Each
  stage after the filters cuts further, so that `Cuts` composes (`Cuts.append`, `cuts_ofBatch`).
* `Timeline.Tells`: the episodes are those of the kept batches, batch by batch, and the episodes of
  a batch go one by one with the pieces of it.
-/

namespace PermissionUsage

/-! ## Whose accesses are told -/

namespace Services

/-- The accesses of an owner are kept: the user is a profile that is not quiet or is shown although
it is, the package is not exempted, and it is installed and requests a permission of the group. -/
structure Keeps (services : Services) (group : PermissionGroup) (owner : PackageUser) : Prop where
  profile : owner.userId ∈ services.profiles
  shown : services.isQuiet owner.userId = false ∨ services.showsWhenQuiet owner.userId = true
  notExempted : services.isExempted owner.packageName = false
  requests : ∃ info, services.packageInfo owner = some info ∧
    ∃ permission ∈ info.requestedPermissions, Permission.usageGroup? permission = some group

variable {services : Services} {group : PermissionGroup} {owner : PackageUser}

/-- A profile is hidden only while it is quiet, and not even then if it is to be shown. -/
theorem mem_visibleProfiles_iff {user : UInt32} :
    user ∈ services.visibleProfiles ↔ user ∈ services.profiles ∧
      (services.isQuiet user = false ∨ services.showsWhenQuiet user = true) := by
  rw [visibleProfiles, List.mem_filter, shows, Bool.or_eq_true, Bool.not_eq_true']

/-- A package requests a group by some permission that counts for its usage history. -/
theorem requests_iff : services.requests group owner = true ↔
    ∃ info, services.packageInfo owner = some info ∧
      ∃ permission ∈ info.requestedPermissions, Permission.usageGroup? permission = some group := by
  unfold requests PackageInfo.requests
  simp only [Option.any_eq_true, List.any_eq_true, decide_eq_true_eq]

/-- The two filters together keep what is to be kept. -/
theorem keeps_iff : services.isVisible owner = true ∧ services.requests group owner = true ↔
    services.Keeps group owner := by
  rw [isVisible, Bool.and_eq_true, List.contains_iff_mem, mem_visibleProfiles_iff,
    Bool.not_eq_true', requests_iff]
  constructor
  · rintro ⟨⟨⟨profile, shown⟩, notExempted⟩, requests⟩
    exact ⟨profile, shown, notExempted, requests⟩
  · rintro ⟨profile, shown, notExempted, requests⟩
    exact ⟨⟨⟨profile, shown⟩, notExempted⟩, requests⟩

instance : Decidable (services.Keeps group owner) := decidable_of_iff _ keeps_iff

end Services

/-! ## Pieces of batches -/

/-- The clusters are the pieces of some batches: they have the accesses of the batches between them,
none is empty, each is in order of time and is a piece of one batch. -/
structure Cuts (batches clusters : List Batch) : Prop where
  perm : (clusters.flatMap (·.accesses)).Perm (batches.flatMap (·.accesses))
  nonempty : ∀ cluster ∈ clusters, cluster.accesses ≠ []
  ordered : ∀ cluster ∈ clusters, cluster.accesses.Pairwise (·.time.toInt ≤ ·.time.toInt)
  piece : ∀ cluster ∈ clusters, ∃ batch ∈ batches, cluster = batch.withAccesses cluster.accesses ∧
    ∀ a ∈ cluster.accesses, a ∈ batch.accesses

namespace Cuts

theorem nil : Cuts [] [] where
  perm := .nil
  nonempty := nofun
  ordered := nofun
  piece := nofun

/-- Cuts of some batches and cuts of others are cuts of both. -/
theorem append {batches clusters batches' clusters' : List Batch} (h : Cuts batches clusters)
    (h' : Cuts batches' clusters') : Cuts (batches ++ batches') (clusters ++ clusters') where
  perm := by
    rw [List.flatMap_append, List.flatMap_append]
    exact h.perm.append h'.perm
  nonempty := List.forall_mem_append.2 ⟨h.nonempty, h'.nonempty⟩
  ordered := List.forall_mem_append.2 ⟨h.ordered, h'.ordered⟩
  piece := by
    refine List.forall_mem_append.2 ⟨fun cluster hcluster => ?_, fun cluster hcluster => ?_⟩
    · obtain ⟨batch, hbatch, hpiece⟩ := h.piece cluster hcluster
      exact ⟨batch, List.mem_append_left _ hbatch, hpiece⟩
    · obtain ⟨batch, hbatch, hpiece⟩ := h'.piece cluster hcluster
      exact ⟨batch, List.mem_append_right _ hbatch, hpiece⟩

end Cuts

namespace Episode

/-- Episodes go one by one with clusters, and each says of its cluster what it should. -/
def Tell (clusters : List Batch) (rows : List Episode) : Prop :=
  List.Forall₂ (fun cluster row => row.Summarizes cluster) clusters rows

/-- The episodes of a batch tell the clusters into which it is cut. -/
theorem cuts_ofBatch {config : Clustering} {batch : Batch} {rows : List Episode}
    (h : ofBatch config batch = .ok rows) :
    ∃ clusters, Cuts [batch] clusters ∧ Tell clusters rows := by
  obtain ⟨parts, hparts, hrows⟩ := ofBatch_eq_ok_iff.1 h
  have hflatten : parts.flatten = Access.sort batch.accesses := Clustering.flatten_split hparts
  have hmem : ∀ part ∈ parts, ∀ a ∈ part, a ∈ batch.accesses := by
    intro part hpart a ha
    rw [← (Access.perm_sort batch.accesses).mem_iff, ← hflatten]
    exact List.mem_flatten_of_mem hpart ha
  have hsorted : parts.flatten.Pairwise (·.time.toInt ≤ ·.time.toInt) :=
    hflatten ▸ Access.pairwise_sort batch.accesses
  refine ⟨parts.map batch.withAccesses, ?_, List.forall₂_map_left_iff.2 (hrows.imp ?_)⟩
  · refine ⟨?_, ?_, ?_, ?_⟩
    · rw [List.flatMap_map, List.flatMap_singleton]
      show (parts.flatMap id).Perm batch.accesses
      rw [List.flatMap_id, hflatten]
      exact Access.perm_sort batch.accesses
    · exact List.forall_mem_map.2 (Clustering.ne_nil_of_mem_split hparts)
    · exact List.forall_mem_map.2 (List.pairwise_flatten.1 hsorted).1
    · exact List.forall_mem_map.2 fun part hpart =>
        ⟨batch, List.mem_singleton_self _, rfl, hmem part hpart⟩
  · exact fun part row hrow => summarizes_ofCluster hrow

theorem cuts_ofBatches {config : Clustering} {batches : List Batch} {rows : List (List Episode)}
    (h : List.Forall₂ (fun batch rows => ofBatch config batch = .ok rows) batches rows) :
    ∃ clusters, Cuts batches clusters ∧ Tell clusters rows.flatten := by
  induction h with
  | nil => exact ⟨[], .nil, .nil⟩
  | cons hbatch _ ih =>
    obtain ⟨first, hfirst, hrow⟩ := cuts_ofBatch hbatch
    obtain ⟨further, hfurther, hrows⟩ := ih
    exact ⟨first ++ further, hfirst.append hfurther, List.rel_append hrow hrows⟩

end Episode

/-! ## What a timeline tells -/

namespace Timeline

variable {timeline : Timeline} {services : Services}

/-- The clusters into which a timeline splits a batch: every access of the batch is in exactly one
of them, none is empty, and all that is known of a cluster besides its accesses follows from its
owner and its accesses. -/
structure Splits (timeline : Timeline) (services : Services) (batch : Batch)
    (clusters : List Batch) : Prop where
  perm : (clusters.flatMap (·.accesses)).Perm batch.accesses
  nonempty : ∀ cluster ∈ clusters, cluster.accesses ≠ []
  ordered : ∀ cluster ∈ clusters, cluster.accesses.Pairwise (·.time.toInt ≤ ·.time.toInt)
  owner : ∀ cluster ∈ clusters, cluster.owner = batch.owner
  isSensitive : ∀ cluster ∈ clusters,
    cluster.isSensitive = services.isSensitive timeline.group batch.owner
  label : ∀ cluster ∈ clusters, ∀ a ∈ cluster.accesses,
    cluster.label = batch.labelFor (services.attribution batch.owner) a

/-- The episodes are those of the kept batches and of no other, batch by batch in their order, and
the episodes of a batch go one by one with clusters into which it is split. -/
def Tells (timeline : Timeline) (services : Services) (batches : List Batch)
    (episodes : List Episode) : Prop :=
  ∃ rows : List (List Episode), episodes = rows.flatten ∧
    List.Forall₂ (fun batch rows => ∃ clusters, timeline.Splits services batch clusters ∧
        List.Forall₂ (fun cluster (row : Episode) => row.Summarizes cluster) clusters rows)
      (batches.filter fun batch => services.Keeps timeline.group batch.owner) rows

/-- Filtering twice is filtering by both conditions. -/
theorem kept_eq_filter (batches : List Batch) : timeline.kept services batches =
    batches.filter fun batch => services.Keeps timeline.group batch.owner := by
  unfold kept
  rw [List.filter_filter]
  refine List.filter_congr fun batch _ => ?_
  rw [Bool.eq_iff_iff, Bool.and_eq_true, decide_eq_true_eq, ← Services.keeps_iff]
  exact and_comm

def parts (timeline : Timeline) (services : Services) (batch : Batch) : List Batch :=
  (timeline.classify services batch).byLabel (services.attribution batch.owner)

/-- What is clustered are the parts of the kept batches, batch by batch. -/
theorem attributed_eq_flatMap (batches : List Batch) :
    timeline.attributed services batches =
      (timeline.kept services batches).flatMap (timeline.parts services) :=
  List.flatMap_map ..

/-- What is cut from the parts of a batch splits the batch. -/
theorem splits_of_cuts {batch : Batch} {clusters : List Batch}
    (h : Cuts (timeline.parts services batch) clusters) :
    timeline.Splits services batch clusters := by
  have hpiece : ∀ cluster ∈ clusters, cluster.owner = batch.owner ∧
      cluster.isSensitive = services.isSensitive timeline.group batch.owner ∧
      ∀ a ∈ cluster.accesses,
        cluster.label = batch.labelFor (services.attribution batch.owner) a := by
    intro cluster hcluster
    obtain ⟨part, hpart, heq, hsubset⟩ := h.piece cluster hcluster
    obtain ⟨howner, hsensitive, hlabel⟩ := Batch.of_mem_byLabel hpart
    rw [heq]
    exact ⟨howner, hsensitive, fun a ha => (hlabel a (hsubset a ha)).2⟩
  exact {
    perm := h.perm.trans (Batch.perm_byLabel _ _)
    nonempty := h.nonempty
    ordered := h.ordered
    owner := fun cluster hcluster => (hpiece cluster hcluster).1
    isSensitive := fun cluster hcluster => (hpiece cluster hcluster).2.1
    label := fun cluster hcluster => (hpiece cluster hcluster).2.2 }

/-- A timeline is the episodes of its parts, one part after another. -/
theorem compute_eq_ok_iff {batches : List Batch} {episodes : List Episode} :
    timeline.compute services batches = .ok episodes ↔
      ∃ rows, List.Forall₂ (fun part rows => Episode.ofBatch timeline.clustering part = .ok rows)
          (timeline.attributed services batches) rows ∧ episodes = rows.flatten :=
  Episode.ofClusters_allClusters

/-- A computation has a result if no arithmetic on the accesses of a kept batch leaves the 64-bit
range. -/
theorem exists_compute {batches : List Batch}
    (fit : ∀ batch ∈ batches, services.Keeps timeline.group batch.owner →
      Access.AllFit batch.accesses) :
    ∃ episodes, timeline.compute services batches = .ok episodes := by
  have hrows : ∀ part ∈ timeline.attributed services batches,
      ∃ rows, Episode.ofBatch timeline.clustering part = .ok rows := by
    intro part hpart
    rw [attributed_eq_flatMap, kept_eq_filter] at hpart
    obtain ⟨batch, hbatch, hpart⟩ := List.mem_flatMap.1 hpart
    obtain ⟨hmem, hkeeps⟩ := List.mem_filter.1 hbatch
    obtain ⟨-, -, hsubset⟩ := Batch.of_mem_byLabel hpart
    have hfit := fit batch hmem (of_decide_eq_true hkeeps)
    exact Episode.exists_ofBatch _ (hfit.mono fun a ha => (hsubset a ha).1)
  obtain ⟨rows, hrows⟩ := exists_forall₂ hrows
  exact ⟨rows.flatten, compute_eq_ok_iff.2 ⟨rows, hrows, rfl⟩⟩

/-- **A timeline tells of every access once.** A computation has a result if no arithmetic on the
accesses of a kept batch leaves the 64-bit range, and whenever it has one, the episodes are those of
the kept batches and go one by one with clusters that have every access of a kept batch once. -/
theorem compute_tells (timeline : Timeline) (services : Services) (batches : List Batch) :
    ((∀ batch ∈ batches, services.Keeps timeline.group batch.owner →
        Access.AllFit batch.accesses) →
      ∃ episodes, timeline.compute services batches = .ok episodes) ∧
    ∀ episodes, timeline.compute services batches = .ok episodes →
      timeline.Tells services batches episodes := by
  refine ⟨exists_compute, fun episodes h => ?_⟩
  obtain ⟨all, hall, rfl⟩ := compute_eq_ok_iff.1 h
  rw [attributed_eq_flatMap, kept_eq_filter] at hall
  obtain ⟨rows, hrows, rfl⟩ := forall₂_flatMap_left hall
  refine ⟨rows.map List.flatten, List.flatten_flatten, List.forall₂_map_right_iff.2 ?_⟩
  -- the rows of one batch are those of its parts, one part for each label
  refine hrows.imp fun batch rows hbatch => ?_
  obtain ⟨clusters, hcuts, htell⟩ := Episode.cuts_ofBatches hbatch
  exact ⟨clusters, splits_of_cuts hcuts, htell⟩

/-! ### Two apps

One app requests the camera and shows labels; another has used the camera and requests nothing any
more.
-/

namespace TwoApps

def scanner : PackageUser := ⟨"com.example.scanner", 0⟩

def other : PackageUser := ⟨"com.example.other", 0⟩

def camera : Timeline where
  group := .camera
  features := {}
  ops := [Op.camera, Op.phoneCallCamera]
  ops_eq := historyOps_camera {}

def labels : Attribution where
  userVisible := true
  tagResources := some (.ofList [("front", 1)])
  resourceLabels := some (.ofList [(1, "Front camera")])

def platform : Platform :=
  ((Platform.fresh.install scanner [Permission.camera] false).install other [] false).setAttribution
    scanner labels

/-- A use under the label. -/
def front : Access := { op := Op.camera, time := 0, duration := -1, tag := some "front" }

/-- A use without a label in the next minute. -/
def plain : Access := { op := Op.camera, time := 60000, duration := -1 }

/-- A use through another package much later. -/
def relayed : Access :=
  { op := Op.camera, time := 6000000, duration := 90000,
    proxyPackage := some "com.example.hub", proxyUser := some 10 }

def batches : List Batch :=
  [{ owner := other, accesses := [{ op := Op.camera, time := 0, duration := -1 }] },
   { owner := scanner, accesses := [relayed, front, plain] }]

/-- The uses of the one that requests the camera, by label. -/
def unlabelled : Batch :=
  { owner := scanner, accesses := [relayed, plain], isSensitive := true }

def labelled : Batch :=
  { owner := scanner, accesses := [front], label := some "Front camera", isSensitive := true }

end TwoApps

open TwoApps in
/-- One app keeps three episodes, and the other one none. -/
theorem compute_tells_of_twoApps :
    ∃ episodes, camera.compute platform.toServices batches = .ok episodes ∧ episodes.length = 3 ∧
      camera.Tells platform.toServices batches episodes := by
  obtain ⟨hexists, htells⟩ := compute_tells camera platform.toServices batches
  obtain ⟨episodes, h⟩ := hexists (by decide +kernel)
  have hparts : camera.attributed platform.toServices batches = [unlabelled, labelled] := by
    decide +kernel
  have hunlabelled : Access.sort unlabelled.accesses = [plain, relayed] :=
    (Access.eq_sort_of_perm (by decide +kernel) (by decide +kernel)).symm
  have hlabelled : Access.sort labelled.accesses = [front] :=
    (Access.eq_sort_of_perm (.refl _) (List.pairwise_singleton _ _)).symm
  have hlength : (camera.compute platform.toServices batches).map List.length = .ok 3 := by
    rw [compute, hparts, Clustering.allClusters, List.mapM_cons, List.mapM_cons,
      Clustering.clusters, Clustering.clusters, hunlabelled, hlabelled]
    decide +kernel
  rw [h] at hlength
  exact ⟨episodes, h, Except.ok.inj hlength, htells episodes h⟩

end Timeline

end PermissionUsage
