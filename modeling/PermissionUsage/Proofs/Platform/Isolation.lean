import Mathlib
import PermissionUsage.Proofs.LastUse.Shown
/-!
# One package's history does not show in another's rows

`Platform.AgreeOn` says of two platforms that they know the same of one owner and of the users, and
nothing of anyone else. Nothing that is listed for that owner tells them apart: `isolated`.

The argument has two halves, and each stage of a computation is followed through both:

* Listing and picking out an owner can change places: what is computed of all batches and then
  filtered is computed of the owner's batches alone (`Timeline.compute_filter`,
  `Dashboard.compute_filter`).
* For the owner's batches alone the platforms give the same answers (`AgreeOn.filter_loadAccesses`,
  `Timeline.compute_congr`, `Dashboard.compute_congr`).
-/

namespace PermissionUsage

/-! ## Picking out an owner -/

/-- The episodes of a batch are of its owner. -/
theorem Episode.owner_of_mem_rowsOf {config : Clustering} {batch : Batch} {row : Episode}
    (h : row ∈ rowsOf config batch) : row.owner = batch.owner := by
  cases hrows : ofBatch config batch with
  | error operation =>
    rw [rowsOf, hrows] at h
    cases h
  | ok rows =>
    rw [ofBatch_eq_rowsOf hrows] at h
    obtain ⟨parts, -, hall⟩ := ofBatch_eq_ok_iff.1 hrows
    obtain ⟨part, -, hpart⟩ := exists_mem_of_forall₂ hall row h
    exact (summarizes_ofCluster hpart).owner

/-- The parts of one owner are made from the batches of that owner. -/
theorem Timeline.filter_attributed (timeline : Timeline) (services : Services)
    (batches : List Batch) (owner : PackageUser) :
    (timeline.attributed services batches).filter (·.owner = owner) =
      timeline.attributed services (batches.filter (·.owner = owner)) := by
  have hparts : ∀ batch, ∀ part ∈ timeline.parts services batch, part.owner = batch.owner :=
    fun batch part hpart => (Batch.of_mem_byLabel hpart).1
  rw [attributed_eq_flatMap, attributed_eq_flatMap, filter_flatMap_of_key hparts,
    kept_eq_filter, kept_eq_filter, List.filter_comm]

/-- The episodes of an owner are those that are computed of its batches alone. -/
theorem Timeline.compute_filter {timeline : Timeline} {services : Services} {batches : List Batch}
    {episodes : List Episode} (h : timeline.compute services batches = .ok episodes)
    (owner : PackageUser) :
    timeline.compute services (batches.filter (·.owner = owner)) =
      .ok (episodes.filter (·.owner = owner)) := by
  obtain ⟨hrows, rfl⟩ := compute_eq_ok_iff_rowsOf.1 h
  apply compute_eq_ok_iff_rowsOf.2
  rw [← timeline.filter_attributed]
  -- if no part overflows, none of the owner's parts does
  refine ⟨fun part hpart => hrows part (List.mem_filter.1 hpart).1, ?_⟩
  exact filter_flatMap_of_key (fun batch row => Episode.owner_of_mem_rowsOf) _ owner

/-- The uses of an owner are those that are computed of its last uses alone. -/
theorem Dashboard.compute_filter (dashboard : Dashboard) (services : Services)
    (uses : List LastUses) (owner : PackageUser) :
    (dashboard.compute services uses).filter (·.owner = owner) =
      dashboard.compute services (uses.filter (·.owner = owner)) := by
  have howner : ∀ item : LastUses,
      ∀ use ∈ item.groupUses dashboard.ops (services.isSensitive · item.owner),
        use.owner = item.owner :=
    fun item use huse => (LastUses.mem_groupUses_iff.1 huse).1
  unfold Dashboard.compute
  rw [List.filter_comm, filter_flatMap_of_key howner, List.filter_comm]

/-! ## Services that say the same of an owner -/

/-- Services say the same of the users and of one owner. -/
structure Services.AgreeOn (services other : Services) (owner : PackageUser) : Prop where
  profiles : services.profiles = other.profiles
  isQuiet : services.isQuiet = other.isQuiet
  showsWhenQuiet : services.showsWhenQuiet = other.showsWhenQuiet
  isExempted : services.isExempted owner.packageName = other.isExempted owner.packageName
  packageInfo : services.packageInfo owner = other.packageInfo owner
  attribution : services.attribution owner = other.attribution owner
  permissionFlags : ∀ permission,
    services.permissionFlags permission owner = other.permissionFlags permission owner

section Congruence

variable {services other : Services} {owner : PackageUser} (h : services.AgreeOn other owner)
include h

namespace Services.AgreeOn

/-- Whether an owner is shown depends on what is said of its user and its package. -/
theorem isVisible_eq : services.isVisible owner = other.isVisible owner := by
  -- which profiles are shown is a matter of the users, not of the owner
  have hshows : services.shows = other.shows := by
    funext user
    rw [shows, shows, h.isQuiet, h.showsWhenQuiet]
  rw [isVisible, isVisible, visibleProfiles, visibleProfiles, h.profiles, hshows, h.isExempted]

/-- What a package requests is said of that package alone. -/
theorem requests_eq (group : PermissionGroup) :
    services.requests group owner = other.requests group owner := by
  rw [requests, requests, h.packageInfo]

/-- Whether a use is sensitive is decided by what is said of its owner. -/
theorem isSensitive_eq (group : PermissionGroup) :
    services.isSensitive group owner = other.isSensitive group owner := by
  unfold isSensitive
  simp only [h.packageInfo, h.permissionFlags]

end Services.AgreeOn

/-- Services that say the same of an owner have the same timeline of batches of that owner. -/
theorem Timeline.compute_congr (timeline : Timeline) {batches : List Batch}
    (own : ∀ batch ∈ batches, batch.owner = owner) :
    timeline.compute services batches = timeline.compute other batches := by
  have hkept : timeline.kept services batches = timeline.kept other batches := by
    unfold kept
    rw [List.filter_filter, List.filter_filter]
    refine List.filter_congr fun batch hbatch => ?_
    rw [own batch hbatch, h.isVisible_eq, h.requests_eq]
  -- what is kept is still of the owner, so that it is labelled and judged alike
  have hparts : ∀ batch ∈ timeline.kept other batches,
      timeline.parts services batch = timeline.parts other batch := by
    intro batch hbatch
    rw [kept_eq_filter] at hbatch
    have howner : batch.owner = owner := own batch (List.mem_filter.1 hbatch).1
    unfold parts classify
    rw [howner, h.isSensitive_eq, h.attribution]
  have hattributed : timeline.attributed services batches = timeline.attributed other batches := by
    rw [attributed_eq_flatMap, attributed_eq_flatMap, hkept]
    exact List.flatMap_congr hparts
  unfold compute
  rw [hattributed]

/-- Services that say the same of an owner have the same uses in last uses of that owner. -/
theorem Dashboard.compute_congr (dashboard : Dashboard) {uses : List LastUses}
    (own : ∀ item ∈ uses, item.owner = owner) :
    dashboard.compute services uses = dashboard.compute other uses := by
  have hvisible : uses.filter (services.isVisible ·.owner) =
      uses.filter (other.isVisible ·.owner) := by
    refine List.filter_congr fun item hitem => ?_
    rw [own item hitem, h.isVisible_eq]
  have hgroupUses : ∀ item ∈ uses.filter (other.isVisible ·.owner),
      item.groupUses dashboard.ops (services.isSensitive · item.owner) =
        item.groupUses dashboard.ops (other.isSensitive · item.owner) := by
    intro item hitem
    rw [own item (List.mem_filter.1 hitem).1, funext h.isSensitive_eq]
  unfold Dashboard.compute
  rw [hvisible, List.flatMap_congr hgroupUses]
  refine List.filter_congr fun use huse => ?_
  -- a use is of the owner of the item that it was made from
  obtain ⟨item, hitem, huse⟩ := List.mem_flatMap.1 huse
  rw [(LastUses.mem_groupUses_iff.1 huse).1, own item (List.mem_filter.1 hitem).1, h.requests_eq]

end Congruence

/-! ## Platforms that know the same of an owner -/

namespace Platform

/-- Neither platform has a fault, they know the same ops, they say the same of the users and of one
owner, and that owner's accesses are the same in the same order. All else may differ. -/
structure AgreeOn (platform other : Platform) (owner : PackageUser) : Prop where
  noFailure : platform.failure = none
  noFailure' : other.failure = none
  isUnknown : platform.isUnknown = other.isUnknown
  services : platform.toServices.AgreeOn other.toServices owner
  accesses : platform.accesses.filter (·.owner = owner) = other.accesses.filter (·.owner = owner)

namespace AgreeOn

variable {platform other : Platform} {owner : PackageUser} (h : platform.AgreeOn other owner)
include h

/-- What is made of some of the accesses, one by one, is the same where it is the owner's. -/
theorem filter_map_accesses {α : Type} {ownerOf : α → PackageUser} {make : OwnedAccess → α}
    (keeps : ∀ a, ownerOf (make a) = a.owner) (p : OwnedAccess → Bool) :
    ((platform.accesses.filter p).map make).filter (ownerOf · = owner) =
      ((other.accesses.filter p).map make).filter (ownerOf · = owner) := by
  have hmade : (fun item => decide (ownerOf item = owner)) ∘ make =
      fun a => decide (a.owner = owner) := by
    funext a
    simp [keeps]
  rw [List.filter_map, List.filter_map, hmade, List.filter_comm, h.accesses, List.filter_comm]

/-- Both platforms list the same batches of the owner. -/
theorem filter_batchesRead (start stop : Millis) (op : String) :
    (platform.batchesRead start stop op).filter (·.owner = owner) =
      (other.batchesRead start stop op).filter (·.owner = owner) := by
  unfold batchesRead
  rw [h.isUnknown]
  split
  · rfl
  · -- an owner's batch is merged from that owner's accesses
    show (mergeAll Batch.owner Batch.join [] _).filter _ =
      (mergeAll Batch.owner Batch.join [] _).filter _
    rw [filter_mergeAll Batch.owner_join, filter_mergeAll Batch.owner_join]
    refine congrArg (fun own => (joined Batch.join own).toList) (h.filter_map_accesses ?_ _)
    exact fun a => rfl

theorem filter_usesRead (op : String) :
    (platform.usesRead op).filter (·.owner = owner) =
      (other.usesRead op).filter (·.owner = owner) := by
  unfold usesRead
  rw [h.isUnknown]
  split
  · rfl
  · -- the latest use is a merge as well, of single uses
    rw [lastUsesOf, lastUsesOf, latestByOwner_eq_mergeAll, latestByOwner_eq_mergeAll,
      filter_mergeAll owner_joinLatest, filter_mergeAll owner_joinLatest]
    refine congrArg (fun own => (joined joinLatest own).toList) (h.filter_map_accesses ?_ _)
    exact fun a => rfl

/-- Both platforms load the same batches of the owner. -/
theorem filter_loadAccesses (ops : List String) (start stop : Millis) :
    (mergeBatches [] (ops.flatMap (platform.batchesRead start stop))).filter (·.owner = owner) =
      (mergeBatches [] (ops.flatMap (other.batchesRead start stop))).filter (·.owner = owner) := by
  show (mergeAll Batch.owner Batch.join [] _).filter _ =
    (mergeAll Batch.owner Batch.join [] _).filter _
  rw [filter_mergeAll Batch.owner_join, filter_mergeAll Batch.owner_join, List.filter_flatMap,
    List.filter_flatMap, funext (h.filter_batchesRead start stop)]

theorem filter_loadLastUses (ops : List String) :
    (mergeLastUses [] (ops.flatMap platform.usesRead)).filter (·.owner = owner) =
      (mergeLastUses [] (ops.flatMap other.usesRead)).filter (·.owner = owner) := by
  rw [mergeLastUses, mergeLastUses, filter_mergeAll LastUses.owner_join,
    filter_mergeAll LastUses.owner_join, List.filter_flatMap, List.filter_flatMap,
    funext h.filter_usesRead]

end AgreeOn

/-- Two platforms list the same for an owner: whenever both have a timeline, its episodes of that
owner are the same in the same order, and so are the last uses of groups by that owner. -/
structure ListsSame (platform other : Platform) (owner : PackageUser) : Prop where
  episodes : ∀ (timeline : Timeline) (now : Millis) (episodes episodes' : List Episode),
    timeline.loadAndCompute platform.source platform.toServices now = .ok episodes →
    timeline.loadAndCompute other.source other.toServices now = .ok episodes' →
    episodes.filter (·.owner = owner) = episodes'.filter (·.owner = owner)
  uses : ∀ (dashboard : Dashboard) (uses uses' : List GroupUse),
    dashboard.loadAndCompute platform.source platform.toServices = .ok uses →
    dashboard.loadAndCompute other.source other.toServices = .ok uses' →
    uses.filter (·.owner = owner) = uses'.filter (·.owner = owner)

/-- A timeline of a platform without a fault is computed of what is loaded from it. -/
theorem exists_loaded_of_loadAndCompute {platform : Platform} (noFailure : platform.failure = none)
    {timeline : Timeline} {now : Millis} {episodes : List Episode}
    (h : timeline.loadAndCompute platform.source platform.toServices now = .ok episodes) :
    ∃ start, timeline.windowStart now = .ok start ∧
      timeline.compute platform.toServices
        (mergeBatches [] (timeline.ops.flatMap (platform.batchesRead start now))) =
          .ok episodes := by
  obtain ⟨batches, hload, hcompute⟩ := Timeline.loadAndCompute_eq_ok_iff_exists.1 h
  obtain ⟨start, hstart, hload⟩ := Timeline.load_eq_ok_iff.1 hload
  rw [loadAccesses_eq_ok noFailure] at hload
  obtain rfl := Except.ok.inj hload
  exact ⟨start, hstart, hcompute⟩

/-- So both have the same episodes of the owner. -/
theorem AgreeOn.filter_episodes {platform other : Platform} {owner : PackageUser}
    (h : platform.AgreeOn other owner) {timeline : Timeline} {now : Millis}
    {episodes episodes' : List Episode}
    (hepisodes : timeline.loadAndCompute platform.source platform.toServices now = .ok episodes)
    (hepisodes' : timeline.loadAndCompute other.source other.toServices now = .ok episodes') :
    episodes.filter (·.owner = owner) = episodes'.filter (·.owner = owner) := by
  obtain ⟨start, hstart, hcompute⟩ := exists_loaded_of_loadAndCompute h.noFailure hepisodes
  obtain ⟨start', hstart', hcompute'⟩ := exists_loaded_of_loadAndCompute h.noFailure' hepisodes'
  -- where the window begins depends on the timeline and the time alone
  obtain rfl := Except.ok.inj (hstart.symm.trans hstart')
  have hown : ∀ batch ∈ (mergeBatches [] (timeline.ops.flatMap
      (platform.batchesRead start now))).filter (·.owner = owner), batch.owner = owner :=
    fun batch hbatch => of_decide_eq_true (List.mem_filter.1 hbatch).2
  apply Except.ok.inj
  rw [← Timeline.compute_filter hcompute owner, ← Timeline.compute_filter hcompute' owner,
    Timeline.compute_congr h.services timeline hown, h.filter_loadAccesses]

/-- And both dashboards list the same uses by the owner. -/
theorem AgreeOn.filter_uses {platform other : Platform} {owner : PackageUser}
    (h : platform.AgreeOn other owner) {dashboard : Dashboard} {uses uses' : List GroupUse}
    (huses : dashboard.loadAndCompute platform.source platform.toServices = .ok uses)
    (huses' : dashboard.loadAndCompute other.source other.toServices = .ok uses') :
    uses.filter (·.owner = owner) = uses'.filter (·.owner = owner) := by
  rw [loadAndCompute_dashboard h.noFailure] at huses
  rw [loadAndCompute_dashboard h.noFailure'] at huses'
  obtain rfl := Except.ok.inj huses
  obtain rfl := Except.ok.inj huses'
  have hown : ∀ item ∈ (mergeLastUses [] (dashboard.ops.flatMap platform.usesRead)).filter
      (·.owner = owner), item.owner = owner :=
    fun item hitem => of_decide_eq_true (List.mem_filter.1 hitem).2
  rw [Dashboard.compute_filter, Dashboard.compute_filter,
    Dashboard.compute_congr h.services dashboard hown, h.filter_loadLastUses]

/-- **One package's history does not show in another's rows.** Let two platforms without a fault
know the same of one owner, of the users and of the ops. Then they list the same for that owner,
whatever they know of other packages and of other users of the same package; and both have results
wherever no arithmetic overflows. -/
theorem AgreeOn.isolated {platform other : Platform} {owner : PackageUser}
    (h : platform.AgreeOn other owner) :
    platform.ListsSame other owner ∧ platform.HasResults ∧ other.HasResults := by
  refine ⟨?_, hasResults h.noFailure, hasResults h.noFailure'⟩
  exact {
    episodes := fun timeline now episodes episodes' => h.filter_episodes
    uses := fun dashboard uses uses' => h.filter_uses }

/-! ### Neighbours

The same uses of the camera on a platform that has no others, and between those of another app, of
the same app in a second profile, and of an app that is exempted.
-/

namespace Neighbours

def scanner : PackageUser := ⟨"com.example.scanner", 0⟩

def dialer : PackageUser := ⟨"com.example.dialer", 0⟩

def recorder : PackageUser := ⟨"com.example.recorder", 0⟩

def alone : Platform :=
  ((Platform.fresh.setProfiles [0, 10]).install scanner [Permission.camera] false).addAccesses
    scanner
    [{ op := Op.phoneCallCamera, time := 6000000, duration := 120000 },
     { op := Op.camera, time := 600000, duration := -1 }]

def crowded : Platform :=
  { (((alone.install dialer [Permission.camera] true).install { scanner with userId := 10 }
      [Permission.camera] false).install recorder [Permission.camera] false).exempt
        recorder.packageName with
    accesses :=
      [⟨dialer, { op := Op.camera, time := 60000, duration := 6000000 }⟩,
       ⟨scanner, { op := Op.phoneCallCamera, time := 6000000, duration := 120000 }⟩,
       ⟨{ scanner with userId := 10 }, { op := Op.camera, time := 660000, duration := -1 }⟩,
       ⟨recorder, { op := Op.camera, time := 600000, duration := -1 }⟩,
       ⟨scanner, { op := Op.camera, time := 600000, duration := -1 }⟩] }

def now : Millis := 90000000

/-- How many episodes there are, and how many of the scanner. -/
def counts (platform : Platform) : Except ComputeError (Nat × Nat) :=
  ((Timeline.camera {}).loadAndCompute platform.source platform.toServices now).map fun episodes =>
    (episodes.length, episodes.countP (·.owner = scanner))

end Neighbours

open Neighbours in
/-- A crowded platform and one with the scanner alone. -/
theorem isolated_of_neighbours :
    crowded.AgreeOn alone scanner ∧ counts crowded = .ok (4, 2) ∧ counts alone = .ok (2, 2) ∧
      ∃ episodes episodes',
        (Timeline.camera {}).loadAndCompute crowded.source crowded.toServices now =
          .ok episodes ∧
        (Timeline.camera {}).loadAndCompute alone.source alone.toServices now = .ok episodes' ∧
        episodes.filter (·.owner = scanner) = episodes'.filter (·.owner = scanner) := by
  have hagree : crowded.AgreeOn alone scanner := {
    noFailure := rfl
    noFailure' := rfl
    isUnknown := rfl
    services := ⟨rfl, rfl, rfl, by decide, by decide +kernel, rfl, fun _ => rfl⟩
    accesses := by decide +kernel }
  obtain ⟨hsame, hresults, hresults'⟩ := hagree.isolated
  have hstart : (Timeline.camera {}).windowStart now = .ok (-514800000) := by decide +kernel
  -- neither timeline overflows, so both exist
  obtain ⟨episodes, hepisodes⟩ := hresults.episodes (Timeline.camera {}) now _ hstart
    fun owner _ => allFit_accessesBy (by decide +kernel) _ _ _ owner
  obtain ⟨episodes', hepisodes'⟩ := hresults'.episodes (Timeline.camera {}) now _ hstart
    fun owner _ => allFit_accessesBy (by decide +kernel) _ _ _ owner
  exact ⟨hagree, by cbv, by cbv, episodes, episodes', hepisodes, hepisodes',
    hsame.episodes _ _ _ _ hepisodes hepisodes'⟩

end Platform

end PermissionUsage
