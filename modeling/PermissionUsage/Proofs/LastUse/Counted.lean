import Mathlib.Data.Finset.Card
import PermissionUsage.Proofs.LastUse.Shown
/-!
# The counts of the dashboard are exact

The dashboard reads the last use of every op, joins what it read owner by owner, takes the latest
use of each group, filters, and folds what is left into counts. `Dashboard.counts_exact` says what
comes out of it: for each group the number of owners with an access of the group inside the window.

* `DashboardView.get?_countsOf`: folding counts how often a group occurs.
* `Dashboard.nodup_compute`: no owner is listed twice for a group, whatever ops it used.
* `Platform.exists_use_iff`: an owner is listed with a use after an instant exactly if it has an
  access after that instant.
* `GroupUse.card_owners`: so a count of uses is a number of owners.
-/

namespace PermissionUsage

/-! ## Folding into counts -/

namespace DashboardView

/-- Counting groups one by one counts how often each of them comes up. -/
theorem get?_foldl_countOne (groups : List PermissionGroup)
    (counts : OrderedMap PermissionGroup Nat) (group : PermissionGroup) :
    (groups.foldl countOne counts).get? group =
      if group ∈ groups then some ((counts.get? group).getD 0 + groups.count group)
      else counts.get? group := by
  induction groups generalizing counts with
  | nil => rfl
  | cons first rest ih =>
    rw [List.foldl_cons, ih, countOne, OrderedMap.get?_insert, List.count_cons]
    by_cases hfirst : group = first
    · subst hfirst
      by_cases hrest : group ∈ rest
      · simp [hrest]
        omega
      · simp [hrest, List.count_eq_zero_of_not_mem hrest]
    · simp [hfirst, Ne.symm hfirst]

/-- Before anything is counted, every group of the dashboard has a zero, and other groups have no
entry. -/
theorem get?_noUses (group : PermissionGroup) :
    noUses.get? group = if group ∈ PermissionGroup.dashboard then some 0 else none := by
  cases group <;> rfl

/-- Every dashboard group has a count, and it is the number of its uses. -/
theorem get?_countsOf {uses : List GroupUse}
    (onDashboard : ∀ use ∈ uses, use.group ∈ PermissionGroup.dashboard) (group : PermissionGroup) :
    (countsOf uses).get? group =
      if group ∈ PermissionGroup.dashboard then some (uses.countP (·.group = group)) else none := by
  have hcount : (uses.map (·.group)).count group = uses.countP (·.group = group) := by
    rw [List.count, List.countP_map]
    rfl
  rw [countsOf, get?_foldl_countOne, get?_noUses, hcount]
  by_cases hdashboard : group ∈ PermissionGroup.dashboard
  · by_cases hmem : group ∈ uses.map (·.group)
    · simp [hdashboard, hmem]
    · have hzero : uses.countP (·.group = group) = 0 := by
        rw [← hcount]
        exact List.count_eq_zero_of_not_mem hmem
      simp [hdashboard, hmem, hzero]
  · have hmem : group ∉ uses.map (·.group) := by
      intro h
      obtain ⟨use, huse, rfl⟩ := List.mem_map.1 h
      exact hdashboard (onDashboard use huse)
    rw [if_neg hmem, if_neg hdashboard, if_neg hdashboard]

end DashboardView

/-! ## Uses of groups -/

namespace LastUses

variable {item : LastUses} {ops : List String} {sensitive : PermissionGroup → Bool}

/-- An owner uses a group once: its latest use is the only one that is listed. -/
theorem nodup_groupUses : ((item.groupUses ops sensitive).map (·.group)).Nodup := by
  have hall : PermissionGroup.all.Nodup := by decide
  unfold groupUses
  rw [List.map_filterMap]
  refine hall.filterMap fun group group' found hfound hfound' => ?_
  obtain ⟨use, huse, rfl⟩ := Option.map_eq_some_iff.1 hfound
  obtain ⟨use', huse', hsame⟩ := Option.map_eq_some_iff.1 hfound'
  obtain ⟨last, -, huse⟩ := Option.bind_eq_some_iff.1 huse
  obtain ⟨last', -, huse'⟩ := Option.bind_eq_some_iff.1 huse'
  obtain rfl := Option.some.inj huse
  obtain rfl := Option.some.inj huse'
  exact hsame.symm

end LastUses

namespace Dashboard

variable {dashboard : Dashboard} {services : Services} {uses : List LastUses}

/-- No owner is listed twice for a group, if there is one item for each owner. -/
theorem nodup_compute (distinct : (uses.map (·.owner)).Nodup) :
    ((dashboard.compute services uses).map fun use => (use.owner, use.group)).Nodup := by
  have howners : (uses.filter (services.isVisible ·.owner)).Pairwise (·.owner ≠ ·.owner) :=
    (List.pairwise_map.1 distinct).filter _
  have hlisted : (((uses.filter (services.isVisible ·.owner)).flatMap fun item =>
      item.groupUses dashboard.ops (services.isSensitive · item.owner)).map
        fun use => (use.owner, use.group)).Nodup := by
    rw [List.map_flatMap, List.nodup_flatMap]
    refine ⟨fun item _ => ?_, howners.imp fun {item item'} hne => ?_⟩
    · -- within one item the groups differ
      refine List.Nodup.of_map Prod.snd ?_
      rw [List.map_map]
      exact LastUses.nodup_groupUses
    · -- across items the owners differ
      intro key hkey hkey'
      obtain ⟨use, huse, rfl⟩ := List.mem_map.1 hkey
      obtain ⟨use', huse', hsame⟩ := List.mem_map.1 hkey'
      have howner := (LastUses.mem_groupUses_iff.1 huse).1
      have howner' := (LastUses.mem_groupUses_iff.1 huse').1
      exact hne (howner.symm.trans ((congrArg Prod.fst hsame).symm.trans howner'))
  exact hlisted.sublist (List.filter_sublist.map _)

end Dashboard

/-! ## Accesses behind uses -/

namespace LastUses

/-- The latest of some times is no earlier than each of them. -/
theorem exists_latest? {times : List Millis} {t : Millis} (ht : t ∈ times) :
    ∃ last, latest? times = some last ∧ t.toInt ≤ last.toInt := by
  cases times with
  | nil => cases ht
  | cons first rest => exact ⟨_, rfl, (latest?_eq_some_iff.1 rfl).2 t ht⟩

/-- A use of an op is taken into account for its group. -/
theorem exists_lastOf {item : LastUses} {ops : List String} {use : OpUse} {group : PermissionGroup}
    (huse : use ∈ item.uses) (hop : use.op ∈ ops) (hgroup : groupOfOp use.op = some group) :
    ∃ last, item.lastOf ops group = some last ∧ use.last.toInt ≤ last.toInt := by
  have hmatches : (ops.contains use.op && groupOfOp use.op = some group) = true := by
    simp [hop, hgroup]
  exact exists_latest? (List.mem_map_of_mem (List.mem_filter.2 ⟨huse, hmatches⟩))

end LastUses

namespace Platform

variable {platform : Platform}

/-- Every access of an op that is read is behind a loaded use, which is no earlier. -/
theorem exists_loaded_of_access {ops : List String} {a : OwnedAccess}
    (ha : a ∈ platform.accesses) (hop : a.access.op ∈ ops)
    (hknown : platform.isUnknown a.access.op = false) :
    ∃ item ∈ mergeLastUses [] (ops.flatMap platform.usesRead), item.owner = a.owner ∧
      ∃ use ∈ item.uses, use.op = a.access.op ∧ a.access.time.toInt ≤ use.last.toInt := by
  have htime : a.access.time ∈ platform.timesOf a.access.op a.owner :=
    List.mem_map_of_mem (List.mem_filter.2 ⟨ha, decide_eq_true ⟨rfl, rfl⟩⟩)
  obtain ⟨last, hlast, hle⟩ := LastUses.exists_latest? htime
  let single : LastUses := { owner := a.owner, uses := [{ op := a.access.op, last }] }
  have hsingle : single ∈ platform.lastUsesBy ops a.owner := by
    have hread : a.access.op ∈ ops.filter (!platform.isUnknown ·) :=
      List.mem_filter.2 ⟨hop, by simp [hknown]⟩
    refine List.mem_filterMap.2 ⟨_, hread, ?_⟩
    rw [lastUse?, hlast]
    rfl
  have hfind : (mergeLastUses [] (ops.flatMap platform.usesRead)).find? (·.owner = a.owner) = _ :=
    find?_loadLastUses ops a.owner
  cases hby : platform.lastUsesBy ops a.owner with
  | nil =>
    rw [hby] at hsingle
    cases hsingle
  | cons first rest =>
    -- what is read of the owner is joined, so the use is among the others
    rw [hby, LastUses.addsUp.joined_cons, ← hby] at hfind
    have howner := List.find?_some hfind
    refine ⟨_, List.mem_of_find?_eq_some hfind, of_decide_eq_true howner, ?_⟩
    exact ⟨_, List.mem_flatMap.2 ⟨single, hsingle, List.mem_singleton_self _⟩, rfl, hle⟩

/-- The last uses of groups that are on a platform. -/
def groupUses (platform : Platform) (dashboard : Dashboard) : List GroupUse :=
  dashboard.compute platform.toServices
    (mergeLastUses [] (dashboard.ops.flatMap platform.usesRead))

/-- An owner whose accesses are kept for a group has an access of it after an instant: of an op that
the dashboard reads, that the platform knows and that belongs to the group. -/
structure UsesAfter (platform : Platform) (dashboard : Dashboard) (start : Millis)
    (group : PermissionGroup) (owner : PackageUser) : Prop where
  keeps : platform.Keeps group owner
  access : ∃ a ∈ platform.accesses, a.owner = owner ∧ start.toInt < a.access.time.toInt ∧
    a.access.op ∈ dashboard.ops ∧ platform.isUnknown a.access.op = false ∧
    groupOfOp a.access.op = some group

variable {dashboard : Dashboard} {start : Millis} {group : PermissionGroup} {owner : PackageUser}

/-- The last use of a group by an owner is after an instant if some access is. -/
theorem exists_use_iff :
    (∃ use ∈ platform.groupUses dashboard,
      use.group = group ∧ use.owner = owner ∧ start.toInt < use.last.toInt) ↔
      platform.UsesAfter dashboard start group owner := by
  constructor
  · -- a use is that of some op, and its time is that of an access
    rintro ⟨use, huse, rfl, rfl, hafter⟩
    obtain ⟨hkeeps, -, item, hitem, howner, opUse, hopUse, -, hgroup, hlast⟩ :=
      Dashboard.of_mem_compute huse
    obtain ⟨hop, hknown, a, ha, haowner, haop, htime⟩ := exists_access_of_loadLastUses hitem hopUse
    refine ⟨hkeeps, a, ha, haowner.trans howner, ?_, ?_, ?_, ?_⟩
    · rw [htime, hlast]
      exact hafter
    · rw [haop]
      exact hop
    · rw [haop]
      exact hknown
    · rw [haop]
      exact hgroup
  · -- an access is listed, and the last use of its group is not earlier
    rintro ⟨hkeeps, a, ha, rfl, hafter, hop, hknown, hgroup⟩
    obtain ⟨item, hitem, howner, use, huse, huseOp, hle⟩ := exists_loaded_of_access ha hop hknown
    rw [← huseOp] at hop hgroup
    obtain ⟨last, hlast, hlater⟩ := LastUses.exists_lastOf huse hop hgroup
    refine ⟨⟨a.owner, group, last, platform.isSensitive group a.owner⟩,
      Dashboard.mem_compute_iff.2 ⟨hkeeps, rfl, item, hitem, howner, hlast⟩, rfl, rfl, ?_⟩
    show start.toInt < last.toInt
    omega

/-- A listed use is as sensitive as the services say. -/
theorem isSensitive_of_mem_groupUses {use : GroupUse} (huse : use ∈ platform.groupUses dashboard) :
    use.isSensitive = platform.isSensitive use.group use.owner :=
  (Dashboard.mem_compute_iff.1 huse).2.1

/-- The last use of a group by an owner is counted if some access is after the start of the window
and the owner is shown. -/
theorem exists_counted_iff {toggles : Toggles} :
    (∃ use ∈ (platform.groupUses dashboard).filter (·.isCounted toggles start),
      use.group = group ∧ use.owner = owner) ↔
      platform.UsesAfter dashboard start group owner ∧
        (toggles.showSystem = true ∨ platform.isSensitive group owner = true) := by
  rw [← exists_use_iff]
  constructor
  · rintro ⟨use, hmem, rfl, rfl⟩
    obtain ⟨huse, hcounted⟩ := List.mem_filter.1 hmem
    obtain ⟨hafter, hshown⟩ := of_decide_eq_true hcounted
    rw [isSensitive_of_mem_groupUses huse] at hshown
    exact ⟨⟨use, huse, rfl, rfl, hafter⟩, hshown⟩
  · rintro ⟨⟨use, huse, rfl, rfl, hafter⟩, hshown⟩
    rw [← isSensitive_of_mem_groupUses huse] at hshown
    exact ⟨use, List.mem_filter.2 ⟨huse, decide_eq_true ⟨hafter, hshown⟩⟩, rfl, rfl⟩

/-- Some last use after the start of the window is not user sensitive if some owner has such an
access. -/
theorem any_system_iff :
    (platform.groupUses dashboard).any
          (fun use => start.toInt < use.last.toInt && !use.isSensitive) = true ↔
      ∃ group owner, platform.UsesAfter dashboard start group owner ∧
        platform.isSensitive group owner = false := by
  rw [List.any_eq_true]
  constructor
  · rintro ⟨use, huse, hsystem⟩
    obtain ⟨hafter, hhidden⟩ := Bool.and_eq_true_iff.1 hsystem
    rw [isSensitive_of_mem_groupUses huse, Bool.not_eq_true'] at hhidden
    exact ⟨use.group, use.owner,
      exists_use_iff.1 ⟨use, huse, rfl, rfl, of_decide_eq_true hafter⟩, hhidden⟩
  · rintro ⟨group, owner, huses, hhidden⟩
    obtain ⟨use, huse, rfl, rfl, hafter⟩ := exists_use_iff.2 huses
    rw [← isSensitive_of_mem_groupUses huse] at hhidden
    exact ⟨use, huse, by simp [hafter, hhidden]⟩

end Platform

/-! ## Owners of uses -/

namespace GroupUse

/-- Whose uses of a group are listed. -/
def owners (uses : List GroupUse) (group : PermissionGroup) : Finset PackageUser :=
  ((uses.filter (·.group = group)).map (·.owner)).toFinset

/-- An owner is counted for a group if a use of that group by that owner is listed. -/
theorem mem_owners {uses : List GroupUse} {group : PermissionGroup} {owner : PackageUser} :
    owner ∈ owners uses group ↔ ∃ use ∈ uses, use.group = group ∧ use.owner = owner := by
  simp [owners, and_assoc]

/-- If no owner is listed twice for a group, there are as many owners of the group as uses. -/
theorem card_owners {uses : List GroupUse}
    (distinct : (uses.map fun use => (use.owner, use.group)).Nodup) (group : PermissionGroup) :
    (owners uses group).card = uses.countP (·.group = group) := by
  have hpairs : (uses.filter (·.group = group)).map (fun use => (use.owner, use.group)) =
      ((uses.filter (·.group = group)).map (·.owner)).map (·, group) := by
    rw [List.map_map]
    refine List.map_congr_left fun use huse => ?_
    have hgroup : use.group = group := of_decide_eq_true (List.mem_filter.1 huse).2
    rw [hgroup]
    rfl
  have hdistinct := distinct.sublist
    ((List.filter_sublist (p := fun use => decide (use.group = group))).map _)
  rw [hpairs] at hdistinct
  rw [owners, List.toFinset_card_of_nodup hdistinct.of_map, List.length_map,
    List.countP_eq_length_filter]

end GroupUse

/-! ## The dashboard -/

namespace Dashboard

variable {platform : Platform} {dashboard : Dashboard}

/-- Only groups of the dashboard are listed, since only their ops are read. -/
theorem group_mem_dashboard {use : GroupUse} {services : Services} {uses : List LastUses}
    (huse : use ∈ dashboard.compute services uses) : use.group ∈ PermissionGroup.dashboard := by
  obtain ⟨-, -, -, -, -, opUse, -, hop, hgroup, -⟩ := of_mem_compute huse
  obtain ⟨ops, hops, -⟩ := exists_historyOps hop hgroup
  unfold PermissionGroup.historyOps at hops
  split at hops
  · assumption
  · cases hops

/-- **The counts of the dashboard are exact.** On a platform without a fault the dashboard has a
count for each of its groups and for no other. It is the number of owners that have used the group
inside the window and are user sensitive for it, unless system usage is shown. System usage is
contained if some owner has used some group inside the window without being user sensitive for
it. -/
theorem counts_exact (noFailure : platform.failure = none) (dashboard : Dashboard)
    (toggles : Toggles) {now start : Millis}
    (hstart : windowStart dashboard.features toggles.showSevenDays now = .ok start) :
    ∃ uses containsSystemUsage counts,
      dashboard.loadAndCompute platform.source platform.toServices = .ok uses ∧
      DashboardView.ofUses (.success uses) toggles dashboard.features now =
        .ok (.success containsSystemUsage counts) ∧
      (∀ group, (counts.get? group).isSome ↔ group ∈ PermissionGroup.dashboard) ∧
      (∀ group ∈ PermissionGroup.dashboard, ∃ owners : Finset PackageUser,
        counts.get? group = some owners.card ∧
        ∀ owner, owner ∈ owners ↔ platform.UsesAfter dashboard start group owner ∧
          (toggles.showSystem = true ∨ platform.isSensitive group owner = true)) ∧
      (containsSystemUsage = true ↔ ∃ group owner,
        platform.UsesAfter dashboard start group owner ∧
          platform.isSensitive group owner = false) := by
  let counted := (platform.groupUses dashboard).filter (·.isCounted toggles start)
  have hget : ∀ group, (DashboardView.countsOf counted).get? group =
      if group ∈ PermissionGroup.dashboard then some (counted.countP (·.group = group))
      else none :=
    DashboardView.get?_countsOf fun use huse => group_mem_dashboard (List.mem_filter.1 huse).1
  -- an owner has one use of a group, so counting uses is counting owners
  have hdistinct : (counted.map fun use => (use.owner, use.group)).Nodup := by
    have hall : ((platform.groupUses dashboard).map fun use => (use.owner, use.group)).Nodup :=
      nodup_compute (Platform.nodup_loadLastUses dashboard.ops)
    exact hall.sublist (List.filter_sublist.map _)
  refine ⟨platform.groupUses dashboard, _, _, Platform.loadAndCompute_dashboard noFailure dashboard,
    DashboardView.ofUses_success_eq hstart, fun group => ?_, fun group hgroup => ?_,
    Platform.any_system_iff⟩
  · rw [hget]
    by_cases hgroup : group ∈ PermissionGroup.dashboard
    · simp [hgroup]
    · simp [hgroup]
  · refine ⟨GroupUse.owners counted group, ?_, fun owner => ?_⟩
    · rw [hget, if_pos hgroup, GroupUse.card_owners hdistinct]
    · exact GroupUse.mem_owners.trans Platform.exists_counted_iff

/-! ### Two profiles

One app is installed for two users and has used the camera through two ops; the telecom package has
used it as well, which is not user sensitive.
-/

namespace TwoProfiles

def dialer (user : UInt32) : PackageUser := ⟨"com.example.dialer", user⟩

def telecom : PackageUser := ⟨Services.telecomPackage, 0⟩

def installed : Platform :=
  (((Platform.fresh.setProfiles [0, 10]).install (dialer 0) [Permission.camera] false).install
    (dialer 10) [Permission.camera] false).install telecom [Permission.camera] true

def calls : Platform :=
  ((installed.addAccesses (dialer 0)
      [{ op := Op.camera, time := 6000000, duration := -1 },
       { op := Op.phoneCallCamera, time := 6060000, duration := 120000 },
       { op := Op.camera, time := 7000000, duration := -1 }]).addAccesses (dialer 10)
      [{ op := Op.camera, time := 6000000, duration := -1 }]).addAccesses telecom
      [{ op := Op.phoneCallCamera, time := 6060000, duration := 120000 }]

def now : Millis := 90000000

end TwoProfiles

open TwoProfiles in
/-- An app in two profiles counts twice. -/
theorem counts_exact_of_twoProfiles :
    ∃ uses counts,
      (Dashboard.mk {}).loadAndCompute calls.source calls.toServices = .ok uses ∧
      DashboardView.ofUses (.success uses) {} {} now = .ok (.success true counts) ∧
      counts.toList = [(.camera, 2), (.location, 0), (.microphone, 0)] ∧
      ∃ owners : Finset PackageUser, owners.card = 2 ∧
        ∀ owner, owner ∈ owners ↔
          calls.UsesAfter (Dashboard.mk {}) 3600000 .camera owner ∧
            calls.isSensitive .camera owner = true := by
  have hstart : windowStart {} false now = .ok 3600000 := by decide +kernel
  have noFailure : calls.failure = none := rfl
  obtain ⟨uses, system, counts, huses, hview, -, hcounts, -⟩ :=
    counts_exact noFailure (Dashboard.mk {}) {} hstart
  have hpage : ((Dashboard.mk {}).loadAndCompute calls.source calls.toServices).map
      (fun uses => DashboardView.ofUses (.success uses) {} {} now) =
        .ok (.ok (.success true (.ofList [(.camera, 2), (.location, 0), (.microphone, 0)]))) := by
    decide +kernel
  rw [huses] at hpage
  obtain ⟨rfl, rfl⟩ := DashboardView.success.inj (Except.ok.inj (hview.symm.trans
    (Except.ok.inj hpage)))
  obtain ⟨owners, hcard, howners⟩ := hcounts .camera (by decide)
  have htwo : some 2 = some owners.card := by
    rw [← hcard]
    rfl
  refine ⟨uses, _, huses, hview, rfl, owners, (Option.some.inj htwo).symm, fun owner => ?_⟩
  rw [howners]
  simp

end Dashboard

end PermissionUsage
