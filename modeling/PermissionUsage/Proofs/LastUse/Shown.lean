import PermissionUsage.Episode.Rows
import PermissionUsage.LastUse.Counts
import PermissionUsage.Proofs.Platform.Reading
/-!
# What the dashboard counts is shown

The dashboard and the usage details are computed along two ways: from the last use of every op, and
from the discrete history of a group's ops. `Dashboard.counts_shown` says that they agree: a package
that the dashboard counts for a group has a row on the usage details page of the group.

* `Dashboard.of_mem_compute`: a use is the last of some op of its group, by an owner whose accesses
  the timeline of the group keeps.
* `Timeline.exists_episode`: an access of an owner whose accesses are kept is in an episode.
* `DashboardView.ofUses_success_eq`: the dashboard counts the uses that are inside the selected
  window and user sensitive, unless system usage is shown.
-/

namespace PermissionUsage

/-! ## Ops of a group -/

/-- An op of the dashboard is in the usage history of its group. -/
theorem exists_historyOps {features : Features} {op : String} {group : PermissionGroup}
    (hop : op ∈ dashboardOps features) (hgroup : groupOfOp op = some group) :
    ∃ ops, group.historyOps features = .ok ops ∧ op ∈ ops := by
  obtain ⟨g, -, hmem⟩ := List.mem_flatMap.1 hop
  cases hops : g.historyOps features with
  | error error => rw [hops] at hmem; cases hmem
  | ok ops =>
    rw [hops] at hmem
    -- the op belongs to one group only
    have hsame := groupOfOp_of_mem_historyOps hops hmem
    obtain rfl := Option.some.inj (hgroup.symm.trans hsame)
    exact ⟨ops, hops, hmem⟩

/-- A group with a usage history has a timeline. -/
theorem Timeline.ofGroup_eq_ok {group : PermissionGroup} {features : Features} {ops : List String}
    (h : group.historyOps features = .ok ops) :
    Timeline.ofGroup group features = .ok { group, features, ops, ops_eq := h } := by
  unfold ofGroup
  split
  · next ops' h' =>
    obtain rfl := Except.ok.inj (h.symm.trans h')
    rfl
  · next error h' => cases h.symm.trans h'

/-! ## The selected window -/

/-- The length of the window that a user selected. -/
def selectedWindow (features : Features) (showSevenDays : Bool) : Millis :=
  if features.sevenDayToggle && showSevenDays then 604800000 else Millis.oneDay

/-- The selected window starts at the epoch at the earliest. -/
theorem toInt_windowStart {features : Features} {showSevenDays : Bool} {now start : Millis}
    (h : windowStart features showSevenDays now = .ok start) :
    start.toInt = max 0 (now.toInt - (selectedWindow features showSevenDays).toInt) := by
  obtain ⟨t, ht, h⟩ := bind_eq_ok_iff.1 h
  obtain rfl := Except.ok.inj h
  rw [Millis.toInt_later, Millis.sub_eq_ok_iff.1 ht]
  rfl

/-- No window is of negative length. -/
theorem selectedWindow_nonneg (features : Features) (showSevenDays : Bool) :
    0 ≤ (selectedWindow features showSevenDays).toInt := by
  unfold selectedWindow
  split <;> decide

/-- The history window is a day or a week. -/
theorem historyWindow_nonneg (features : Features) : 0 ≤ features.historyWindow.toInt := by
  unfold Features.historyWindow
  split <;> decide

/-- No window that ends after the epoch starts too early. -/
theorem exists_sub_of_nonneg {now window : Millis} (hnow : 0 ≤ now.toInt)
    (hwindow : 0 ≤ window.toInt) : ∃ t, now.sub window = .ok t := by
  have hlow := now.toInt_lt
  have hhigh := window.toInt_lt
  exact Millis.exists_sub_eq_ok_iff.2 ⟨by omega, by omega⟩

/-- After the epoch the selected window always starts somewhere. -/
theorem exists_windowStart {features : Features} (showSevenDays : Bool) {now : Millis}
    (hnow : 0 ≤ now.toInt) : ∃ start, windowStart features showSevenDays now = .ok start := by
  obtain ⟨t, ht⟩ := exists_sub_of_nonneg hnow (selectedWindow_nonneg features showSevenDays)
  exact ⟨Millis.later 0 t, bind_eq_ok_iff.2 ⟨t, ht, rfl⟩⟩

/-! ## Counts -/

/-- The use is counted: it is inside the window and user sensitive, or system usage is shown. -/
def GroupUse.isCounted (use : GroupUse) (toggles : Toggles) (start : Millis) : Bool :=
  start.toInt < use.last.toInt ∧ (toggles.showSystem ∨ use.isSensitive)

/-- The dashboard counts the uses that are counted, group by group. -/
theorem DashboardView.ofUses_success_eq {uses : List GroupUse} {toggles : Toggles}
    {features : Features} {now start : Millis}
    (hstart : windowStart features toggles.showSevenDays now = .ok start) :
    DashboardView.ofUses (.success uses) toggles features now =
      .ok (.success (uses.any fun use => start.toInt < use.last.toInt && !use.isSensitive)
        (countsOf (uses.filter (·.isCounted toggles start)))) := by
  unfold ofUses
  rw [hstart]
  show Except.ok (success _ (countsOf _)) = _
  rw [List.any_filter, List.filter_filter]
  refine congrArg (fun counted => Except.ok (success _ (countsOf counted))) ?_
  refine List.filter_congr fun use _ => ?_
  simp [GroupUse.isCounted, Bool.and_comm]

/-! ## Uses of groups -/

/-- An owner has one use of each group that it used. -/
theorem LastUses.mem_groupUses_iff {item : LastUses} {ops : List String}
    {sensitive : PermissionGroup → Bool} {use : GroupUse} :
    use ∈ item.groupUses ops sensitive ↔ use.owner = item.owner ∧
      item.lastOf ops use.group = some use.last ∧ use.isSensitive = sensitive use.group := by
  unfold groupUses
  rw [List.mem_filterMap]
  constructor
  · rintro ⟨group, -, huse⟩
    obtain ⟨last, hlast, huse⟩ := Option.bind_eq_some_iff.1 huse
    obtain rfl := Option.some.inj huse
    exact ⟨rfl, hlast, rfl⟩
  · rintro ⟨howner, hlast, hsensitive⟩
    refine ⟨use.group, PermissionGroup.mem_all _, Option.bind_eq_some_iff.2 ⟨_, hlast, ?_⟩⟩
    rw [← howner, ← hsensitive]
    rfl

/-- A use of a group is the last one of an owner whose accesses the timeline of the group keeps. -/
theorem Dashboard.mem_compute_iff {dashboard : Dashboard} {services : Services}
    {uses : List LastUses} {use : GroupUse} :
    use ∈ dashboard.compute services uses ↔ services.Keeps use.group use.owner ∧
      use.isSensitive = services.isSensitive use.group use.owner ∧
      ∃ item ∈ uses, item.owner = use.owner ∧
        item.lastOf dashboard.ops use.group = some use.last := by
  unfold compute
  rw [List.mem_filter, List.mem_flatMap, ← Services.keeps_iff]
  constructor
  · rintro ⟨⟨item, hitem, huse⟩, hrequests⟩
    obtain ⟨hitem, hvisible⟩ := List.mem_filter.1 hitem
    obtain ⟨howner, hlast, hsensitive⟩ := LastUses.mem_groupUses_iff.1 huse
    rw [← howner] at hvisible hsensitive
    exact ⟨⟨hvisible, hrequests⟩, hsensitive, item, hitem, howner.symm, hlast⟩
  · rintro ⟨⟨hvisible, hrequests⟩, hsensitive, item, hitem, howner, hlast⟩
    rw [← howner] at hvisible hsensitive
    exact ⟨⟨item, List.mem_filter.2 ⟨hitem, hvisible⟩,
      LastUses.mem_groupUses_iff.2 ⟨howner.symm, hlast, hsensitive⟩⟩, hrequests⟩

/-- A use of a group is the last use of some op of that group, by an owner whose accesses the
timeline of the group keeps, and it is as user sensitive as the episodes of that timeline are. -/
theorem Dashboard.of_mem_compute {dashboard : Dashboard} {services : Services}
    {uses : List LastUses} {use : GroupUse} (h : use ∈ dashboard.compute services uses) :
    services.Keeps use.group use.owner ∧
      use.isSensitive = services.isSensitive use.group use.owner ∧
      ∃ item ∈ uses, item.owner = use.owner ∧ ∃ opUse ∈ item.uses,
        opUse.op ∈ dashboard.ops ∧ groupOfOp opUse.op = some use.group ∧
          opUse.last = use.last := by
  obtain ⟨hkeeps, hsensitive, item, hitem, howner, hlast⟩ := mem_compute_iff.1 h
  have hmax := (LastUses.latest?_eq_some_iff.1 hlast).1
  obtain ⟨opUse, hopUse, hlatest⟩ := List.mem_map.1 hmax
  obtain ⟨hopUse, hmatches⟩ := List.mem_filter.1 hopUse
  obtain ⟨hop, hgroup⟩ := Bool.and_eq_true_iff.1 hmatches
  exact ⟨hkeeps, hsensitive, item, hitem, howner, opUse, hopUse, List.contains_iff_mem.1 hop,
    of_decide_eq_true hgroup, hlatest⟩

/-! ## Episodes -/

/-- An access of an owner whose accesses are kept is in an episode of that owner, which starts no
later and ends no earlier than the access. -/
theorem Timeline.exists_episode {timeline : Timeline} {services : Services} {batches : List Batch}
    {episodes : List Episode} (h : timeline.compute services batches = .ok episodes)
    {batch : Batch} (hbatch : batch ∈ batches)
    (hkeeps : services.Keeps timeline.group batch.owner) {a : Access} (ha : a ∈ batch.accesses) :
    ∃ episode ∈ episodes, episode.owner = batch.owner ∧
      episode.isSensitive = services.isSensitive timeline.group batch.owner ∧
      episode.start.toInt ≤ a.time.toInt ∧ a.stop ≤ episode.finish.toInt + 60000 := by
  obtain ⟨rows, hrows, rfl⟩ := compute_eq_ok_iff.1 h
  -- the access is in a part under one label, and there in one cluster
  obtain ⟨part, hpart, hapart⟩ : ∃ part ∈ timeline.parts services batch, a ∈ part.accesses := by
    have hperm : ((timeline.parts services batch).flatMap (·.accesses)).Perm batch.accesses :=
      Batch.perm_byLabel _ _
    exact List.mem_flatMap.1 (hperm.mem_iff.2 ha)
  have hattributed : part ∈ timeline.attributed services batches := by
    rw [attributed_eq_flatMap, kept_eq_filter]
    exact List.mem_flatMap.2
      ⟨batch, List.mem_filter.2 ⟨hbatch, decide_eq_true hkeeps⟩, hpart⟩
  obtain ⟨partRows, hpartRows, hofBatch⟩ := exists_mem_of_forall₂ hrows.flip part hattributed
  obtain ⟨clusters, hcuts, htell⟩ := Episode.cuts_ofBatch hofBatch
  obtain ⟨cluster, hcluster, hacluster⟩ : ∃ cluster ∈ clusters, a ∈ cluster.accesses := by
    have hperm : (clusters.flatMap (·.accesses)).Perm part.accesses := by
      simpa using hcuts.perm
    exact List.mem_flatMap.1 (hperm.mem_iff.2 hapart)
  obtain ⟨episode, hepisode, hsummarizes⟩ := exists_mem_of_forall₂ htell.flip cluster hcluster
  obtain ⟨source, hsource, heq, -⟩ := hcuts.piece cluster hcluster
  obtain rfl := List.mem_singleton.1 hsource
  obtain ⟨howner, hsensitive, -⟩ := Batch.of_mem_byLabel hpart
  have hstart : episode.start.toInt ≤ a.time.toInt :=
    (List.min?_eq_some_iff.1 hsummarizes.start).2 _ (List.mem_map_of_mem hacluster)
  have hstop : a.stop ≤ episode.finish.toInt + 60000 :=
    (List.max?_eq_some_iff.1 hsummarizes.finish).2 _ (List.mem_map_of_mem hacluster)
  refine ⟨episode, List.mem_flatten_of_mem hpartRows hepisode, ?_, ?_, hstart, hstop⟩
  · rw [hsummarizes.owner, heq]
    exact howner
  · rw [hsummarizes.isSensitive, heq]
    exact hsensitive

/-- The details page shows the rows of the selected window. -/
theorem DetailsView.ofTimeline_success_eq {episodes : List Episode} {group : PermissionGroup}
    {toggles : Toggles} {features : Features} {now start : Millis}
    (hstart : windowStart features toggles.showSevenDays now = .ok start) :
    DetailsView.ofTimeline (.success episodes) group toggles features now =
      .ok (.success (rows episodes group toggles features start)
        (episodes.any (!·.isSensitive))) := by
  unfold ofTimeline
  rw [hstart]
  rfl

/-- An episode that is to be listed has its row. -/
theorem DetailsView.mem_rows {episodes : List Episode} {episode : Episode}
    (h : episode ∈ episodes) (group : PermissionGroup) {toggles : Toggles} (features : Features)
    {start : Millis} (hlisted : episode.isListed toggles start = true) :
    episode.row group features ∈ DetailsView.rows episodes group toggles features start := by
  refine (List.mergeSort_perm _ _).mem_iff.2 ?_
  exact List.mem_map_of_mem (List.mem_filter.2 ⟨h, hlisted⟩)

/-! ## The dashboard and the usage details -/

/-- The page has a row of the use's owner that ends no earlier than the use. -/
def GroupUse.IsShownOn (use : GroupUse) (page : Checked DetailsView) : Prop :=
  ∃ rows containsSystemUsages, page = .ok (.success rows containsSystemUsages) ∧
    ∃ row ∈ rows, row.owner = use.owner ∧ use.last.toInt ≤ row.finish.toInt

/-- Every continuous access lasts a minute at least, as the history keeps it. -/
def Platform.KeepsMinutes (platform : Platform) : Prop :=
  ∀ a ∈ platform.accesses, 0 < a.access.duration.toInt → 60000 ≤ a.access.duration.toInt

instance (platform : Platform) : Decidable platform.KeepsMinutes :=
  inferInstanceAs (Decidable (∀ a ∈ platform.accesses, _))

/-- Every access of such a platform stops a minute after its start at the earliest. -/
theorem Platform.KeepsMinutes.le_stop {platform : Platform} (minutes : platform.KeepsMinutes)
    {a : OwnedAccess} (ha : a ∈ platform.accesses) :
    a.access.time.toInt + 60000 ≤ a.access.stop := by
  have hminute : a.access.KeepsMinute := minutes a ha
  have hlast := hminute.time_le_lastMinute
  unfold Access.lastMinute at hlast
  omega

/-- An access that a user has to see: an access of an op of the timeline that the platform knows,
inside the selected window, of an owner whose accesses are kept and not hidden. -/
structure Timeline.Selects (timeline : Timeline) (platform : Platform) (toggles : Toggles)
    (start now : Millis) (a : OwnedAccess) : Prop where
  mem : a ∈ platform.accesses
  op : a.access.op ∈ timeline.ops
  known : platform.isUnknown a.access.op = false
  afterStart : start.toInt < a.access.time.toInt
  beforeNow : a.access.time.toInt < now.toInt
  keeps : platform.Keeps timeline.group a.owner
  shown : toggles.showSystem ∨ platform.isSensitive timeline.group a.owner

/-- The row is of the owner of an access, and the access was made while it lasted. -/
def EpisodeRow.Covers (row : EpisodeRow) (a : OwnedAccess) : Prop :=
  row.owner = a.owner ∧ row.start.toInt ≤ a.access.time.toInt ∧
    a.access.time.toInt ≤ row.finish.toInt

/-- An access that a user has to see has its row, if it is inside the history window. -/
theorem Timeline.Selects.exists_row {platform : Platform} {timeline : Timeline} {toggles : Toggles}
    {start now first : Millis} {a : OwnedAccess}
    (selects : timeline.Selects platform toggles start now a)
    (noFailure : platform.failure = none) (minutes : platform.KeepsMinutes)
    (hfirst : timeline.windowStart now = .ok first) (hkept : first.toInt ≤ a.access.time.toInt)
    {episodes : List Episode}
    (h : timeline.loadAndCompute platform.source platform.toServices now = .ok episodes) :
    ∃ row ∈ DetailsView.rows episodes timeline.group toggles timeline.features start,
      row.Covers a := by
  obtain ⟨batches, hload, hcollects⟩ :=
    Platform.exists_loadAccesses noFailure timeline.ops first now
  have hrow : (a.owner, a.access) ∈ timeline.ops.flatMap (platform.rowsRead first now) :=
    List.mem_flatMap.2 ⟨a.access.op, selects.op, Platform.mem_rowsRead_iff.2
      ⟨selects.known, rfl, hkept, selects.beforeNow, selects.mem⟩⟩
  obtain ⟨batch, hbatch, howner⟩ := (hcollects.owners a.owner).2 ⟨_, hrow, rfl⟩
  have habatch : a.access ∈ batch.accesses := by
    rw [(hcollects.accesses batch hbatch).mem_iff, howner]
    exact mem_accessesBy_iff.2 hrow
  have hcompute : timeline.compute platform.toServices batches = .ok episodes :=
    (loadAndCompute_eq_ok_iff hfirst hload).1 h
  obtain ⟨episode, hepisode, hepisodeOwner, hepisodeSensitive, hbegins, hstop⟩ :=
    exists_episode hcompute hbatch (howner ▸ selects.keeps) habatch
  rw [howner] at hepisodeOwner hepisodeSensitive
  -- the episode covers the minute of the access, so that it ends no earlier
  have hfinish : a.access.time.toInt ≤ episode.finish.toInt := by
    have hminute := minutes.le_stop selects.mem
    omega
  have hlisted : episode.isListed toggles start = true := by
    have hstart := selects.afterStart
    refine decide_eq_true ⟨by omega, ?_⟩
    rw [hepisodeSensitive]
    exact selects.shown
  exact ⟨_, DetailsView.mem_rows hepisode _ _ hlisted, hepisodeOwner, hbegins, hfinish⟩

/-- **What the dashboard counts is shown.** Let a platform have no fault and no continuous access
shorter than a minute, and let the history reach as far back as the selected window. Then the
dashboard counts, group by group, some of the last uses, and every counted use before `now` is
shown: whenever the timeline of its group has a result, the usage details page of the group has a
row of the use's owner that ends no earlier than the use. -/
theorem Dashboard.counts_shown {platform : Platform} (noFailure : platform.failure = none)
    (minutes : platform.KeepsMinutes) (features : Features) (toggles : Toggles) {now : Millis}
    (afterEpoch : 0 ≤ now.toInt)
    (reaches : (selectedWindow features toggles.showSevenDays).toInt ≤
      features.historyWindow.toInt) :
    platform.HasResults ∧ ∃ uses start,
      (Dashboard.mk features).loadAndCompute platform.source platform.toServices = .ok uses ∧
      windowStart features toggles.showSevenDays now = .ok start ∧
      DashboardView.ofUses (.success uses) toggles features now =
        .ok (.success (uses.any fun use => start.toInt < use.last.toInt && !use.isSensitive)
          (DashboardView.countsOf (uses.filter (·.isCounted toggles start)))) ∧
      ∀ use ∈ uses, use.isCounted toggles start → use.last.toInt < now.toInt →
        ∃ timeline first, Timeline.ofGroup use.group features = .ok timeline ∧
          timeline.windowStart now = .ok first ∧
          ∀ episodes,
            timeline.loadAndCompute platform.source platform.toServices now = .ok episodes →
            use.IsShownOn
              (DetailsView.ofTimeline (.success episodes) use.group toggles features now) := by
  obtain ⟨start, hstart⟩ : ∃ start, windowStart features toggles.showSevenDays now = .ok start :=
    exists_windowStart toggles.showSevenDays afterEpoch
  refine ⟨Platform.hasResults noFailure, _, start, Platform.loadAndCompute_dashboard noFailure _,
    hstart, DashboardView.ofUses_success_eq hstart, fun use huse hcounted hbefore => ?_⟩
  obtain ⟨hkeeps, hsensitive, item, hitem, howner, opUse, hopUse, -, hgroup, hlast⟩ :=
    Dashboard.of_mem_compute huse
  obtain ⟨hop, hknown, a, ha, haowner, haop, htime⟩ :=
    Platform.exists_access_of_loadLastUses hitem hopUse
  rw [howner] at haowner
  rw [← haop] at hop hgroup hknown
  rw [hlast] at htime
  obtain ⟨ops, hops, hmem⟩ := exists_historyOps hop hgroup
  let timeline : Timeline := { group := use.group, features, ops, ops_eq := hops }
  obtain ⟨first, hfirst⟩ : ∃ first, timeline.windowStart now = .ok first :=
    exists_sub_of_nonneg afterEpoch (historyWindow_nonneg features)
  refine ⟨timeline, first, Timeline.ofGroup_eq_ok hops, hfirst, fun episodes hepisodes => ?_⟩
  obtain ⟨hinside, hshown⟩ := of_decide_eq_true hcounted
  rw [← htime] at hinside hbefore
  -- the history reaches back to the selected window
  have hwindow : first.toInt ≤ a.access.time.toInt := by
    have hfirstEq : first.toInt = now.toInt - features.historyWindow.toInt :=
      Millis.sub_eq_ok_iff.1 hfirst
    have hstartEq := toInt_windowStart hstart
    omega
  rw [← haowner] at hkeeps hsensitive
  have selects : timeline.Selects platform toggles start now a :=
    ⟨ha, hmem, hknown, hinside, hbefore, hkeeps, hsensitive ▸ hshown⟩
  obtain ⟨row, hrow, hrowOwner, -, hfinish⟩ :=
    selects.exists_row noFailure minutes hfirst hwindow hepisodes
  exact ⟨_, _, DetailsView.ofTimeline_success_eq hstart, row, hrow, hrowOwner.trans haowner,
    htime ▸ hfinish⟩

/-! ### One scan

An app has used the camera once on its own and once in a call, inside the last day.
-/

namespace OneScan

def scanner : PackageUser := ⟨"com.example.scanner", 0⟩

def platform : Platform :=
  (Platform.fresh.install scanner [Permission.camera] false).addAccesses scanner
    [{ op := Op.phoneCallCamera, time := 6000000, duration := 120000 },
     { op := Op.camera, time := 5000000, duration := -1 }]

def now : Millis := 90000000

/-- The use that the dashboard counts. -/
def use : GroupUse := { owner := scanner, group := .camera, last := 6000000, isSensitive := true }

end OneScan

open OneScan in
/-- An app that scanned once is counted, and its scan has a row. -/
theorem Dashboard.counts_shown_of_oneScan :
    (Dashboard.mk {}).loadAndCompute platform.source platform.toServices = .ok [use] ∧
      ∃ timeline episodes, Timeline.ofGroup .camera {} = .ok timeline ∧
        timeline.loadAndCompute platform.source platform.toServices now = .ok episodes ∧
        use.IsShownOn (DetailsView.ofTimeline (.success episodes) .camera {} {} now) := by
  obtain ⟨hresults, uses, start, huses, hstart, -, hshown⟩ :=
    @counts_shown platform rfl (by decide +kernel) {} {} now (by decide) (by decide)
  have hload :
      (Dashboard.mk {}).loadAndCompute platform.source platform.toServices = .ok [use] := by
    decide +kernel
  obtain rfl := Except.ok.inj (hload.symm.trans huses)
  have hcounted : windowStart {} false now = .ok 3600000 := by decide +kernel
  obtain rfl := Except.ok.inj (hcounted.symm.trans hstart)
  obtain ⟨timeline, first, htimeline, hfirst, hpage⟩ :=
    hshown use (List.mem_singleton_self _) (by decide) (by decide)
  obtain ⟨episodes, hepisodes⟩ := hresults.episodes timeline now first hfirst fun owner _ =>
    Platform.allFit_accessesBy (by decide +kernel) _ _ _ owner
  exact ⟨hload, timeline, episodes, htimeline, hepisodes, hpage episodes hepisodes⟩

end PermissionUsage
