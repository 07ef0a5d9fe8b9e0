import PermissionUsage.Proofs.LastUse.Shown
/-!
# The usage details cover the selected window

Two windows decide what a user sees of an op: how far back the discrete history is read, which
depends on the device, and how far back rows are listed, which depends on what the user selected.

* `Timeline.rows_cover`: every access that a user has to see (`Timeline.Selects`) and that lies in
  the history window is covered by a row.
* `Timeline.not_covers_of_shortHistory`: the history window is a condition of its own. A device that
  is not handheld keeps one day of history, also while seven days are selected.
-/

namespace PermissionUsage

namespace Timeline

/-- On a platform without a fault only arithmetic stands between a timeline and its episodes. -/
theorem exists_episodes {platform : Platform} (noFailure : platform.failure = none)
    {timeline : Timeline} {now first : Millis} (hfirst : timeline.windowStart now = .ok first)
    (noOverflow : ∀ operation, timeline.loadAndCompute platform.source platform.toServices now ≠
      .error (.overflow operation)) :
    ∃ episodes,
      timeline.loadAndCompute platform.source platform.toServices now = .ok episodes := by
  obtain ⟨batches, hload, -⟩ := Platform.exists_loadAccesses noFailure timeline.ops first now
  have hresult : timeline.loadAndCompute platform.source platform.toServices now =
      (timeline.compute platform.toServices batches).mapError .overflow :=
    loadAndCompute_of_load hfirst hload
  cases hcompute : timeline.compute platform.toServices batches with
  | error operation =>
    rw [hcompute] at hresult
    exact absurd hresult (noOverflow operation)
  | ok episodes =>
    rw [hcompute] at hresult
    exact ⟨episodes, hresult⟩

/-- **The usage details cover the selected window.** Let a platform have no fault and no continuous
access shorter than a minute, and let no arithmetic overflow. Then the timeline has a result and the
usage details page shows it, and every access that a user has to see is covered by a row of its
owner, as far back as the history is read. -/
theorem rows_cover {platform : Platform} (noFailure : platform.failure = none)
    (minutes : platform.KeepsMinutes) (timeline : Timeline) (toggles : Toggles) {now : Millis}
    (afterEpoch : 0 ≤ now.toInt)
    (noOverflow : ∀ operation, timeline.loadAndCompute platform.source platform.toServices now ≠
      .error (.overflow operation)) :
    ∃ episodes start rows containsSystemUsages,
      timeline.loadAndCompute platform.source platform.toServices now = .ok episodes ∧
      PermissionUsage.windowStart timeline.features toggles.showSevenDays now = .ok start ∧
      DetailsView.ofTimeline (.success episodes) timeline.group toggles timeline.features now =
        .ok (.success rows containsSystemUsages) ∧
      ∀ a, timeline.Selects platform toggles start now a →
        now.toInt - timeline.features.historyWindow.toInt ≤ a.access.time.toInt →
        ∃ row ∈ rows, row.Covers a := by
  obtain ⟨first, hfirst⟩ : ∃ first, timeline.windowStart now = .ok first :=
    exists_sub_of_nonneg afterEpoch (historyWindow_nonneg timeline.features)
  obtain ⟨start, hstart⟩ : ∃ start,
      PermissionUsage.windowStart timeline.features toggles.showSevenDays now = .ok start :=
    exists_windowStart toggles.showSevenDays afterEpoch
  obtain ⟨episodes, hepisodes⟩ := exists_episodes noFailure hfirst noOverflow
  refine ⟨episodes, start, _, _, hepisodes, hstart, DetailsView.ofTimeline_success_eq hstart,
    fun a selects hkept => ?_⟩
  have hfirstEq : first.toInt = now.toInt - timeline.features.historyWindow.toInt :=
    Millis.sub_eq_ok_iff.1 hfirst
  exact selects.exists_row noFailure minutes hfirst (by omega) hepisodes

/-! ### A call three days ago

An app has used the camera in a call of three minutes, and once on its own meanwhile.
-/

namespace EarlierCall

def owner : PackageUser := ⟨"com.example.camera", 0⟩

def meanwhile : OwnedAccess := ⟨owner, { op := Op.camera, time := 604860000, duration := -1 }⟩

def platform : Platform :=
  (Platform.fresh.install owner [Permission.camera] false).addAccesses owner
    [meanwhile.access, { op := Op.phoneCallCamera, time := 604800000, duration := 180000 }]

def week : Toggles := { showSevenDays := true }

def now : Millis := 864000000

theorem selects (features : Features) :
    (camera features).Selects platform week 259200000 now meanwhile where
  mem := by decide
  op := List.mem_cons_self
  known := rfl
  afterStart := by decide
  beforeNow := by decide
  keeps := by
    show platform.Keeps .camera owner
    decide +kernel
  shown := by
    have hsensitive : platform.isSensitive .camera owner := by decide +kernel
    exact .inr hsensitive

end EarlierCall

open EarlierCall in
theorem rows_cover_of_earlierCall :
    ∃ episodes rows containsSystemUsages,
      (camera {}).loadAndCompute platform.source platform.toServices now = .ok episodes ∧
      DetailsView.ofTimeline (.success episodes) .camera week {} now =
        .ok (.success rows containsSystemUsages) ∧
      ∃ row ∈ rows, row.Covers meanwhile := by
  have noOverflow : ∀ operation,
      (camera {}).loadAndCompute platform.source platform.toServices now ≠
        .error (.overflow operation) := by
    intro operation h
    have noFailure : platform.failure = none := rfl
    obtain ⟨episodes, hepisodes⟩ := (Platform.hasResults noFailure).episodes
      (camera {}) now 259200000 rfl fun owner _ =>
        Platform.allFit_accessesBy (by decide +kernel) _ _ _ owner
    cases h.symm.trans hepisodes
  obtain ⟨episodes, start, rows, hidden, hepisodes, hstart, hview, hcover⟩ :=
    @rows_cover platform rfl (by decide +kernel) (camera {}) week now (by decide) noOverflow
  have hweek : PermissionUsage.windowStart {} true now = .ok 259200000 := rfl
  obtain rfl := Except.ok.inj (hweek.symm.trans hstart)
  exact ⟨episodes, rows, hidden, hepisodes, hview, hcover meanwhile (selects {}) (by decide)⟩

/-! ### The same call where one day of history is kept -/

open EarlierCall in
/-- With a history of one day the week has uses that no row shows. -/
theorem not_covers_of_shortHistory :
    platform.failure = none ∧ platform.KeepsMinutes ∧ 0 ≤ now.toInt ∧
      ∃ start rows containsSystemUsages,
        (camera { handheld := false }).loadAndCompute platform.source platform.toServices now =
          .ok [] ∧
        PermissionUsage.windowStart { handheld := false } week.showSevenDays now = .ok start ∧
        DetailsView.ofTimeline (.success []) .camera week { handheld := false } now =
          .ok (.success rows containsSystemUsages) ∧
        (camera { handheld := false }).Selects platform week start now meanwhile ∧
        ¬∃ row ∈ rows, row.Covers meanwhile := by
  refine ⟨rfl, by decide +kernel, by decide, 259200000, [], false, ?_, rfl, ?_, selects _, ?_⟩
  · decide +kernel
  · decide +kernel
  · rintro ⟨row, hrow, -⟩
    cases hrow

end Timeline

end PermissionUsage
