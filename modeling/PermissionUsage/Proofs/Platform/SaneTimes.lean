import Mathlib
import PermissionUsage.Proofs.LastUse.Shown
/-!
# Sane times never overflow

An access has a *sane* time if it begins after the epoch and its end fits 64 bits. On a platform
that has only such accesses no sum and no difference overflows, however close to the ends of the
range they are: not while accesses are rounded, clustered and summarized, and not in a window that
ends after the epoch.

* `Access.allFit_of_sane`: one bound for each end and each distance.
* `Platform.mem_of_loadAccesses`: what is loaded is on the platform, also if reading fails.
* `Platform.neverOverflows`: nothing that is computed of the platform overflows.

Where arithmetic is not checked, because its result always fits, the fields `durations` and `gaps`
say so.
-/

namespace PermissionUsage

namespace Access

/-- The access begins after the epoch, and its end fits 64 bits, also if it is taken to last a
minute. -/
structure IsSane (access : Access) : Prop where
  afterEpoch : 0 ≤ access.time.toInt
  fits : access.time.toInt + max access.duration.toInt 60000 ≤ 9223372036854775807

instance (access : Access) : Decidable access.IsSane :=
  decidable_of_iff (0 ≤ access.time.toInt ∧
      access.time.toInt + max access.duration.toInt 60000 ≤ 9223372036854775807)
    ⟨fun h => ⟨h.1, h.2⟩, fun h => ⟨h.afterEpoch, h.fits⟩⟩

/-- A sane access stops within the range. -/
theorem IsSane.stop_bounds {access : Access} (sane : access.IsSane) :
    0 < access.stop ∧ access.stop ≤ 9223372036854775807 := by
  obtain ⟨hepoch, hfits⟩ := sane
  unfold stop
  split
  · next hcontinuous =>
    have hpositive : 0 < access.duration.toInt := of_decide_eq_true hcontinuous
    omega
  · omega

/-- A sane access is after the epoch, so it can be rounded. -/
theorem IsSane.exists_truncated {access : Access} (sane : access.IsSane) :
    ∃ whole, access.truncated = .ok whole := by
  have hepoch := sane.afterEpoch
  exact exists_truncated_iff.2 (by unfold firstMinute; omega)

/-- The end of a sane access is positive and fits, so its last minute and its distance from any
other start fit as well. -/
theorem allFit_of_sane {accesses : List Access} (sane : ∀ a ∈ accesses, a.IsSane) :
    AllFit accesses := by
  intro a ha
  obtain ⟨hpositive, hfits⟩ := (sane a ha).stop_bounds
  -- the distance to another start is between minus that start and the end
  unfold Millis.Fits lastMinute
  refine ⟨by omega, by omega, fun b hb => ?_⟩
  have hepoch := (sane b hb).afterEpoch
  have hlimit := b.time.toInt_lt
  omega

/-- What is taken off a continuous access to have whole minutes leaves a length of time. -/
theorem fits_wholeMinutes {duration : Millis} (hpositive : 0 < duration.toInt) :
    Millis.Fits (duration.toInt - duration.toInt % 60000) := by
  have hlimit := duration.toInt_lt
  unfold Millis.Fits
  omega

end Access

namespace Millis

/-- Minutes take far less room than milliseconds. -/
theorem minute_bounds (t : Millis) : -153722867280912 ≤ t.minute ∧ t.minute ≤ 153722867280912 := by
  have hlow : (-9223372036854775808 : Int).tdiv 60000 ≤ t.toInt.tdiv 60000 :=
    Int.tdiv_le_tdiv (by decide) t.le_toInt
  have hhigh : t.toInt.tdiv 60000 ≤ (9223372036854775807 : Int).tdiv 60000 :=
    Int.tdiv_le_tdiv (by decide) (Int.le_of_lt_add_one t.toInt_lt)
  exact ⟨hlow, hhigh⟩

/-- So the difference of two minutes always fits. -/
theorem fits_sub_minute (t t' : Millis) : Fits (t.minute - t'.minute) := by
  have hbounds := t.minute_bounds
  have hbounds' := t'.minute_bounds
  unfold Fits
  omega

end Millis

namespace Platform

variable {platform : Platform}

/-- Every access of the platform has a sane time. -/
def HasSaneTimes (platform : Platform) : Prop := ∀ a ∈ platform.accesses, a.access.IsSane

instance (platform : Platform) : Decidable platform.HasSaneTimes :=
  inferInstanceAs (Decidable (∀ a ∈ platform.accesses, _))

/-- What is loaded is on the platform. With a fault nothing is loaded. -/
theorem mem_of_loadAccesses {ops : List String} {start stop : Millis} {batches : List Batch}
    (hload : platform.source.loadAccesses ops start stop = .ok batches) :
    ∀ batch ∈ batches, ∀ a ∈ batch.accesses, ∃ owned ∈ platform.accesses, owned.access = a := by
  intro batch hbatch a ha
  obtain ⟨op, -, found, hread, listed, hlisted, -, ha⟩ :=
    AccessSource.mem_of_loadAccesses hload hbatch ha
  replace hread : platform.readAccesses op start stop = .ok found := hread
  unfold readAccesses at hread
  split at hread
  · cases hread
  · obtain rfl := Except.ok.inj hread
    have hrow : (listed.owner, a) ∈ platform.rowsIn start stop op := by
      apply mem_accessesBy_iff.1
      exact ((platform.collects_accessesOf op start stop).accesses listed hlisted).mem_iff.1 ha
    obtain ⟨owned, howned, heq⟩ := List.mem_map.1 hrow
    exact ⟨owned, (List.mem_filter.1 howned).1, congrArg Prod.snd heq⟩

/-- Nothing that is computed of the platform overflows, and without a fault there is a result. -/
structure NeverOverflows (platform : Platform) (timeline : Timeline) (dashboard : Dashboard)
    (toggles : Toggles) (now : Millis) : Prop where
  truncated : ∀ a ∈ platform.accesses, ∃ whole, a.access.truncated = .ok whole
  durations : ∀ duration : Millis, 0 < duration.toInt →
    Millis.Fits (duration.toInt - duration.toInt % 60000)
  gaps : ∀ t t' : Millis, Millis.Fits (t.minute - t'.minute)
  episodes : ∀ operation,
    timeline.loadAndCompute platform.source platform.toServices now ≠ .error (.overflow operation)
  exists_episodes : platform.failure = none →
    ∃ episodes, timeline.loadAndCompute platform.source platform.toServices now = .ok episodes
  details : ∀ episodes,
    timeline.loadAndCompute platform.source platform.toServices now = .ok episodes →
    ∃ view, DetailsView.ofTimeline (.success episodes) timeline.group toggles timeline.features
      now = .ok view
  uses : ∀ operation,
    dashboard.loadAndCompute platform.source platform.toServices ≠ .error (.overflow operation)
  exists_uses : platform.failure = none →
    ∃ uses, dashboard.loadAndCompute platform.source platform.toServices = .ok uses
  view : ∀ uses, dashboard.loadAndCompute platform.source platform.toServices = .ok uses →
    ∃ view, DashboardView.ofUses (.success uses) toggles dashboard.features now = .ok view

/-- No timeline of a sane platform overflows, whatever else it may fail with. -/
theorem loadAndCompute_ne_overflow (sane : platform.HasSaneTimes) (timeline : Timeline)
    {now : Millis} (afterEpoch : 0 ≤ now.toInt) (operation : Overflow) :
    timeline.loadAndCompute platform.source platform.toServices now ≠
      .error (.overflow operation) := by
  obtain ⟨start, hstart⟩ : ∃ start, timeline.windowStart now = .ok start :=
    exists_sub_of_nonneg afterEpoch (historyWindow_nonneg timeline.features)
  intro hoverflow
  -- a load ends with an error of its own, and what it lists is on the platform
  cases hload : platform.source.loadAccesses timeline.ops start now with
  | error error =>
    unfold Timeline.loadAndCompute Timeline.load at hoverflow
    rw [hstart] at hoverflow
    change ((platform.source.loadAccesses timeline.ops start now).mapError _ >>= _) = _ at hoverflow
    rw [hload] at hoverflow
    cases hoverflow
  | ok batches =>
    have hfit : ∀ batch ∈ batches, platform.Keeps timeline.group batch.owner →
        Access.AllFit batch.accesses := by
      intro batch hbatch _
      refine Access.allFit_of_sane fun a ha => ?_
      obtain ⟨owned, howned, rfl⟩ := mem_of_loadAccesses hload batch hbatch a ha
      exact sane owned howned
    obtain ⟨episodes, hepisodes⟩ := Timeline.exists_compute hfit
    have hresult := (Timeline.loadAndCompute_eq_ok_iff hstart hload).2 hepisodes
    cases hoverflow.symm.trans hresult

/-- The dashboard does no arithmetic that could overflow. -/
theorem loadAndCompute_dashboard_ne_overflow (dashboard : Dashboard) (operation : Overflow) :
    dashboard.loadAndCompute platform.source platform.toServices ≠
      .error (.overflow operation) := by
  unfold Dashboard.loadAndCompute
  cases platform.source.loadLastUses dashboard.ops with
  | error error => exact nofun
  | ok uses => exact nofun

/-- **Sane times never overflow.** -/
theorem neverOverflows (sane : platform.HasSaneTimes) (timeline : Timeline)
    (dashboard : Dashboard) (toggles : Toggles) {now : Millis} (afterEpoch : 0 ≤ now.toInt) :
    platform.NeverOverflows timeline dashboard toggles now := by
  obtain ⟨start, hstart⟩ : ∃ start, timeline.windowStart now = .ok start :=
    exists_sub_of_nonneg afterEpoch (historyWindow_nonneg timeline.features)
  obtain ⟨first, hfirst⟩ :
      ∃ first, windowStart timeline.features toggles.showSevenDays now = .ok first :=
    exists_windowStart toggles.showSevenDays afterEpoch
  obtain ⟨first', hfirst'⟩ :
      ∃ first, windowStart dashboard.features toggles.showSevenDays now = .ok first :=
    exists_windowStart toggles.showSevenDays afterEpoch
  have hfit : Access.AllFit (platform.accesses.map (·.access)) :=
    Access.allFit_of_sane (List.forall_mem_map.2 sane)
  exact {
    truncated := fun a ha => (sane a ha).exists_truncated
    durations := fun duration => Access.fits_wholeMinutes
    gaps := Millis.fits_sub_minute
    episodes := loadAndCompute_ne_overflow sane timeline afterEpoch
    exists_episodes := fun noFailure => (hasResults noFailure).episodes timeline now start hstart
      fun owner _ => allFit_accessesBy hfit _ _ _ owner
    details := fun episodes _ => ⟨_, DetailsView.ofTimeline_success_eq hfirst⟩
    uses := loadAndCompute_dashboard_ne_overflow dashboard
    exists_uses := fun noFailure => (hasResults noFailure).uses dashboard
    view := fun uses _ => ⟨_, DashboardView.ofUses_success_eq hfirst'⟩ }

/-! ### The end of time

A use as long as there is time, and two in the last minute that fits: one without a length, one
shorter than a minute.
-/

namespace EndOfTime

def scanner : PackageUser := ⟨"com.example.scanner", 0⟩

def scans : Platform :=
  (Platform.fresh.install scanner [Permission.camera] false).addAccesses scanner
    [{ op := Op.camera, time := 0, duration := 9223372036854775807 },
     { op := Op.camera, time := 9223372036854715807, duration := -1 },
     { op := Op.phoneCallCamera, time := 9223372036854715807, duration := 59999 }]

/-- The last instant there is. -/
def now : Millis := 9223372036854775807

end EndOfTime

open EndOfTime in
/-- Accesses that end with the last instant there is. -/
theorem neverOverflows_of_endOfTime :
    scans.HasSaneTimes ∧ 0 ≤ now.toInt ∧
      scans.NeverOverflows (Timeline.camera {}) (Dashboard.mk {}) {} now ∧
      ∃ episodes, (Timeline.camera {}).loadAndCompute scans.source scans.toServices now =
          .ok episodes ∧
        episodes.map (fun e => (e.start, e.finish, e.duration)) =
          [(9223372036854715807, 9223372036854715807, 60000)] := by
  have hsane : scans.HasSaneTimes := by decide +kernel
  have hnow : 0 ≤ now.toInt := by decide
  have hnever := neverOverflows hsane (Timeline.camera {}) (Dashboard.mk {}) {} hnow
  obtain ⟨episodes, hepisodes⟩ := hnever.exists_episodes rfl
  refine ⟨hsane, hnow, hnever, episodes, hepisodes, ?_⟩
  have htimes : ((Timeline.camera {}).loadAndCompute scans.source scans.toServices now).map
      (·.map fun e => (e.start, e.finish, e.duration)) =
        .ok [(9223372036854715807, 9223372036854715807, 60000)] := by
    cbv
  rw [hepisodes] at htimes
  exact Except.ok.inj htimes

end Platform

end PermissionUsage
