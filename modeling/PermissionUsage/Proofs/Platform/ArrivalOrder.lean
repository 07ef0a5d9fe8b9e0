import PermissionUsage.Episode.Rows
import PermissionUsage.LastUse.Counts
import PermissionUsage.Proofs.Episode.Order
import PermissionUsage.Proofs.Platform.Reading
/-!
# The order in which accesses arrived does not matter

`Platform.Reordered` says of two platforms that they have the same accesses, which arrived in
another order. Nothing that is computed tells such platforms apart, but for the order of what is
listed: `Reordered.sameResults`. For timelines this is because the loaded batches are alike; for the
dashboard because the same is loaded for every owner (`Reordered.perm_loadLastUses`), and because
counting does not look at the order of what it counts (`DashboardView.countsOf_eq_of_perm`).
-/

namespace PermissionUsage

/-! ## Pages -/

namespace DashboardView

/-- Counting two groups comes to the same in either order. -/
theorem countOne_comm (counts : OrderedMap PermissionGroup Nat) (g g' : PermissionGroup) :
    countOne (countOne counts g) g' = countOne (countOne counts g') g := by
  refine OrderedMap.ext_get? fun k => ?_
  unfold countOne
  simp only [OrderedMap.get?_insert]
  by_cases hg : g = g'
  · rw [hg]
  · by_cases hk : k = g'
    · subst hk
      simp [Ne.symm hg]
    · simp [hg, hk]

/-- So the order of uses has no say in their counts. -/
theorem countsOf_eq_of_perm {uses uses' : List GroupUse} (h : uses.Perm uses') :
    countsOf uses = countsOf uses' :=
  (h.map GroupUse.group).foldl_eq' (fun g _ g' _ counts => countOne_comm counts g g') noUses

/-- The counts and the flag of the dashboard do not depend on the order of the uses. -/
theorem ofUses_eq_of_perm {uses uses' : List GroupUse} (h : uses.Perm uses') (toggles : Toggles)
    (features : Features) (now : Millis) :
    ofUses (.success uses) toggles features now = ofUses (.success uses') toggles features now := by
  refine congrArg (windowStart features toggles.showSevenDays now >>= ·) (funext fun start => ?_)
  have hwindow : (uses.filter (start.toInt < ·.last.toInt)).Perm
      (uses'.filter (start.toInt < ·.last.toInt)) := h.filter _
  show Except.ok (success _ _) = Except.ok (success _ _)
  rw [hwindow.any_eq, countsOf_eq_of_perm (hwindow.filter _)]

end DashboardView

namespace DetailsView

/-- Two pages list the same rows and say the same of system usage, or neither can be made. -/
inductive SameRows : Checked DetailsView → Checked DetailsView → Prop where
  | success {rows rows' : List EpisodeRow} (perm : rows.Perm rows') (containsSystemUsages : Bool) :
    SameRows (.ok (.success rows containsSystemUsages)) (.ok (.success rows' containsSystemUsages))
  | overflow (operation : Overflow) : SameRows (.error operation) (.error operation)

/-- Episodes in another order have the same rows up to order. -/
theorem perm_rows {episodes episodes' : List Episode} (h : episodes.Perm episodes')
    (group : PermissionGroup) (toggles : Toggles) (features : Features) (start : Millis) :
    (rows episodes group toggles features start).Perm
      (rows episodes' group toggles features start) := by
  have hlisted := (h.filter (·.isListed toggles start)).map (·.row group features)
  exact (List.mergeSort_perm _ _).trans (hlisted.trans (List.mergeSort_perm _ _).symm)

theorem sameRows_ofTimeline {episodes episodes' : List Episode} (h : episodes.Perm episodes')
    (group : PermissionGroup) (toggles : Toggles) (features : Features) (now : Millis) :
    SameRows (ofTimeline (.success episodes) group toggles features now)
      (ofTimeline (.success episodes') group toggles features now) := by
  unfold ofTimeline
  cases windowStart features toggles.showSevenDays now with
  | error operation => exact .overflow operation
  | ok start =>
    have hflag : (episodes.any (!·.isSensitive)) = episodes'.any (!·.isSensitive) := h.any_eq
    show SameRows (.ok (.success _ _)) (.ok (.success _ _))
    rw [hflag]
    exact .success (perm_rows h group toggles features start) _

end DetailsView

/-! ## Platforms with the same accesses -/

namespace Platform

/-- The platforms have the same accesses, each in its order, and nothing else tells them apart. -/
structure Reordered (platform other : Platform) : Prop where
  services : platform.toServices = other.toServices
  isUnknown : platform.isUnknown = other.isUnknown
  failure : platform.failure = other.failure
  accesses : platform.accesses.Perm other.accesses

/-- With a fault every read is refused in the same way, whatever accesses there are. -/
theorem source_eq_of_failure {platform : Platform} {error : SourceError}
    (h : platform.failure = some error) :
    platform.source =
      { accesses := fun _ _ _ => .error error, lastUses := fun _ => .error error } := by
  have hrefusal : ∀ op, platform.refusal op = some error := by
    intro op
    rw [refusal, h]
    rfl
  unfold source
  congr 1
  · funext op start stop
    rw [readAccesses, hrefusal]
  · funext op
    rw [readLastUses, hrefusal]

namespace Reordered

variable {platform other : Platform} (h : platform.Reordered other)
include h

/-- What is read is the same up to order. -/
theorem perm_rowsRead (start stop : Millis) (op : String) :
    (platform.rowsRead start stop op).Perm (other.rowsRead start stop op) := by
  unfold rowsRead
  rw [h.isUnknown]
  split
  · exact .nil
  · exact (h.accesses.filter _).map _

/-- The last use by an owner is the same, since the latest of some times is. -/
theorem lastUse?_eq (op : String) (owner : PackageUser) :
    platform.lastUse? op owner = other.lastUse? op owner := by
  have htimes : (platform.timesOf op owner).Perm (other.timesOf op owner) :=
    (h.accesses.filter _).map _
  rw [lastUse?, lastUse?, LastUses.latest?_eq_of_perm htimes]

theorem lastUsesBy_eq (ops : List String) (owner : PackageUser) :
    platform.lastUsesBy ops owner = other.lastUsesBy ops owner := by
  unfold lastUsesBy
  rw [h.isUnknown, funext fun op => h.lastUse?_eq op owner]

/-- The same last uses are loaded for every owner, in the same order of ops. -/
theorem perm_loadLastUses (ops : List String) :
    (mergeLastUses [] (ops.flatMap platform.usesRead)).Perm
      (mergeLastUses [] (ops.flatMap other.usesRead)) := by
  refine perm_of_find?_eq (nodup_loadLastUses ops) (nodup_loadLastUses ops) fun owner => ?_
  rw [find?_loadLastUses, find?_loadLastUses, h.lastUsesBy_eq]

/-- A timeline is the same up to the order of its episodes. -/
theorem sameUpToOrder_timeline (timeline : Timeline) (now : Millis) :
    SameUpToOrder (timeline.loadAndCompute platform.source platform.toServices now)
      (timeline.loadAndCompute other.source other.toServices now) := by
  rw [← h.services]
  cases hfailure : platform.failure with
  | some error =>
    rw [source_eq_of_failure hfailure, source_eq_of_failure (h.failure ▸ hfailure)]
    exact .refl _
  | none =>
    -- reads are answered, and with the same accesses in some order
    have hsame : timeline.SameFrom platform.source other.source :=
      Timeline.sameFrom_of_answers (fun start stop op _ => answers_source hfailure start stop op)
        (fun start stop op _ => answers_source (h.failure ▸ hfailure) start stop op)
        fun start stop op _ => h.perm_rowsRead start stop op
    exact hsame.episodes platform.toServices now

/-- The dashboard is the same up to the order of its uses. -/
theorem sameUpToOrder_dashboard (dashboard : Dashboard) :
    SameUpToOrder (dashboard.loadAndCompute platform.source platform.toServices)
      (dashboard.loadAndCompute other.source other.toServices) := by
  rw [← h.services]
  cases hfailure : platform.failure with
  | some error =>
    rw [source_eq_of_failure hfailure, source_eq_of_failure (h.failure ▸ hfailure)]
    exact .refl _
  | none =>
    have hother := loadAndCompute_dashboard (h.failure ▸ hfailure) dashboard
    rw [← h.services] at hother
    rw [loadAndCompute_dashboard hfailure, hother]
    refine .ok (List.Perm.filter _ (List.Perm.flatMap_right _ ?_))
    exact (h.perm_loadLastUses dashboard.ops).filter _

end Reordered

/-- What is computed from two platforms is the same, but for the order of what is listed. -/
structure SameResults (platform other : Platform) : Prop where
  episodes : ∀ (timeline : Timeline) (now : Millis),
    SameUpToOrder (timeline.loadAndCompute platform.source platform.toServices now)
      (timeline.loadAndCompute other.source other.toServices now)
  details : ∀ (timeline : Timeline) (toggles : Toggles) (now : Millis)
    (episodes episodes' : List Episode),
    timeline.loadAndCompute platform.source platform.toServices now = .ok episodes →
    timeline.loadAndCompute other.source other.toServices now = .ok episodes' →
    DetailsView.SameRows
      (DetailsView.ofTimeline (.success episodes) timeline.group toggles timeline.features now)
      (DetailsView.ofTimeline (.success episodes') timeline.group toggles timeline.features now)
  uses : ∀ dashboard : Dashboard,
    SameUpToOrder (dashboard.loadAndCompute platform.source platform.toServices)
      (dashboard.loadAndCompute other.source other.toServices)
  dashboard : ∀ (dashboard : Dashboard) (toggles : Toggles) (now : Millis)
    (uses uses' : List GroupUse),
    dashboard.loadAndCompute platform.source platform.toServices = .ok uses →
    dashboard.loadAndCompute other.source other.toServices = .ok uses' →
    DashboardView.ofUses (.success uses) toggles dashboard.features now =
      DashboardView.ofUses (.success uses') toggles dashboard.features now

/-- **The order of arrival does not matter.** Platforms with the same accesses, in another order,
have the same timelines, rows of usage details and last uses, each in some order, and the same
dashboard; and without a fault there are results wherever no arithmetic overflows. -/
theorem Reordered.sameResults {platform other : Platform} (h : platform.Reordered other) :
    platform.SameResults other ∧ (platform.failure = none → platform.HasResults) := by
  refine ⟨{
    episodes := h.sameUpToOrder_timeline
    details := fun timeline toggles now episodes episodes' hepisodes hepisodes' => ?_
    uses := h.sameUpToOrder_dashboard
    dashboard := fun dashboard toggles now uses uses' huses huses' => ?_ }, hasResults⟩
  · have hsame := h.sameUpToOrder_timeline timeline now
    rw [hepisodes, hepisodes'] at hsame
    cases hsame with
    | ok perm => exact DetailsView.sameRows_ofTimeline perm _ toggles _ now
  · have hsame := h.sameUpToOrder_dashboard dashboard
    rw [huses, huses'] at hsame
    cases hsame with
    | ok perm => exact DashboardView.ofUses_eq_of_perm perm toggles _ now

/-! ### A tie

Two calls of one app in the same minute differ only in the package through which they were made, and
another app has used the camera as well.
-/

namespace Tie

def dialer : PackageUser := ⟨"com.example.dialer", 0⟩

def scanner : PackageUser := ⟨"com.example.scanner", 0⟩

def arrived : List OwnedAccess :=
  [⟨scanner, { op := Op.camera, time := 660000, duration := -1 }⟩,
   ⟨dialer, { op := Op.camera, time := 600000, duration := 60000,
              proxyPackage := some "com.example.hub", proxyUser := some 0 }⟩,
   ⟨dialer, { op := Op.camera, time := 600000, duration := 60000,
              proxyPackage := some "com.example.bridge", proxyUser := some 10 }⟩]

def platform : Platform :=
  { (Platform.fresh.install dialer [Permission.camera] false).install scanner [Permission.camera]
      false with accesses := arrived }

def reversed : Platform := { platform with accesses := arrived.reverse }

/-- Whose accesses are read, in their order. -/
def owners (platform : Platform) : Except LoadError (List PackageUser) :=
  (platform.source.loadAccesses (Timeline.camera {}).ops 0 90000000).map (·.map (·.owner))

end Tie

open Tie in
/-- Two accesses at one time, whose owners are listed in the order of arrival. -/
theorem sameResults_of_tie :
    Tie.platform.SameResults reversed ∧ Tie.platform.HasResults ∧
      owners Tie.platform = .ok [scanner, dialer] ∧ owners reversed = .ok [dialer, scanner] ∧
      ∃ episodes, (Timeline.camera {}).loadAndCompute Tie.platform.source
        Tie.platform.toServices 90000000 = .ok episodes := by
  have hreordered : Tie.platform.Reordered reversed :=
    ⟨rfl, rfl, rfl, (List.reverse_perm arrived).symm⟩
  obtain ⟨hsame, hresults⟩ := hreordered.sameResults
  have hresults : Tie.platform.HasResults := hresults rfl
  refine ⟨hsame, hresults, by decide +kernel, by decide +kernel, ?_⟩
  have hstart : (Timeline.camera {}).windowStart 90000000 = .ok (-514800000) := by decide +kernel
  exact hresults.episodes (Timeline.camera {}) 90000000 _ hstart fun owner _ =>
    allFit_accessesBy (by decide +kernel) _ _ _ owner

end Platform

end PermissionUsage
