import PermissionUsage.Proofs.History.Ledger
import PermissionUsage.Proofs.Platform.Reading
/-!
# A history gives the timelines of its accesses

A history that was opened for some features, and into which accesses were recorded, gives the same
timelines as a platform that has the same accesses, rounded to whole minutes, in any order:
`Disk.sameFrom_recorded`. The history lists by owner and time and the platform by arrival, and ops
are unknown to them for different reasons; what they list of an op is the same
(`Mirrors.answers_source`, `Platform.Holds.perm_rowsRead`).
-/

namespace PermissionUsage

/-! ## What was recorded -/

/-- A recording: accesses of one owner. -/
abbrev Recording := PackageUser × List Access

namespace Recording

def call (r : Recording) : HistoryCall := .record r.1 r.2

/-- The accesses of a recording as the history keeps them, each with its owner. -/
def rows (r : Recording) : List (PackageUser × Access) :=
  (r.2.filterMap (·.truncated.toOption)).map (r.1, ·)

end Recording

def keptRows (recordings : List Recording) : List (PackageUser × Access) :=
  recordings.flatMap Recording.rows

/-- Each access is of an op that the dashboard can show under the features, and rounding it does not
overflow. -/
def Recordable (features : Features) (recordings : List Recording) : Prop :=
  ∀ r ∈ recordings, ∀ a ∈ r.2, a.op ∈ dashboardOps features ∧ ∃ whole, a.truncated = .ok whole

/-- A row that is kept comes from a recording. -/
theorem exists_op_of_mem_keptRows {recordings : List Recording} {row : PackageUser × Access}
    (h : row ∈ keptRows recordings) : ∃ r ∈ recordings, ∃ a ∈ r.2, a.op = row.2.op := by
  obtain ⟨r, hr, hrow⟩ := List.mem_flatMap.1 h
  obtain ⟨whole, hwhole, rfl⟩ := List.mem_map.1 hrow
  obtain ⟨a, ha, htruncated⟩ := List.mem_filterMap.1 hwhole
  exact ⟨r, hr, a, ha, (Access.op_of_truncated (toOption_eq_some_iff.1 htruncated)).symm⟩

/-- The ledger of recordings that all succeed. -/
theorem Ledger.run_recordings {ledger : Ledger} {recordings : List Recording}
    (registered : ∀ r ∈ recordings, ∀ a ∈ r.2, a.op ∈ ledger.registered) :
    ledger.run (recordings.map Recording.call) =
      { ledger with live := ledger.live ++ keptRows recordings } := by
  induction recordings generalizing ledger with
  | nil =>
    rw [keptRows, List.flatMap_nil, List.append_nil]
    rfl
  | cons r rest ih =>
    obtain ⟨hr, hrest⟩ := List.forall_mem_cons.1 registered
    have hafter : ledger.after r.call = { ledger with live := ledger.live ++ r.rows } := if_pos hr
    have hrun := @ih (ledger.after r.call) (hafter ▸ hrest)
    show (ledger.after r.call).run (rest.map Recording.call) = _
    rw [hrun, hafter, List.append_assoc]
    rfl

/-! ## The history as a source -/

theorem Lists.collects {rows : List (PackageUser × Access)} {batches : List Batch}
    (h : Lists rows batches) : Collects rows batches where
  nodup := List.pairwise_map.2 (h.ascending.imp PackageUser.Before.ne)
  owners := h.owners
  accesses := h.accesses
  plain := h.plain

/-- What the history lists of an op is what the ledger has of it. -/
theorem Mirrors.answers_source {ledger : Ledger} {database : Database}
    (mirrors : Mirrors ledger database) {op : String} (hop : op ∈ ledger.registered)
    (start stop : Millis) :
    database.source.Answers start stop op (ledger.inRange op start stop) := by
  obtain ⟨batches, hread, hlists⟩ := mirrors.behaves.accesses op start stop hop
  exact .inl ⟨batches, hread, hlists.collects⟩

namespace Disk

/-- A new history that was opened for some features, after some recordings. -/
def recorded (path : String) (features : Features) (recordings : List Recording) : Disk :=
  ((({ path } : Disk).openHistory features).2).run (recordings.map Recording.call)

/-- The database of a new history mirrors the ledger of the ops and the recordings. -/
theorem mirrors_recorded (path : String) {features : Features} {recordings : List Recording}
    (recordable : Recordable features recordings) :
    ∃ database, (recorded path features recordings).current = some (.history, database) ∧
      Mirrors { registered := dashboardOps features, live := keptRows recordings } database := by
  let empty : Database := { contents := { version := currentVersion } }
  have hregistered : Mirrors { registered := dashboardOps features }
      (empty.register (dashboardOps features)).2 := Mirrors.empty.register (dashboardOps features)
  have hopened : (({ path } : Disk).openHistory features).2.current =
      some (.history, (empty.register (dashboardOps features)).2) := rfl
  have hops : ∀ r ∈ recordings, ∀ a ∈ r.2, a.op ∈ dashboardOps features :=
    fun r hr a ha => (recordable r hr a ha).1
  have hfits : Ledger.AllFit { registered := dashboardOps features }
      (recordings.map Recording.call) := by
    refine Ledger.allFit_of_forall (fun owner accesses hmem a ha => ?_) _
    obtain ⟨r, hr, heq⟩ := List.mem_map.1 hmem
    obtain ⟨rfl, rfl⟩ := HistoryCall.record.inj heq
    exact (recordable r hr a ha).2
  obtain ⟨database, hcurrent, mirrors⟩ := mirrors_run hopened hregistered hfits
  rw [Ledger.run_recordings hops] at mirrors
  exact ⟨database, hcurrent, mirrors⟩

end Disk

/-! ## A platform with the same accesses -/

namespace Platform

/-- A platform without a fault has the recorded accesses as the history keeps them, in any order,
and knows their ops. -/
structure Holds (platform : Platform) (recordings : List Recording) : Prop where
  noFailure : platform.failure = none
  known : ∀ r ∈ recordings, ∀ a ∈ r.2, platform.isUnknown a.op = false
  accesses : (platform.accesses.map fun a => (a.owner, a.access)).Perm (keptRows recordings)

/-- The rows of both sources are the same up to order. -/
theorem Holds.perm_rowsRead {platform : Platform} {recordings : List Recording}
    (holds : platform.Holds recordings) (registered : List String) (start stop : Millis)
    (op : String) :
    (platform.rowsRead start stop op).Perm
      (Ledger.inRange { registered, live := keptRows recordings } op start stop) := by
  unfold rowsRead
  cases hunknown : platform.isUnknown op with
  | true =>
    -- an op that the platform does not know was never recorded
    have hnone : Ledger.inRange { registered, live := keptRows recordings } op start stop = [] := by
      refine List.filter_eq_nil_iff.2 fun row hrow hmatches => ?_
      obtain ⟨r, hr, a, ha, hop⟩ := exists_op_of_mem_keptRows hrow
      rw [(of_decide_eq_true hmatches).1] at hop
      rw [← hop, holds.known r hr a ha] at hunknown
      cases hunknown
    rw [hnone]
    exact .nil
  | false =>
    have hrows : platform.rowsIn start stop op =
        (platform.accesses.map fun a => (a.owner, a.access)).filter fun r =>
          r.2.op = op ∧ start.toInt ≤ r.2.time.toInt ∧ r.2.time.toInt < stop.toInt := by
      rw [List.filter_map]
      rfl
    show (platform.rowsIn start stop op).Perm _
    rw [hrows]
    exact holds.accesses.filter _

end Platform

/-- The dashboard needs every op of the groups it shows. -/
theorem mem_dashboardOps {group : PermissionGroup} {features : Features} {ops : List String}
    {op : String} (hops : group.historyOps features = .ok ops) (hop : op ∈ ops) :
    op ∈ dashboardOps features := by
  have hgroup : group ∈ PermissionGroup.dashboard := by
    unfold PermissionGroup.historyOps at hops
    split at hops
    · next h => exact h
    · cases hops
  refine List.mem_flatMap.2 ⟨group, hgroup, ?_⟩
  rw [hops]
  exact hop

/-- **A history gives the timelines of its accesses.** Let accesses of the ops that the dashboard
can show be recorded into a new history. Then a database is open, and it gives every timeline under
the features as a platform gives it that has the same accesses, rounded to whole minutes. -/
theorem Disk.sameFrom_recorded (path : String) {features : Features} {recordings : List Recording}
    (recordable : Recordable features recordings) {platform : Platform}
    (holds : platform.Holds recordings) :
    ∃ database, (recorded path features recordings).current = some (.history, database) ∧
      ∀ timeline : Timeline, timeline.features = features →
        timeline.SameFrom database.source platform.source := by
  obtain ⟨database, hcurrent, mirrors⟩ := mirrors_recorded path recordable
  refine ⟨database, hcurrent, fun timeline hfeatures => ?_⟩
  have hops : ∀ op ∈ timeline.ops, op ∈ dashboardOps features :=
    fun op hop => hfeatures ▸ mem_dashboardOps timeline.ops_eq hop
  exact Timeline.sameFrom_of_answers
    (fun start stop op hop => mirrors.answers_source (hops op hop) start stop)
    (fun start stop op _ => Platform.answers_source holds.noFailure start stop op)
    fun start stop op _ => (holds.perm_rowsRead (dashboardOps features) start stop op).symm

/-! ### Two packages

Two packages use the camera. Their accesses are recorded in the order in which they were made, and
the platform has them in another order.
-/

namespace TwoPackages

def scanner : PackageUser := ⟨"com.example.scanner", 0⟩

def dialer : PackageUser := ⟨"com.example.dialer", 10⟩

def recordings : List Recording :=
  [(scanner, [{ op := Op.camera, time := 90061000, duration := 70000 }]),
   (dialer, [{ op := Op.phoneCallCamera, time := 90000500, duration := 500 },
     { op := Op.camera, time := 90130000, duration := -1 }]),
   (scanner, [{ op := Op.camera, time := 90059999, duration := -1 }])]

def platform : Platform :=
  { Platform.fresh.install scanner [Permission.camera] false with
    accesses :=
      [⟨dialer, { op := Op.camera, time := 90120000, duration := -1 }⟩,
       ⟨scanner, { op := Op.camera, time := 90000000, duration := -1 }⟩,
       ⟨dialer, { op := Op.phoneCallCamera, time := 90000000, duration := -1 }⟩,
       ⟨scanner, { op := Op.camera, time := 90060000, duration := 60000 }⟩] }

/-- All these recordings can be made. -/
theorem recordable : Recordable {} recordings := by
  have hops : ∀ r ∈ recordings, ∀ a ∈ r.2, a.op ∈ dashboardOps {} := by decide +kernel
  have htruncated : ∀ r ∈ recordings, ∀ a ∈ r.2, a.truncated.toOption.isSome := by decide +kernel
  intro r hr a ha
  obtain ⟨whole, hwhole⟩ := Option.isSome_iff_exists.1 (htruncated r hr a ha)
  exact ⟨hops r hr a ha, whole, toOption_eq_some_iff.1 hwhole⟩

/-- The platform has the accesses that were recorded. -/
theorem holds : platform.Holds recordings := ⟨rfl, by decide +kernel, by decide +kernel⟩

end TwoPackages

open TwoPackages in
/-- Two packages, with recordings that were made out of order. -/
theorem Disk.sameFrom_recorded_of_twoPackages :
    ∃ database, (recorded "history" {} recordings).current = some (.history, database) ∧
      (Timeline.camera {}).SameFrom database.source platform.source ∧
      ∃ episodes, (Timeline.camera {}).loadAndCompute database.source platform.toServices
        100000000 = .ok episodes := by
  obtain ⟨database, hcurrent, hsame⟩ := sameFrom_recorded "history" recordable holds
  have hcamera : (Timeline.camera {}).SameFrom database.source platform.source := hsame _ rfl
  have hstart : (Timeline.camera {}).windowStart 100000000 = .ok (-504800000) := by decide +kernel
  obtain ⟨episodes', hepisodes'⟩ := (Platform.hasResults holds.noFailure).episodes
    (Timeline.camera {}) 100000000 _ hstart fun owner _ =>
      Platform.allFit_accessesBy (by decide +kernel) _ _ _ owner
  have hepisodes := hcamera.episodes platform.toServices 100000000
  rw [hepisodes'] at hepisodes
  obtain ⟨episodes, hok, -⟩ := hepisodes.exists_perm
  exact ⟨database, hcurrent, hcamera, episodes, hok⟩

end PermissionUsage
