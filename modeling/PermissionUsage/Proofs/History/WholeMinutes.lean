import Mathlib
import PermissionUsage.Proofs.History.Recorded
import PermissionUsage.Proofs.History.Timelines
/-!
# Episodes of a history last whole minutes

A history rounds what it records. The invariant that this gives is on rows: each begins at a whole
minute, and lasts whole minutes if it has a length (`IsWhole`). It is followed from the rounding to
the episodes:

* `Access.isWhole_of_truncated`: rounding establishes it, before the epoch and for lengths under a
  minute as well.
* `Database.IsRecorded.isWhole`: so it holds of all that a history has, after any run of calls.
* `Database.isWhole_of_mem_accesses`: what a history lists is whole.
* `Episode.isWellFormed_of_summarizes`: an episode of whole accesses begins and ends at whole
  minutes and counts both.
-/

namespace PermissionUsage

/-! ## Whole minutes -/

/-- A use begins at a whole minute and, if it has a length, lasts whole minutes. -/
structure IsWhole (time duration : Millis) : Prop where
  time : 60000 ∣ time.toInt
  duration : 0 < duration.toInt → 60000 ∣ duration.toInt

namespace Access

/-- What is left of a length has no part of a minute, or is no length. -/
theorem dvd_wholeMinutes {duration : Millis} (h : 0 < (wholeMinutes duration).toInt) :
    60000 ∣ (wholeMinutes duration).toInt := by
  unfold wholeMinutes at h ⊢
  split
  · next hpositive =>
    rw [if_pos hpositive] at h
    split
    · have hlimit := duration.toInt_lt
      have hvalue : (Int64.ofInt (duration.toInt - duration.toInt % 60000)).toInt =
          duration.toInt - duration.toInt % 60000 :=
        Int64.toInt_ofInt_of_le (by omega) (by omega)
      rw [hvalue]
      omega
    · next hshort =>
      -- a length under a minute became an instant
      rw [if_neg hshort] at h
      exact absurd h (by decide)
  · next hinstant =>
    rw [if_neg hinstant] at h
    exact absurd h hinstant

/-- Rounding gives whole minutes. -/
theorem isWhole_of_truncated {access whole : Access} (h : access.truncated = .ok whole) :
    IsWhole whole.time whole.duration := by
  unfold truncated at h
  obtain ⟨time, htime, h⟩ := bind_eq_ok_iff.1 h
  obtain rfl := Except.ok.inj h
  refine ⟨?_, dvd_wholeMinutes⟩
  -- the remainder is not negative, so a time before the epoch is rounded down as well
  have hrest : (Int64.ofInt (access.time.toInt % 60000)).toInt = access.time.toInt % 60000 :=
    Int64.toInt_ofInt_of_le (by omega) (by omega)
  have hvalue : time.toInt = access.time.toInt - access.time.toInt % 60000 :=
    hrest ▸ Millis.sub_eq_ok_iff.1 htime
  show 60000 ∣ time.toInt
  omega

/-- Rounding changes nothing that is whole already. -/
theorem truncated_of_isWhole {access : Access} (h : IsWhole access.time access.duration) :
    access.truncated = .ok access := by
  have hrest : access.time.toInt % 60000 = 0 := Int.emod_eq_zero_of_dvd h.time
  have htime : access.time.sub (Int64.ofInt (access.time.toInt % 60000)) = .ok access.time := by
    rw [hrest]
    exact Millis.sub_eq_ok_iff.2 (Int.sub_zero _).symm
  have hduration : wholeMinutes access.duration = access.duration := by
    unfold wholeMinutes
    split
    · next hpositive =>
      -- a length that is not zero and has no part of a minute is a minute at least
      have hminutes := h.duration hpositive
      rw [if_pos (by omega), Int.emod_eq_zero_of_dvd hminutes, Int.sub_zero, Int64.ofInt_toInt]
    · rfl
  unfold truncated
  rw [htime, hduration]
  rfl

/-- A whole access ends at a whole minute, at least one after it began. -/
theorem stop_of_isWhole {access : Access} (h : IsWhole access.time access.duration) :
    60000 ∣ access.stop ∧ access.time.toInt + 60000 ≤ access.stop := by
  have htime := h.time
  unfold stop
  split
  · next hcontinuous =>
    have hpositive : 0 < access.duration.toInt := of_decide_eq_true hcontinuous
    have hduration := h.duration hpositive
    omega
  · omega

end Access

/-! ## Episodes of whole accesses -/

namespace Episode

/-- An episode begins and ends at whole minutes, and its length counts the first and the last one,
so that it is a minute at least. -/
structure IsWellFormed (episode : Episode) : Prop where
  start : 60000 ∣ episode.start.toInt
  finish : 60000 ∣ episode.finish.toInt
  start_le_finish : episode.start.toInt ≤ episode.finish.toInt
  duration : episode.duration.toInt = episode.finish.toInt - episode.start.toInt + 60000
  minute_le_duration : 60000 ≤ episode.duration.toInt

/-- An episode takes its times from its cluster, and a whole cluster gives it whole minutes. -/
theorem isWellFormed_of_summarizes {episode : Episode} {cluster : Batch}
    (h : episode.Summarizes cluster)
    (whole : ∀ a ∈ cluster.accesses, IsWhole a.time a.duration) : episode.IsWellFormed := by
  obtain ⟨first, hfirst, hstart⟩ := List.mem_map.1 (List.min?_mem h.start)
  obtain ⟨last, hlast, hstop⟩ := List.mem_map.1 (List.max?_mem h.finish)
  obtain ⟨-, hlatest⟩ := List.max?_eq_some_iff.1 h.finish
  have hfirstStop : first.stop ≤ episode.finish.toInt + 60000 :=
    hlatest _ (List.mem_map_of_mem hfirst)
  have hfirstWhole := (whole first hfirst).time
  obtain ⟨-, hminute⟩ := Access.stop_of_isWhole (whole first hfirst)
  obtain ⟨hlastWhole, -⟩ := Access.stop_of_isWhole (whole last hlast)
  have hduration := h.duration
  constructor
  · rw [← hstart]
    exact hfirstWhole
  · omega
  · -- the earliest access ends a minute after it began, and no later than the episode
    omega
  · omega
  · omega

end Episode

/-- An episode tells of a cluster of accesses of one of the batches. -/
theorem Timeline.exists_summarized {timeline : Timeline} {services : Services}
    {batches : List Batch} {episodes : List Episode}
    (h : timeline.compute services batches = .ok episodes) {episode : Episode}
    (hepisode : episode ∈ episodes) :
    ∃ batch ∈ batches, ∃ cluster, episode.Summarizes cluster ∧
      ∀ a ∈ cluster.accesses, a ∈ batch.accesses := by
  obtain ⟨all, hall, rfl⟩ := compute_eq_ok_iff.1 h
  obtain ⟨rows, hrows, hepisode⟩ := List.mem_flatten.1 hepisode
  obtain ⟨part, hpart, hbatch⟩ := exists_mem_of_forall₂ hall rows hrows
  rw [attributed_eq_flatMap, kept_eq_filter] at hpart
  -- the episode is of a part with one label, and that part of a kept batch
  obtain ⟨batch, hkept, hpart⟩ := List.mem_flatMap.1 hpart
  obtain ⟨-, -, hlabel⟩ := Batch.of_mem_byLabel hpart
  obtain ⟨clusters, hcuts, htell⟩ := Episode.cuts_ofBatch hbatch
  obtain ⟨cluster, hcluster, hsummarizes⟩ := exists_mem_of_forall₂ htell episode hepisode
  obtain ⟨source, hsource, -, hpiece⟩ := hcuts.piece cluster hcluster
  obtain rfl := List.mem_singleton.1 hsource
  refine ⟨batch, (List.mem_filter.1 hkept).1, cluster, hsummarizes, fun a ha => ?_⟩
  exact (hlabel a (hpiece a ha)).1

/-! ## Whole rows -/

namespace Table

/-- Every recorded access is whole. -/
def IsWhole (table : Table) : Prop :=
  ∀ row ∈ table.rows, PermissionUsage.IsWhole row.time row.duration

variable {table : Table}

/-- What was recorded has been rounded. -/
theorem IsRecorded.isWhole (recorded : table.IsRecorded) : table.IsWhole := by
  intro row hrow
  obtain ⟨owner, access, whole, hround, rfl⟩ := recorded row hrow
  exact Access.isWhole_of_truncated hround

/-- What a table lists is in it. -/
theorem exists_row_of_accesses {op : String} {start stop : Millis} {batches : List Batch}
    (h : table.accesses op start stop = .ok batches) {batch : Batch} (hbatch : batch ∈ batches)
    {a : Access} (ha : a ∈ batch.accesses) :
    ∃ row ∈ table.rows, row.time = a.time ∧ row.duration = a.duration := by
  obtain ⟨owned, howned, h⟩ := bind_eq_ok_iff.1 h
  obtain rfl := Except.ok.inj h
  obtain ⟨entry, hentry, rfl⟩ := List.mem_map.1 hbatch
  obtain ⟨item, hitem, rfl⟩ := List.mem_map.1 ha
  -- the batches are groups of neighbours of what was read, in the order of the rows
  have hmem : item ∈ owned := mem_of_mem_groupNeighbours hentry hitem
  obtain ⟨row, hrow, haccess⟩ := exists_mem_of_forall₂ (mapM_eq_ok_iff.1 howned) item hmem
  refine ⟨row, (List.mem_filter.1 (List.mem_mergeSort.1 hrow)).1, ?_⟩
  -- the user ids are narrowed, the times stay
  obtain ⟨userId, -, haccess⟩ := bind_eq_ok_iff.1 haccess
  obtain ⟨proxyUser, -, haccess⟩ := bind_eq_ok_iff.1 haccess
  obtain rfl := Except.ok.inj haccess
  exact ⟨rfl, rfl⟩

end Table

/-! ## Whole databases -/

namespace Database

/-- A database is of the current version and has whole accesses only. Its worker may have ended. -/
structure IsWhole (database : Database) : Prop where
  version : database.contents.version = currentVersion
  table : database.contents.table.IsWhole

theorem IsRecorded.isWhole {database : Database} (recorded : database.IsRecorded) :
    database.IsWhole := ⟨recorded.version, recorded.table.isWhole⟩

/-- An answer comes from the table. -/
theorem read_of_readOp {α : Type} {database : Database} {op : String}
    {read : Table → Except OutOfRange α} {answer : α}
    (h : database.readOp op read = .ok answer) : read database.contents.table = .ok answer := by
  unfold readOp query at h
  by_cases running : database.isRunning = true
  · rw [if_pos running] at h
    dsimp only at h
    by_cases hop : op ∈ database.contents.table.tracked
    · rw [if_pos hop] at h
      cases hread : read database.contents.table with
      | error error =>
        rw [hread] at h
        cases h
      | ok found =>
        rw [hread] at h
        exact congrArg Except.ok (Except.ok.inj h)
    · rw [if_neg hop] at h
      cases h
  · rw [if_neg running] at h
    cases h

/-- So what is read is whole. -/
theorem isWhole_of_mem_accesses {database : Database} (whole : database.IsWhole) {op : String}
    {start stop : Millis} {batches : List Batch}
    (h : database.source.accesses op start stop = .ok batches) {batch : Batch}
    (hbatch : batch ∈ batches) {a : Access} (ha : a ∈ batch.accesses) :
    PermissionUsage.IsWhole a.time a.duration := by
  rw [source_accesses] at h
  obtain ⟨row, hrow, htime, hduration⟩ :=
    Table.exists_row_of_accesses (read_of_readOp h) hbatch ha
  rw [← htime, ← hduration]
  exact whole.table row hrow

end Database

/-! ## Timelines of a history -/

theorem Database.IsWhole.isWellFormed {database : Database} (whole : database.IsWhole)
    {timeline : Timeline} {services : Services} {now : Millis} {batches : List Batch}
    (hload : timeline.load database.source now = .ok batches) {episodes : List Episode}
    (hcompute : timeline.compute services batches = .ok episodes) :
    ∀ episode ∈ episodes, episode.IsWellFormed := by
  intro episode hepisode
  obtain ⟨start, -, hload⟩ := Timeline.load_eq_ok_iff.1 hload
  obtain ⟨batch, hbatch, cluster, hsummarizes, hcluster⟩ :=
    Timeline.exists_summarized hcompute hepisode
  apply Episode.isWellFormed_of_summarizes hsummarizes
  intro a ha
  obtain ⟨op, -, found, hread, listed, hlisted, -, ha⟩ :=
    AccessSource.mem_of_loadAccesses hload hbatch (hcluster a ha)
  exact database.isWhole_of_mem_accesses whole hread hlisted ha

/-- What a ledger has of an op in a range of time: nothing if the op is not registered. -/
def Ledger.listed (ledger : Ledger) (start stop : Millis) (op : String) :
    List (PackageUser × Access) :=
  if op ∈ ledger.registered then ledger.inRange op start stop else []

theorem Mirrors.answers_listed {ledger : Ledger} {database : Database}
    (mirrors : Mirrors ledger database) (start stop : Millis) (op : String) :
    database.source.Answers start stop op (ledger.listed start stop op) := by
  unfold Ledger.listed
  split
  · next hop => exact mirrors.answers_source hop start stop
  · next hop => exact .inr ⟨(mirrors.behaves.unknownOp_iff op start stop).2 hop, rfl⟩

/-- A history has a timeline if no arithmetic on the live accesses of an owner whose accesses are
kept leaves the 64-bit range. -/
theorem Mirrors.exists_compute {ledger : Ledger} {database : Database}
    (mirrors : Mirrors ledger database) {timeline : Timeline} {services : Services}
    {now start : Millis} (hstart : timeline.windowStart now = .ok start)
    (fit : ∀ owner, services.Keeps timeline.group owner →
      Access.AllFit (accessesBy ledger.live owner)) :
    ∃ batches episodes, timeline.load database.source now = .ok batches ∧
      timeline.compute services batches = .ok episodes := by
  obtain ⟨batches, hload, hcollects⟩ : ∃ batches,
      database.source.loadAccesses timeline.ops start now = .ok batches ∧
        Collects (timeline.ops.flatMap (ledger.listed start now)) batches :=
    AccessSource.exists_loadAccesses fun op _ => mirrors.answers_listed start now op
  have hfit : ∀ batch ∈ batches, services.Keeps timeline.group batch.owner →
      Access.AllFit batch.accesses := by
    intro batch hbatch hkeeps
    refine (fit batch.owner hkeeps).mono fun a ha => ?_
    have hlisted : (batch.owner, a) ∈ timeline.ops.flatMap (ledger.listed start now) :=
      mem_accessesBy_iff.1 (((hcollects.accesses batch hbatch).mem_iff).1 ha)
    obtain ⟨op, -, hrow⟩ := List.mem_flatMap.1 hlisted
    -- an op that is not registered lists nothing, any other lists live accesses
    unfold Ledger.listed at hrow
    split at hrow
    · exact mem_accessesBy_iff.2 (List.mem_filter.1 hrow).1
    · cases hrow
  obtain ⟨episodes, hepisodes⟩ := Timeline.exists_compute hfit
  exact ⟨batches, episodes, Timeline.load_eq_ok_iff.2 ⟨start, hstart, hload⟩, hepisodes⟩

/-- **Episodes of a history last whole minutes.** After any run of calls on a new history a database
is open, and every episode that is computed of what it lists, for any timeline, services and time,
begins and ends at whole minutes and counts the first and the last of them. If rounding does not
overflow in the run, there are such episodes wherever no arithmetic on live accesses overflows. -/
theorem Disk.run_wellFormed (path : String) (calls : List HistoryCall) :
    ∃ database, ((opened path).run calls).current = some (.history, database) ∧
      (∀ (timeline : Timeline) (services : Services) (now : Millis) (batches : List Batch)
        (episodes : List Episode), timeline.load database.source now = .ok batches →
        timeline.compute services batches = .ok episodes →
        ∀ episode ∈ episodes, episode.IsWellFormed) ∧
      (({} : Ledger).AllFit calls → ∀ (timeline : Timeline) (services : Services)
        (now start : Millis), timeline.windowStart now = .ok start →
        (∀ owner, services.Keeps timeline.group owner →
          Access.AllFit (accessesBy (({} : Ledger).run calls).live owner)) →
        ∃ batches episodes, timeline.load database.source now = .ok batches ∧
          timeline.compute services batches = .ok episodes) := by
  have hopened : (opened path).current =
      some (.history, { contents := { version := currentVersion } }) := rfl
  obtain ⟨database, hcurrent, hrecorded⟩ := exists_recorded path calls
  refine ⟨database, hcurrent, fun timeline services now batches episodes hload hcompute =>
    hrecorded.isWhole.isWellFormed hload hcompute, ?_⟩
  intro fits timeline services now start hstart fit
  obtain ⟨mirrored, hmirrored, mirrors⟩ := mirrors_run hopened Mirrors.empty fits
  -- the database that mirrors the ledger is the open one
  obtain ⟨-, rfl⟩ := Prod.mk.inj (Option.some.inj (hcurrent.symm.trans hmirrored))
  exact mirrors.exists_compute hstart fit

/-! ### Before the epoch

A use under a minute that began just before the epoch, a longer one that began in the same minute,
and one that was pruned.
-/

namespace BeforeEpoch

def scanner : PackageUser := ⟨"com.example.scanner", 0⟩

def calls : List HistoryCall :=
  [.register [Op.camera],
   .record scanner [{ op := Op.camera, time := -70000, duration := 59999 },
     { op := Op.camera, time := -61000, duration := 190000 }],
   .record scanner [{ op := Op.camera, time := -99999999, duration := 60000 }],
   .prune (-120000)]

def services : Services := (Platform.fresh.install scanner [Permission.camera] false).toServices

/-- When the episodes begin and end, and how long they are. -/
def spans (disk : Disk) : Option (Except ComputeError (List (Millis × Millis × Millis))) :=
  disk.current.map fun current =>
    ((Timeline.camera {}).loadAndCompute current.2.source services 1).map
      (·.map fun episode => (episode.start, episode.finish, episode.duration))

theorem fits : ({} : Ledger).AllFit calls := by
  refine Ledger.allFit_of_forall (fun owner accesses h a ha => ?_) {}
  simp only [calls, List.mem_cons, HistoryCall.record.injEq, reduceCtorEq, false_or, or_false,
    List.not_mem_nil] at h
  rcases h with ⟨-, rfl⟩ | ⟨-, rfl⟩
  · rcases List.mem_pair.1 ha with rfl | rfl <;> exact ⟨_, rfl⟩
  · obtain rfl := List.mem_singleton.1 ha
    exact ⟨_, rfl⟩

end BeforeEpoch

open BeforeEpoch in
/-- An access before the epoch is rounded down, away from zero. -/
theorem Disk.run_wellFormed_of_beforeEpoch :
    ∃ database batches episodes,
      ((opened "history").run calls).current = some (.history, database) ∧
      (Timeline.camera {}).load database.source 1 = .ok batches ∧
      (Timeline.camera {}).compute services batches = .ok episodes ∧
      (∀ episode ∈ episodes, episode.IsWellFormed) ∧
      episodes.map (fun episode => (episode.start, episode.finish, episode.duration)) =
        [(-120000, 0, 180000)] := by
  obtain ⟨database, hcurrent, hwellFormed, hexists⟩ := run_wellFormed "history" calls
  have hstart : (Timeline.camera {}).windowStart 1 = .ok (-604799999) := by decide +kernel
  have hlive : Access.AllFit ((({} : Ledger).run calls).live.map (·.2)) := by decide +kernel
  obtain ⟨batches, episodes, hload, hcompute⟩ :=
    hexists fits (Timeline.camera {}) services 1 _ hstart fun owner _ =>
      hlive.mono fun a ha => List.mem_map_of_mem (mem_accessesBy_iff.1 ha)
  have hspans : spans ((opened "history").run calls) = some (.ok [(-120000, 0, 180000)]) := by cbv
  rw [spans, hcurrent, Option.map_some, Timeline.loadAndCompute, hload] at hspans
  change some (Except.map _ (Except.mapError _ ((Timeline.camera {}).compute services batches))) =
    _ at hspans
  rw [hcompute] at hspans
  exact ⟨database, batches, episodes, hcurrent, hload, hcompute,
    hwellFormed _ _ _ _ _ hload hcompute, Except.ok.inj (Option.some.inj hspans)⟩

end PermissionUsage
