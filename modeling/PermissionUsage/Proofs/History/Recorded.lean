import PermissionUsage.Proofs.History.Failures
/-!
# What a history holds was recorded

Whatever is done to a history, each of its rows is that of an access which was rounded when it was
recorded (`Row.IsRecorded`), whether a call succeeded, was refused or ended the worker. What
rounding establishes therefore holds of every row.

* `Database.IsRecorded.call`: every call keeps this, `Disk.isRecorded_run` says it of runs.
* `Table.IsRecorded.exists_rows`: so the rows are accesses with their owners.
* `Database.IsRecorded.exists_mirrors`: and a database whose worker runs mirrors a ledger of them.
-/

namespace PermissionUsage

/-- The row is that of an access, rounded. -/
def Row.IsRecorded (row : Row) : Prop :=
  ∃ (owner : PackageUser) (access whole : Access),
    access.truncated = .ok whole ∧ row = .ofAccess owner whole

/-! ## Tables -/

namespace Table

def IsRecorded (table : Table) : Prop := ∀ row ∈ table.rows, row.IsRecorded

namespace IsRecorded

variable {table next : Table} (recorded : table.IsRecorded)
include recorded

/-- Tracking more ops keeps the rows that there are. -/
theorem registerAll (ops : List String) : (table.registerAll ops).IsRecorded := by
  unfold IsRecorded
  rw [rows_registerAll]
  exact recorded

/-- Pruning keeps some of them. -/
theorem prune (cutoff : Millis) : (table.prune cutoff).IsRecorded :=
  fun row hrow => recorded row (List.mem_filter.1 hrow).1

/-- A row is recorded only of a tracked op and in whole minutes. -/
theorem record {owner : PackageUser} {access : Access} (h : table.record owner access = .ok next) :
    next.IsRecorded := by
  by_cases hop : access.op ∈ table.tracked
  · cases hround : access.truncated with
    | error operation =>
      rw [record_of_overflow owner hop hround] at h
      cases h
    | ok whole =>
      obtain ⟨found, hfound, -, hrows⟩ := record_of_tracked owner hop hround
      obtain rfl := Except.ok.inj (h.symm.trans hfound)
      -- a row was there before, or it is the rounded access
      intro row hrow
      rw [hrows] at hrow
      rcases List.mem_append.1 hrow with hrow | hrow
      · exact recorded row hrow
      · exact ⟨owner, access, whole, hround, List.mem_singleton.1 hrow⟩
  · rw [record_of_untracked owner hop] at h
    cases h

/-- A batch is a fold of such steps. -/
theorem recordAll {owner : PackageUser} {accesses : List Access}
    (h : table.recordAll owner accesses = .ok next) : next.IsRecorded := by
  induction accesses generalizing table with
  | nil =>
    obtain rfl := Except.ok.inj h
    exact recorded
  | cons access rest ih =>
    obtain ⟨first, hfirst, hrest⟩ := bind_eq_ok_iff.1 h
    exact ih (recorded.record hfirst) hrest

/-- The rows are those of accesses with their owners, each of which was rounded. -/
theorem exists_rows : ∃ rows : List (PackageUser × Access),
    table.rows = rows.map (fun r => Row.ofAccess r.1 r.2) ∧
      ∀ r ∈ rows, ∃ access : Access, access.truncated = .ok r.2 := by
  have hrow : ∀ row ∈ table.rows, ∃ r : PackageUser × Access,
      row = Row.ofAccess r.1 r.2 ∧ ∃ access : Access, access.truncated = .ok r.2 := by
    intro row hrow
    obtain ⟨owner, access, whole, hround, rfl⟩ := recorded row hrow
    exact ⟨(owner, whole), rfl, access, hround⟩
  obtain ⟨rows, hrows⟩ := exists_forall₂ hrow
  refine ⟨rows, ?_, fun r hr => ?_⟩
  · rw [← List.forall₂_eq_eq_eq, List.forall₂_map_right_iff]
    exact hrows.imp fun _ _ h => h.1
  · obtain ⟨row, -, -, hround⟩ := exists_mem_of_forall₂ hrows r hr
    exact hround

end IsRecorded

end Table

/-! ## Databases -/

namespace Database

/-- A database is of the current version and has recorded accesses only. Its worker may have
ended. -/
structure IsRecorded (database : Database) : Prop where
  version : database.contents.version = currentVersion
  table : database.contents.table.IsRecorded

/-- A new database has no rows at all. -/
theorem empty_isRecorded : IsRecorded { contents := { version := currentVersion } } := ⟨rfl, nofun⟩

namespace IsRecorded

variable {database : Database} (recorded : database.IsRecorded)
include recorded

/-- A task that keeps the version and makes no other rows keeps this, and one that fails changes
nothing that is stored. -/
theorem call {α : Type} {task : Contents → Except TaskFailure (α × Contents)}
    (keeps : ∀ value contents, task database.contents = .ok (value, contents) →
      contents.version = currentVersion ∧ contents.table.IsRecorded) :
    (database.call task).2.IsRecorded := by
  unfold Database.call
  split
  · cases htask : task database.contents with
    | ok result =>
      obtain ⟨hversion, htable⟩ := keeps result.1 result.2 htask
      exact ⟨hversion, htable⟩
    | error failure =>
      cases failure with
      | refused error => exact recorded
      | crashed =>
        -- the worker ends, what is stored stays
        exact ⟨recorded.version, recorded.table⟩
  · exact recorded

/-- A change that is refused or crashes leaves the table, one that goes through keeps the rows. -/
theorem change {task : Table → Except TaskFailure Table}
    (keeps : ∀ next, task database.contents.table = .ok next → next.IsRecorded) :
    (database.change task).2.IsRecorded := by
  refine recorded.call fun value contents htask => ?_
  obtain ⟨next, hnext, htask⟩ := bind_eq_ok_iff.1 htask
  obtain ⟨-, rfl⟩ := Prod.mk.inj (Except.ok.inj htask)
  exact ⟨recorded.version, keeps next hnext⟩

theorem register (ops : List String) : (database.register ops).2.IsRecorded := by
  apply recorded.change
  intro next hnext
  obtain rfl := Except.ok.inj hnext
  exact recorded.table.registerAll ops

theorem record (owner : PackageUser) (accesses : List Access) :
    (database.record owner accesses).2.IsRecorded := by
  apply recorded.change
  intro next hnext
  exact recorded.table.recordAll (mapError_eq_ok_iff.1 hnext)

theorem prune (cutoff : Millis) : (database.prune cutoff).2.IsRecorded := by
  apply recorded.call
  intro value contents htask
  obtain ⟨-, rfl⟩ := Prod.mk.inj (Except.ok.inj htask)
  exact ⟨recorded.version, recorded.table.prune cutoff⟩

/-- What was recorded can be opened again. -/
theorem reopen : ∃ next, ofContents database.contents = .ok next ∧ next.IsRecorded :=
  ⟨_, ofContents_of_current recorded.version, rfl, recorded.table⟩

/-- As long as its worker runs, a database mirrors a ledger of what it tracks and holds. -/
theorem exists_mirrors (running : database.isRunning = true) :
    ∃ live, Mirrors { registered := database.contents.table.tracked.toList, live } database ∧
      ∀ r ∈ live, r.2.op ∈ database.contents.table.tracked ∧
        ∃ access : Access, access.truncated = .ok r.2 := by
  obtain ⟨live, hrows, hrounded⟩ := recorded.table.exists_rows
  refine ⟨live, ⟨running, recorded.version, fun _ => Iff.rfl, hrows⟩, fun r hr => ?_⟩
  have hmem : Row.ofAccess r.1 r.2 ∈ database.contents.table.rows := by
    rw [hrows]
    exact List.mem_map_of_mem hr
  exact ⟨database.contents.table.op_tracked _ hmem, hrounded r hr⟩

end IsRecorded

end Database

/-! ## Runs -/

namespace Disk

variable {disk : Disk} {database : Database}

/-- Each call keeps the open database a recorded one. -/
theorem isRecorded_after (hcurrent : disk.current = some (.history, database))
    (recorded : database.IsRecorded) (call : HistoryCall) :
    ∃ next, (disk.after call).current = some (.history, next) ∧ next.IsRecorded := by
  cases call with
  | register ops => exact ⟨_, current_afterCall hcurrent, recorded.register ops⟩
  | record owner accesses => exact ⟨_, current_afterCall hcurrent, recorded.record owner accesses⟩
  | prune cutoff => exact ⟨_, current_afterCall hcurrent, recorded.prune cutoff⟩
  | reopen =>
    obtain ⟨next, hopen, hnext⟩ := recorded.reopen
    exact ⟨next, current_reopen hcurrent hopen, hnext⟩

theorem isRecorded_run (hcurrent : disk.current = some (.history, database))
    (recorded : database.IsRecorded) (calls : List HistoryCall) :
    ∃ next, (disk.run calls).current = some (.history, next) ∧ next.IsRecorded := by
  induction calls generalizing disk database with
  | nil => exact ⟨database, hcurrent, recorded⟩
  | cons call rest ih =>
    obtain ⟨next, hnext, hrecorded⟩ := isRecorded_after hcurrent recorded call
    exact ih hnext hrecorded

/-- After any run of calls on a new history a database is open, and it holds recorded accesses
only. -/
theorem exists_recorded (path : String) (calls : List HistoryCall) :
    ∃ database, ((opened path).run calls).current = some (.history, database) ∧
      database.IsRecorded := by
  have hopened : (opened path).current =
      some (.history, { contents := { version := currentVersion } }) := rfl
  exact isRecorded_run hopened Database.empty_isRecorded calls

end Disk

end PermissionUsage
