import PermissionUsage.Proofs.Access.Ends
import PermissionUsage.Proofs.History.Ledger
/-!
# Failed calls

What a call of a database leaves behind when it fails.

* What is kept never changes.
* A call that is refused leaves the database as it was, so that every later run of calls answers as
  if the call had not been made.
* A recording that meets a time that cannot be rounded before it meets an op that is not tracked
  ends the worker (`EndsWorker`). From then on every call is refused until the database is opened
  again.

`Database.run_of_failed` says this of one call and `Database.failed_call` of the runs after it.
-/

namespace PermissionUsage

/-! ## Calls and their answers -/

/-- A call of an open database. Recording one access is recording a list of one. -/
inductive DatabaseCall where
  | register (ops : List String)
  | trackedOps
  | isTracked (op : String)
  | untrack (op : String)
  | record (owner : PackageUser) (accesses : List Access)
  | insert (owner : PackageUser) (access : Access)
  | addRow (row : Row)
  | prune (cutoff : Millis)
  | accesses (op : String) (start stop : Millis)
  | lastUses (op : String)
  | version
  | setVersion (version : Int32)
  deriving DecidableEq, Repr

inductive DatabaseAnswer where
  | done
  | flag (value : Bool)
  | count (n : Nat)
  | ops (ops : List String)
  | batches (batches : List Batch)
  | uses (uses : List LastUses)
  | version (version : Int32)
  deriving DecidableEq, Repr

/-- How a call fails: as a call of the worker, or as a read of a source of accesses. -/
inductive DatabaseFailure where
  | call (error : CallError)
  | read (error : SourceError)
  deriving DecidableEq, Repr

namespace Database

/-- The answer of a call of the worker, in the words that all calls share. -/
def told {α : Type} (answer : α → DatabaseAnswer) (result : Except CallError α × Database) :
    Except DatabaseFailure DatabaseAnswer × Database :=
  ((result.1.map answer).mapError .call, result.2)

def run (database : Database) : DatabaseCall → Except DatabaseFailure DatabaseAnswer × Database
  | .register ops => told (fun _ => .done) (database.register ops)
  | .trackedOps => told .ops (database.trackedOps, database)
  | .isTracked op => told .flag (database.isTracked op, database)
  | .untrack op => told .count (database.untrack op)
  | .record owner accesses => told (fun _ => .done) (database.record owner accesses)
  | .insert owner access => told (fun _ => .done) (database.insert owner access)
  | .addRow row => told (fun _ => .done) (database.addRow row)
  | .prune cutoff => told .count (database.prune cutoff)
  | .accesses op start stop =>
    (((database.source.accesses op start stop).map .batches).mapError .read, database)
  | .lastUses op => (((database.source.lastUses op).map .uses).mapError .read, database)
  | .version => told .version (database.version, database)
  | .setVersion version => told (fun _ => .done) (database.setVersion version)

/-- What the calls of a run answer, one after another. -/
def answers (database : Database) :
    List DatabaseCall → List (Except DatabaseFailure DatabaseAnswer)
  | [] => []
  | call :: later => (database.run call).1 :: (database.run call).2.answers later

end Database

namespace DatabaseCall

/-- The accesses that a call is to record. -/
def recorded : DatabaseCall → List Access
  | .record _ records => records
  | .insert _ access => [access]
  | _ => []

/-- The call has the worker round a time that lies before the first whole minute. No access is
rounded from the first one on whose op is not tracked. -/
def EndsWorker (call : DatabaseCall) (database : Database) : Prop :=
  database.isRunning = true ∧
    ∃ a ∈ call.recorded.takeWhile (·.op ∈ database.contents.table.tracked),
      a.time.toInt < Access.firstMinute

/-- How the call fails after the worker has ended. -/
def refusedFailure : DatabaseCall → DatabaseFailure
  | .accesses _ _ _ | .lastUses _ => .read (.unavailable CallError.workerGone.message)
  | _ => .call .workerGone

end DatabaseCall

/-! ## Recordings that overflow -/

namespace Table

variable {table : Table}

/-- An access whose rounding overflows crashes, unless its op is not tracked anyway. -/
theorem record_of_overflow (owner : PackageUser) {access : Access} {operation : Overflow}
    (h : access.op ∈ table.tracked) (hround : access.truncated = .error operation) :
    table.record owner access = .error (.overflow operation) := by
  unfold record
  rw [if_neg (not_not_intro h), hround]
  rfl

/-- A recording overflows at the first access that cannot be rounded, unless it is refused before
because of an op that is not tracked. -/
theorem recordAll_overflow_iff (table : Table) (owner : PackageUser) (accesses : List Access) :
    (∃ operation, table.recordAll owner accesses = .error (.overflow operation)) ↔
      ∃ a ∈ accesses.takeWhile (·.op ∈ table.tracked), a.time.toInt < Access.firstMinute := by
  induction accesses generalizing table with
  | nil => exact iff_of_false nofun nofun
  | cons access rest ih =>
    have hstep : table.recordAll owner (access :: rest) =
        table.record owner access >>= fun next => next.recordAll owner rest := rfl
    rw [hstep]
    by_cases hop : access.op ∈ table.tracked
    · rw [List.takeWhile_cons, if_pos (decide_eq_true hop), List.exists_mem_cons_iff]
      cases hround : access.truncated with
      | error operation =>
        have hearly : access.time.toInt < Access.firstMinute := by
          refine Int.not_le.1 fun hle => ?_
          obtain ⟨whole, hwhole⟩ := Access.exists_truncated_iff.2 hle
          rw [hround] at hwhole
          cases hwhole
        rw [record_of_overflow owner hop hround]
        exact iff_of_true ⟨operation, rfl⟩ (.inl hearly)
      | ok whole =>
        have hlate : ¬access.time.toInt < Access.firstMinute :=
          Int.not_lt.2 (Access.exists_truncated_iff.1 ⟨whole, hround⟩)
        -- the row that is added keeps the tracked ops, so the rest meets the same ones
        obtain ⟨next, hnext, htracked, -⟩ := record_of_tracked owner hop hround
        rw [hnext, or_iff_right hlate, ← htracked]
        exact ih next
    · rw [List.takeWhile_cons, if_neg (by simpa using hop), record_of_untracked owner hop]
      exact iff_of_false nofun nofun

end Table

/-! ## One call -/

namespace Database

variable {database : Database} {call : DatabaseCall}

/-- A task that fails changes nothing, and ends the worker if it crashes. -/
theorem call_of_failed {α : Type} {task : Contents → Except TaskFailure (α × Contents)}
    {error : CallError} (failed : (database.call task).1 = .error error) :
    (database.isRunning = true ∧ task database.contents = .error .crashed ∧
        (database.call task).2 = { database with isRunning := false }) ∨
      ¬(database.isRunning = true ∧ task database.contents = .error .crashed) ∧
        (database.call task).2 = database := by
  unfold Database.call at failed ⊢
  by_cases running : database.isRunning = true
  · rw [if_pos running] at failed ⊢
    cases htask : task database.contents with
    | ok result =>
      rw [htask] at failed
      cases failed
    | error cause =>
      cases cause with
      | refused error => exact .inr ⟨(nomatch ·.2), rfl⟩
      | crashed => exact .inl ⟨running, rfl, rfl⟩
  · rw [if_neg running]
    exact .inr ⟨fun h => running h.1, rfl⟩

/-- A call that reports a failure has failed. -/
theorem failed_of_told {α : Type} {answer : α → DatabaseAnswer}
    {result : Except CallError α × Database} {failure : DatabaseFailure}
    (failed : (told answer result).1 = .error failure) : ∃ error, result.1 = .error error := by
  obtain ⟨answered, next⟩ := result
  cases answered with
  | error error => exact ⟨error, rfl⟩
  | ok a => cases failed

/-- A change of the contents crashes if the change of the table does. -/
theorem changeContents_crashed_iff {contents : Contents} {changed : Except TaskFailure Table} :
    (do return ((), { contents with table := ← changed }) :
      Except TaskFailure (Unit × Contents)) = .error .crashed ↔ changed = .error .crashed := by
  cases changed with
  | ok table => exact iff_of_false nofun nofun
  | error cause => simp [bind, Except.bind]

/-- Recording crashes exactly for an overflow. -/
theorem mapError_ofRecord_crashed_iff {α : Type} {refusal : String → CallError}
    {result : Except RecordError α} :
    result.mapError (TaskFailure.ofRecord refusal) = .error .crashed ↔
      ∃ operation, result = .error (.overflow operation) := by
  cases result with
  | ok a => exact iff_of_false nofun nofun
  | error cause =>
    cases cause with
    | untracked op => exact iff_of_false nofun nofun
    | overflow operation => exact iff_of_true rfl ⟨operation, rfl⟩

/-- A call that does more than read is a task of the worker, which crashes exactly on a time that
cannot be rounded. -/
theorem run_eq_told_or_same (database : Database) (call : DatabaseCall) :
    (∃ (α : Type) (answer : α → DatabaseAnswer)
        (task : Contents → Except TaskFailure (α × Contents)),
      database.run call = told answer (database.call task) ∧
        (task database.contents = .error .crashed ↔
          ∃ a ∈ call.recorded.takeWhile (·.op ∈ database.contents.table.tracked),
            a.time.toInt < Access.firstMinute)) ∨
      (database.run call).2 = database ∧ call.recorded = [] := by
  cases call with
  | trackedOps | isTracked | accesses | lastUses | version => exact .inr ⟨rfl, rfl⟩
  | register | untrack | prune | setVersion =>
    -- tasks that never fail
    refine .inl ⟨_, _, _, rfl, iff_of_false (fun h => ?_) nofun⟩
    cases h
  | addRow row =>
    refine .inl ⟨_, _, _, rfl, iff_of_false (fun h => ?_) nofun⟩
    have hcrashed := changeContents_crashed_iff.1 h
    dsimp only at hcrashed
    split at hcrashed
    · cases hcrashed
    · cases hcrashed
  | record owner accesses =>
    have hrecord := database.contents.table.recordAll_overflow_iff owner accesses
    exact .inl ⟨_, _, _, rfl,
      changeContents_crashed_iff.trans (mapError_ofRecord_crashed_iff.trans hrecord)⟩
  | insert owner access =>
    have hone : database.contents.table.recordAll owner [access] =
        database.contents.table.record owner access := bind_pure _
    have hrecord := hone ▸ database.contents.table.recordAll_overflow_iff owner [access]
    exact .inl ⟨_, _, _, rfl,
      changeContents_crashed_iff.trans (mapError_ofRecord_crashed_iff.trans hrecord)⟩

/-- A call that fails leaves the database as it was, except that it may end the worker. -/
theorem run_of_failed {failure : DatabaseFailure}
    (failed : (database.run call).1 = .error failure) :
    (call.EndsWorker database ∧ (database.run call).2 = { database with isRunning := false }) ∨
      ¬call.EndsWorker database ∧ (database.run call).2 = database := by
  rcases database.run_eq_told_or_same call with
    ⟨α, answer, task, hrun, hcrashed⟩ | ⟨hsame, hnothing⟩
  · rw [hrun] at failed ⊢
    obtain ⟨error, herror⟩ := failed_of_told failed
    unfold DatabaseCall.EndsWorker
    rw [← hcrashed]
    rcases call_of_failed herror with ⟨running, htask, hnext⟩ | ⟨hnot, hnext⟩
    · exact .inl ⟨⟨running, htask⟩, hnext⟩
    · exact .inr ⟨hnot, hnext⟩
  · -- a call that only reads has nothing to round
    refine .inr ⟨?_, hsame⟩
    rintro ⟨-, a, ha, -⟩
    rw [hnothing] at ha
    cases ha

/-! ## Runs of calls -/

section Gone

variable {α : Type} (gone : database.isRunning = false)
include gone

/-- Once the worker is gone no task is run any more. -/
theorem call_of_gone (task : Contents → Except TaskFailure (α × Contents)) :
    database.call task = (.error .workerGone, database) := by
  unfold Database.call
  rw [gone]
  rfl

theorem query_of_gone (answer : Contents → Except CallError α) :
    database.query answer = .error .workerGone := by
  unfold query
  rw [gone]
  rfl

theorem readOp_of_gone (op : String) (read : Table → Except OutOfRange α) :
    database.readOp op read = .error (.unavailable CallError.workerGone.message) := by
  unfold readOp
  rw [query_of_gone gone]

end Gone

/-- Without its worker a database refuses every call and stays as it is. -/
theorem run_of_gone (gone : database.isRunning = false) (call : DatabaseCall) :
    database.run call = (.error call.refusedFailure, database) := by
  cases call with
  | accesses op start stop =>
    have hgone : database.source.accesses op start stop = _ :=
      readOp_of_gone gone op (·.accesses op start stop)
    have hrun : database.run (.accesses op start stop) =
      (((database.source.accesses op start stop).map .batches).mapError .read, database) := rfl
    rw [hrun, hgone]
    rfl
  | lastUses op =>
    have hgone : database.source.lastUses op = _ := readOp_of_gone gone op (·.lastUses op)
    have hrun : database.run (.lastUses op) =
      (((database.source.lastUses op).map .uses).mapError .read, database) := rfl
    rw [hrun, hgone]
    rfl
  | trackedOps | isTracked | version =>
    show told _ (database.query _, database) = _
    rw [query_of_gone gone]
    rfl
  | register | untrack | record | insert | addRow | prune | setVersion =>
    show told _ (database.call _) = _
    rw [call_of_gone gone]
    rfl

theorem answers_of_gone (gone : database.isRunning = false) (later : List DatabaseCall) :
    database.answers later = later.map fun call => .error call.refusedFailure := by
  induction later with
  | nil => rfl
  | cons call rest ih => rw [answers, run_of_gone gone, ih, List.map_cons]

/-- **What a failed call leaves behind.** The contents stay as they were. Later runs of calls answer
as if the call had not been made, unless the call had the worker round a time before the first whole
minute: then every later call is refused. -/
theorem failed_call {failure : DatabaseFailure} (failed : (database.run call).1 = .error failure) :
    (database.run call).2.contents = database.contents ∧
      ((∀ later, (database.run call).2.answers later = database.answers later) ↔
        ¬call.EndsWorker database) ∧
      (call.EndsWorker database → ∀ later, (database.run call).2.answers later =
        later.map fun c => .error c.refusedFailure) := by
  rcases run_of_failed failed with ⟨hends, hnext⟩ | ⟨hstays, hnext⟩
  · have hlater : ∀ later, (database.run call).2.answers later =
        later.map fun c => .error c.refusedFailure := by
      rw [hnext]
      exact answers_of_gone rfl
    refine ⟨by rw [hnext], iff_of_false (fun hsame => ?_) (not_not_intro hends), fun _ => hlater⟩
    -- a running database tells its version
    have hversion := (hlater [.version]).symm.trans (hsame [.version])
    simp [answers, run, told, version, query, hends.1, DatabaseCall.refusedFailure,
      Except.map, Except.mapError] at hversion
  · rw [hnext]
    exact ⟨rfl, iff_of_true (fun _ => rfl) hstays, fun hends => absurd hends hstays⟩

/-! ### A batch that is refused, and one that cannot be rounded -/

namespace TrackedCamera

/-- A new database that tracks the camera. -/
def tracking : Database :=
  (({ contents := { version := currentVersion } } : Database).register [Op.camera]).2

def camera : PackageUser := ⟨"com.example.camera", 10⟩

/-- The second op is not tracked, so the third access is never rounded. -/
def mixed : DatabaseCall :=
  .record camera [{ op := Op.camera, time := 90000, duration := 70000 },
    { op := Op.recordAudio, time := 150000, duration := -1 },
    { op := Op.camera, time := -9223372036854775808, duration := -1 }]

/-- The first instant there is lies before the first whole minute. -/
def earliest : DatabaseCall :=
  .record camera [{ op := Op.camera, time := -9223372036854775808, duration := -1 }]

end TrackedCamera

open TrackedCamera in
/-- A refused batch does no harm to later calls. -/
theorem failed_call_of_mixed :
    (tracking.run mixed).1 =
        .error (.call (.recording "com.example.camera" Op.recordAudio)) ∧
      ∀ later, (tracking.run mixed).2.answers later = tracking.answers later := by
  have hfailed : (tracking.run mixed).1 =
      .error (.call (.recording "com.example.camera" Op.recordAudio)) := by decide +kernel
  have hstays : ¬mixed.EndsWorker tracking := by
    have hrounded : ∀ a ∈ mixed.recorded.takeWhile (·.op ∈ tracking.contents.table.tracked),
        Access.firstMinute ≤ a.time.toInt := by decide +kernel
    rintro ⟨-, a, ha, hearly⟩
    exact absurd (hrounded a ha) (Int.not_le.2 hearly)
  obtain ⟨-, hlater, -⟩ := failed_call hfailed
  exact ⟨hfailed, hlater.2 hstays⟩

open TrackedCamera in
/-- A recording that fails can have every later read fail. -/
theorem answers_differ_of_earliest :
    (tracking.run earliest).1 = .error (.call .workerEnded) ∧
      tracking.answers [.accesses Op.camera 0 9223372036854775807] = [.ok (.batches [])] ∧
      (tracking.run earliest).2.answers [.accesses Op.camera 0 9223372036854775807] =
        [.error (.read (.unavailable
          "failed to send command to DB thread: sending on a closed channel"))] := by
  refine ⟨by decide +kernel, by decide +kernel, by decide +kernel⟩

end Database

end PermissionUsage
