import Mathlib
import PermissionUsage.Episode.Timeline
import PermissionUsage.Proofs.History.Failures
/-!
# Pruning at the horizon is invisible to timelines

Accesses that started before the history window of a timeline can be dropped for good: not only does
the timeline read the same right after, it goes on to, whatever is done to the database next.

* `Table.AgreeFrom`, `Database.AgreeFrom`: two histories differ in nothing but accesses before an
  instant. Pruning leaves such a history (`agreeFrom_prune`).
* `Database.AgreeFrom.run`: every call keeps them so, `Database.AgreeFrom.after` any run of calls.
* `Database.AgreeFrom.accesses`: whatever is read from the instant on is the same.
* `Database.prune_invisible`: the three together.
-/

namespace PermissionUsage

/-! ## Outcomes -/

/-- Both computations fail for the same reason, or both have results that are related. -/
inductive SameOutcome {ε α : Type} (R : α → α → Prop) : Except ε α → Except ε α → Prop
  | ok {a b : α} (h : R a b) : SameOutcome R (.ok a) (.ok b)
  | error (e : ε) : SameOutcome R (.error e) (.error e)

namespace SameOutcome

variable {ε ε' α β : Type} {R : α → α → Prop} {S : β → β → Prop} {x y : Except ε α}

/-- Two computations with one outcome go on with continuations that keep it. -/
theorem bind {f g : α → Except ε β} (h : SameOutcome R x y)
    (hf : ∀ a b, R a b → SameOutcome S (f a) (g b)) : SameOutcome S (x >>= f) (y >>= g) := by
  cases h with
  | ok hR => exact hf _ _ hR
  | error e => exact .error e

/-- Renaming the errors of both sides alike changes nothing. -/
theorem mapError {f : ε → ε'} (h : SameOutcome R x y) :
    SameOutcome R (x.mapError f) (y.mapError f) := by
  cases h with
  | ok hR => exact .ok hR
  | error e => exact .error (f e)

end SameOutcome

/-! ## Tables -/

namespace Table

/-- The tables track the same ops and have the same accesses, in the same order, from an instant
on. -/
structure AgreeFrom (table other : Table) (cutoff : Millis) : Prop where
  tracked : table.tracked = other.tracked
  rows : table.rows.filter (!isBefore cutoff ·) = other.rows.filter (!isBefore cutoff ·)

/-- A pruned table is the table from the cutoff on. -/
theorem agreeFrom_prune (table : Table) (cutoff : Millis) :
    (table.prune cutoff).AgreeFrom table cutoff where
  tracked := rfl
  rows := by
    show (table.rows.filter (!isBefore cutoff ·)).filter (!isBefore cutoff ·) = _
    rw [List.filter_filter]
    simp only [Bool.and_self]

/-- Nothing is left for an earlier cutoff to take. -/
theorem isBefore_eq_false_of_prune {table : Table} {cutoff again : Millis}
    (earlier : again.toInt ≤ cutoff.toInt) :
    ∀ row ∈ (table.prune cutoff).rows, isBefore again row = false := by
  intro row hrow
  have hkept := (List.mem_filter.1 hrow).2
  simp only [isBefore, Bool.not_eq_true', decide_eq_false_iff_not] at hkept ⊢
  omega

/-- Pruning counts the rows it takes, so an earlier cutoff counts none. -/
theorem countBefore_prune (table : Table) {cutoff again : Millis}
    (earlier : again.toInt ≤ cutoff.toInt) : (table.prune cutoff).countBefore again = 0 := by
  refine List.countP_eq_zero.2 fun row hrow hbefore => ?_
  rw [isBefore_eq_false_of_prune earlier row hrow] at hbefore
  cases hbefore

theorem prune_prune (table : Table) {cutoff again : Millis}
    (earlier : again.toInt ≤ cutoff.toInt) :
    (table.prune cutoff).prune again = table.prune cutoff := by
  have hrows : (table.prune cutoff).rows.filter (!isBefore again ·) =
      (table.prune cutoff).rows := by
    refine List.filter_eq_self.2 fun row hrow => ?_
    rw [isBefore_eq_false_of_prune earlier row hrow]
    rfl
  exact Table.mk.injEq .. ▸ ⟨rfl, hrows⟩

namespace AgreeFrom

variable {table other next next' : Table} {cutoff : Millis}

/-- Rows that are filtered by a condition that only later rows meet are the same. -/
theorem filter_rows (h : table.AgreeFrom other cutoff) {p : Row → Bool}
    (hp : ∀ row, p row → cutoff.toInt ≤ row.time.toInt) :
    table.rows.filter p = other.rows.filter p := by
  have hfilter (rows : List Row) :
      (rows.filter (!isBefore cutoff ·)).filter p = rows.filter p := by
    rw [List.filter_filter]
    refine List.filter_congr fun row _ => ?_
    cases hrow : p row with
    | false => rfl
    | true =>
      have hafter := hp row hrow
      simp only [isBefore, Bool.true_and, Bool.not_eq_true', decide_eq_false_iff_not]
      omega
  rw [← hfilter table.rows, h.rows, hfilter]

/-- Tables that agree from an instant on list the same in every range that does not start before. -/
theorem accesses (h : table.AgreeFrom other cutoff) {start : Millis}
    (inWindow : cutoff.toInt ≤ start.toInt) (op : String) (stop : Millis) :
    table.accesses op start stop = other.accesses op start stop := by
  unfold Table.accesses
  rw [h.filter_rows fun row hrow => ?_]
  exact Int.le_trans inWindow (of_decide_eq_true hrow).2.1

/-! ### Every change of a table keeps the agreement -/

/-- A further condition makes no difference to the rows from the cutoff on. -/
theorem filter_filter_rows (h : table.AgreeFrom other cutoff) (keep : Row → Bool) :
    (table.rows.filter keep).filter (!isBefore cutoff ·) =
      (other.rows.filter keep).filter (!isBefore cutoff ·) := by
  rw [List.filter_comm, h.rows, List.filter_comm]

/-- Tracking an op touches no row. -/
theorem register (h : table.AgreeFrom other cutoff) (op : String) :
    (table.register op).AgreeFrom (other.register op) cutoff where
  tracked := congrArg (·.insert op) h.tracked
  rows := h.rows

theorem registerAll (h : table.AgreeFrom other cutoff) (ops : List String) :
    (table.registerAll ops).AgreeFrom (other.registerAll ops) cutoff := by
  induction ops generalizing table other with
  | nil => exact h
  | cons op rest ih => exact ih (h.register op)

/-- When an op is untracked, its rows go on both sides. -/
theorem untrack (h : table.AgreeFrom other cutoff) (op : String) :
    (table.untrack op).AgreeFrom (other.untrack op) cutoff where
  tracked := congrArg (·.erase op) h.tracked
  rows := h.filter_filter_rows _

/-- Pruning both tables, whether earlier or later than the cutoff. -/
theorem prune (h : table.AgreeFrom other cutoff) (t : Millis) :
    (table.prune t).AgreeFrom (other.prune t) cutoff where
  tracked := h.tracked
  rows := h.filter_filter_rows _

/-- The same row is added to both tables. -/
theorem concat (h : table.AgreeFrom other cutoff) {row : Row}
    (htracked : next.tracked = table.tracked) (hrows : next.rows = table.rows ++ [row])
    (htracked' : next'.tracked = other.tracked) (hrows' : next'.rows = other.rows ++ [row]) :
    next.AgreeFrom next' cutoff where
  tracked := by rw [htracked, h.tracked, htracked']
  rows := by rw [hrows, hrows', List.filter_append, List.filter_append, h.rows]

/-- Whether a row is refused depends on the tracked ops and on the access, never on old rows. -/
theorem record (h : table.AgreeFrom other cutoff) (owner : PackageUser) (access : Access) :
    SameOutcome (AgreeFrom · · cutoff) (table.record owner access) (other.record owner access) := by
  by_cases hop : access.op ∈ table.tracked
  · have hop' : access.op ∈ other.tracked := h.tracked ▸ hop
    cases hround : access.truncated with
    | error operation =>
      rw [record_of_overflow owner hop hround, record_of_overflow owner hop' hround]
      exact .error _
    | ok whole =>
      obtain ⟨next, hnext, htracked, hrows⟩ := record_of_tracked owner hop hround
      obtain ⟨next', hnext', htracked', hrows'⟩ := record_of_tracked owner hop' hround
      rw [hnext, hnext']
      exact .ok (h.concat htracked hrows htracked' hrows')
  · have hop' : access.op ∉ other.tracked := h.tracked ▸ hop
    rw [record_of_untracked owner hop, record_of_untracked owner hop']
    exact .error _

/-- A batch is recorded as a whole in both tables or refused in both. -/
theorem recordAll (h : table.AgreeFrom other cutoff) (owner : PackageUser)
    (accesses : List Access) : SameOutcome (AgreeFrom · · cutoff) (table.recordAll owner accesses)
      (other.recordAll owner accesses) := by
  induction accesses generalizing table other with
  | nil => exact .ok h
  | cons access rest ih => exact (h.record owner access).bind fun _ _ hnext => ih hnext

/-- A row is added to both, or its op is tracked by neither. -/
theorem addRow? (h : table.AgreeFrom other cutoff) (row : Row) :
    (table.addRow? row = none ∧ other.addRow? row = none) ∨
      ∃ next next', table.addRow? row = some next ∧ other.addRow? row = some next' ∧
        next.AgreeFrom next' cutoff := by
  by_cases hop : row.op ∈ table.tracked
  · have hop' : row.op ∈ other.tracked := h.tracked ▸ hop
    exact .inr ⟨_, _, dif_pos hop, dif_pos hop', h.concat rfl rfl rfl rfl⟩
  · have hop' : row.op ∉ other.tracked := h.tracked ▸ hop
    exact .inl ⟨dif_neg hop, dif_neg hop'⟩

end AgreeFrom

end Table

/-! ## Timelines -/

/-- A timeline is the same from sources that load the same in its window. -/
theorem Timeline.loadAndCompute_congr {timeline : Timeline} {source other : AccessSource}
    {services : Services} {now : Millis}
    (same : ∀ start, timeline.windowStart now = .ok start →
      source.loadAccesses timeline.ops start now = other.loadAccesses timeline.ops start now) :
    timeline.loadAndCompute source services now = timeline.loadAndCompute other services now := by
  unfold loadAndCompute load
  cases hstart : timeline.windowStart now with
  | error operation => rfl
  | ok start =>
    show ((source.loadAccesses timeline.ops start now).mapError _ >>= _) = _
    rw [same start hstart]
    rfl

/-! ## Databases -/

namespace Database

/-- The databases differ in nothing but accesses that started before an instant. -/
structure AgreeFrom (database other : Database) (cutoff : Millis) : Prop where
  running : database.isRunning = other.isRunning
  version : database.contents.version = other.contents.version
  table : database.contents.table.AgreeFrom other.contents.table cutoff

/-- What the worker answers to a prune, and what it leaves. -/
theorem prune_of_running {database : Database} (running : database.isRunning = true)
    (cutoff : Millis) : database.prune cutoff =
      (.ok (database.contents.table.countBefore cutoff), { database with contents :=
        { database.contents with table := database.contents.table.prune cutoff } }) := by
  unfold prune call
  rw [if_pos running]

/-- A prune that finds nothing leaves the database as it is. -/
theorem prune_of_nothingBefore {database : Database} {cutoff : Millis}
    (running : database.isRunning = true) (nothing : database.contents.table.countBefore cutoff = 0)
    (kept : database.contents.table.prune cutoff = database.contents.table) :
    database.prune cutoff = (.ok 0, database) := by
  rw [prune_of_running running, nothing, kept]

/-- Without a worker nothing is pruned. -/
theorem prune_of_gone {database : Database} (gone : database.isRunning = false) (cutoff : Millis) :
    database.prune cutoff = (.error .workerGone, database) :=
  call_of_gone gone _

theorem agreeFrom_prune (database : Database) (cutoff : Millis) :
    (database.prune cutoff).2.AgreeFrom database cutoff := by
  cases hrunning : database.isRunning with
  | true =>
    rw [prune_of_running hrunning]
    exact ⟨rfl, rfl, database.contents.table.agreeFrom_prune cutoff⟩
  | false =>
    rw [prune_of_gone hrunning]
    exact ⟨rfl, rfl, rfl, rfl⟩

/-- Accesses that were dropped are not dropped again. -/
theorem prune_prune (database : Database) {cutoff again : Millis}
    (earlier : again.toInt ≤ cutoff.toInt) :
    ((database.prune cutoff).2.prune again).2 = (database.prune cutoff).2 ∧
      (database.isRunning = true → ((database.prune cutoff).2.prune again).1 = .ok 0) := by
  cases hrunning : database.isRunning with
  | true =>
    have hagain : (database.prune cutoff).2.prune again = (.ok 0, (database.prune cutoff).2) := by
      rw [prune_of_running hrunning]
      exact prune_of_nothingBefore hrunning (Table.countBefore_prune _ earlier)
        (Table.prune_prune _ earlier)
    rw [hagain]
    exact ⟨rfl, fun _ => rfl⟩
  | false =>
    rw [prune_of_gone hrunning, prune_of_gone hrunning]
    exact ⟨rfl, nofun⟩

/-- The database after a run of calls. -/
def after (database : Database) (calls : List DatabaseCall) : Database :=
  calls.foldl (fun database call => (database.run call).2) database

namespace AgreeFrom

variable {database other : Database} {cutoff : Millis} (h : database.AgreeFrom other cutoff)
include h

/-! ### Every call keeps the agreement -/

/-- A call whose task has the same outcome on both sides keeps the databases in agreement. -/
theorem call {α : Type} {task : Contents → Except TaskFailure (α × Contents)}
    (outcome : SameOutcome (fun done done' => done.2.version = done'.2.version ∧
      done.2.table.AgreeFrom done'.2.table cutoff) (task database.contents) (task other.contents)) :
    (database.call task).2.AgreeFrom (other.call task).2 cutoff := by
  unfold Database.call
  rw [h.running]
  generalize task database.contents = result, task other.contents = result' at outcome
  split
  · cases outcome with
    | ok hdone => exact ⟨rfl, hdone.1, hdone.2⟩
    | error failure =>
      cases failure with
      | refused error => exact h
      | crashed =>
        -- the workers of both end
        exact ⟨rfl, h.version, h.table⟩
  · exact h

theorem change {task : Table → Except TaskFailure Table}
    (outcome : SameOutcome (Table.AgreeFrom · · cutoff) (task database.contents.table)
      (task other.contents.table)) :
    (database.change task).2.AgreeFrom (other.change task).2 cutoff :=
  h.call (outcome.bind fun _ _ hnext => .ok ⟨h.version, hnext⟩)

/-- Every call of the interface keeps them in agreement. -/
theorem run (call : DatabaseCall) :
    (database.run call).2.AgreeFrom (other.run call).2 cutoff := by
  cases call with
  | trackedOps | isTracked | accesses | lastUses | version => exact h
  | register ops => exact h.change (.ok (h.table.registerAll ops))
  | untrack op => exact h.call (.ok ⟨h.version, h.table.untrack op⟩)
  | record owner accesses => exact h.change (h.table.recordAll owner accesses).mapError
  | insert owner access => exact h.change (h.table.record owner access).mapError
  | addRow row =>
    refine h.change ?_
    rcases h.table.addRow? row with ⟨hnone, hnone'⟩ | ⟨next, next', hnext, hnext', hagree⟩
    · rw [hnone, hnone']
      exact .error _
    · rw [hnext, hnext']
      exact .ok hagree
  | prune t => exact h.call (.ok ⟨h.version, h.table.prune t⟩)
  | setVersion version => exact h.call (.ok ⟨rfl, h.table⟩)

theorem after (calls : List DatabaseCall) :
    (database.after calls).AgreeFrom (other.after calls) cutoff := by
  induction calls generalizing database other with
  | nil => exact h
  | cons call rest ih => exact ih (h.run call)

/-! ### Reading from the instant on -/

theorem accesses {start : Millis} (inWindow : cutoff.toInt ≤ start.toInt) (op : String)
    (stop : Millis) :
    database.source.accesses op start stop = other.source.accesses op start stop := by
  rw [source_accesses, source_accesses]
  unfold readOp query
  dsimp only
  rw [h.running, h.table.tracked, h.table.accesses inWindow]

theorem loadAccesses {start : Millis} (inWindow : cutoff.toInt ≤ start.toInt) (ops : List String)
    (stop : Millis) :
    database.source.loadAccesses ops start stop = other.source.loadAccesses ops start stop := by
  have hread : (database.source.accesses · start stop) = (other.source.accesses · start stop) :=
    funext fun op => h.accesses inWindow op stop
  unfold AccessSource.loadAccesses
  rw [hread]

end AgreeFrom

/-- **Pruning at the horizon is invisible to timelines.** Let accesses be dropped that started
before some instant, no later than the start of the history window at `now`. Then, whatever calls
follow, the accesses of any ops in the window of `now` or of any later time are read as if none had
been dropped: the same batches in the same order, or the same refusal. So is every timeline with
these features. Dropping accesses before the same instant again, or before an earlier one, drops
none. -/
theorem prune_invisible (database : Database) (features : Features) {now cutoff : Millis}
    (horizon : cutoff.toInt ≤ now.toInt - features.historyWindow.toInt) :
    (∀ calls later, now.toInt ≤ later.toInt →
      (∀ ops start, later.sub features.historyWindow = .ok start →
        ((database.prune cutoff).2.after calls).source.loadAccesses ops start later =
          (database.after calls).source.loadAccesses ops start later) ∧
      ∀ (timeline : Timeline) services, timeline.features = features →
        timeline.loadAndCompute ((database.prune cutoff).2.after calls).source services later =
          timeline.loadAndCompute (database.after calls).source services later) ∧
    ∀ again, again.toInt ≤ cutoff.toInt →
      ((database.prune cutoff).2.prune again).2 = (database.prune cutoff).2 ∧
        (database.isRunning = true → ((database.prune cutoff).2.prune again).1 = .ok 0) := by
  constructor
  · intro calls later hlater
    have hagree := (database.agreeFrom_prune cutoff).after calls
    have hload : ∀ ops start, later.sub features.historyWindow = .ok start →
        ((database.prune cutoff).2.after calls).source.loadAccesses ops start later =
          (database.after calls).source.loadAccesses ops start later := by
      intro ops start hstart
      have hstartEq := Millis.sub_eq_ok_iff.1 hstart
      exact hagree.loadAccesses (by omega) ops later
    refine ⟨hload, fun timeline services hfeatures => ?_⟩
    exact Timeline.loadAndCompute_congr fun start hstart =>
      hload timeline.ops start (hfeatures ▸ hstart)
  · intro again hagain
    exact database.prune_prune hagain

/-! ### A week of scans -/

namespace OldScans

open TrackedCamera

/-- Two scans, one of the minute before the window starts and one of its first minute. -/
def scanned : Database :=
  (tracking.record camera [{ op := Op.camera, time := 259199999, duration := 70000 },
    { op := Op.camera, time := 259230000, duration := -1 }]).2

def now : Millis := 864000000

/-- A week before. -/
def weekAgo : Millis := 259200000

/-- One more scan, recorded after the old ones are dropped. -/
def laterScan : DatabaseCall :=
  .record camera [{ op := Op.camera, time := 863970000, duration := -1 }]

/-- What is read of the week: the scan of its first minute and the later one. -/
def week : List Batch :=
  [{ owner := camera
     accesses := [{ op := Op.camera, time := 259200000, duration := -1 },
       { op := Op.camera, time := 863940000, duration := -1 }] }]

end OldScans

open TrackedCamera OldScans in
/-- A scan from last week is pruned at the very start of the window that is read later. -/
theorem prune_invisible_of_oldScans :
    weekAgo.toInt ≤ now.toInt - (Features.historyWindow {}).toInt ∧
      (scanned.prune weekAgo).1 = .ok 1 ∧ ((scanned.prune weekAgo).2.prune weekAgo).1 = .ok 0 ∧
      (scanned.after [laterScan]).source.loadAccesses [Op.camera] weekAgo now = .ok week ∧
      ((scanned.prune weekAgo).2.after [laterScan]).source.loadAccesses [Op.camera] weekAgo now =
        .ok week := by
  have hhorizon : weekAgo.toInt ≤ now.toInt - (Features.historyWindow {}).toInt := by decide
  obtain ⟨hread, hagain⟩ := prune_invisible scanned {} hhorizon
  obtain ⟨hload, -⟩ := hread [laterScan] now (Int.le_refl _)
  obtain ⟨-, hnothing⟩ := hagain weekAgo (Int.le_refl _)
  have hweek : (scanned.after [laterScan]).source.loadAccesses [Op.camera] weekAgo now =
      .ok week := by
    cbv
  exact ⟨hhorizon, by decide +kernel, hnothing (by decide +kernel), hweek,
    (hload [Op.camera] weekAgo rfl).trans hweek⟩

end Database

end PermissionUsage
