import PermissionUsage.History.Disk
import PermissionUsage.Proofs.History.Listing
/-!
# The history is a plain table

Over any run of calls, closing and opening again included, a history of accesses behaves like a
`Ledger`: the ops that were registered, and the accesses of the successful recordings, rounded to
the minute, that no later pruning removed.

* `Mirrors`: the invariant, a database holds what a ledger says. Every call keeps it
  (`Mirrors.register`, `Mirrors.record`, `Mirrors.prune`, `Mirrors.reopen`).
* `Behaves`: what a database answers, in the words of the ledger.
* `Disk.run_behaves`: after every run the database that is open behaves like the ledger of the run.
-/

namespace PermissionUsage

/-- A call of a history of accesses. Recording one access is recording a list of one. -/
inductive HistoryCall where
  | register (ops : List String)
  | record (owner : PackageUser) (accesses : List Access)
  | prune (cutoff : Millis)
  | reopen

/-! ## Ledgers -/

/-- What a history should hold: the registered ops, and the live accesses with their owners. -/
structure Ledger where
  registered : List String := []
  live : List (PackageUser × Access) := []

namespace Ledger

/-- The ledger after a call. A recording that names an op that is not registered fails. -/
def after (ledger : Ledger) : HistoryCall → Ledger
  | .register ops => { ledger with registered := ledger.registered ++ ops }
  | .record owner accesses =>
    if ∀ a ∈ accesses, a.op ∈ ledger.registered then
      { ledger with live := ledger.live ++
          (accesses.filterMap (·.truncated.toOption)).map (owner, ·) }
    else ledger
  | .prune cutoff =>
    { ledger with live := ledger.live.filter fun r => cutoff.toInt ≤ r.2.time.toInt }
  | .reopen => ledger

def run (ledger : Ledger) (calls : List HistoryCall) : Ledger := calls.foldl after ledger

/-- Rounding does not overflow in a call. A recording rounds no access from the first one on whose
op is not registered. -/
def Fits (ledger : Ledger) : HistoryCall → Prop
  | .record _ accesses =>
    ∀ a ∈ accesses.takeWhile (·.op ∈ ledger.registered), ∃ whole, a.truncated = .ok whole
  | _ => True

def AllFit (ledger : Ledger) : List HistoryCall → Prop
  | [] => True
  | call :: rest => ledger.Fits call ∧ (ledger.after call).AllFit rest

/-- Rounding does not overflow in a run if it does not in any access that is to be recorded. -/
theorem allFit_of_forall {calls : List HistoryCall}
    (h : ∀ owner accesses, .record owner accesses ∈ calls →
      ∀ a ∈ accesses, ∃ whole, a.truncated = .ok whole) (ledger : Ledger) :
    ledger.AllFit calls := by
  induction calls generalizing ledger with
  | nil => trivial
  | cons call rest ih =>
    have hrest := ih (fun owner accesses hmem => h owner accesses (List.mem_cons_of_mem call hmem))
    refine ⟨?_, hrest _⟩
    cases call with
    | record owner accesses =>
      exact fun a ha => h owner accesses List.mem_cons_self a (List.takeWhile_subset _ ha)
    | register | prune | reopen => trivial

def inRange (ledger : Ledger) (op : String) (start stop : Millis) : List (PackageUser × Access) :=
  ledger.live.filter fun r =>
    r.2.op = op ∧ start.toInt ≤ r.2.time.toInt ∧ r.2.time.toInt < stop.toInt

/-! ### What is registered and what is live -/

/-- An op is registered by the end exactly when some call has registered it. -/
theorem mem_registered_run {ledger : Ledger} {calls : List HistoryCall} {op : String} :
    op ∈ (ledger.run calls).registered ↔
      op ∈ ledger.registered ∨ ∃ ops, .register ops ∈ calls ∧ op ∈ ops := by
  induction calls generalizing ledger with
  | nil => simp [run]
  | cons call rest ih =>
    show op ∈ ((ledger.after call).run rest).registered ↔ _
    rw [ih]
    cases call with
    | register ops => simp [after, or_assoc]
    | record owner accesses =>
      rw [after]
      split <;> simp
    | prune | reopen => simp [after]

/-- No call prunes the access. -/
def Survives (calls : List HistoryCall) (r : PackageUser × Access) : Prop :=
  ∀ cutoff, .prune cutoff ∈ calls → cutoff.toInt ≤ r.2.time.toInt

/-- A call records the access: it succeeds, and the access is the rounding of one of its list. -/
def Enters (ledger : Ledger) (call : HistoryCall) (r : PackageUser × Access) : Prop :=
  ∃ accesses, call = .record r.1 accesses ∧ (∀ a ∈ accesses, a.op ∈ ledger.registered) ∧
    ∃ a ∈ accesses, a.truncated = .ok r.2

/-- A row survives some calls when it survives the first and the rest. -/
theorem survives_cons_iff {call : HistoryCall} {rest : List HistoryCall}
    {r : PackageUser × Access} :
    Survives (call :: rest) r ↔ Survives [call] r ∧ Survives rest r := by
  unfold Survives
  constructor
  · intro h
    exact ⟨fun cutoff hmem => h cutoff (List.mem_singleton.1 hmem ▸ List.mem_cons_self),
      fun cutoff hmem => h cutoff (List.mem_cons_of_mem call hmem)⟩
  · intro ⟨hcall, hrest⟩ cutoff hmem
    rcases List.mem_cons.1 hmem with rfl | hmem
    · exact hcall cutoff (List.mem_singleton_self _)
    · exact hrest cutoff hmem

/-- The rows after a call are the ones it leaves and the ones it adds. -/
theorem mem_live_after {ledger : Ledger} {call : HistoryCall} {r : PackageUser × Access} :
    r ∈ (ledger.after call).live ↔
      r ∈ ledger.live ∧ Survives [call] r ∨ ledger.Enters call r := by
  cases call with
  | register | reopen => simp [after, Survives, Enters]
  | prune cutoff => simp [after, Survives, Enters]
  | record owner accesses =>
    have hsurvives : Survives [.record owner accesses] r := nofun
    by_cases hall : ∀ a ∈ accesses, a.op ∈ ledger.registered
    · -- what a batch adds is what rounding leaves of its accesses
      have hnew : r ∈ (accesses.filterMap (·.truncated.toOption)).map (owner, ·) ↔
          ledger.Enters (.record owner accesses) r := by
        constructor
        · intro hr
          obtain ⟨whole, hwhole, rfl⟩ := List.mem_map.1 hr
          obtain ⟨a, ha, htruncated⟩ := List.mem_filterMap.1 hwhole
          exact ⟨accesses, rfl, hall, a, ha, toOption_eq_some_iff.1 htruncated⟩
        · rintro ⟨_, heq, -, a, ha, htruncated⟩
          obtain ⟨rfl, rfl⟩ := HistoryCall.record.inj heq
          exact List.mem_map.2 ⟨r.2,
            List.mem_filterMap.2 ⟨a, ha, toOption_eq_some_iff.2 htruncated⟩, rfl⟩
      rw [after, if_pos hall, List.mem_append, hnew]
      exact or_congr_left (and_iff_left hsurvives).symm
    · have hrefused : ¬ledger.Enters (.record owner accesses) r := by
        rintro ⟨_, heq, hops, -⟩
        obtain ⟨-, rfl⟩ := HistoryCall.record.inj heq
        exact hall hops
      rw [after, if_neg hall, or_iff_left hrefused, and_iff_left hsurvives]

/-- An access is live after a run if some call recorded it and no later one pruned it. -/
theorem mem_live_run {ledger : Ledger} {calls : List HistoryCall} {r : PackageUser × Access} :
    r ∈ (ledger.run calls).live ↔ r ∈ ledger.live ∧ Survives calls r ∨
      ∃ before call later, calls = before ++ call :: later ∧
        (ledger.run before).Enters call r ∧ Survives later r := by
  induction calls generalizing ledger with
  | nil => simp [run, Survives]
  | cons call rest ih =>
    show r ∈ ((ledger.after call).run rest).live ↔ _
    rw [ih, survives_cons_iff, mem_live_after]
    -- the access was live before the first call, enters in it, or enters in one of the rest
    constructor
    · rintro (⟨hlive | henters, hrest⟩ | ⟨before, first, later, rfl, henters, hlater⟩)
      · exact .inl ⟨hlive.1, hlive.2, hrest⟩
      · exact .inr ⟨[], call, rest, rfl, henters, hrest⟩
      · exact .inr ⟨call :: before, first, later, rfl, henters, hlater⟩
    · rintro (⟨hlive, hcall, hrest⟩ | ⟨before, first, later, hsplit, henters, hlater⟩)
      · exact .inl ⟨.inl ⟨hlive, hcall⟩, hrest⟩
      · rcases List.cons_eq_append_iff.1 hsplit with ⟨rfl, heq⟩ | ⟨front, rfl, heq⟩
        · obtain ⟨rfl, rfl⟩ := List.cons.inj heq
          exact .inl ⟨.inr henters, hlater⟩
        · exact .inr ⟨front, first, later, heq, henters, hlater⟩

end Ledger

/-! ## Tables -/

theorem Access.op_of_truncated {access whole : Access} (h : access.truncated = .ok whole) :
    whole.op = access.op := by
  unfold truncated at h
  obtain ⟨time, -, h⟩ := bind_eq_ok_iff.1 h
  obtain rfl := Except.ok.inj h
  rfl

namespace Table

variable {table : Table}

theorem mem_tracked_registerAll {ops : List String} {op : String} :
    op ∈ (table.registerAll ops).tracked ↔ op ∈ table.tracked ∨ op ∈ ops := by
  induction ops generalizing table with
  | nil => simp [registerAll]
  | cons first rest ih =>
    show op ∈ ((table.register first).registerAll rest).tracked ↔ _
    rw [ih, register, OrderedSet.mem_insert, List.mem_cons, or_comm (a := op = first), or_assoc]

/-- Tracking ops adds no rows and takes none. -/
theorem rows_registerAll (ops : List String) : (table.registerAll ops).rows = table.rows := by
  induction ops generalizing table with
  | nil => rfl
  | cons first rest ih => exact ih

/-- A row of an op that is not tracked is refused. -/
theorem record_of_untracked (owner : PackageUser) {access : Access}
    (h : access.op ∉ table.tracked) :
    table.record owner access = .error (.untracked access.op) := by
  unfold record
  rw [if_pos h]
  rfl

/-- Else its whole minutes are added at the end. -/
theorem record_of_tracked (owner : PackageUser) {access whole : Access}
    (h : access.op ∈ table.tracked) (hwhole : access.truncated = .ok whole) :
    ∃ next, table.record owner access = .ok next ∧ next.tracked = table.tracked ∧
      next.rows = table.rows ++ [Row.ofAccess owner whole] := by
  have hop : (Row.ofAccess owner whole).op ∈ table.tracked := by
    rw [← Access.op_of_truncated hwhole] at h
    exact h
  obtain ⟨next, hadd, htracked, hrows⟩ : ∃ next, table.addRow? (.ofAccess owner whole) = some next ∧
      next.tracked = table.tracked ∧ next.rows = table.rows ++ [.ofAccess owner whole] :=
    ⟨_, dif_pos hop, rfl, rfl⟩
  refine ⟨next, ?_, htracked, hrows⟩
  unfold record
  rw [if_neg (not_not_intro h), hwhole]
  dsimp only [Except.mapError, bind, Except.bind, pure, Except.pure]
  rw [hadd]

/-- Recording several accesses records all of them, or is refused because of an op that is not
tracked. -/
theorem recordAll_cases (owner : PackageUser) {accesses : List Access}
    (fits : ∀ a ∈ accesses.takeWhile (·.op ∈ table.tracked), ∃ whole, a.truncated = .ok whole) :
    ((∀ a ∈ accesses, a.op ∈ table.tracked) ∧ ∃ next, table.recordAll owner accesses = .ok next ∧
        next.tracked = table.tracked ∧ next.rows =
          table.rows ++ (accesses.filterMap (·.truncated.toOption)).map (Row.ofAccess owner)) ∨
      (¬∀ a ∈ accesses, a.op ∈ table.tracked) ∧
        ∃ op, table.recordAll owner accesses = .error (.untracked op) := by
  induction accesses generalizing table with
  | nil => exact .inl ⟨nofun, table, rfl, rfl, (List.append_nil _).symm⟩
  | cons access rest ih =>
    by_cases hop : access.op ∈ table.tracked
    · -- the row that is added keeps the tracked ops, so the rest meets the same ones
      rw [List.takeWhile_cons, if_pos (decide_eq_true hop)] at fits
      obtain ⟨⟨whole, hwhole⟩, fits⟩ := List.forall_mem_cons.1 fits
      obtain ⟨next, hnext, htracked, hrows⟩ := record_of_tracked owner hop hwhole
      rw [← htracked] at fits
      have hstep : table.recordAll owner (access :: rest) = next.recordAll owner rest := by
        show table.record owner access >>= _ = _
        rw [hnext]
        rfl
      rw [hstep]
      rcases ih fits with ⟨hall, last, hlast, htracked', hrows'⟩ | ⟨hnot, op, herror⟩
      · rw [htracked] at hall
        refine .inl ⟨List.forall_mem_cons.2 ⟨hop, hall⟩, last, hlast, htracked'.trans htracked, ?_⟩
        rw [hrows', hrows, List.filterMap_cons, hwhole]
        exact List.append_assoc ..
      · rw [htracked] at hnot
        exact .inr ⟨fun h => hnot (List.forall_mem_cons.1 h).2, op, herror⟩
    · refine .inr ⟨fun h => hop (List.forall_mem_cons.1 h).1, access.op, ?_⟩
      show table.record owner access >>= _ = _
      rw [record_of_untracked owner hop]
      rfl

/-- What is pruned of rows that stand for accesses. -/
theorem rows_prune {rows : List (PackageUser × Access)}
    (h : table.rows = rows.map fun r => Row.ofAccess r.1 r.2) (cutoff : Millis) :
    (table.prune cutoff).rows = (rows.filter fun r => cutoff.toInt ≤ r.2.time.toInt).map
      fun r => Row.ofAccess r.1 r.2 := by
  show table.rows.filter _ = _
  rw [h, List.filter_map]
  congr 1
  refine List.filter_congr fun r _ => ?_
  show (!decide (r.2.time.toInt < cutoff.toInt)) = _
  rw [← decide_not, decide_eq_decide]
  exact Int.not_lt

theorem countBefore_eq {rows : List (PackageUser × Access)}
    (h : table.rows = rows.map fun r => Row.ofAccess r.1 r.2) (cutoff : Millis) :
    table.countBefore cutoff = rows.countP fun r => r.2.time.toInt < cutoff.toInt := by
  unfold countBefore
  rw [h, List.countP_map]
  rfl

end Table

/-! ## A database and its ledger -/

/-- A database holds what a ledger says. -/
structure Mirrors (ledger : Ledger) (database : Database) : Prop where
  running : database.isRunning = true
  version : database.contents.version = currentVersion
  tracked : ∀ op, op ∈ database.contents.table.tracked ↔ op ∈ ledger.registered
  rows : database.contents.table.rows = ledger.live.map fun r => Row.ofAccess r.1 r.2

/-- What a database answers, in the words of a ledger. -/
structure Behaves (ledger : Ledger) (database : Database) : Prop where
  record_ok_iff : ∀ owner accesses, ledger.Fits (.record owner accesses) →
    ((database.record owner accesses).1 = .ok () ↔ ∀ a ∈ accesses, a.op ∈ ledger.registered)
  record_refused : ∀ owner accesses, ledger.Fits (.record owner accesses) →
    (database.record owner accesses).1 ≠ .ok () →
      (database.record owner accesses).2 = database
  prune : ∀ cutoff, (database.prune cutoff).1 =
    .ok (ledger.live.countP fun r => r.2.time.toInt < cutoff.toInt)
  unknownOp_iff : ∀ op start stop,
    database.source.accesses op start stop = .error (.unknownOp op) ↔ op ∉ ledger.registered
  accesses : ∀ op start stop, op ∈ ledger.registered →
    ∃ batches, database.source.accesses op start stop = .ok batches ∧
      Lists (ledger.inRange op start stop) batches

namespace Database

variable {database : Database} {task : Table → Except TaskFailure Table}

/-- A change that goes through. -/
theorem change_of_ok {next : Table} (running : database.isRunning = true)
    (h : task database.contents.table = .ok next) : database.change task =
      (.ok (), { database with contents := { database.contents with table := next } }) := by
  unfold change call
  rw [if_pos running]
  dsimp only
  rw [h]
  rfl

/-- A change that is refused is rolled back, and the worker goes on. -/
theorem change_of_refused {error : CallError} (running : database.isRunning = true)
    (h : task database.contents.table = .error (.refused error)) :
    database.change task = (.error error, database) := by
  unfold change call
  rw [if_pos running]
  dsimp only
  rw [h]
  rfl

/-- Opening brings nothing up to date that is of the current version. -/
theorem ofContents_of_current {contents : Contents} (h : contents.version = currentVersion) :
    ofContents contents = .ok { contents := { contents with version := currentVersion } } := by
  unfold ofContents Contents.migrate
  rw [h]
  rfl

theorem source_accesses (database : Database) (op : String) (start stop : Millis) :
    database.source.accesses op start stop = database.readOp op (·.accesses op start stop) := rfl

/-- A read of an op that is not tracked is refused. -/
theorem readOp_of_untracked {α : Type} {op : String} (running : database.isRunning = true)
    (h : op ∉ database.contents.table.tracked) (read : Table → Except OutOfRange α) :
    database.readOp op read = .error (.unknownOp op) := by
  unfold readOp query
  rw [if_pos running]
  dsimp only
  rw [if_neg h]

/-- Any other read is answered from the table. -/
theorem readOp_of_ok {α : Type} {op : String} {read : Table → Except OutOfRange α} {answer : α}
    (running : database.isRunning = true) (h : op ∈ database.contents.table.tracked)
    (hread : read database.contents.table = .ok answer) :
    database.readOp op read = .ok answer := by
  unfold readOp query
  rw [if_pos running]
  dsimp only
  rw [if_pos h, hread]
  rfl

end Database

namespace Mirrors

variable {ledger : Ledger} {database : Database}

/-- A new database mirrors a new ledger. -/
theorem empty : Mirrors {} { contents := { version := currentVersion } } :=
  ⟨rfl, rfl, fun _ => iff_of_false nofun nofun, rfl⟩

theorem register (mirrors : Mirrors ledger database) (ops : List String) :
    Mirrors (ledger.after (.register ops)) (database.register ops).2 := by
  have hregister : database.register ops = (.ok (), { database with contents :=
      { database.contents with table := database.contents.table.registerAll ops } }) :=
    Database.change_of_ok mirrors.running rfl
  rw [hregister]
  refine ⟨mirrors.running, mirrors.version, fun op => ?_, ?_⟩
  · show op ∈ (database.contents.table.registerAll ops).tracked ↔ op ∈ ledger.registered ++ ops
    rw [Table.mem_tracked_registerAll, mirrors.tracked, List.mem_append]
  · show (database.contents.table.registerAll ops).rows = _
    rw [Table.rows_registerAll]
    exact mirrors.rows

/-- A recording succeeds and is entered into the ledger, or is refused because of an op that is not
registered and changes nothing. -/
theorem record_cases (mirrors : Mirrors ledger database) {owner : PackageUser}
    {accesses : List Access} (fits : ledger.Fits (.record owner accesses)) :
    ((∀ a ∈ accesses, a.op ∈ ledger.registered) ∧ (database.record owner accesses).1 = .ok () ∧
        Mirrors (ledger.after (.record owner accesses)) (database.record owner accesses).2) ∨
      (¬∀ a ∈ accesses, a.op ∈ ledger.registered) ∧
        (database.record owner accesses).1 ≠ .ok () ∧
        (database.record owner accesses).2 = database := by
  have htracked : (fun a : Access => decide (a.op ∈ ledger.registered)) =
      fun a => decide (a.op ∈ database.contents.table.tracked) :=
    funext fun a => decide_eq_decide.2 (mirrors.tracked a.op).symm
  have hall : (∀ a ∈ accesses, a.op ∈ database.contents.table.tracked) ↔
      ∀ a ∈ accesses, a.op ∈ ledger.registered :=
    forall₂_congr fun a _ => mirrors.tracked a.op
  unfold Ledger.Fits at fits
  rw [htracked] at fits
  unfold Database.record
  -- the table decides: it takes all of the batch or refuses its first bad op
  rcases Table.recordAll_cases owner fits with
    ⟨hops, next, hnext, hsame, hrows⟩ | ⟨hnot, op, herror⟩
  · left
    rw [Database.change_of_ok mirrors.running (by rw [hnext]; rfl)]
    refine ⟨hall.1 hops, rfl, ?_⟩
    rw [Ledger.after, if_pos (hall.1 hops)]
    refine ⟨mirrors.running, mirrors.version, fun op => ?_, ?_⟩
    · show op ∈ next.tracked ↔ _
      rw [hsame]
      exact mirrors.tracked op
    · show next.rows = _
      rw [hrows, mirrors.rows, List.map_append, List.map_map]
      rfl
  · right
    rw [Database.change_of_refused mirrors.running (by rw [herror]; rfl)]
    exact ⟨fun h => hnot (hall.2 h), nofun, rfl⟩

/-- Recording a batch on both sides, whether it is refused or not. -/
theorem record (mirrors : Mirrors ledger database) {owner : PackageUser}
    {accesses : List Access} (fits : ledger.Fits (.record owner accesses)) :
    Mirrors (ledger.after (.record owner accesses)) (database.record owner accesses).2 := by
  rcases mirrors.record_cases fits with ⟨-, -, h⟩ | ⟨hnot, -, hsame⟩
  · exact h
  · rw [Ledger.after, if_neg hnot, hsame]
    exact mirrors

theorem prune (mirrors : Mirrors ledger database) (cutoff : Millis) :
    Mirrors (ledger.after (.prune cutoff)) (database.prune cutoff).2 := by
  unfold Database.prune Database.call
  rw [if_pos mirrors.running]
  exact ⟨mirrors.running, mirrors.version, mirrors.tracked, Table.rows_prune mirrors.rows cutoff⟩

/-- What was closed is found again when it is opened. -/
theorem reopen (mirrors : Mirrors ledger database) :
    ∃ next, Database.ofContents database.contents = .ok next ∧ Mirrors ledger next :=
  ⟨_, Database.ofContents_of_current mirrors.version, rfl, rfl, mirrors.tracked, mirrors.rows⟩

/-- What the ledger lists is what the database answers, so it behaves as the ledger says. -/
theorem behaves (mirrors : Mirrors ledger database) : Behaves ledger database where
  record_ok_iff owner accesses fits := by
    rcases mirrors.record_cases fits with ⟨hall, hok, -⟩ | ⟨hnot, hrefused, -⟩
    · exact iff_of_true hok hall
    · exact iff_of_false hrefused hnot
  record_refused owner accesses fits hrefused := by
    rcases mirrors.record_cases fits with ⟨-, hok, -⟩ | ⟨-, -, hsame⟩
    · exact absurd hok hrefused
    · exact hsame
  prune cutoff := by
    unfold Database.prune Database.call
    rw [if_pos mirrors.running]
    show Except.ok (database.contents.table.countBefore cutoff) = _
    rw [Table.countBefore_eq mirrors.rows]
  unknownOp_iff op start stop := by
    rw [← mirrors.tracked, Database.source_accesses]
    by_cases hop : op ∈ database.contents.table.tracked
    · obtain ⟨batches, hbatches, -⟩ := Table.lists_accesses mirrors.rows op start stop
      rw [Database.readOp_of_ok mirrors.running hop hbatches]
      exact iff_of_false nofun (not_not_intro hop)
    · exact iff_of_true (Database.readOp_of_untracked mirrors.running hop _) hop
  accesses op start stop hop := by
    obtain ⟨batches, hbatches, hlists⟩ := Table.lists_accesses mirrors.rows op start stop
    refine ⟨batches, ?_, hlists⟩
    rw [Database.source_accesses]
    exact Database.readOp_of_ok mirrors.running ((mirrors.tracked op).2 hop) hbatches

end Mirrors

/-! ## Runs -/

namespace Disk

/-- A new directory with an empty history, which is open. -/
def opened (path : String) : Disk := (({ path } : Disk).openAt .history).2

def afterCall {α : Type} (disk : Disk) (run : Database → α × Database) : Disk :=
  ((disk.call? run).map (·.2)).getD disk

def after (disk : Disk) : HistoryCall → Disk
  | .register ops => disk.afterCall (·.register ops)
  | .record owner accesses => disk.afterCall (·.record owner accesses)
  | .prune cutoff => disk.afterCall (·.prune cutoff)
  | .reopen => (disk.openAt .history).2

def run (disk : Disk) (calls : List HistoryCall) : Disk := calls.foldl after disk

variable {disk : Disk} {database : Database} {ledger : Ledger}

/-- A call goes to the open database. -/
theorem current_afterCall {α : Type} {run : Database → α × Database}
    (h : disk.current = some (.history, database)) :
    (disk.afterCall run).current = some (.history, (run database).2) := by
  unfold afterCall call?
  rw [h]
  rfl

/-- A history that is opened again is opened on what it held. -/
theorem current_reopen {next : Database} (h : disk.current = some (.history, database))
    (hopen : Database.ofContents database.contents = .ok next) :
    (disk.openAt .history).2.current = some (.history, next) := by
  have hfind : disk.close.find .history = .ok next := by
    unfold close find
    rw [h]
    show (Database.ofContents database.contents).mapError _ = _
    rw [hopen]
    rfl
  unfold openAt
  dsimp only
  rw [hfind]

/-- Every call keeps what the database holds in agreement with the ledger. -/
theorem mirrors_after (hcurrent : disk.current = some (.history, database))
    (mirrors : Mirrors ledger database) {call : HistoryCall} (fits : ledger.Fits call) :
    ∃ next, (disk.after call).current = some (.history, next) ∧
      Mirrors (ledger.after call) next := by
  cases call with
  | register ops => exact ⟨_, current_afterCall hcurrent, mirrors.register ops⟩
  | record owner accesses => exact ⟨_, current_afterCall hcurrent, mirrors.record fits⟩
  | prune cutoff => exact ⟨_, current_afterCall hcurrent, mirrors.prune cutoff⟩
  | reopen =>
    obtain ⟨next, hopen, hmirrors⟩ := mirrors.reopen
    exact ⟨next, current_reopen hcurrent hopen, hmirrors⟩

/-- So the mirror image is kept along any calls, by induction over them. -/
theorem mirrors_run (hcurrent : disk.current = some (.history, database))
    (mirrors : Mirrors ledger database) {calls : List HistoryCall} (fits : ledger.AllFit calls) :
    ∃ next, (disk.run calls).current = some (.history, next) ∧ Mirrors (ledger.run calls) next := by
  induction calls generalizing disk ledger database with
  | nil => exact ⟨database, hcurrent, mirrors⟩
  | cons call rest ih =>
    obtain ⟨next, hnext, hmirrors⟩ := mirrors_after hcurrent mirrors fits.1
    exact ih hnext hmirrors fits.2

/-- **The history is a plain table.** After any run of calls on a new history in which rounding does
not overflow, a database is open, and it answers in the words of the ledger of the run. In that
ledger an op is registered if some call registered it, and an access is live if some call recorded
it and no later one pruned it. -/
theorem run_behaves (path : String) (calls : List HistoryCall)
    (fits : ({} : Ledger).AllFit calls) :
    ∃ database, ((opened path).run calls).current = some (.history, database) ∧
      Behaves (({} : Ledger).run calls) database ∧
      (∀ op, op ∈ (({} : Ledger).run calls).registered ↔
        ∃ ops, .register ops ∈ calls ∧ op ∈ ops) ∧
      ∀ r, r ∈ (({} : Ledger).run calls).live ↔
        ∃ before call later, calls = before ++ call :: later ∧
          (({} : Ledger).run before).Enters call r ∧ Ledger.Survives later r := by
  have hempty : ∀ op, op ∈ Table.empty.tracked ↔ op ∈ ([] : List String) :=
    fun op => iff_of_false nofun nofun
  have hmirrors : Mirrors {} { contents := { version := currentVersion } } :=
    ⟨rfl, rfl, hempty, rfl⟩
  have hopened : (opened path).current =
      some (.history, { contents := { version := currentVersion } }) := rfl
  obtain ⟨database, hcurrent, mirrors⟩ := mirrors_run hopened hmirrors fits
  refine ⟨database, hcurrent, mirrors.behaves, fun op => ?_, fun r => ?_⟩
  · exact Ledger.mem_registered_run.trans (or_iff_right List.not_mem_nil)
  · exact Ledger.mem_live_run.trans (or_iff_right fun h => List.not_mem_nil h.1)

/-! ### A refused recording -/

namespace RefusedRecording

def camera : PackageUser := ⟨"com.example.camera", 10⟩

/-- One access is recorded, two are refused because only one of them is of a registered op, and the
history is closed and opened again. -/
def calls : List HistoryCall :=
  [.register [Op.camera],
   .record camera [{ op := Op.camera, time := 90000, duration := 70000 }],
   .record camera [{ op := Op.camera, time := 150000, duration := -1 },
     { op := Op.recordAudio, time := 150000, duration := -1 }],
   .reopen]

/-- None of these accesses is near the ends of the range. -/
theorem fits (owner : PackageUser) (accesses : List Access)
    (h : .record owner accesses ∈ calls) (a : Access) (ha : a ∈ accesses) :
    ∃ whole, a.truncated = .ok whole := by
  simp only [calls, List.mem_cons, HistoryCall.record.injEq, reduceCtorEq, false_or, or_false,
    List.not_mem_nil] at h
  rcases h with ⟨-, rfl⟩ | ⟨-, rfl⟩
  · obtain rfl := List.mem_singleton.1 ha
    exact ⟨_, rfl⟩
  · rcases List.mem_pair.1 ha with rfl | rfl <;> exact ⟨_, rfl⟩

end RefusedRecording

open RefusedRecording in
/-- A batch with an op that is not tracked is refused as a whole. -/
theorem run_behaves_of_refusedRecording :
    ∃ database, ((opened "history").run calls).current = some (.history, database) ∧
      Behaves (({} : Ledger).run calls) database ∧ (({} : Ledger).run calls).live =
        [(camera, { op := Op.camera, time := 60000, duration := 60000 })] := by
  obtain ⟨database, hcurrent, hbehaves, -⟩ :=
    run_behaves "history" calls (Ledger.allFit_of_forall fits {})
  exact ⟨database, hcurrent, hbehaves, by decide +kernel⟩

end Disk

end PermissionUsage
