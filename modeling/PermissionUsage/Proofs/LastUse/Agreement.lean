import PermissionUsage.Proofs.History.WholeMinutes
/-!
# The two reads of a source agree

A source is asked for the accesses of an op or for the latest one of every owner. Both sources
answer the second question on their own and not from the first: a history looks at keys of rows, a
platform keeps a running maximum. `AccessSource.ReadsAgree` says that the answers tell the same.

* `Table.exists_tellsLatest`: rows that are grouped by their columns fall into the groups of their
  owners, and the latest time of a group is that of its accesses.
* `forall₂_mergeAll`: items that are merged step by step with others stay next to them, if joining
  two of them keeps what they have to do with the others.
* `AccessSource.bothReads_agree`: so it is of every history and of every platform.
-/

namespace PermissionUsage

/-! ## What agreement means -/

/-- An item has one use, of the op, by the owner of the batch and at its latest time. -/
structure Batch.TellsLatest (op : String) (batch : Batch) (item : LastUses) : Prop where
  owner : item.owner = batch.owner
  uses : ∃ last, item.uses = [{ op, last }] ∧ last ∈ batch.accesses.map (·.time) ∧
    ∀ a ∈ batch.accesses, a.time.toInt ≤ last.toInt

namespace AccessSource

/-- All accesses of an op, but for those at the last instant there is. -/
def history (source : AccessSource) (op : String) : Except SourceError (List Batch) :=
  source.accesses op Int64.minValue Int64.maxValue

/-- The latest accesses of an op are refused as its history is. Otherwise the history has one batch
for each owner, and the items tell the latest access of each batch, in the same order. -/
structure ReadsAgree (source : AccessSource) (op : String) : Prop where
  refused_iff : ∀ error, source.lastUses op = .error error ↔ source.history op = .error error
  distinct : ∀ batches, source.history op = .ok batches → (batches.map (·.owner)).Nodup
  latest : ∀ batches, source.history op = .ok batches →
    ∃ items, source.lastUses op = .ok items ∧ List.Forall₂ (Batch.TellsLatest op) batches items

namespace ReadsAgree

variable {source : AccessSource} {op : String}

/-- Two refusals for the same reason agree. -/
theorem of_refused {error : SourceError} (hhistory : source.history op = .error error)
    (hlatest : source.lastUses op = .error error) : source.ReadsAgree op where
  refused_iff other := by
    rw [hhistory, hlatest, Except.error.injEq, Except.error.injEq]
  distinct batches h := nomatch hhistory.symm.trans h
  latest batches h := nomatch hhistory.symm.trans h

/-- Two listings of the same owners agree if the second tells the latest of the first. -/
theorem of_listed {batches : List Batch} {items : List LastUses}
    (hhistory : source.history op = .ok batches) (hlatest : source.lastUses op = .ok items)
    (nodup : (batches.map (·.owner)).Nodup)
    (tells : List.Forall₂ (Batch.TellsLatest op) batches items) : source.ReadsAgree op where
  refused_iff other := by
    rw [hhistory, hlatest]
    exact iff_of_false nofun nofun
  distinct found h := Except.ok.inj (hhistory.symm.trans h) ▸ nodup
  latest found h := Except.ok.inj (hhistory.symm.trans h) ▸ ⟨items, hlatest, tells⟩

end ReadsAgree

end AccessSource

/-! ## Groups of rows -/

/-- A name and a user id as they are kept tell owners apart. -/
theorem injective_keptOwner :
    Function.Injective fun owner : PackageUser => (owner.packageName, widenUser owner.userId) := by
  intro a b h
  obtain ⟨hname, huser⟩ := Prod.mk.inj h
  cases a
  cases b
  exact congrArg₂ _ hname (widenUser_injective huser)

/-- Rows of accesses that are grouped by their columns fall into the groups of their owners. -/
theorem groupNeighbours_ofAccess (owned : List (PackageUser × Access)) :
    groupNeighbours (fun row : Row => (row.packageName, row.userId))
        (owned.map fun r => Row.ofAccess r.1 r.2) =
      (groupNeighbours (·.1) owned).map fun entry =>
        ((entry.1.packageName, widenUser entry.1.userId),
          entry.2.map fun r => Row.ofAccess r.1 r.2) :=
  groupNeighbours_map (·.1) injective_keptOwner (fun _ => rfl) owned

/-- The batch of a group of accesses of one owner. -/
def groupBatch (entry : PackageUser × List (PackageUser × Access)) : Batch :=
  { owner := entry.1, accesses := entry.2.map (·.2) }

/-- The latest access of such a group. -/
def groupLatest (op : String) (entry : PackageUser × List (PackageUser × Access)) : LastUses :=
  let last := Table.latestTime (entry.2.map fun r => Row.ofAccess r.1 r.2)
  { owner := entry.1, uses := [{ op, last }] }

/-- The latest time of rows, computed in two ways. -/
theorem latest?_map_time {rows : List Row} (h : rows ≠ []) :
    LastUses.latest? (rows.map (·.time)) = some (Table.latestTime rows) := by
  cases rows with
  | nil => exact absurd rfl h
  | cons row rest => rfl

/-- Of the same rows, one read makes the batch and the other one its latest use. -/
theorem tellsLatest_group (op : String) {entry : PackageUser × List (PackageUser × Access)}
    (h : entry.2 ≠ []) : (groupBatch entry).TellsLatest op (groupLatest op entry) := by
  have hrows : entry.2.map (fun r => Row.ofAccess r.1 r.2) ≠ [] := mt List.map_eq_nil_iff.1 h
  have hlatest := latest?_map_time hrows
  rw [List.map_map] at hlatest
  obtain ⟨hmem, hle⟩ := LastUses.latest?_eq_some_iff.1 hlatest
  refine ⟨rfl, _, rfl, ?_, List.forall_mem_map.2 fun r hr => hle _ (List.mem_map_of_mem hr)⟩
  show _ ∈ (entry.2.map (·.2)).map (·.time)
  rw [List.map_map]
  exact hmem

namespace Table

/-- What a table says of the latest accesses of an op is what its batches say, if all accesses are
in the range of time. -/
theorem exists_tellsLatest {table : Table} {rows : List (PackageUser × Access)}
    (h : table.rows = rows.map fun r => Row.ofAccess r.1 r.2) (op : String) {start stop : Millis}
    (inRange : ∀ r ∈ rows, start.toInt ≤ r.2.time.toInt ∧ r.2.time.toInt < stop.toInt) :
    ∃ batches items, table.accesses op start stop = .ok batches ∧
      table.lastUses op = .ok items ∧ Lists (rows.filter (·.2.op = op)) batches ∧
      List.Forall₂ (Batch.TellsLatest op) batches items := by
  obtain ⟨owned, hsort, hperm, hsorted⟩ := exists_sort_eq (rows.filter (·.2.op = op))
  have hfound : table.rows.filter (·.op = op) =
      (rows.filter (·.2.op = op)).map fun r => Row.ofAccess r.1 r.2 := by
    rw [h, List.filter_map]
    rfl
  have hrange : table.rows.filter (fun row => row.op = op ∧ start.toInt ≤ row.time.toInt ∧
      row.time.toInt < stop.toInt) = table.rows.filter (·.op = op) := by
    rw [h]
    refine List.filter_congr (List.forall_mem_map.2 fun r hr => decide_eq_decide.2 ?_)
    exact and_iff_left (inRange r hr)
  -- both reads look at the same rows in the same order
  have haccesses : table.accesses op start stop =
      .ok ((groupNeighbours (·.1) owned).map groupBatch) := by
    unfold accesses
    rw [hrange, hfound]
    exact bind_eq_ok_iff.2 ⟨owned, by rw [hsort, mapM_toAccess], rfl⟩
  have hlatest : table.lastUses op =
      .ok ((groupNeighbours (·.1) owned).map (groupLatest op)) := by
    unfold lastUses
    rw [hfound, hsort]
    dsimp only
    rw [groupNeighbours_ofAccess, mapM_eq_ok_iff, List.forall₂_map_left_iff,
      List.forall₂_map_right_iff, List.forall₂_same]
    intro entry _
    exact bind_eq_ok_iff.2 ⟨entry.1.userId, narrowUser_widenUser _ _, rfl⟩
  refine ⟨_, _, haccesses, hlatest, lists_groupNeighbours hperm hsorted, ?_⟩
  rw [List.forall₂_map_left_iff, List.forall₂_map_right_iff, List.forall₂_same]
  intro entry hentry
  exact tellsLatest_group op (of_mem_groupNeighbours entry hentry).1

end Table

/-! ## Histories -/

/-- A whole minute is not the last instant there is. -/
theorem IsWhole.lt_maxValue {time duration : Millis} (h : IsWhole time duration) :
    time.toInt < Int64.maxValue.toInt := by
  have hminute := h.time
  have hle := time.toInt_le
  have hmax : Int64.maxValue.toInt = 9223372036854775807 := by decide
  omega

namespace Database

variable {database : Database}

theorem source_history (database : Database) (op : String) : database.source.history op =
    database.readOp op (·.accesses op Int64.minValue Int64.maxValue) := rfl

theorem source_lastUses (database : Database) (op : String) :
    database.source.lastUses op = database.readOp op (·.lastUses op) := rfl

/-- Both reads of a database are refused alike. -/
theorem readsAgree_of_refused {op : String} {error : SourceError}
    (refused : ∀ {α : Type} (read : Table → Except OutOfRange α),
      database.readOp op read = .error error) : database.source.ReadsAgree op :=
  .of_refused ((source_history database op).trans (refused _))
    ((source_lastUses database op).trans (refused _))

end Database

/-- A history without accesses at the last instant there is. -/
theorem Mirrors.readsAgree {ledger : Ledger} {database : Database}
    (mirrors : Mirrors ledger database)
    (earlier : ∀ r ∈ ledger.live, r.2.time.toInt < Int64.maxValue.toInt) (op : String) :
    database.source.ReadsAgree op := by
  by_cases hop : op ∈ database.contents.table.tracked
  · have inRange : ∀ r ∈ ledger.live, Int64.minValue.toInt ≤ r.2.time.toInt ∧
        r.2.time.toInt < Int64.maxValue.toInt :=
      fun r hr => ⟨r.2.time.minValue_le_toInt, earlier r hr⟩
    obtain ⟨batches, items, haccesses, hlatest, hlists, htells⟩ :=
      Table.exists_tellsLatest mirrors.rows op inRange
    have hhistory : database.source.history op = .ok batches := by
      rw [Database.source_history]
      exact Database.readOp_of_ok mirrors.running hop haccesses
    have huses : database.source.lastUses op = .ok items := by
      rw [Database.source_lastUses]
      exact Database.readOp_of_ok mirrors.running hop hlatest
    exact .of_listed hhistory huses hlists.collects.nodup htells
  · exact Database.readsAgree_of_refused (Database.readOp_of_untracked mirrors.running hop)

/-- A database whose rows were recorded answers both reads in agreement. -/
theorem Database.IsRecorded.readsAgree {database : Database} (recorded : database.IsRecorded)
    (op : String) : database.source.ReadsAgree op := by
  cases running : database.isRunning with
  | true =>
    obtain ⟨live, mirrors, hlive⟩ := recorded.exists_mirrors running
    refine mirrors.readsAgree (fun r hr => ?_) op
    obtain ⟨-, access, hround⟩ := hlive r hr
    exact (Access.isWhole_of_truncated hround).lt_maxValue
  | false =>
    -- the worker has ended and refuses whatever is asked
    exact readsAgree_of_refused (readOp_of_gone running op)

/-! ## Merging in step -/

section Merging

variable {α β : Type} {owner : α → PackageUser} {join : α → α → α} {owner' : β → PackageUser}
  {join' : β → β → β} {R : α → β → Prop} (owners : ∀ a b, R a b → owner a = owner' b)
  (joins : ∀ a b a' b', R a b → R a' b' → R (join a a') (join' b b'))
include owners joins

/-- An item that goes with another is merged where that one is. -/
theorem forall₂_mergeItem {item : α} {item' : β} (hitem : R item item') {merged : List α}
    {merged' : List β} (h : List.Forall₂ R merged merged') :
    List.Forall₂ R (mergeItem owner join item merged) (mergeItem owner' join' item' merged') := by
  induction h with
  | nil => exact .cons hitem .nil
  | cons hfirst hrest ih =>
    rw [mergeItem, mergeItem, ← owners _ _ hfirst, ← owners _ _ hitem]
    split
    · exact .cons (joins _ _ _ _ hfirst hitem) hrest
    · exact .cons hfirst ih

/-- Items that go one by one with others are merged as those are. -/
theorem forall₂_mergeAll {items : List α} {items' : List β} (h : List.Forall₂ R items items')
    {merged : List α} {merged' : List β} (hmerged : List.Forall₂ R merged merged') :
    List.Forall₂ R (mergeAll owner join merged items) (mergeAll owner' join' merged' items') := by
  induction h generalizing merged merged' with
  | nil => exact hmerged
  | cons hitem _ ih => exact ih (forall₂_mergeItem owners joins hitem hmerged)

end Merging

/-! ## Platforms -/

namespace Platform

/-- Joining a batch and its latest access with others keeps the one the latest of the other. -/
theorem tellsLatest_join {op : String} {batch other : Batch} {item next : LastUses}
    (h : batch.TellsLatest op item) (h' : other.TellsLatest op next) :
    (batch.join other).TellsLatest op (joinLatest item next) := by
  obtain ⟨last, huses, hmem, hle⟩ := h.uses
  obtain ⟨last', huses', hmem', hle'⟩ := h'.uses
  have hlater := Millis.toInt_later last last'
  refine ⟨h.owner, Millis.later last last', ?_, ?_, List.forall_mem_append.2 ⟨?_, ?_⟩⟩
  · show item.uses.map _ = _
    rw [huses, huses']
    rfl
  · show _ ∈ (batch.accesses ++ other.accesses).map (·.time)
    rw [List.map_append, List.mem_append]
    unfold Millis.later
    split
    · exact .inr hmem'
    · exact .inl hmem
  · intro a ha
    have hlast := hle a ha
    omega
  · intro a ha
    have hlast := hle' a ha
    omega

/-- A single access is its own latest. -/
theorem tellsLatest_single {op : String} (a : OwnedAccess) :
    Batch.TellsLatest op { owner := a.owner, accesses := [a.access] } (useOf op a) :=
  ⟨rfl, a.access.time, rfl, List.mem_singleton_self _, List.forall_mem_singleton.2 le_rfl⟩

theorem batches_eq_mergeAll (accesses : List OwnedAccess) :
    batches accesses = mergeAll Batch.owner Batch.join []
      (accesses.map fun a => { owner := a.owner, accesses := [a.access] }) := rfl

/-- The running maxima of a platform are the latest accesses of its batches. -/
theorem tellsLatest_latestByOwner (op : String) (accesses : List OwnedAccess) :
    List.Forall₂ (Batch.TellsLatest op) (batches accesses) (latestByOwner op accesses) := by
  rw [batches_eq_mergeAll, latestByOwner_eq_mergeAll]
  apply forall₂_mergeAll
  · exact fun batch item h => h.owner.symm
  · exact fun batch item other next => tellsLatest_join
  · rw [List.forall₂_map_left_iff, List.forall₂_map_right_iff, List.forall₂_same]
    exact fun a _ => tellsLatest_single a
  · exact .nil

/-- A platform answers both reads in agreement if the whole history is read, which leaves out the
last instant there is. -/
theorem readsAgree {platform : Platform}
    (earlier : ∀ a ∈ platform.accesses, a.access.time.toInt < Int64.maxValue.toInt)
    (op : String) : platform.source.ReadsAgree op := by
  have haccesses : platform.accessesOf op Int64.minValue Int64.maxValue =
      batches (platform.accesses.filter (·.access.op = op)) := by
    refine congrArg batches (List.filter_congr fun a ha => decide_eq_decide.2 ?_)
    exact and_iff_left ⟨a.access.time.minValue_le_toInt, earlier a ha⟩
  have hhistory : platform.source.history op =
      platform.readAccesses op Int64.minValue Int64.maxValue := rfl
  have huses : platform.source.lastUses op = platform.readLastUses op := rfl
  unfold readAccesses at hhistory
  unfold readLastUses at huses
  -- both reads are refused by the same fault
  cases hrefusal : platform.refusal op with
  | some error =>
    rw [hrefusal] at hhistory huses
    exact .of_refused hhistory huses
  | none =>
    rw [hrefusal] at hhistory huses
    dsimp only at hhistory huses
    rw [haccesses] at hhistory
    refine .of_listed hhistory huses ?_ (tellsLatest_latestByOwner op _)
    exact nodup_mergeAll Batch.owner_join _

end Platform

/-- **The two reads of a source agree.** After any run of calls on a new history, and on any
platform without accesses at the last instant there is, the latest accesses of an op are refused as
its history is, with the same error, or they are the latest ones of the batches of the history. -/
theorem AccessSource.bothReads_agree :
    (∀ (path : String) (calls : List HistoryCall), ∃ database,
      ((Disk.opened path).run calls).current = some (.history, database) ∧
        ∀ op, database.source.ReadsAgree op) ∧
    ∀ platform : Platform,
      (∀ a ∈ platform.accesses, a.access.time.toInt < Int64.maxValue.toInt) →
        ∀ op, platform.source.ReadsAgree op := by
  refine ⟨fun path calls => ?_, fun platform earlier op => Platform.readsAgree earlier op⟩
  obtain ⟨database, hcurrent, hrecorded⟩ := Disk.exists_recorded path calls
  exact ⟨database, hcurrent, hrecorded.readsAgree⟩

/-! ### Two users

A package is used by two users, whose accesses come out of order. The platform lists the users as
they come, a history sorts them and keeps whole minutes.
-/

namespace TwoUsers

def scanner : PackageUser := ⟨"scan", 0⟩

def workScanner : PackageUser := ⟨"scan", 10⟩

def calls : List HistoryCall :=
  [.register [Op.camera],
   .record workScanner [{ op := Op.camera, time := 190000, duration := -1 }],
   .record scanner [{ op := Op.camera, time := -1, duration := 70000 },
     { op := Op.camera, time := -70000, duration := -1 }]]

def platform : Platform :=
  { Platform.fresh with
    accesses :=
      [⟨workScanner, { op := Op.camera, time := 190000, duration := -1 }⟩,
       ⟨scanner, { op := Op.camera, time := -1, duration := 70000 }⟩,
       ⟨workScanner, { op := Op.recordAudio, time := 200000, duration := -1 }⟩,
       ⟨scanner, { op := Op.camera, time := -70000, duration := -1 }⟩] }

/-- When each user last used the camera. -/
def latest (source : AccessSource) : Except SourceError (List (UInt32 × List Millis)) :=
  (source.lastUses Op.camera).map (·.map fun item => (item.owner.userId, item.uses.map (·.last)))

theorem latest_run : ((Disk.opened "history").run calls).current.map (fun current =>
    latest current.2.source) = some (.ok [(0, [-60000]), (10, [180000])]) := by cbv

end TwoUsers

open TwoUsers in
/-- Two users, on a database and on a platform, whose latest accesses were not recorded last. -/
theorem AccessSource.bothReads_agree_of_twoUsers :
    (∃ database, ((Disk.opened "history").run calls).current = some (.history, database) ∧
      database.source.ReadsAgree Op.camera ∧
      latest database.source = .ok [(0, [-60000]), (10, [180000])]) ∧
    platform.source.ReadsAgree Op.camera ∧
      latest platform.source = .ok [(10, [190000]), (0, [-1])] := by
  obtain ⟨hhistories, hplatforms⟩ := bothReads_agree
  obtain ⟨database, hcurrent, hagree⟩ := hhistories "history" calls
  have hlast := latest_run
  rw [hcurrent] at hlast
  refine ⟨⟨database, hcurrent, hagree _, Option.some.inj hlast⟩, ?_, by decide +kernel⟩
  exact hplatforms platform (by decide) _

end PermissionUsage
