import PermissionUsage.Proofs.LastUse.Agreement
/-!
# Copying a history

All that a history lists can be recorded into a new one that tracks the same ops, in any portions,
and the copy answers every read as the history does.

* `Lists.sameByTime`: what is listed of some accesses depends on their order only where an owner
  has several accesses at one time.
* `Mirrors.sameReads`: so two histories that track the same ops and have the same accesses answer
  alike.
* `Mirrors.recordAll`: whole accesses of tracked ops are recorded as they are.
* `Mirrors.exists_histories`: the histories of all tracked ops are all that a history holds.
* `Disk.history_copied`: so every history that can be reached has such a copy.
-/

namespace PermissionUsage

/-! ## The same answers -/

/-- Two batches have the same accesses, both by time. -/
structure Batch.SameByTime (batch other : Batch) : Prop extends batch.Alike other where
  ordered : batch.accesses.Pairwise (·.time.toInt ≤ ·.time.toInt)
  ordered' : other.accesses.Pairwise (·.time.toInt ≤ ·.time.toInt)

/-- Two reads list the same batches in the same order, or are refused for the same reason. -/
inductive SameBatches : Except SourceError (List Batch) → Except SourceError (List Batch) → Prop
  | listed {batches others : List Batch} (h : List.Forall₂ Batch.SameByTime batches others) :
    SameBatches (.ok batches) (.ok others)
  | refused (error : SourceError) : SameBatches (.error error) (.error error)

structure AccessSource.SameReads (source other : AccessSource) : Prop where
  accesses : ∀ op start stop,
    SameBatches (source.accesses op start stop) (other.accesses op start stop)
  lastUses : ∀ op, source.lastUses op = other.lastUses op

/-- The latest access of a batch does not depend on the order of its accesses. -/
theorem Batch.TellsLatest.unique {op : String} {batch other : Batch} {item next : LastUses}
    (h : batch.TellsLatest op item) (h' : other.TellsLatest op next) (alike : batch.Alike other) :
    item = next := by
  obtain ⟨last, huses, hmem, hle⟩ := h.uses
  obtain ⟨last', huses', hmem', hle'⟩ := h'.uses
  obtain ⟨a, ha, rfl⟩ := List.mem_map.1 hmem
  obtain ⟨a', ha', rfl⟩ := List.mem_map.1 hmem'
  have hupper := hle' a (alike.accesses.mem_iff.1 ha)
  have hlower := hle a' (alike.accesses.mem_iff.2 ha')
  have hlast : a.time = a'.time := Int64.toInt_inj.1 (by omega)
  have howner : item.owner = next.owner := h.owner.trans (alike.owner.trans h'.owner.symm)
  cases item
  cases next
  simp_all

/-- Sources whose reads agree have the same latest accesses if they have the same histories. -/
theorem AccessSource.ReadsAgree.lastUses_eq {source other : AccessSource} {op : String}
    (h : source.ReadsAgree op) (h' : other.ReadsAgree op)
    (same : SameBatches (source.history op) (other.history op)) :
    source.lastUses op = other.lastUses op := by
  cases hhistory : source.history op with
  | error error =>
    rw [hhistory] at same
    generalize hother : other.history op = found at same
    cases same
    rw [(h.refused_iff error).2 hhistory, (h'.refused_iff error).2 hother]
  | ok batches =>
    rw [hhistory] at same
    generalize hother : other.history op = found at same
    cases same with
    | listed hbatches =>
      obtain ⟨items, hitems, htells⟩ := h.latest _ hhistory
      obtain ⟨items', hitems', htells'⟩ := h'.latest _ hother
      -- the latest accesses of a batch are determined by its accesses, in any order
      have heq : items = items' := by
        rw [← List.forall₂_eq_eq_eq]
        exact forall₂_of_forall₂ (fun _ _ _ _ hsame ht ht' => ht.unique ht' hsame.toAlike)
          hbatches htells htells'
      rw [hitems, hitems', heq]

/-! ## Listings of the same accesses -/

section Listings

variable {rows rows' : List (PackageUser × Access)} {batches others : List Batch}

/-- A listing depends on its rows up to order only. -/
theorem Lists.of_perm (h : Lists rows batches) (perm : rows.Perm rows') : Lists rows' batches where
  ascending := h.ascending
  owners := (h.collects.of_perm perm).owners
  accesses := (h.collects.of_perm perm).accesses
  ordered := h.ordered
  plain := h.plain

theorem Lists.owners_eq (h : Lists rows batches) (h' : Lists rows others) :
    batches.map (·.owner) = others.map (·.owner) := by
  have hmem : ∀ owner, owner ∈ batches.map (·.owner) ↔ owner ∈ others.map (·.owner) := by
    intro owner
    rw [List.mem_map, List.mem_map, h.owners, h'.owners]
  have hperm : (batches.map (·.owner)).Perm (others.map (·.owner)) :=
    (List.perm_ext_iff_of_nodup h.collects.nodup h'.collects.nodup).2 hmem
  -- owners in ascending order are in one order only
  refine hperm.eq_of_pairwise (fun a b _ _ hab hba => ?_) (List.pairwise_map.2 h.ascending)
    (List.pairwise_map.2 h'.ascending)
  exact absurd rfl (PackageUser.Before.trans hab hba).ne

/-- Listings of the same rows differ only where times are equal. -/
theorem Lists.sameByTime (h : Lists rows batches) (h' : Lists rows' others)
    (perm : rows.Perm rows') : List.Forall₂ Batch.SameByTime batches others := by
  have h' := h'.of_perm perm.symm
  have howners : List.Forall₂ (fun batch other => batch.owner = other.owner) batches others := by
    have heq := h.owners_eq h'
    rwa [← List.forall₂_eq_eq_eq, List.forall₂_map_left_iff, List.forall₂_map_right_iff] at heq
  rw [List.forall₂_iff_zip] at howners ⊢
  refine ⟨howners.1, fun {batch other} hzip => ?_⟩
  obtain ⟨hbatch, hother⟩ := List.of_mem_zip hzip
  have howner := howners.2 hzip
  have haccesses := (h.accesses batch hbatch).trans (howner ▸ (h'.accesses other hother).symm)
  obtain ⟨hlabel, hsensitive⟩ := h.plain batch hbatch
  obtain ⟨hlabel', hsensitive'⟩ := h'.plain other hother
  exact ⟨⟨howner, hlabel.trans hlabel'.symm, hsensitive.trans hsensitive'.symm, haccesses⟩,
    h.ordered batch hbatch, h'.ordered other hother⟩

end Listings

/-- Histories that track the same ops and have the same accesses, none of them at the last instant,
answer alike. -/
theorem Mirrors.sameReads {ledger ledger' : Ledger} {database other : Database}
    (mirrors : Mirrors ledger database) (mirrors' : Mirrors ledger' other)
    (registered : ∀ op, op ∈ ledger.registered ↔ op ∈ ledger'.registered)
    (live : ledger.live.Perm ledger'.live)
    (earlier : ∀ r ∈ ledger.live, r.2.time.toInt < Int64.maxValue.toInt) :
    database.source.SameReads other.source := by
  have haccesses : ∀ op start stop, SameBatches (database.source.accesses op start stop)
      (other.source.accesses op start stop) := by
    intro op start stop
    by_cases hop : op ∈ ledger.registered
    · obtain ⟨batches, hread, hlists⟩ := mirrors.behaves.accesses op start stop hop
      obtain ⟨others, hread', hlists'⟩ :=
        mirrors'.behaves.accesses op start stop ((registered op).1 hop)
      rw [hread, hread']
      exact .listed (hlists.sameByTime hlists' (live.filter _))
    · have hunknown := (mirrors.behaves.unknownOp_iff op start stop).2 hop
      have hunknown' := (mirrors'.behaves.unknownOp_iff op start stop).2
        (mt (registered op).2 hop)
      rw [hunknown, hunknown']
      exact .refused _
  have hearlier : ∀ r ∈ ledger'.live, r.2.time.toInt < Int64.maxValue.toInt :=
    fun r hr => earlier r (live.mem_iff.2 hr)
  exact ⟨haccesses, fun op => (mirrors.readsAgree earlier op).lastUses_eq
    (mirrors'.readsAgree hearlier op) (haccesses op _ _)⟩

/-! ## Recording all accesses -/

/-- The accesses of a recording, each with its owner. -/
def Recording.given (r : Recording) : List (PackageUser × Access) := r.2.map (r.1, ·)

/-- The recording of a whole batch. -/
def Batch.recording (batch : Batch) : Recording := (batch.owner, batch.accesses)

/-- Recording all batches gives all that is in them. -/
theorem flatMap_given_recording (listed : List (List Batch)) :
    (listed.flatten.map Batch.recording).flatMap Recording.given =
      listed.flatMap (·.flatMap Batch.rows) := by
  rw [List.flatMap_map, ← List.flatMap_id', List.flatMap_assoc]
  rfl

/-- Makes some recordings one after another, up to the first that is refused. -/
def Database.recordAll (database : Database) : List Recording → Except CallError Unit × Database
  | [] => (.ok (), database)
  | r :: rest =>
    match database.record r.1 r.2 with
    | (.ok (), next) => next.recordAll rest
    | (.error error, next) => (.error error, next)

/-- Accesses of registered ops that rounding does not change are recorded as they are. -/
theorem Mirrors.recordAll {ledger : Ledger} {database : Database}
    (mirrors : Mirrors ledger database) {recordings : List Recording}
    (recordable : ∀ row ∈ recordings.flatMap Recording.given,
      row.2.op ∈ ledger.registered ∧ row.2.truncated = .ok row.2) :
    ∃ next, database.recordAll recordings = (.ok (), next) ∧
      Mirrors { ledger with live := ledger.live ++ recordings.flatMap Recording.given } next := by
  induction recordings generalizing ledger database with
  | nil => exact ⟨database, rfl, by rwa [List.flatMap_nil, List.append_nil]⟩
  | cons r rest ih =>
    rw [List.flatMap_cons, List.forall_mem_append] at recordable
    obtain ⟨hr, hrest⟩ := recordable
    have hr : ∀ a ∈ r.2, a.op ∈ ledger.registered ∧ a.truncated = .ok a := List.forall_mem_map.1 hr
    have hfits : ledger.Fits (.record r.1 r.2) :=
      fun a ha => ⟨a, (hr a (List.takeWhile_subset _ ha)).2⟩
    -- rounding changes none of them, so all are kept as they are
    have hkept : r.2.filterMap (·.truncated.toOption) = r.2 := by
      refine (List.filterMap_congr fun a ha => ?_).trans List.filterMap_some
      rw [(hr a ha).2]
      rfl
    rcases mirrors.record_cases hfits with ⟨hops, hok, hnext⟩ | ⟨hnot, -⟩
    · have hafter : ledger.after (.record r.1 r.2) =
          { ledger with live := ledger.live ++ r.given } := by
        rw [Ledger.after, if_pos hops, hkept]
        rfl
      rw [hafter] at hnext
      obtain ⟨next, hrecord, hmirrors⟩ := ih hnext hrest
      refine ⟨next, ?_, ?_⟩
      · unfold Database.recordAll
        split
        · next heq =>
          rw [heq] at hrecord
          exact hrecord
        · next heq =>
          rw [heq] at hok
          cases hok
      · rw [List.flatMap_cons, ← List.append_assoc]
        exact hmirrors
    · -- nothing is refused, since all ops are registered
      exact absurd (fun a ha => (hr a ha).1) hnot

/-! ## Reading all accesses -/

theorem OrderedSet.nodup_toList (s : OrderedSet String) : s.toList.Nodup := by
  refine s.increasing.imp fun {a b} hlt heq => ?_
  have hself : compare b b = .eq := Std.ReflCmp.compare_self
  rw [heq, hself] at hlt
  cases hlt

/-- What is made of elements that go one by one with others is what is made of those, up to its
order. -/
theorem perm_flatMap_of_forall₂ {α β γ : Type} {R : α → β → Prop} {f : α → List γ} {g : β → List γ}
    (hR : ∀ a b, R a b → (g b).Perm (f a)) {l : List α} {r : List β} (h : List.Forall₂ R l r) :
    (r.flatMap g).Perm (l.flatMap f) := by
  induction h with
  | nil => exact .nil
  | cons hab _ ih =>
    rw [List.flatMap_cons, List.flatMap_cons]
    exact (hR _ _ hab).append ih

/-- The histories of all tracked ops can be read, and they are all that the ledger has. -/
theorem Mirrors.exists_histories {ledger : Ledger} {database : Database}
    (mirrors : Mirrors ledger database)
    (live : ∀ r ∈ ledger.live, r.2.op ∈ ledger.registered ∧
      r.2.time.toInt < Int64.maxValue.toInt) :
    ∃ histories, database.trackedOps = .ok database.contents.table.tracked.toList ∧
      database.contents.table.tracked.toList.mapM database.source.history = .ok histories ∧
      (histories.flatMap (·.flatMap Batch.rows)).Perm ledger.live := by
  let ops := database.contents.table.tracked.toList
  have hhistory : ∀ op ∈ ops, ∃ batches, database.source.history op = .ok batches ∧
      Collects (ledger.live.filter (·.2.op = op)) batches := by
    intro op hop
    obtain ⟨batches, hread, hlists⟩ := mirrors.behaves.accesses op Int64.minValue Int64.maxValue
      ((mirrors.tracked op).1 hop)
    have hrange : ledger.inRange op Int64.minValue Int64.maxValue =
        ledger.live.filter (·.2.op = op) := by
      refine List.filter_congr fun r hr => decide_eq_decide.2 ?_
      exact and_iff_left ⟨r.2.time.minValue_le_toInt, (live r hr).2⟩
    exact ⟨batches, hread, hrange ▸ hlists.collects⟩
  obtain ⟨histories, hhistories⟩ := exists_forall₂ hhistory
  have htracked : database.trackedOps = .ok ops := if_pos mirrors.running
  refine ⟨histories, htracked, mapM_eq_ok_iff.2 (hhistories.imp fun _ _ h => h.1), ?_⟩
  -- the accesses of each op are in its history, and each access is of one tracked op
  have hparts : (histories.flatMap (·.flatMap Batch.rows)).Perm
      (ops.flatMap fun op => ledger.live.filter (·.2.op = op)) :=
    perm_flatMap_of_forall₂ (fun op batches h => h.2.perm_flatMap_rows) hhistories
  refine hparts.trans (perm_flatMap_filter (fun r : PackageUser × Access => r.2.op)
    (OrderedSet.nodup_toList _) fun r hr => ?_)
  exact (mirrors.tracked _).2 (live r hr).1

/-! ## Copies -/

/-- What a database lists of all its ops can be recorded into a new database that tracks the same
ops, in any portions and any order, and the new one answers every read as the database does. -/
structure Database.IsCopiedFrom (database : Database) (ops : List String)
    (listed : List (List Batch)) : Prop where
  tracked : database.trackedOps = .ok ops
  histories : ops.mapM database.source.history = .ok listed
  copy : ∀ recordings : List Recording,
    (recordings.flatMap Recording.given).Perm (listed.flatMap (·.flatMap Batch.rows)) →
    ∃ fresh empty copy, Database.ofContents {} = .ok fresh ∧
      fresh.register ops = (.ok (), empty) ∧ empty.recordAll recordings = (.ok (), copy) ∧
      database.source.SameReads copy.source

/-- A history whose accesses are whole and of registered ops can be copied. -/
theorem Mirrors.exists_copied {ledger : Ledger} {database : Database}
    (mirrors : Mirrors ledger database)
    (live : ∀ r ∈ ledger.live, r.2.op ∈ ledger.registered ∧ IsWhole r.2.time r.2.duration) :
    ∃ ops listed, database.IsCopiedFrom ops listed := by
  obtain ⟨listed, htracked, hlisted, hperm⟩ :=
    mirrors.exists_histories fun r hr => ⟨(live r hr).1, (live r hr).2.lt_maxValue⟩
  refine ⟨_, listed, htracked, hlisted, fun recordings hgiven => ?_⟩
  have hrecordings := hgiven.trans hperm
  -- what was rounded once is not changed when it is recorded again
  have hrecordable : ∀ row ∈ recordings.flatMap Recording.given,
      row.2.op ∈ database.contents.table.tracked.toList ∧ row.2.truncated = .ok row.2 := by
    intro row hrow
    obtain ⟨hop, hwhole⟩ := live row (hrecordings.mem_iff.1 hrow)
    exact ⟨(mirrors.tracked _).2 hop, Access.truncated_of_isWhole hwhole⟩
  obtain ⟨copy, hcopy, hmirrors⟩ :=
    (Mirrors.empty.register database.contents.table.tracked.toList).recordAll hrecordable
  refine ⟨_, _, copy, rfl, rfl, hcopy, ?_⟩
  exact mirrors.sameReads hmirrors (fun op => (mirrors.tracked op).symm) hrecordings.symm
    fun r hr => (live r hr).2.lt_maxValue

/-- **A history can be copied.** After any run of calls on a new history a database is open. It is
read as it is, or is opened again if its worker has ended, and what it lists of all its ops can be
recorded into a new database that answers every read in the same way. -/
theorem Disk.history_copied (path : String) (calls : List HistoryCall) :
    ∃ database reader, ((opened path).run calls).current = some (.history, database) ∧
      Database.ofContents database.contents = .ok reader ∧
      (database.isRunning = true → reader = database) ∧
      ∃ ops listed, reader.IsCopiedFrom ops listed := by
  obtain ⟨database, hcurrent, recorded⟩ := exists_recorded path calls
  obtain ⟨reader, hopen, hrecorded⟩ := recorded.reopen
  have hreader := Except.ok.inj
    (hopen.symm.trans (Database.ofContents_of_current recorded.version))
  have hversion := recorded.version
  refine ⟨database, reader, hcurrent, hopen, fun running => ?_, ?_⟩
  · obtain ⟨⟨version, table⟩, isRunning⟩ := database
    obtain rfl : version = currentVersion := hversion
    obtain rfl : isRunning = true := running
    exact hreader
  · obtain ⟨live, mirrors, hlive⟩ := hrecorded.exists_mirrors (hreader ▸ rfl)
    refine mirrors.exists_copied fun r hr => ?_
    obtain ⟨hop, access, hround⟩ := hlive r hr
    exact ⟨hop, Access.isWhole_of_truncated hround⟩

open TwoUsers in
/-- Two users of one package, whose histories are copied into a new database. -/
theorem Disk.history_copied_of_twoUsers :
    ∃ database listed, ((opened "history").run calls).current = some (.history, database) ∧
      database.source.history Op.camera = .ok listed ∧
      ∃ fresh empty copy, Database.ofContents {} = .ok fresh ∧
        fresh.register [Op.camera] = (.ok (), empty) ∧
        empty.recordAll (listed.map Batch.recording) = (.ok (), copy) ∧
        latest copy.source = .ok [(0, [-60000]), (10, [180000])] := by
  obtain ⟨database, reader, hcurrent, -, hreader, ops, listed, hcopied⟩ :=
    history_copied "history" calls
  have hrunning : ((opened "history").run calls).current.map (·.2.isRunning) = some true := by
    decide +kernel
  have htracked : ((opened "history").run calls).current.map (·.2.trackedOps) =
      some (.ok [Op.camera]) := by decide +kernel
  have hlatest := latest_run
  rw [hcurrent] at hrunning htracked hlatest
  obtain rfl := hreader (Option.some.inj hrunning)
  obtain rfl := Except.ok.inj (hcopied.tracked.symm.trans (Option.some.inj htracked))
  -- there is one op, so there is one history
  obtain ⟨history, rest, hhistory, hrest, rfl⟩ :=
    List.forall₂_cons_left_iff.1 (mapM_eq_ok_iff.1 hcopied.histories)
  obtain rfl := List.forall₂_nil_left_iff.1 hrest
  obtain ⟨fresh, empty, copy, hfresh, hempty, hcopy, hsame⟩ :=
    hcopied.copy _ (.of_eq (flatMap_given_recording [history]))
  refine ⟨reader, history, hcurrent, hhistory, fresh, empty, copy, hfresh, hempty, ?_, ?_⟩
  · rwa [List.flatten_singleton] at hcopy
  · rw [latest, ← hsame.lastUses]
    exact Option.some.inj hlatest

end PermissionUsage
