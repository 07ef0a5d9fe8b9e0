import PermissionUsage.LastUse.Groups
import PermissionUsage.Platform
import PermissionUsage.Proofs.Episode.Order
/-!
# What a platform answers

A platform without a fault answers every load. Its answers are known by what they hold, whatever the
order in which accesses were added:

* `exists_loadAccesses`: a load of accesses holds the accesses of the ops that the platform knows,
  within the range.
* `find?_lastUsesOf`: the last use of an op by an owner is at the latest time of its accesses.
* `find?_loadLastUses`: a load of last uses has these for every owner, op after op.
* `hasResults`: so there are timelines and last uses of groups wherever no arithmetic overflows.
-/

namespace PermissionUsage

/-! ## The latest of some instants -/

namespace LastUses

/-- The latest of some times is one of them and no earlier than any. -/
theorem latest?_eq_some_iff {times : List Millis} {last : Millis} :
    latest? times = some last ↔ last ∈ times ∧ ∀ t ∈ times, t.toInt ≤ last.toInt := by
  have hmax : (times.map Int64.toInt).max? = (latest? times).map Int64.toInt := by
    cases times with
    | nil => rfl
    | cons first rest => exact Millis.max?_map_toInt first rest
  have hmem : last ∈ times ↔ last.toInt ∈ times.map Int64.toInt := by
    refine ⟨List.mem_map_of_mem, fun h => ?_⟩
    obtain ⟨t, ht, heq⟩ := List.mem_map.1 h
    exact Int64.toInt_inj.1 heq ▸ ht
  have hsome : latest? times = some last ↔ (latest? times).map Int64.toInt = some last.toInt := by
    refine ⟨fun h => by rw [h]; rfl, fun h => ?_⟩
    obtain ⟨t, ht, heq⟩ := Option.map_eq_some_iff.1 h
    rw [ht, Int64.toInt_inj.1 heq]
  rw [hsome, ← hmax, List.max?_eq_some_iff, hmem, List.forall_mem_map]

/-- The order of times has no say in which is the latest. -/
theorem latest?_eq_of_perm {times times' : List Millis} (h : times.Perm times') :
    latest? times = latest? times' := by
  refine Option.ext fun last => ?_
  rw [latest?_eq_some_iff, latest?_eq_some_iff, h.mem_iff]
  exact and_congr_right fun _ => forall_congr' fun t => by rw [h.mem_iff]

end LastUses

namespace Platform

variable (platform : Platform)

/-! ## Accesses -/

/-- The accesses of an op within a range of time, each with its owner. -/
def rowsIn (start stop : Millis) (op : String) : List (PackageUser × Access) :=
  (platform.accesses.filter fun a =>
    a.access.op = op ∧ start.toInt ≤ a.access.time.toInt ∧ a.access.time.toInt < stop.toInt).map
      fun a => (a.owner, a.access)

/-- A platform lists the accesses of an op within a range, owner by owner. -/
theorem collects_accessesOf (op : String) (start stop : Millis) :
    Collects (platform.rowsIn start stop op) (platform.accessesOf op start stop) := by
  let accesses := platform.accesses.filter fun a =>
    a.access.op = op ∧ start.toInt ≤ a.access.time.toInt ∧ a.access.time.toInt < stop.toInt
  let single (a : OwnedAccess) : Batch := { owner := a.owner, accesses := [a.access] }
  have hnonempty : ∀ batch ∈ accesses.map single, batch.accesses ≠ [] :=
    List.forall_mem_map.2 fun a _ => List.cons_ne_nil _ _
  have hplain : ∀ batch ∈ accesses.map single, batch.label = none ∧ batch.isSensitive = false :=
    List.forall_mem_map.2 fun a _ => ⟨rfl, rfl⟩
  have hrows : (accesses.map single).flatMap Batch.rows = platform.rowsIn start stop op := by
    rw [List.flatMap_map]
    exact List.flatMap_pure_eq_map _ accesses
  rw [← hrows]
  exact collects_mergeBatches hnonempty hplain

/-- What the platform lists for an op. -/
def rowsRead (start stop : Millis) (op : String) : List (PackageUser × Access) :=
  if platform.isUnknown op then [] else platform.rowsIn start stop op

variable {platform}

/-- A platform without a fault refuses what it does not know, and nothing else. -/
theorem refusal_eq (noFailure : platform.failure = none) (op : String) :
    platform.refusal op = if platform.isUnknown op then some (.unknownOp op) else none := by
  rw [refusal, noFailure]
  rfl

/-- A platform without a fault answers every read. -/
theorem answers_source (noFailure : platform.failure = none) (start stop : Millis) (op : String) :
    platform.source.Answers start stop op (platform.rowsRead start stop op) := by
  unfold AccessSource.Answers rowsRead
  show (∃ batches, platform.readAccesses op start stop = .ok batches ∧ _) ∨
    (platform.readAccesses op start stop = .error _ ∧ _)
  rw [readAccesses, refusal_eq noFailure]
  cases platform.isUnknown op with
  | true => exact .inr ⟨rfl, rfl⟩
  | false => exact .inl ⟨_, rfl, platform.collects_accessesOf op start stop⟩

/-- A platform without a fault lists the accesses of the ops that it knows. -/
theorem exists_loadAccesses (noFailure : platform.failure = none) (ops : List String)
    (start stop : Millis) :
    ∃ batches, platform.source.loadAccesses ops start stop = .ok batches ∧
      Collects (ops.flatMap (platform.rowsRead start stop)) batches :=
  AccessSource.exists_loadAccesses fun op _ => answers_source noFailure start stop op

variable (platform) in
/-- The batches that the platform lists for an op. -/
def batchesRead (start stop : Millis) (op : String) : List Batch :=
  if platform.isUnknown op then [] else platform.accessesOf op start stop

/-- What is loaded from a platform without a fault, in the order in which it comes. -/
theorem loadAccesses_eq_ok (noFailure : platform.failure = none) (ops : List String)
    (start stop : Millis) :
    platform.source.loadAccesses ops start stop =
      .ok (mergeBatches [] (ops.flatMap (platform.batchesRead start stop))) := by
  rw [AccessSource.loadAccesses_eq]
  refine loadMerged_of_known (fun op => ?_) [] ops
  show platform.readAccesses op start stop = _
  rw [readAccesses, refusal_eq noFailure]
  cases platform.isUnknown op <;> rfl

/-- What is read of a platform is an access that it has, of an op that it knows, within the range.
-/
theorem mem_rowsRead_iff {start stop : Millis} {op : String} {row : PackageUser × Access} :
    row ∈ platform.rowsRead start stop op ↔ platform.isUnknown op = false ∧
      row.2.op = op ∧ start.toInt ≤ row.2.time.toInt ∧ row.2.time.toInt < stop.toInt ∧
      ⟨row.1, row.2⟩ ∈ platform.accesses := by
  unfold rowsRead rowsIn
  cases platform.isUnknown op with
  | true => simp
  | false =>
    simp only [Bool.false_eq_true, if_false, List.mem_map, List.mem_filter, decide_eq_true_eq]
    constructor
    · rintro ⟨a, ⟨hmem, hop, hstart, hstop⟩, rfl⟩
      exact ⟨trivial, hop, hstart, hstop, hmem⟩
    · rintro ⟨-, hop, hstart, hstop, hmem⟩
      exact ⟨_, ⟨hmem, hop, hstart, hstop⟩, rfl⟩

/-- What is listed of an owner fits if all accesses of the platform fit. -/
theorem allFit_accessesBy (fit : Access.AllFit (platform.accesses.map (·.access)))
    (ops : List String) (start stop : Millis) (owner : PackageUser) :
    Access.AllFit (accessesBy (ops.flatMap (platform.rowsRead start stop)) owner) := by
  refine fit.mono fun a ha => ?_
  obtain ⟨op, -, hrow⟩ := List.mem_flatMap.1 (mem_accessesBy_iff.1 ha)
  obtain ⟨-, -, -, -, hmem⟩ := mem_rowsRead_iff.1 hrow
  exact List.mem_map_of_mem hmem

/-! ## Last uses -/

variable (platform)

/-- When an owner used an op. -/
def timesOf (op : String) (owner : PackageUser) : List Millis :=
  (platform.accesses.filter fun a => a.access.op = op ∧ a.owner = owner).map (·.access.time)

/-- The latest access of an op by an owner, as the only use in its list. -/
def lastUse? (op : String) (owner : PackageUser) : Option LastUses :=
  (LastUses.latest? (platform.timesOf op owner)).map fun last => { owner, uses := [{ op, last }] }

/-- Joins uses of the same op: the latest one counts. -/
def joinLatest (first next : LastUses) : LastUses :=
  { first with uses := first.uses.map fun use =>
      { use with last := next.uses.foldl (fun t u => Millis.later t u.last) use.last } }

theorem owner_joinLatest (first next : LastUses) :
    (joinLatest first next).owner = first.owner := rfl

def useOf (op : String) (a : OwnedAccess) : LastUses :=
  { owner := a.owner, uses := [{ op, last := a.access.time }] }

/-- Keeping the latest access of every owner is merging by owner. -/
theorem latestByOwner_eq_mergeAll (op : String) (accesses : List OwnedAccess) :
    latestByOwner op accesses =
      mergeAll LastUses.owner joinLatest [] (accesses.map (useOf op)) := by
  rw [mergeAll, List.foldl_map]
  rfl

/-- The accesses of one owner join to their latest. -/
theorem joined_useOf (op : String) {owner : PackageUser} {accesses : List OwnedAccess}
    (howner : ∀ a ∈ accesses, a.owner = owner) :
    joined joinLatest (accesses.map (useOf op)) =
      (LastUses.latest? (accesses.map (·.access.time))).map fun last =>
        { owner, uses := [{ op, last }] } := by
  have hfold : ∀ (rest : List OwnedAccess) (t : Millis),
      (rest.map (useOf op)).foldl joinLatest { owner, uses := [{ op, last := t }] } =
        { owner, uses := [{ op, last := Millis.latest t (rest.map (·.access.time)) }] } := by
    intro rest
    induction rest with
    | nil => exact fun t => rfl
    | cons a rest ih => exact fun t => ih (Millis.later t a.access.time)
  cases accesses with
  | nil => rfl
  | cons first rest =>
    obtain rfl := howner first List.mem_cons_self
    exact congrArg some (hfold rest first.access.time)

/-- No owner is listed twice for an op. -/
theorem nodup_lastUsesOf (op : String) : ((platform.lastUsesOf op).map (·.owner)).Nodup := by
  rw [lastUsesOf, latestByOwner_eq_mergeAll]
  exact nodup_mergeAll owner_joinLatest _

/-- The last use of an op by an owner is at the latest time of its accesses. -/
theorem find?_lastUsesOf (op : String) (owner : PackageUser) :
    (platform.lastUsesOf op).find? (·.owner = owner) = platform.lastUse? op owner := by
  have hfilter : (platform.accesses.filter (·.access.op = op)).filter (·.owner = owner) =
      platform.accesses.filter fun a => a.access.op = op ∧ a.owner = owner := by
    rw [List.filter_filter]
    refine List.filter_congr fun a _ => ?_
    rw [Bool.decide_and, Bool.and_comm]
  have howner : ∀ a ∈ platform.accesses.filter fun a => a.access.op = op ∧ a.owner = owner,
      a.owner = owner :=
    fun a ha => (of_decide_eq_true (List.mem_filter.1 ha).2).2
  rw [lastUsesOf, latestByOwner_eq_mergeAll, find?_mergeAll owner_joinLatest, List.filter_map]
  show joined joinLatest (((platform.accesses.filter (·.access.op = op)).filter
    (·.owner = owner)).map (useOf op)) = _
  rw [hfilter, joined_useOf op howner]
  rfl

/-! ## Loading last uses -/

def usesRead (op : String) : List LastUses :=
  if platform.isUnknown op then [] else platform.lastUsesOf op

variable {platform}

/-- A platform without a fault lists the last uses of the ops that it knows. -/
theorem loadLastUses_eq_ok (noFailure : platform.failure = none) (ops : List String) :
    platform.source.loadLastUses ops = .ok (mergeLastUses [] (ops.flatMap platform.usesRead)) := by
  rw [AccessSource.loadLastUses_eq]
  refine loadMerged_of_known (fun op => ?_) [] ops
  show platform.readLastUses op = _
  rw [readLastUses, refusal_eq noFailure]
  cases platform.isUnknown op <;> rfl

theorem nodup_loadLastUses (ops : List String) :
    ((mergeLastUses [] (ops.flatMap platform.usesRead)).map (·.owner)).Nodup :=
  nodup_mergeAll LastUses.owner_join _

variable (platform) in
/-- The last uses of several ops by an owner, op after op. -/
def lastUsesBy (ops : List String) (owner : PackageUser) : List LastUses :=
  (ops.filter (!platform.isUnknown ·)).filterMap (platform.lastUse? · owner)

/-- What is read of an owner is its last use of each op, op after op. -/
theorem filter_usesRead (ops : List String) (owner : PackageUser) :
    (ops.flatMap platform.usesRead).filter (·.owner = owner) = platform.lastUsesBy ops owner := by
  unfold lastUsesBy
  induction ops with
  | nil => rfl
  | cons op rest ih =>
    rw [List.flatMap_cons, List.filter_append, ih, List.filter_cons, usesRead]
    cases platform.isUnknown op with
    | true => rfl
    | false =>
      have hown : (platform.lastUsesOf op).filter (·.owner = owner) =
          (platform.lastUse? op owner).toList := by
        rw [filter_eq_toList_find? (platform.nodup_lastUsesOf op), find?_lastUsesOf]
      show (platform.lastUsesOf op).filter (·.owner = owner) ++ _ =
        (op :: rest.filter (!platform.isUnknown ·)).filterMap _
      rw [hown, List.filterMap_cons]
      cases platform.lastUse? op owner <;> rfl

/-- What is loaded of an owner is joined from its last uses. -/
theorem find?_loadLastUses (ops : List String) (owner : PackageUser) :
    (mergeLastUses [] (ops.flatMap platform.usesRead)).find? (·.owner = owner) =
      joined LastUses.join (platform.lastUsesBy ops owner) := by
  rw [mergeLastUses, find?_mergeAll LastUses.owner_join, filter_usesRead]

/-- A use that is loaded is an access that the platform has. -/
theorem exists_access_of_loadLastUses {ops : List String} {item : LastUses} {use : OpUse}
    (hitem : item ∈ mergeLastUses [] (ops.flatMap platform.usesRead)) (huse : use ∈ item.uses) :
    use.op ∈ ops ∧ platform.isUnknown use.op = false ∧
      ∃ a ∈ platform.accesses, a.owner = item.owner ∧ a.access.op = use.op ∧
        a.access.time = use.last := by
  have hfind := find?_of_mem (nodup_loadLastUses ops) hitem
  rw [find?_loadLastUses] at hfind
  cases hby : platform.lastUsesBy ops item.owner with
  | nil => rw [hby] at hfind; cases hfind
  | cons first rest =>
    rw [hby, LastUses.addsUp.joined_cons, ← hby] at hfind
    rw [← Option.some.inj hfind] at huse
    obtain ⟨found, hfound, huse⟩ := List.mem_flatMap.1 huse
    obtain ⟨op, hop, hlastUse⟩ := List.mem_filterMap.1 hfound
    obtain ⟨hop, hknown⟩ := List.mem_filter.1 hop
    obtain ⟨last, hlast, rfl⟩ := Option.map_eq_some_iff.1 hlastUse
    obtain rfl := List.mem_singleton.1 huse
    obtain ⟨a, ha, htime⟩ := List.mem_map.1 (LastUses.latest?_eq_some_iff.1 hlast).1
    obtain ⟨ha, hmatches⟩ := List.mem_filter.1 ha
    obtain ⟨haop, howner⟩ := of_decide_eq_true hmatches
    exact ⟨hop, by simpa using hknown, a, ha, howner, haop, htime⟩

/-! ## Results -/

/-- The dashboard of a platform without a fault always exists. -/
theorem loadAndCompute_dashboard (noFailure : platform.failure = none) (dashboard : Dashboard) :
    dashboard.loadAndCompute platform.source platform.toServices =
      .ok (dashboard.compute platform.toServices
        (mergeLastUses [] (dashboard.ops.flatMap platform.usesRead))) := by
  unfold Dashboard.loadAndCompute
  rw [loadLastUses_eq_ok noFailure]
  rfl

/-- A platform has a timeline wherever no arithmetic on kept accesses overflows, and it has last
uses of groups. -/
structure HasResults (platform : Platform) : Prop where
  episodes : ∀ (timeline : Timeline) (now start : Millis), timeline.windowStart now = .ok start →
    (∀ owner, platform.Keeps timeline.group owner →
      Access.AllFit (accessesBy (timeline.ops.flatMap (platform.rowsRead start now)) owner)) →
    ∃ episodes, timeline.loadAndCompute platform.source platform.toServices now = .ok episodes
  uses : ∀ dashboard : Dashboard,
    ∃ uses, dashboard.loadAndCompute platform.source platform.toServices = .ok uses

/-- A platform without a fault has all results that do not overflow. -/
theorem hasResults (noFailure : platform.failure = none) :
    platform.HasResults where
  episodes timeline now start hstart fit := by
    obtain ⟨batches, hload, hcollects⟩ := exists_loadAccesses noFailure timeline.ops start now
    exact Timeline.exists_loadAndCompute hstart hload hcollects fit
  uses dashboard := ⟨_, loadAndCompute_dashboard noFailure dashboard⟩

end Platform

end PermissionUsage
