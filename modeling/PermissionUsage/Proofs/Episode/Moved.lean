import PermissionUsage.Proofs.Access.Greedy
import PermissionUsage.Proofs.Access.Moved
import PermissionUsage.Proofs.Episode.Summary
/-!
# Episodes that are moved in time

Only differences of times matter: if all accesses of a batch are moved by `k` minutes, so are its
clusters and their rows, and nothing else changes. No hour, day or other boundary ends an episode.

* `Clustering.clusters_moved`: the clusters of a moved batch are the moved clusters.
* `Episode.moved_ofCluster`: the row of a moved cluster is the moved row. What it says besides times
  is read from the accesses without their times (`Access.untimed`).
* `Episode.ofClusters_moved`: both together.
-/

namespace PermissionUsage

/-- A batch, and all of its accesses `k` minutes later. -/
structure Batch.Moved (k : Int) (batch moved : Batch) : Prop where
  accesses : List.Forall₂ (Access.Moved k) batch.accesses moved.accesses
  same : moved = batch.withAccesses moved.accesses

/-- A row, and the same `k` minutes later. -/
structure Episode.Moved (k : Int) (row moved : Episode) : Prop where
  start : moved.start.toInt = row.start.toInt + 60000 * k
  finish : moved.finish.toInt = row.finish.toInt + 60000 * k
  same : moved = { row with start := moved.start, finish := moved.finish }

variable {k : Int}

/-! ## Clusters -/

/-- No cluster is empty. -/
theorem Clustering.ne_nil_of_mem_clusters {config : Clustering} {batch : Batch}
    {clusters : List Batch} (h : config.clusters batch = .ok clusters) :
    ∀ cluster ∈ clusters, cluster.accesses ≠ [] := by
  obtain ⟨parts, greedy, -, rfl⟩ := clusters_eq_ok_iff.1 h
  exact List.forall_mem_map.2 greedy.nonempty

/-- The clusters of a moved batch are the moved clusters. -/
theorem Clustering.clusters_moved {config : Clustering} {batch moved : Batch}
    (isMoved : Batch.Moved k batch moved) (minutes : ∀ a ∈ batch.accesses, a.KeepsMinute)
    (afterEpoch : ∀ a ∈ batch.accesses, 0 ≤ a.time.toInt)
    (movedAfterEpoch : ∀ a ∈ moved.accesses, 0 ≤ a.time.toInt) {clusters movedClusters : List Batch}
    (h : config.clusters batch = .ok clusters) (h' : config.clusters moved = .ok movedClusters) :
    List.Forall₂ (Batch.Moved k) clusters movedClusters := by
  obtain ⟨parts, hparts, h⟩ := bind_eq_ok_iff.1 h
  obtain ⟨movedParts, hmovedParts, h'⟩ := bind_eq_ok_iff.1 h'
  obtain rfl := Except.ok.inj h
  obtain rfl := Except.ok.inj h'
  -- minutes are rounded towards zero, so both sides have to be after the epoch
  have haccesses : List.Forall₂ (Access.MovedSinceEpoch k) batch.accesses moved.accesses :=
    Access.forall₂_movedSinceEpoch isMoved.accesses minutes afterEpoch movedAfterEpoch
  have hsorted : List.Forall₂ (Access.MovedSinceEpoch k) (Access.sort batch.accesses)
      (Access.sort moved.accesses) :=
    Access.forall₂_sort (fun _ _ _ _ h h' => Access.compare_moved h.isMoved h'.isMoved) haccesses
  have hcut : List.Forall₂ (List.Forall₂ (Access.MovedSinceEpoch k)) parts movedParts :=
    Clustering.forall₂_split (fun _ _ _ _ _ _ => Clustering.eq_of_canJoin) .nil hsorted hparts
      hmovedParts
  refine List.forall₂_map_left_iff.2 (List.forall₂_map_right_iff.2 ?_)
  refine hcut.imp fun part movedPart h => ⟨h.imp fun _ _ h => h.isMoved, ?_⟩
  rw [isMoved.same]
  rfl

/-! ## Rows -/

/-- The access without its time. -/
def Access.untimed (access : Access) : Access := { access with time := 0 }

/-- Moving a batch changes nothing but times. -/
theorem Batch.Moved.untimed {cluster moved : Batch} (h : Batch.Moved k cluster moved) :
    moved.accesses.map Access.untimed = cluster.accesses.map Access.untimed := by
  refine map_eq_map_of_forall₂ (fun access moved hmoved => ?_) h.accesses
  rw [hmoved.same]
  rfl

namespace Episode

/-- The row of a cluster says, besides times, what its accesses say without their times. -/
theorem eq_of_ofCluster {cluster : Batch} {row : Episode} (h : ofCluster cluster = .ok (some row)) :
    row = { row with
      owner := cluster.owner
      ops := .ofList ((cluster.accesses.map Access.untimed).map (·.op))
      isSensitive := cluster.isSensitive
      label := cluster.label
      tags := some (.ofList ((cluster.accesses.map Access.untimed).filterMap (·.tag)))
      proxyPackage := (proxyAccess (cluster.accesses.map Access.untimed)).bind (·.proxyPackage)
      proxyUser := (proxyAccess (cluster.accesses.map Access.untimed)).bind (·.proxyUser) } := by
  have hproxy : ∀ accesses, proxyAccess (accesses.map Access.untimed) =
      (proxyAccess accesses).map Access.untimed := fun accesses => List.find?_map
  rw [List.map_map, List.filterMap_map, hproxy, Option.bind_map, Option.bind_map]
  unfold ofCluster at h
  rcases haccesses : cluster.accesses with _ | ⟨first, rest⟩
  · rw [haccesses] at h
    cases h
  · rw [haccesses] at h
    obtain ⟨stop, -, h⟩ := bind_eq_ok_iff.1 h
    obtain ⟨stops, -, h⟩ := bind_eq_ok_iff.1 h
    obtain ⟨finish, -, h⟩ := bind_eq_ok_iff.1 h
    obtain ⟨duration, -, h⟩ := bind_eq_ok_iff.1 h
    obtain rfl := Option.some.inj (Except.ok.inj h)
    rfl

/-- The row of a moved cluster is the moved row. -/
theorem moved_ofCluster {cluster moved : Batch} {row movedRow : Episode}
    (isMoved : Batch.Moved k cluster moved) (h : ofCluster cluster = .ok (some row))
    (h' : ofCluster moved = .ok (some movedRow)) : Episode.Moved k row movedRow := by
  have hrow := summarizes_ofCluster h
  have hmovedRow := summarizes_ofCluster h'
  -- a row is known by its times and by what does not move
  have hstart : movedRow.start.toInt = row.start.toInt + 60000 * k := by
    have htimes : moved.accesses.map (·.time.toInt) =
        (cluster.accesses.map (·.time.toInt)).map (· + 60000 * k) := by
      rw [List.map_map]
      exact map_eq_map_of_forall₂ (fun _ _ h => h.time) isMoved.accesses
    have hmin := hmovedRow.start
    rw [htimes, min?_map_add, hrow.start] at hmin
    exact (Option.some.inj hmin).symm
  have hfinish : movedRow.finish.toInt = row.finish.toInt + 60000 * k := by
    have hstops : moved.accesses.map Access.stop =
        (cluster.accesses.map Access.stop).map (· + 60000 * k) := by
      rw [List.map_map]
      exact map_eq_map_of_forall₂ (fun _ _ h => h.stop) isMoved.accesses
    have hmax := hmovedRow.finish
    rw [hstops, max?_map_add, hrow.finish] at hmax
    have hend : row.finish.toInt + 60000 + 60000 * k = movedRow.finish.toInt + 60000 :=
      Option.some.inj hmax
    omega
  have hduration : movedRow.duration = row.duration := by
    apply Int64.toInt_inj.1
    rw [hmovedRow.duration, hrow.duration]
    omega
  refine ⟨hstart, hfinish, ?_⟩
  rw [eq_of_ofCluster h', eq_of_ofCluster h, isMoved.untimed, hduration, isMoved.same]
  rfl

/-- **Only differences of times matter.** Let a batch be moved by `k` minutes, so that no access
starts before the epoch, before or after, and let every continuous access last a minute at least. If
no arithmetic on the accesses overflows, both batches have clusters and these have rows. Whenever
they have, the clusters and the rows of the moved batch are those of the batch, moved by `k` minutes
and not changed otherwise. -/
theorem ofClusters_moved {config : Clustering} {batch moved : Batch}
    (isMoved : Batch.Moved k batch moved) (minutes : ∀ a ∈ batch.accesses, a.KeepsMinute)
    (afterEpoch : ∀ a ∈ batch.accesses, 0 ≤ a.time.toInt)
    (movedAfterEpoch : ∀ a ∈ moved.accesses, 0 ≤ a.time.toInt) :
    (Access.AllFit batch.accesses → Access.AllFit moved.accesses →
      ∃ clusters movedClusters rows movedRows,
        config.clusters batch = .ok clusters ∧ ofClusters clusters = .ok rows ∧
        config.clusters moved = .ok movedClusters ∧ ofClusters movedClusters = .ok movedRows) ∧
    ∀ clusters movedClusters, config.clusters batch = .ok clusters →
      config.clusters moved = .ok movedClusters →
      List.Forall₂ (Batch.Moved k) clusters movedClusters ∧
        ∀ rows movedRows, ofClusters clusters = .ok rows →
          ofClusters movedClusters = .ok movedRows →
          List.Forall₂ (Episode.Moved k) rows movedRows := by
  constructor
  · intro fit movedFit
    obtain ⟨rows, hrows⟩ := exists_ofBatch config fit
    obtain ⟨movedRows, hmovedRows⟩ := exists_ofBatch config movedFit
    obtain ⟨clusters, hclusters, hrows⟩ := bind_eq_ok_iff.1 hrows
    obtain ⟨movedClusters, hmovedClusters, hmovedRows⟩ := bind_eq_ok_iff.1 hmovedRows
    exact ⟨clusters, movedClusters, rows, movedRows, hclusters, hrows, hmovedClusters, hmovedRows⟩
  · intro clusters movedClusters hclusters hmovedClusters
    have hmoved : List.Forall₂ (Batch.Moved k) clusters movedClusters :=
      Clustering.clusters_moved isMoved minutes afterEpoch movedAfterEpoch hclusters hmovedClusters
    refine ⟨hmoved, fun rows movedRows hrows hmovedRows => ?_⟩
    have hown := (ofClusters_eq_ok_iff (Clustering.ne_nil_of_mem_clusters hclusters)).1 hrows
    have hmovedOwn :=
      (ofClusters_eq_ok_iff (Clustering.ne_nil_of_mem_clusters hmovedClusters)).1 hmovedRows
    refine forall₂_of_forall₂ (fun cluster moved row movedRow h hrow hmovedRow => ?_) hmoved hown
      hmovedOwn
    exact moved_ofCluster h hrow hmovedRow

/-! ### A call across an hour

Two uses of the microphone around four o'clock, which make one episode, and one four minutes later.
An hour and a minute earlier they lie within one hour.
-/

namespace AcrossHours

def dialed : Access := { op := Op.recordAudio, time := 14395500, duration := 65000 }

def conference : Access where
  op := Op.recordAudio
  time := 14519900
  duration := -1
  tag := "conference"
  proxyPackage := "com.example.conference"
  proxyUser := some 0

def redialed : Access := { op := Op.recordAudio, time := 14760000, duration := -1 }

def calls : Batch where
  owner := ⟨"com.example.phone", 0⟩
  accesses := [redialed, dialed, conference]

/-- Sixty-one minutes earlier. -/
def earlier (access : Access) : Access := { access with time := access.time - 3660000 }

def earlierCalls : Batch :=
  calls.withAccesses [earlier redialed, earlier dialed, earlier conference]

theorem moved_calls : Batch.Moved (-61) calls earlierCalls where
  accesses := .cons ⟨by decide, rfl⟩ (.cons ⟨by decide, rfl⟩ (.cons ⟨by decide, rfl⟩ .nil))
  same := rfl

theorem clusters_calls : ({} : Clustering).clusters calls =
    .ok ([[dialed, conference], [redialed]].map calls.withAccesses) := by
  have hperm : [dialed, conference, redialed].Perm calls.accesses := by decide +kernel
  have hsorted : [dialed, conference, redialed].Pairwise fun a b => (compare a b).isLE := by
    decide +kernel
  have hsplit : ({} : Clustering).split [] [dialed, conference, redialed] =
      .ok [[dialed, conference], [redialed]] := by
    decide +kernel
  exact Clustering.clusters_of_split hperm hsorted hsplit

end AcrossHours

open AcrossHours in
theorem ofClusters_moved_of_acrossHours :
    Batch.Moved (-61) calls earlierCalls ∧
      ∃ movedClusters rows movedRows, ({} : Clustering).clusters earlierCalls = .ok movedClusters ∧
        List.Forall₂ (Batch.Moved (-61))
          ([[dialed, conference], [redialed]].map calls.withAccesses) movedClusters ∧
        ofClusters ([[dialed, conference], [redialed]].map calls.withAccesses) = .ok rows ∧
        ofClusters movedClusters = .ok movedRows ∧
        List.Forall₂ (Episode.Moved (-61)) rows movedRows := by
  have hminutes : ∀ a ∈ calls.accesses, a.KeepsMinute := by decide
  have hepoch : ∀ a ∈ calls.accesses, 0 ≤ a.time.toInt := by decide
  have hmovedEpoch : ∀ a ∈ earlierCalls.accesses, 0 ≤ a.time.toInt := by decide
  obtain ⟨hexists, hmoved⟩ :=
    @ofClusters_moved (-61) {} calls earlierCalls moved_calls hminutes hepoch hmovedEpoch
  obtain ⟨clusters, movedClusters, rows, movedRows, hclusters, hrows, hmovedClusters, hmovedRows⟩ :=
    hexists (by decide +kernel) (by decide +kernel)
  obtain rfl := Except.ok.inj (clusters_calls.symm.trans hclusters)
  obtain ⟨hparts, hepisodes⟩ := hmoved _ movedClusters clusters_calls hmovedClusters
  exact ⟨moved_calls, movedClusters, rows, movedRows, hmovedClusters, hparts, hrows, hmovedRows,
    hepisodes rows movedRows hrows hmovedRows⟩

end Episode

end PermissionUsage
