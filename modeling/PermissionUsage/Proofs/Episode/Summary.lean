import PermissionUsage.Episode.Basic
import PermissionUsage.Proofs.Access.Clusters
/-!
# What an episode says of its cluster

`Episode.Summarizes` is the meaning of a row: what each of its fields says of the accesses of a
cluster, with exact integers for times. `summarizes_ofCluster` says that the row that is built from
a cluster means this. The rows of a whole batch are `Episode.ofBatch`; they go one by one with the
clusters of the batch (`ofBatch_eq_ok_iff`).
-/

namespace PermissionUsage

namespace Episode

/-- An episode says of a cluster what it should. -/
structure Summarizes (episode : Episode) (cluster : Batch) : Prop where
  owner : episode.owner = cluster.owner
  isSensitive : episode.isSensitive = cluster.isSensitive
  label : episode.label = cluster.label
  ops : ∀ op, op ∈ episode.ops ↔ ∃ a ∈ cluster.accesses, a.op = op
  tags : ∃ tags, episode.tags = some tags ∧
    ∀ tag, tag ∈ tags ↔ ∃ a ∈ cluster.accesses, a.tag = some tag
  start : (cluster.accesses.map (·.time.toInt)).min? = some episode.start.toInt
  finish : (cluster.accesses.map Access.stop).max? = some (episode.finish.toInt + 60000)
  duration : episode.duration.toInt = episode.finish.toInt + 60000 - episode.start.toInt
  /-- Package and user of the proxy are those of the first access made through a proxy. -/
  proxy : (episode.proxyPackage = none ∧ episode.proxyUser = none ∧
      ∀ a ∈ cluster.accesses, a.proxyPackage = none) ∨
    ∃ before a after, cluster.accesses = before ++ a :: after ∧
      (∀ b ∈ before, b.proxyPackage = none) ∧ a.proxyPackage ≠ none ∧
      episode.proxyPackage = a.proxyPackage ∧ episode.proxyUser = a.proxyUser

/-! ## One cluster -/

/-- The latest stop of a cluster, as the greatest of its exact stops. -/
theorem max?_stop {first : Access} {rest : List Access} {stop : Millis} {stops : List Millis}
    (hfirst : first.endExclusive = .ok stop) (hrest : rest.mapM Access.endExclusive = .ok stops) :
    ((first :: rest).map Access.stop).max? = some (Millis.latest stop stops).toInt := by
  have hstops : stops.map Int64.toInt = rest.map Access.stop :=
    map_eq_map_of_mapM (fun _ _ => Access.endExclusive_eq_ok_iff.1) hrest
  rw [List.map_cons, ← Access.endExclusive_eq_ok_iff.1 hfirst, ← hstops]
  exact Millis.max?_map_toInt stop stops

/-- The earliest start of a cluster, as the least of its times. -/
theorem min?_time (first : Access) (rest : List Access) :
    ((first :: rest).map (·.time.toInt)).min? =
      some (Millis.earliest first.time (rest.map (·.time))).toInt := by
  have hmin := Millis.min?_map_toInt first.time (rest.map (·.time))
  rw [← List.map_cons, List.map_map] at hmin
  exact hmin

/-- The proxy is that of the first access that has one. -/
theorem proxyAccess_cases (accesses : List Access) :
    (proxyAccess accesses = none ∧ ∀ a ∈ accesses, a.proxyPackage = none) ∨
      ∃ before a after, proxyAccess accesses = some a ∧ accesses = before ++ a :: after ∧
        (∀ b ∈ before, b.proxyPackage = none) ∧ a.proxyPackage ≠ none := by
  rcases h : proxyAccess accesses with _ | a
  · exact .inl ⟨rfl, fun a ha => by simpa using List.find?_eq_none.1 h a ha⟩
  · obtain ⟨hproxied, before, after, hsplit, hbefore⟩ := List.find?_eq_some_iff_append.1 h
    refine .inr ⟨before, a, after, rfl, hsplit, fun b hb => ?_, ?_⟩
    · simpa using hbefore b hb
    · exact Option.isSome_iff_ne_none.1 hproxied

/-- **An episode summarizes its cluster.** What is computed for a cluster says what the summary
says. -/
theorem summarizes_ofCluster {cluster : Batch} {episode : Episode}
    (h : ofCluster cluster = .ok (some episode)) : episode.Summarizes cluster := by
  unfold ofCluster at h
  rcases haccesses : cluster.accesses with _ | ⟨first, rest⟩
  · rw [haccesses] at h
    cases h
  · rw [haccesses] at h
    -- the computation, bind by bind: all of its arithmetic has results
    obtain ⟨stop, hstop, h⟩ := bind_eq_ok_iff.1 h
    obtain ⟨stops, hstops, h⟩ := bind_eq_ok_iff.1 h
    obtain ⟨finish, hfinish, h⟩ := bind_eq_ok_iff.1 h
    obtain ⟨duration, hduration, h⟩ := bind_eq_ok_iff.1 h
    obtain rfl := Option.some.inj (Except.ok.inj h)
    have hmax := max?_stop hstop hstops
    have hlast := Millis.sub_eq_ok_iff.1 hfinish
    have hlength := Millis.sub_eq_ok_iff.1 hduration
    have hminute : Millis.oneMinute.toInt = 60000 := rfl
    refine ⟨rfl, rfl, rfl, ?_, ⟨_, rfl, ?_⟩, ?_, ?_, ?_, ?_⟩
    · intro op
      rw [OrderedSet.mem_ofList, List.mem_map, haccesses]
    · intro tag
      rw [OrderedSet.mem_ofList, List.mem_filterMap, haccesses]
    · rw [haccesses, min?_time]
    · rw [haccesses, hmax, hlast, hminute, Int.sub_add_cancel]
    · show duration.toInt =
        finish.toInt + 60000 - (Millis.earliest first.time (rest.map (·.time))).toInt
      omega
    · rw [haccesses]
      rcases proxyAccess_cases (first :: rest) with
        ⟨hnone, hall⟩ | ⟨before, a, after, hproxy, hsplit, hbefore, hproxied⟩
      · exact .inl ⟨by rw [hnone]; rfl, by rw [hnone]; rfl, hall⟩
      · refine .inr ⟨before, a, after, hsplit, hbefore, hproxied, ?_, ?_⟩
        · rw [hproxy]
          rfl
        · rw [hproxy]
          rfl

/-- A cluster has a row if it has accesses and no arithmetic on them leaves the 64-bit range. -/
theorem exists_ofCluster {cluster : Batch} (fit : Access.AllFit cluster.accesses)
    (hne : cluster.accesses ≠ []) : ∃ episode, ofCluster cluster = .ok (some episode) := by
  obtain ⟨first, rest, haccesses⟩ := List.exists_cons_of_ne_nil hne
  rw [haccesses] at fit
  have hends : ∀ a ∈ first :: rest, ∃ t, a.endExclusive = .ok t :=
    fun a ha => Access.exists_endExclusive (fit a ha).1
  obtain ⟨stop, hstop⟩ := hends first List.mem_cons_self
  obtain ⟨stops, hstops⟩ : ∃ stops, rest.mapM Access.endExclusive = .ok stops :=
    exists_mapM_eq_ok fun a ha => hends a (List.mem_cons_of_mem first ha)
  have hmax := max?_stop hstop hstops
  -- both ends of the row are ends of accesses
  obtain ⟨latest, hlatest, hstopEq⟩ := List.mem_map.1 (List.max?_mem hmax)
  obtain ⟨earliest, hearliest, hstartEq⟩ := List.mem_map.1 (List.min?_mem (min?_time first rest))
  obtain ⟨-, hlast, hspan⟩ := fit latest hlatest
  have hspan := hspan earliest hearliest
  unfold Access.lastMinute at hlast
  rw [hstopEq] at hlast hspan
  rw [hstartEq] at hspan
  obtain ⟨finish, hfinish⟩ := Millis.exists_sub_eq_ok_iff (b := Millis.oneMinute).2 hlast
  obtain ⟨duration, hduration⟩ := Millis.exists_sub_eq_ok_iff.2 hspan
  -- all four computations of the row have results
  unfold ofCluster
  rw [haccesses]
  simp only [hstop, hstops, hfinish, hduration, bind, Except.bind]
  exact ⟨_, rfl⟩

/-- Only a cluster without accesses has no episode. -/
theorem ofCluster_eq_ok_none_iff {cluster : Batch} :
    ofCluster cluster = .ok none ↔ cluster.accesses = [] := by
  unfold ofCluster
  constructor
  · intro h
    rcases haccesses : cluster.accesses with _ | ⟨first, rest⟩
    · rfl
    · rw [haccesses] at h
      obtain ⟨stop, -, h⟩ := bind_eq_ok_iff.1 h
      obtain ⟨stops, -, h⟩ := bind_eq_ok_iff.1 h
      obtain ⟨finish, -, h⟩ := bind_eq_ok_iff.1 h
      obtain ⟨duration, -, h⟩ := bind_eq_ok_iff.1 h
      cases Except.ok.inj h
  · intro h
    rw [h]
    rfl

/-! ## All clusters of a batch -/

theorem ofClusters_nil : ofClusters [] = .ok [] := rfl

/-- The episodes of clusters are found cluster by cluster. -/
theorem ofClusters_cons_eq_ok_iff {cluster : Batch} {clusters : List Batch}
    {rows : List Episode} :
    ofClusters (cluster :: clusters) = .ok rows ↔
      ∃ row further, ofCluster cluster = .ok row ∧ ofClusters clusters = .ok further ∧
        rows = row.toList ++ further := by
  -- a cluster without accesses would have no row
  have hcons : ∀ (row : Option Episode) (found : List (Option Episode)),
      (row :: found).filterMap id = row.toList ++ found.filterMap id := by
    intro row found
    cases row <;> rfl
  unfold ofClusters
  rw [List.mapM_cons]
  constructor
  · intro h
    obtain ⟨all, hall, h⟩ := bind_eq_ok_iff.1 h
    obtain ⟨row, hrow, hall⟩ := bind_eq_ok_iff.1 hall
    obtain ⟨found, hfound, hall⟩ := bind_eq_ok_iff.1 hall
    obtain rfl := Except.ok.inj hall
    obtain rfl := Except.ok.inj h
    exact ⟨row, _, hrow, bind_eq_ok_iff.2 ⟨found, hfound, rfl⟩, hcons row found⟩
  · rintro ⟨row, further, hrow, hfurther, rfl⟩
    obtain ⟨found, hfound, h⟩ := bind_eq_ok_iff.1 hfurther
    obtain rfl := Except.ok.inj h
    rw [hrow, hfound]
    exact congrArg Except.ok (hcons row found)

/-- Clusters that are not empty have one episode each. -/
theorem ofClusters_eq_ok_iff {clusters : List Batch} {rows : List Episode}
    (hne : ∀ cluster ∈ clusters, cluster.accesses ≠ []) :
    ofClusters clusters = .ok rows ↔
      List.Forall₂ (fun cluster row => ofCluster cluster = .ok (some row)) clusters rows := by
  induction clusters generalizing rows with
  | nil =>
    rw [ofClusters_nil, List.forall₂_nil_left_iff]
    exact ⟨fun h => (Except.ok.inj h).symm, fun h => h ▸ rfl⟩
  | cons cluster rest ih =>
    obtain ⟨hcluster, hrest⟩ := List.forall_mem_cons.1 hne
    rw [ofClusters_cons_eq_ok_iff, List.forall₂_cons_left_iff]
    constructor
    · rintro ⟨row, further, hrow, hfurther, rfl⟩
      cases row with
      | none => exact absurd (ofCluster_eq_ok_none_iff.1 hrow) hcluster
      | some row => exact ⟨row, further, hrow, (ih hrest).1 hfurther, rfl⟩
    · rintro ⟨row, further, hrow, hfurther, rfl⟩
      exact ⟨some row, further, hrow, (ih hrest).2 hfurther, rfl⟩

def ofBatch (config : Clustering) (batch : Batch) : Checked (List Episode) := do
  ofClusters (← config.clusters batch)

/-- The episodes of a batch go one by one with the parts into which it is cut. -/
theorem ofBatch_eq_ok_iff {config : Clustering} {batch : Batch} {rows : List Episode} :
    ofBatch config batch = .ok rows ↔
      ∃ parts, config.split [] (Access.sort batch.accesses) = .ok parts ∧
        List.Forall₂ (fun part row => ofCluster (batch.withAccesses part) = .ok (some row))
          parts rows := by
  have hne : ∀ parts, config.split [] (Access.sort batch.accesses) = .ok parts →
      ∀ cluster ∈ parts.map batch.withAccesses, cluster.accesses ≠ [] := by
    intro parts hparts
    exact List.forall_mem_map.2 (Clustering.ne_nil_of_mem_split hparts)
  unfold ofBatch Clustering.clusters
  constructor
  · intro h
    obtain ⟨clusters, hclusters, h⟩ := bind_eq_ok_iff.1 h
    obtain ⟨parts, hparts, hclusters⟩ := bind_eq_ok_iff.1 hclusters
    obtain rfl := Except.ok.inj hclusters
    exact ⟨parts, hparts, List.forall₂_map_left_iff.1 ((ofClusters_eq_ok_iff (hne _ hparts)).1 h)⟩
  · rintro ⟨parts, hparts, h⟩
    rw [hparts]
    exact (ofClusters_eq_ok_iff (hne _ hparts)).2 (List.forall₂_map_left_iff.2 h)

/-- A batch has episodes if no arithmetic on its accesses leaves the 64-bit range. -/
theorem exists_ofBatch (config : Clustering) {batch : Batch}
    (fit : Access.AllFit batch.accesses) : ∃ rows, ofBatch config batch = .ok rows := by
  have hsorted : Access.AllFit (Access.sort batch.accesses) :=
    fit.mono fun a ha => (Access.perm_sort batch.accesses).mem_iff.1 ha
  obtain ⟨parts, hparts⟩ :
      ∃ parts, config.split [] (Access.sort batch.accesses) = .ok parts :=
    Clustering.exists_split hsorted.allCovered
  have hflatten : parts.flatten = Access.sort batch.accesses := Clustering.flatten_split hparts
  have hrows : ∀ part ∈ parts, ∃ row, ofCluster (batch.withAccesses part) = .ok (some row) := by
    intro part hpart
    have hmem : ∀ a ∈ part, a ∈ Access.sort batch.accesses := by
      intro a ha
      rw [← hflatten]
      exact List.mem_flatten_of_mem hpart ha
    exact @exists_ofCluster (batch.withAccesses part) (hsorted.mono hmem)
      (Clustering.ne_nil_of_mem_split hparts part hpart)
  obtain ⟨rows, hrows⟩ := exists_forall₂ hrows
  exact ⟨rows, ofBatch_eq_ok_iff.2 ⟨parts, hparts, hrows⟩⟩

/-! ## All clusters of several batches -/

/-- The episodes of some clusters and of others are those of both. -/
theorem ofClusters_append_eq_ok_iff {first second : List Batch} {rows : List Episode} :
    ofClusters (first ++ second) = .ok rows ↔
      ∃ front back, ofClusters first = .ok front ∧ ofClusters second = .ok back ∧
        rows = front ++ back := by
  induction first generalizing rows with
  | nil =>
    constructor
    · intro h
      exact ⟨[], rows, rfl, h, rfl⟩
    · rintro ⟨front, back, hfront, hback, rfl⟩
      obtain rfl := Except.ok.inj hfront
      exact hback
  | cons cluster rest ih =>
    rw [List.cons_append, ofClusters_cons_eq_ok_iff]
    constructor
    · rintro ⟨row, further, hrow, hfurther, rfl⟩
      obtain ⟨front, back, hfront, hback, rfl⟩ := ih.1 hfurther
      refine ⟨row.toList ++ front, back, ?_, hback, (List.append_assoc ..).symm⟩
      exact ofClusters_cons_eq_ok_iff.2 ⟨row, front, hrow, hfront, rfl⟩
    · rintro ⟨front, back, hfront, hback, rfl⟩
      obtain ⟨row, further, hrow, hfurther, rfl⟩ := ofClusters_cons_eq_ok_iff.1 hfront
      refine ⟨row, further ++ back, hrow, ih.2 ⟨further, back, hfurther, hback, rfl⟩, ?_⟩
      exact List.append_assoc ..

/-- All clusters are found batch by batch. -/
theorem allClusters_cons_eq_ok_iff {config : Clustering} {batch : Batch}
    {batches clusters : List Batch} :
    config.allClusters (batch :: batches) = .ok clusters ↔
      ∃ first further, config.clusters batch = .ok first ∧
        config.allClusters batches = .ok further ∧ clusters = first ++ further := by
  simp only [Clustering.allClusters_eq_ok_iff, List.forall₂_cons_left_iff]
  constructor
  · rintro ⟨own, ⟨first, others, hfirst, hothers, rfl⟩, rfl⟩
    exact ⟨first, others.flatten, hfirst, ⟨others, hothers, rfl⟩, rfl⟩
  · rintro ⟨first, further, hfirst, ⟨others, hothers, rfl⟩, rfl⟩
    exact ⟨first :: others, ⟨first, others, hfirst, hothers, rfl⟩, rfl⟩

/-- Clustering all batches first makes no difference: the episodes come batch by batch. -/
theorem ofClusters_allClusters {config : Clustering} {batches : List Batch}
    {episodes : List Episode} :
    config.allClusters batches >>= ofClusters = .ok episodes ↔
      ∃ rows, List.Forall₂ (fun batch rows => ofBatch config batch = .ok rows) batches rows ∧
        episodes = rows.flatten := by
  rw [bind_eq_ok_iff]
  induction batches generalizing episodes with
  | nil =>
    constructor
    · rintro ⟨clusters, hclusters, h⟩
      obtain rfl := Except.ok.inj hclusters
      exact ⟨[], .nil, (Except.ok.inj h).symm⟩
    · rintro ⟨rows, hrows, rfl⟩
      rw [List.forall₂_nil_left_iff.1 hrows]
      exact ⟨[], rfl, rfl⟩
  | cons batch rest ih =>
    constructor
    · rintro ⟨clusters, hclusters, h⟩
      obtain ⟨first, further, hfirst, hfurther, rfl⟩ := allClusters_cons_eq_ok_iff.1 hclusters
      -- the clusters of the first batch come first
      obtain ⟨front, back, hfront, hback, rfl⟩ := ofClusters_append_eq_ok_iff.1 h
      obtain ⟨rows, hrows, rfl⟩ := ih.1 ⟨further, hfurther, hback⟩
      exact ⟨front :: rows, .cons (bind_eq_ok_iff.2 ⟨first, hfirst, hfront⟩) hrows, rfl⟩
    · rintro ⟨rows, hrows, rfl⟩
      obtain ⟨front, later, hfront, hlater, rfl⟩ := List.forall₂_cons_left_iff.1 hrows
      obtain ⟨first, hfirst, hfront⟩ := bind_eq_ok_iff.1 hfront
      obtain ⟨further, hfurther, hback⟩ := ih.2 ⟨later, hlater, rfl⟩
      refine ⟨first ++ further, ?_, ?_⟩
      · exact allClusters_cons_eq_ok_iff.2 ⟨first, further, hfirst, hfurther, rfl⟩
      · exact ofClusters_append_eq_ok_iff.2 ⟨front, later.flatten, hfront, hback, rfl⟩

end Episode

end PermissionUsage
