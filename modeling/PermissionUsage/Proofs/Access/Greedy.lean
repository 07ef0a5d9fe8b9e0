import PermissionUsage.Proofs.Access.Batches
import PermissionUsage.Proofs.Access.Clusters
/-!
# There is one greedy way to cut a batch

Cutting is greedy: every access joins the open cluster if it can. `Greedy` says this of the parts
that are left, without the walk: each part could grow to what it is, one access after the other, and
no part could have gone on with the access after it. Such parts determine the walk.

* `Grows`: each access of a part could join what stands in front of it.
* `split_append`, `split_cons`: the walk passes over a part that grows, and stops where it is cut.
* `split_eq_ok_iff`: the walk finds the greedy parts of a list, and there are no others.
* `Greedy.pairwise`: what a cut tells of the accesses that follow keeps all later parts apart.
* `clusters_eq_ok_iff`: the same as `split_eq_ok_iff` for the clusters of a batch.

So clusters are known by what they look like (`clusters_decompose`), do not depend on the order in
which a batch has its accesses (`clusters_eq_of_alike`), and are their own clusters
(`allClusters_fixed`).
-/

namespace PermissionUsage

namespace Clustering

variable {config : Clustering}

/-! ## Growing -/

/-- Each access of a part, but the first, could join what stands in front of it. -/
def Grows (config : Clustering) (part : List Access) : Prop :=
  ∀ front access back, part = front ++ access :: back → front ≠ [] →
    config.canJoin access front = .ok true

theorem grows_nil : config.Grows [] := by
  intro front access back h
  cases front <;> cases h

/-- Every access of a cluster that grew could join what was there before it. -/
theorem Grows.canJoin {front back : List Access} {access : Access}
    (grows : config.Grows (front ++ access :: back)) : config.canJoin access front = .ok true := by
  cases front with
  | nil => exact canJoin_nil config access
  | cons => exact grows _ access back rfl (List.cons_ne_nil _ _)

/-- A cluster grows by an access that can join it. -/
theorem Grows.concat {part : List Access} {access : Access} (grows : config.Grows part)
    (h : config.canJoin access part = .ok true) : config.Grows (part ++ [access]) := by
  intro front a back heq hne
  rcases List.eq_nil_or_concat back with rfl | ⟨back, last, rfl⟩
  · obtain ⟨rfl, hlast⟩ := List.append_inj' heq rfl
    rwa [← List.singleton_inj.1 hlast]
  · -- it stands in front of the last access, in the part as it was
    have heq : part ++ [access] = (front ++ a :: back) ++ [last] := by simpa using heq
    exact grows front a back (List.append_inj' heq rfl).1 hne

theorem grows_singleton (access : Access) : config.Grows [access] :=
  grows_nil.concat (canJoin_nil config access)

/-! ## The walk -/

/-- The walk passes over accesses that join one after the other. -/
theorem split_append {current more rest : List Access} (grows : config.Grows (current ++ more)) :
    config.split current (more ++ rest) = config.split (current ++ more) rest := by
  induction more generalizing current with
  | nil => rw [List.append_nil, List.nil_append]
  | cons access more ih =>
    have hjoin : config.canJoin access current = .ok true := grows.canJoin
    rw [List.append_cons] at grows ⊢
    rw [← ih grows, List.cons_append, split, hjoin]
    rfl

/-- The walk closes the open cluster at an access that cannot join it. -/
theorem split_cons {current rest : List Access} {access : Access}
    (h : config.canJoin access current = .ok false) :
    config.split current (access :: rest) =
      (config.split [access] rest).map (current :: ·) := by
  rw [split, h]
  rfl

/-- The parts that a greedy walk leaves: none is empty, each could grow, and where one ends the next
access could not join it. -/
structure Greedy (config : Clustering) (parts : List (List Access)) : Prop where
  nonempty : ∀ part ∈ parts, part ≠ []
  grows : ∀ part ∈ parts, config.Grows part
  cut : parts.IsChain config.Cut

/-- What is left without the first cluster is greedy as well. -/
theorem Greedy.tail {part : List Access} {rest : List (List Access)}
    (greedy : config.Greedy (part :: rest)) : config.Greedy rest where
  nonempty := (List.forall_mem_cons.1 greedy.nonempty).2
  grows := (List.forall_mem_cons.1 greedy.grows).2
  cut := greedy.cut.tail

/-- **Cutting is greedy.** Every access joined the cluster before it as long as it could. -/
theorem greedy_of_split {accesses : List Access} {parts : List (List Access)}
    (h : config.split [] accesses = .ok parts) : config.Greedy parts where
  nonempty := ne_nil_of_mem_split h
  grows := forall_mem_split (fun _ _ => Grows.concat) grows_singleton h grows_nil
  cut := isChain_split h

/-- The walk over the accesses of greedy parts cuts them where they were cut. -/
theorem split_flatten {parts : List (List Access)} (greedy : config.Greedy parts) :
    config.split [] parts.flatten = .ok parts := by
  induction parts with
  | nil => rfl
  | cons part rest ih =>
    have hpart : part ≠ [] := greedy.nonempty part List.mem_cons_self
    have hwalk : config.split [] (part ++ rest.flatten) = config.split part rest.flatten :=
      split_append (greedy.grows part List.mem_cons_self)
    have hfurther : config.split [] rest.flatten = .ok rest := ih greedy.tail
    rw [List.flatten_cons, hwalk]
    cases rest with
    | nil =>
      show config.split part [] = _
      rw [split_nil, List.isEmpty_eq_false_iff.2 hpart]
      rfl
    | cons next later =>
      -- the walk stops at the first access of the next part and goes on from there
      obtain ⟨first, hfirst, hjoin⟩ := List.rel_of_isChain_cons_cons greedy.cut
      obtain ⟨more, rfl⟩ := List.head?_eq_some_iff.1 hfirst
      rw [List.flatten_cons, List.cons_append] at hfurther ⊢
      have hnext : config.split [first] (more ++ later.flatten) = .ok ((first :: more) :: later) :=
        hfurther
      rw [split_cons hjoin, hnext]
      rfl

/-- The walk over a list finds its greedy parts, and these are the only ones. -/
theorem split_eq_ok_iff {accesses : List Access} {parts : List (List Access)} :
    config.split [] accesses = .ok parts ↔ config.Greedy parts ∧ parts.flatten = accesses := by
  constructor
  · intro h
    exact ⟨greedy_of_split h, flatten_split h⟩
  · rintro ⟨greedy, rfl⟩
    exact split_flatten greedy

/-- If a part is cut at an access, and this tells something of all accesses from there on, it holds
of the part and every access of a later one. -/
theorem Greedy.pairwise {le : Access → Access → Prop} (refl : ∀ a, le a a)
    {Q : List Access → Access → Prop} {parts : List (List Access)} (greedy : config.Greedy parts)
    (inOrder : parts.flatten.Pairwise le)
    (h : ∀ part ∈ parts, ∀ first ∈ parts.flatten, config.canJoin first part = .ok false →
      (∀ a ∈ part, le a first) → ∀ b, le first b → Q part b) :
    parts.Pairwise fun part later => ∀ b ∈ later, Q part b := by
  induction parts with
  | nil => exact .nil
  | cons part rest ih =>
    obtain ⟨-, hrest, hbefore⟩ := List.pairwise_append.1 inOrder
    refine List.pairwise_cons.2 ⟨fun later hlater b hb => ?_, ih greedy.tail hrest ?_⟩
    · obtain ⟨next, others, rfl⟩ := List.exists_cons_of_ne_nil (List.ne_nil_of_mem hlater)
      -- the part is cut at the first access of the next one, which is before all later ones
      obtain ⟨first, hfirst, hcut⟩ := List.rel_of_isChain_cons_cons greedy.cut
      obtain ⟨more, rfl⟩ := List.head?_eq_some_iff.1 hfirst
      have hmem : first ∈ first :: (more ++ others.flatten) := List.mem_cons_self
      have hle : le first b := by
        have hbmem : b ∈ first :: (more ++ others.flatten) := List.mem_flatten_of_mem hlater hb
        rcases List.mem_cons.1 hbmem with rfl | hbmem
        · exact refl _
        · exact (List.pairwise_cons.1 hrest).1 b hbmem
      exact h part List.mem_cons_self first (List.mem_append_right part hmem) hcut
        (fun a ha => hbefore a ha first hmem) b hle
    · intro part' hpart' first hfirst
      exact h part' (List.mem_cons_of_mem part hpart') first (List.mem_append_right part hfirst)

/-! ## Clusters of a batch -/

theorem map_accesses (batch : Batch) (parts : List (List Access)) :
    (parts.map batch.withAccesses).map (·.accesses) = parts := by
  rw [List.map_map]
  exact List.map_id parts

/-- Clusters are the greedy cuts of the sorted accesses, and no others. -/
theorem clusters_eq_ok_iff {batch : Batch} {clusters : List Batch} :
    config.clusters batch = .ok clusters ↔ ∃ parts, config.Greedy parts ∧
      parts.flatten = Access.sort batch.accesses ∧ clusters = parts.map batch.withAccesses := by
  unfold Clustering.clusters
  constructor
  · intro h
    obtain ⟨parts, hparts, h⟩ := bind_eq_ok_iff.1 h
    obtain ⟨greedy, hflatten⟩ := split_eq_ok_iff.1 hparts
    exact ⟨parts, greedy, hflatten, (Except.ok.inj h).symm⟩
  · rintro ⟨parts, greedy, hflatten, rfl⟩
    exact bind_eq_ok_iff.2 ⟨parts, split_eq_ok_iff.2 ⟨greedy, hflatten⟩, rfl⟩

/-- The clusters of a batch, if its accesses in order and their parts are known. -/
theorem clusters_of_split {batch : Batch} {sorted : List Access} {parts : List (List Access)}
    (hperm : sorted.Perm batch.accesses) (hsorted : sorted.Pairwise fun a b => (compare a b).isLE)
    (hsplit : config.split [] sorted = .ok parts) :
    config.clusters batch = .ok (parts.map batch.withAccesses) := by
  obtain ⟨greedy, hflatten⟩ := split_eq_ok_iff.1 hsplit
  have hsort : parts.flatten = Access.sort batch.accesses :=
    hflatten.trans (Access.eq_sort_of_perm hperm hsorted)
  exact clusters_eq_ok_iff.2 ⟨parts, greedy, hsort, rfl⟩

/-- A batch has clusters if all of its accesses have a last minute. -/
theorem exists_clusters {batch : Batch} (hcovered : Access.AllCovered batch.accesses) :
    ∃ clusters, config.clusters batch = .ok clusters := by
  have hsorted : Access.AllCovered (Access.sort batch.accesses) :=
    fun a ha => hcovered a ((Access.perm_sort batch.accesses).mem_iff.1 ha)
  obtain ⟨parts, hparts⟩ :
      ∃ parts, config.split [] (Access.sort batch.accesses) = .ok parts := exists_split hsorted
  exact ⟨_, bind_eq_ok_iff.2 ⟨parts, hparts, rfl⟩⟩

/-- A greedy decomposition of a batch: its accesses in order, cut into clusters that say the same of
the owner, the label and sensitivity, none of them empty. An access that is not the first of its
cluster can join the part of the cluster in front of it; the first access of a cluster cannot join
the cluster before. -/
structure Decomposes (config : Clustering) (batch : Batch) (clusters : List Batch) : Prop where
  perm : (clusters.flatMap (·.accesses)).Perm batch.accesses
  inOrder : (clusters.flatMap (·.accesses)).Pairwise fun a b => (compare a b).isLE
  nonempty : ∀ cluster ∈ clusters, cluster.accesses ≠ []
  kept : ∀ cluster ∈ clusters, cluster.owner = batch.owner ∧ cluster.label = batch.label ∧
    cluster.isSensitive = batch.isSensitive
  joins : ∀ cluster ∈ clusters, config.Grows cluster.accesses
  cut : clusters.IsChain fun cluster next => config.Cut cluster.accesses next.accesses

/-- **Clusters are the greedy decomposition.** A batch has clusters if all of its accesses have a
last minute, and whenever it has clusters, they are its only greedy decomposition. -/
theorem clusters_decompose (config : Clustering) (batch : Batch) :
    (Access.AllCovered batch.accesses → ∃ clusters, config.clusters batch = .ok clusters) ∧
      ∀ clusters, config.clusters batch = .ok clusters ↔ config.Decomposes batch clusters := by
  refine ⟨exists_clusters, fun clusters => ?_⟩
  rw [clusters_eq_ok_iff]
  constructor
  · rintro ⟨parts, greedy, hflatten, rfl⟩
    have haccesses : (parts.map batch.withAccesses).flatMap (·.accesses) =
        Access.sort batch.accesses := by
      rw [List.flatMap_def, map_accesses, hflatten]
    exact {
      perm := haccesses ▸ Access.perm_sort batch.accesses
      inOrder := haccesses ▸ Access.inOrder_sort batch.accesses
      nonempty := List.forall_mem_map.2 greedy.nonempty
      kept := List.forall_mem_map.2 fun _ _ => ⟨rfl, rfl, rfl⟩
      joins := List.forall_mem_map.2 greedy.grows
      cut := (List.isChain_map _).2 greedy.cut }
  · -- the accesses of such clusters are those of the batch, and in order: they are the sorted ones
    intro h
    have hkept : ∀ cluster ∈ clusters, batch.withAccesses cluster.accesses = cluster := by
      intro cluster hcluster
      obtain ⟨howner, hlabel, hsensitive⟩ := h.kept cluster hcluster
      unfold Batch.withAccesses
      rw [← howner, ← hlabel, ← hsensitive]
    refine ⟨clusters.map (·.accesses), ⟨?_, ?_, ?_⟩, ?_, ?_⟩
    · exact List.forall_mem_map.2 h.nonempty
    · exact List.forall_mem_map.2 h.joins
    · exact (List.isChain_map _).2 h.cut
    · rw [← List.flatMap_def]
      exact Access.eq_sort_of_perm h.perm h.inOrder
    · have hid : clusters.map (batch.withAccesses ∘ (·.accesses)) = clusters.map id :=
        List.map_congr_left hkept
      rw [List.map_map, hid, List.map_id]

/-! ### A drive -/

namespace Drive

def setOff : Access := { op := Op.fineLocation, time := 60000, duration := 180000 }

def emergencyCall : Access := { op := Op.emergencyLocation, time := 120000, duration := -1 }

def detour : Access := { op := Op.fineLocation, time := 240000, duration := -1 }

def sharedDetour : Access := { detour with proxyPackage := "com.example.friends" }

/-- A drive of five minutes with an emergency call in its second minute. -/
def drive : Batch where
  owner := ⟨"com.example.navigator", 0⟩
  accesses := [sharedDetour, emergencyCall, detour, setOff]
  label := "Navigation"
  isSensitive := true

def driveBackwards : Batch := drive.withAccesses drive.accesses.reverse

def legs : List Batch :=
  [[setOff], [emergencyCall], [detour, sharedDetour]].map drive.withAccesses

def bypass : Clustering := .ofFeatures { locationBypass := true }

theorem clusters_drive : bypass.clusters drive = .ok legs := by
  have hperm : [setOff, emergencyCall, detour, sharedDetour].Perm drive.accesses := by
    decide +kernel
  have hsorted : [setOff, emergencyCall, detour, sharedDetour].Pairwise
      fun a b => (compare a b).isLE := by
    decide +kernel
  have hsplit : bypass.split [] [setOff, emergencyCall, detour, sharedDetour] =
      .ok [[setOff], [emergencyCall], [detour, sharedDetour]] := by
    decide +kernel
  exact clusters_of_split hperm hsorted hsplit

end Drive

open Drive in
theorem clusters_decompose_of_drive :
    bypass.clusters drive = .ok legs ∧ bypass.Decomposes drive legs := by
  obtain ⟨-, hdecomposes⟩ := clusters_decompose bypass drive
  exact ⟨clusters_drive, (hdecomposes legs).1 clusters_drive⟩

/-! ## Clusters of clusters -/

/-- A cluster, taken as a batch, is not cut again. -/
theorem clusters_of_mem {batch cluster : Batch} {clusters : List Batch}
    (h : config.clusters batch = .ok clusters) (hmem : cluster ∈ clusters) :
    config.clusters cluster = .ok [cluster] := by
  obtain ⟨parts, greedy, hflatten, rfl⟩ := clusters_eq_ok_iff.1 h
  obtain ⟨part, hpart, rfl⟩ := List.mem_map.1 hmem
  have hinOrder : part.Pairwise fun a b => (compare a b).isLE := by
    have hall := Access.inOrder_sort batch.accesses
    rw [← hflatten] at hall
    exact (List.pairwise_flatten.1 hall).1 part hpart
  have hsort : part = Access.sort part := Access.eq_sort_of_perm (.refl part) hinOrder
  have hsingle : config.Greedy [part] :=
    ⟨List.forall_mem_singleton.2 (greedy.nonempty part hpart),
      List.forall_mem_singleton.2 (greedy.grows part hpart), .singleton part⟩
  exact clusters_eq_ok_iff.2 ⟨[part], hsingle, List.flatten_singleton.trans hsort, rfl⟩

/-- **Clusters are their own clusters.** What batches are cut into is not cut again: neither all of
it nor any cluster of it. -/
theorem allClusters_fixed {batches clusters : List Batch}
    (h : config.allClusters batches = .ok clusters) :
    config.allClusters clusters = .ok clusters ∧
      ∀ cluster ∈ clusters, config.clusters cluster = .ok [cluster] := by
  obtain ⟨own, hown, rfl⟩ := allClusters_eq_ok_iff.1 h
  have hfixed : ∀ cluster ∈ own.flatten, config.clusters cluster = .ok [cluster] := by
    intro cluster hcluster
    obtain ⟨clusters, hclusters, hmem⟩ := List.mem_flatten.1 hcluster
    obtain ⟨batch, -, hbatch⟩ := exists_mem_of_forall₂ hown clusters hclusters
    exact clusters_of_mem hbatch hmem
  refine ⟨allClusters_eq_ok_iff.2 ⟨own.flatten.map ([·]), ?_, ?_⟩, hfixed⟩
  · exact List.forall₂_map_right_iff.2 (List.forall₂_same.2 hfixed)
  · rw [← List.flatMap_def, List.flatMap_singleton']

open Drive in
theorem allClusters_fixed_of_drive :
    bypass.allClusters [drive, drive] = .ok (legs ++ legs) ∧
      bypass.allClusters (legs ++ legs) = .ok (legs ++ legs) ∧
      ∀ leg ∈ legs ++ legs, bypass.clusters leg = .ok [leg] := by
  have hlegs : bypass.allClusters [drive, drive] = .ok (legs ++ legs) :=
    allClusters_eq_ok_iff.2 ⟨[legs, legs], .cons clusters_drive (.cons clusters_drive .nil), rfl⟩
  exact ⟨hlegs, allClusters_fixed hlegs⟩

/-! ## The order of the accesses -/

/-- **Clusters do not depend on the order of the accesses.** Batches that differ only in the order
of their accesses have the same clusters, or both overflow. -/
theorem clusters_eq_of_alike {batch other : Batch} (h : batch.Alike other) :
    config.clusters batch = config.clusters other := by
  have hsort : Access.sort batch.accesses = Access.sort other.accesses :=
    Access.sort_eq_of_perm h.accesses
  unfold Clustering.clusters
  rw [hsort, h.withAccesses_eq]

open Drive in
theorem clusters_eq_of_alike_of_drive :
    drive.Alike driveBackwards ∧ bypass.clusters drive = bypass.clusters driveBackwards ∧
      bypass.clusters driveBackwards = .ok legs := by
  have halike : drive.Alike driveBackwards := ⟨rfl, rfl, rfl, (List.reverse_perm _).symm⟩
  have hsame : bypass.clusters drive = bypass.clusters driveBackwards := clusters_eq_of_alike halike
  exact ⟨halike, hsame, hsame.symm.trans clusters_drive⟩

end Clustering

end PermissionUsage
