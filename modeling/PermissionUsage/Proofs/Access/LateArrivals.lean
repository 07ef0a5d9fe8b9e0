import PermissionUsage.Proofs.Access.Components
/-!
# Late accesses never split a cluster

An access may become known late, with a time among those that are known already. Without
self-clustering ops it can join clusters that were apart, and that is all that it can do to them:
`clusters_merge`.

* `exists_split_of_gap`: parts that grow are cut at every gap, so that none of them lies on both
  sides.
* `exists_groups`: if what several lists hold is kept apart by gaps, each part lies in one of the
  lists.
* `exists_pieces_of_sublist`: some of the accesses of several parts fall into pieces of the parts,
  and the pieces are kept apart as the parts are.
-/

namespace PermissionUsage

namespace Access

/-- Accesses stand in the same order when others are added to them. -/
theorem sort_sublist_of_added {accesses more extended : List Access}
    (added : extended.Perm (accesses ++ more)) : (sort accesses).Sublist (sort extended) := by
  have hsubperm : accesses.Subperm (sort extended) :=
    (List.sublist_append_left accesses more).subperm.trans
      (added.symm.trans (perm_sort extended).symm).subperm
  -- they are found in the sorted list in some order, which is the one that they are sorted in
  obtain ⟨found, hperm, hsublist⟩ := hsubperm
  obtain rfl : found = sort accesses :=
    eq_sort_of_perm hperm ((inOrder_sort extended).sublist hsublist)
  exact hsublist

end Access

section Pieces

variable {α : Type}

/-- What is left of several lists, laid one after the other, falls into what is left of each. -/
theorem exists_pieces_of_sublist {l : List α} {parts : List (List α)}
    (h : l.Sublist parts.flatten) :
    ∃ pieces : List (List α), pieces.flatten = l ∧ List.Forall₂ List.Sublist pieces parts := by
  induction parts generalizing l with
  | nil =>
    obtain rfl := List.sublist_nil.1 h
    exact ⟨[], rfl, .nil⟩
  | cons part rest ih =>
    obtain ⟨piece, others, rfl, hpiece, hothers⟩ := List.sublist_append_iff.1 h
    obtain ⟨pieces, rfl, hpieces⟩ := ih hothers
    exact ⟨piece :: pieces, rfl, .cons hpiece hpieces⟩

end Pieces

namespace Clustering

variable {config : Clustering}

/-! ## Gaps -/

/-- No access of the first part is close to one of the second. -/
def Apart (config : Clustering) (part later : List Access) : Prop :=
  ∀ a ∈ part, ∀ b ∈ later, ¬config.Reaches a b

/-- Clusters that are apart are apart in what is left of them. -/
theorem Apart.sublist {part later piece piece' : List Access} (apart : config.Apart part later)
    (hpiece : piece.Sublist part) (hpiece' : piece'.Sublist later) : config.Apart piece piece' :=
  fun a ha b hb => apart a (hpiece.subset ha) b (hpiece'.subset hb)

/-- Parts that grow are cut where the accesses in front are not close to those behind. -/
theorem exists_split_of_gap {parts : List (List Access)} {front back : List Access}
    (grows : ∀ part ∈ parts, config.Grows part) (h : parts.flatten = front ++ back)
    (apart : config.Apart front back) :
    ∃ before after, parts = before ++ after ∧ before.flatten = front ∧ after.flatten = back := by
  induction parts generalizing front with
  | nil =>
    obtain ⟨rfl, rfl⟩ := List.append_eq_nil_iff.1 h.symm
    exact ⟨[], [], rfl, rfl, rfl⟩
  | cons part rest ih =>
    obtain ⟨hpart, hrest⟩ := List.forall_mem_cons.1 grows
    rw [List.flatten_cons] at h
    rcases List.append_eq_append_iff.1 h with ⟨more, rfl, hmore⟩ | ⟨more, rfl, rfl⟩
    · have hgap : config.Apart more back :=
        apart.sublist (List.sublist_append_right part more) (.refl back)
      obtain ⟨before, after, rfl, rfl, hafter⟩ := ih hrest hmore hgap
      exact ⟨part :: before, after, rfl, rfl, hafter⟩
    · -- the gap is at an end of the part, because an access behind it could not have joined
      rcases more with _ | ⟨access, more⟩
      · exact ⟨[front], rest, by simp, by simp, by simp⟩
      · by_cases hne : front = []
        · subst hne
          exact ⟨[], _, rfl, rfl, rfl⟩
        · obtain ⟨a, ha, hreaches⟩ := exists_reaches_of_canJoin hne hpart.canJoin
          exact absurd hreaches (apart a ha access (by simp))

/-- If the accesses of several lists are kept apart, parts that grow fall into groups, one for each
list, that hold the same as the list. -/
theorem exists_groups {parts pieces : List (List Access)} (nonempty : ∀ part ∈ parts, part ≠ [])
    (grows : ∀ part ∈ parts, config.Grows part) (h : parts.flatten = pieces.flatten)
    (apart : pieces.Pairwise config.Apart) :
    ∃ groups : List (List (List Access)), groups.flatten = parts ∧
      groups.map List.flatten = pieces := by
  induction pieces generalizing parts with
  | nil =>
    rcases parts with _ | ⟨part, rest⟩
    · exact ⟨[], rfl, rfl⟩
    · exact absurd (List.append_eq_nil_iff.1 h).1 (nonempty part List.mem_cons_self)
  | cons piece rest ih =>
    obtain ⟨hpiece, hrest⟩ := List.pairwise_cons.1 apart
    have hgap : config.Apart piece rest.flatten := by
      intro a ha b hb
      obtain ⟨later, hlater, hb⟩ := List.mem_flatten.1 hb
      exact hpiece later hlater a ha b hb
    obtain ⟨group, others, rfl, rfl, hothers⟩ := exists_split_of_gap grows h hgap
    obtain ⟨groups, rfl, rfl⟩ := ih (List.forall_mem_append.1 nonempty).2
      (List.forall_mem_append.1 grows).2 hothers hrest
    exact ⟨group :: groups, rfl, rfl⟩

/-! ## Clusters of an extended batch -/

/-- Clusters go, each as a whole, into the clusters of more accesses: they fall into groups of
neighbours, one for each of those, which has all accesses of its group, in their order. -/
def MergeInto (clusters merged : List Batch) : Prop :=
  ∃ groups : List (List Batch), groups.flatten = clusters ∧
    List.Forall₂ (fun group whole => (group.flatMap (·.accesses)).Sublist whole.accesses)
      groups merged

/-- **Late accesses never split a cluster.** Let accesses be added to a batch, at any times and in
any place, and let no access be of a self-clustering op. If all accesses have a last minute, the
batch and the extended batch have clusters. Whenever they have, each cluster of the batch is, as a
whole, in one cluster of the extended batch, so that accesses that share a cluster go on to. -/
theorem clusters_merge {batch : Batch} {more extended : List Access}
    (added : extended.Perm (batch.accesses ++ more))
    (free : ∀ a ∈ extended, config.isSelfClustering a.op = false) :
    (Access.AllCovered extended → ∃ clusters merged, config.clusters batch = .ok clusters ∧
      config.clusters (batch.withAccesses extended) = .ok merged) ∧
    ∀ clusters merged, config.clusters batch = .ok clusters →
      config.clusters (batch.withAccesses extended) = .ok merged →
      MergeInto clusters merged := by
  constructor
  · intro hcovered
    have hbatch : Access.AllCovered batch.accesses :=
      fun a ha => hcovered a (added.mem_iff.2 (List.mem_append_left more ha))
    obtain ⟨clusters, hclusters⟩ : ∃ clusters, config.clusters batch = .ok clusters :=
      exists_clusters hbatch
    obtain ⟨merged, hmerged⟩ :
        ∃ merged, config.clusters (batch.withAccesses extended) = .ok merged :=
      exists_clusters hcovered
    exact ⟨clusters, merged, hclusters, hmerged⟩
  · intro clusters merged hclusters hmerged
    obtain ⟨parts, greedy, hflatten, rfl⟩ := clusters_eq_ok_iff.1 hclusters
    obtain ⟨wholes, greedy', hflatten', rfl⟩ := clusters_eq_ok_iff.1 hmerged
    -- the clusters of the extended batch are kept apart, and so is what is in them of the batch
    have happart : wholes.Pairwise config.Apart := by
      refine pairwise_not_reaches greedy' (fun a ha => free a ?_) ?_
      · rw [hflatten'] at ha
        exact (Access.perm_sort extended).mem_iff.1 ha
      · rw [hflatten']
        exact Access.pairwise_sort extended
    have hsublist : (Access.sort batch.accesses).Sublist wholes.flatten :=
      hflatten' ▸ Access.sort_sublist_of_added added
    obtain ⟨pieces, hpieces, hsublists⟩ := exists_pieces_of_sublist hsublist
    have hpiecesApart : pieces.Pairwise config.Apart :=
      pairwise_of_forall₂ hsublists.flip happart fun _ _ _ _ h h' hapart => hapart.sublist h h'
    obtain ⟨groups, rfl, rfl⟩ := exists_groups greedy.nonempty greedy.grows
      (hflatten.trans hpieces.symm) hpiecesApart
    refine ⟨groups.map (·.map batch.withAccesses), List.map_flatten.symm, ?_⟩
    refine List.forall₂_map_left_iff.2 (List.forall₂_map_right_iff.2 ?_)
    refine (List.forall₂_map_left_iff.1 hsublists).imp fun group whole h => ?_
    show ((group.map batch.withAccesses).flatMap (·.accesses)).Sublist whole
    rwa [List.flatMap_def, map_accesses]

/-! ### A fix that comes late -/

namespace LateFix

def start : Access := { op := Op.fineLocation, time := 60000, duration := -1 }

def corner : Access := { op := Op.fineLocation, time := 120000, duration := -1 }

def bridge : Access := { op := Op.fineLocation, time := 240000, duration := -1 }

def home : Access := { op := Op.fineLocation, time := 540000, duration := 60000 }

/-- In the minute between the corner and the bridge. -/
def missing : Access := { op := Op.coarseLocation, time := 180000, duration := -1 }

def walk : Batch where
  owner := ⟨"com.example.pedometer", 0⟩
  accesses := [bridge, start, home, corner]

def extended : List Access := [bridge, missing, start, home, corner]

def stages : List Batch := [[start, corner], [bridge], [home]].map walk.withAccesses

def merged : List Batch := [[start, corner, missing, bridge], [home]].map walk.withAccesses

theorem clusters_walk : ({} : Clustering).clusters walk = .ok stages := by
  have hperm : [start, corner, bridge, home].Perm walk.accesses := by decide +kernel
  have hsorted : [start, corner, bridge, home].Pairwise fun a b => (compare a b).isLE := by
    decide +kernel
  have hsplit : ({} : Clustering).split [] [start, corner, bridge, home] =
      .ok [[start, corner], [bridge], [home]] := by
    decide +kernel
  exact clusters_of_split hperm hsorted hsplit

theorem clusters_extended :
    ({} : Clustering).clusters (walk.withAccesses extended) = .ok merged := by
  have hperm : [start, corner, missing, bridge, home].Perm extended := by decide +kernel
  have hsorted : [start, corner, missing, bridge, home].Pairwise fun a b => (compare a b).isLE := by
    decide +kernel
  have hsplit : ({} : Clustering).split [] [start, corner, missing, bridge, home] =
      .ok [[start, corner, missing, bridge], [home]] := by
    decide +kernel
  exact clusters_of_split hperm hsorted hsplit

end LateFix

open LateFix in
/-- The missing fix joins what was before it and what was after it. -/
theorem clusters_merge_of_lateFix :
    extended.Perm (walk.accesses ++ [missing]) ∧
      (∀ a ∈ extended, ({} : Clustering).isSelfClustering a.op = false) ∧
      ({} : Clustering).clusters walk = .ok stages ∧
      ({} : Clustering).clusters (walk.withAccesses extended) = .ok merged ∧
      MergeInto stages merged := by
  have hadded : extended.Perm (walk.accesses ++ [missing]) := by decide +kernel
  have hfree : ∀ a ∈ extended, ({} : Clustering).isSelfClustering a.op = false := by
    decide +kernel
  obtain ⟨-, hmerge⟩ := clusters_merge hadded hfree
  exact ⟨hadded, hfree, clusters_walk, clusters_extended,
    hmerge stages merged clusters_walk clusters_extended⟩

end Clustering

end PermissionUsage
