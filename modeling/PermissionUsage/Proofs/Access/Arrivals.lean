import PermissionUsage.Proofs.Access.Greedy
/-!
# New accesses touch the last cluster only

The walk over a batch never comes back to a cluster that it has closed. So if more accesses follow
all those of a batch, the walk over all of them goes on where the walk over the batch has ended:
with the last cluster open (`exists_split_of_append`). Accesses that start later than all accesses
of a batch do follow them in order (`Access.sort_append_of_later`), wherever they were added, so
that the clusters of the batch stay as they are but for the last one, which may go on:
`clusters_extend`.
-/

namespace PermissionUsage

namespace Access

/-- An earlier access comes first, whatever else it is. -/
theorem isLE_of_time_lt {a b : Access} (h : a.time.toInt < b.time.toInt) :
    (compare a b).isLE := by
  show ((compare a.time.toInt b.time.toInt).then _).isLE
  rw [Std.compare_eq_lt.2 h]
  rfl

/-- Accesses that start later than others come after them in order. -/
theorem sort_append_of_later {accesses more : List Access}
    (later : ∀ a ∈ accesses, ∀ b ∈ more, a.time.toInt < b.time.toInt) :
    sort (accesses ++ more) = sort accesses ++ sort more := by
  refine (eq_sort_of_perm ((perm_sort accesses).append (perm_sort more)) ?_).symm
  refine List.pairwise_append.2 ⟨inOrder_sort accesses, inOrder_sort more, fun a ha b hb => ?_⟩
  apply isLE_of_time_lt
  exact later a ((perm_sort accesses).mem_iff.1 ha) b ((perm_sort more).mem_iff.1 hb)

end Access

namespace Clustering

variable {config : Clustering}

/-! ## The walk goes on -/

/-- A walk over more accesses has left the same parts at the end of the first ones, and goes on with
the last of these parts open. -/
theorem exists_split_of_append {current accesses more : List Access} {parts : List (List Access)}
    (hne : current ++ accesses ≠ [])
    (h : config.split current (accesses ++ more) = .ok parts) :
    ∃ before last further, config.split current accesses = .ok (before ++ [last]) ∧
      config.split last more = .ok further ∧ parts = before ++ further := by
  induction accesses generalizing current parts with
  | nil =>
    rw [List.append_nil] at hne
    refine ⟨[], current, parts, ?_, h, rfl⟩
    rw [split_nil, List.isEmpty_eq_false_iff.2 hne]
    rfl
  | cons access rest ih =>
    rcases split_cons_eq_ok_iff.1 h with ⟨hjoin, hrest⟩ | ⟨hjoin, later, hrest, rfl⟩
    · obtain ⟨before, last, further, hfront, hback, rfl⟩ := ih (by simp) hrest
      exact ⟨before, last, further, split_cons_eq_ok_iff.2 (.inl ⟨hjoin, hfront⟩), hback, rfl⟩
    · -- the part that is closed here is in front of all that the walk leaves later
      obtain ⟨before, last, further, hfront, hback, rfl⟩ := ih (by simp) hrest
      exact ⟨current :: before, last, further,
        split_cons_eq_ok_iff.2 (.inr ⟨hjoin, _, hfront, rfl⟩), hback, rfl⟩

/-- The part that is open goes on with some of the accesses that follow, and the others are in parts
of their own. -/
theorem exists_goesOn_of_split {last more : List Access} {parts : List (List Access)}
    (hne : last ≠ []) (h : config.split last more = .ok parts) :
    ∃ first further, parts = (last ++ first) :: further ∧ first ++ further.flatten = more := by
  obtain ⟨first, further, rfl⟩ := head_split h hne
  refine ⟨first, further, rfl, ?_⟩
  have hflatten := flatten_split h
  rw [List.flatten_cons, List.append_assoc] at hflatten
  exact List.append_cancel_left hflatten

/-! ## Clusters of an extended batch -/

/-- **New accesses touch the last cluster only.** Let a batch that is not empty be extended by
accesses that start later than all of its own, in whatever place they are added. The extended batch
has clusters if all of its accesses have a last minute. Whenever it has clusters, so has the batch,
and these are the first clusters of the extended batch, but for the last one: it goes on with some
of the new accesses, in order, and the others are in the clusters that follow. -/
theorem clusters_extend {batch : Batch} {more extended : List Access}
    (nonempty : batch.accesses ≠ []) (added : extended.Perm (batch.accesses ++ more))
    (later : ∀ a ∈ batch.accesses, ∀ b ∈ more, a.time.toInt < b.time.toInt) :
    (Access.AllCovered extended →
      ∃ clusters, config.clusters (batch.withAccesses extended) = .ok clusters) ∧
    ∀ clusters, config.clusters (batch.withAccesses extended) = .ok clusters →
      ∃ before last first further, config.clusters batch = .ok (before ++ [last]) ∧
        clusters = before ++ last.withAccesses (last.accesses ++ first) :: further ∧
        first ++ further.flatMap (·.accesses) = Access.sort more := by
  refine ⟨fun hcovered => exists_clusters hcovered, fun clusters h => ?_⟩
  -- later accesses are sorted behind all the others
  have hsort : Access.sort extended = Access.sort batch.accesses ++ Access.sort more :=
    (Access.sort_eq_of_perm added).trans (Access.sort_append_of_later later)
  have hne : [] ++ Access.sort batch.accesses ≠ [] := by
    intro hnil
    apply nonempty
    apply List.nil_perm.1
    rw [← hnil]
    exact Access.perm_sort batch.accesses
  obtain ⟨parts, greedy, hflatten, rfl⟩ := clusters_eq_ok_iff.1 h
  have hparts : config.split [] (Access.sort batch.accesses ++ Access.sort more) = .ok parts :=
    split_eq_ok_iff.2 ⟨greedy, hflatten.trans hsort⟩
  -- so the sweep over the batch is the beginning of the sweep over both
  obtain ⟨before, last, rest, hfront, hback, rfl⟩ := exists_split_of_append hne hparts
  have hlast : last ≠ [] := ne_nil_of_mem_split hfront last (by simp)
  obtain ⟨first, further, rfl, hmore⟩ := exists_goesOn_of_split hlast hback
  refine ⟨before.map batch.withAccesses, batch.withAccesses last, first,
    further.map batch.withAccesses, ?_, ?_, ?_⟩
  · obtain ⟨greedy, hflatten⟩ := split_eq_ok_iff.1 hfront
    exact clusters_eq_ok_iff.2 ⟨before ++ [last], greedy, hflatten, by simp⟩
  · rw [List.map_append]
    rfl
  · rw [List.flatMap_def, map_accesses, hmore]

/-! ### A drive that goes on -/

namespace LongDrive

open Drive (setOff emergencyCall detour)

def arrival : Access := { op := Op.fineLocation, time := 300000, duration := -1 }

def secondCall : Access := { op := Op.emergencyLocation, time := 360000, duration := 60000 }

/-- The drive up to the detour. -/
def soFar : Batch where
  owner := ⟨"com.example.navigator", 0⟩
  accesses := [detour, emergencyCall, setOff]
  label := "Navigation"

def whole : List Access := [secondCall, detour, emergencyCall, arrival, setOff]

def longLegs : List Batch :=
  [[setOff], [emergencyCall], [detour, arrival], [secondCall]].map soFar.withAccesses

theorem clusters_whole : Drive.bypass.clusters (soFar.withAccesses whole) = .ok longLegs := by
  have hperm : [setOff, emergencyCall, detour, arrival, secondCall].Perm whole := by
    decide +kernel
  have hsorted : [setOff, emergencyCall, detour, arrival, secondCall].Pairwise
      fun a b => (compare a b).isLE := by
    decide +kernel
  have hsplit : Drive.bypass.split [] [setOff, emergencyCall, detour, arrival, secondCall] =
      .ok [[setOff], [emergencyCall], [detour, arrival], [secondCall]] := by
    decide +kernel
  exact clusters_of_split hperm hsorted hsplit

end LongDrive

open Drive LongDrive in
/-- The arrival goes on with the detour, and the second call is on its own. -/
theorem clusters_extend_of_longDrive :
    soFar.accesses ≠ [] ∧ whole.Perm (soFar.accesses ++ [secondCall, arrival]) ∧
      bypass.clusters (soFar.withAccesses whole) = .ok longLegs ∧
      ∃ before last first further, bypass.clusters soFar = .ok (before ++ [last]) ∧
        longLegs = before ++ last.withAccesses (last.accesses ++ first) :: further ∧
        first ++ further.flatMap (·.accesses) = Access.sort [secondCall, arrival] := by
  have hne : soFar.accesses ≠ [] := List.cons_ne_nil _ _
  have hadded : whole.Perm (soFar.accesses ++ [secondCall, arrival]) := by decide +kernel
  have hlater : ∀ a ∈ soFar.accesses, ∀ b ∈ [secondCall, arrival],
      a.time.toInt < b.time.toInt := by decide +kernel
  obtain ⟨-, hextend⟩ := clusters_extend hne hadded hlater
  exact ⟨hne, hadded, clusters_whole, hextend longLegs clusters_whole⟩

end Clustering

end PermissionUsage
