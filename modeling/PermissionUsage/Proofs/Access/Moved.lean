import Mathlib.Data.List.Forall2
import Mathlib.Data.List.Perm.Basic
import PermissionUsage.Proofs.Access.Clusters
/-!
# Accesses that are moved in time

`Access.Moved k` says that an access is another one, `k` minutes later. Sorting and clustering look
at differences of times only, so that they do the same to accesses that are all moved alike.

* `Millis.minute_add`: the number of whole minutes since the epoch grows by `k`. Minutes are rounded
  toward the epoch, so that this needs a time that does not lie before it (`Access.SinceEpoch`),
  neither as it was nor as it is moved.
* `forall₂_sort`: moved accesses stand in the same order.
* `eq_of_canJoin`: a moved access joins a moved cluster if and only if it did before.
* `forall₂_split`: walks that agree on joining cut at the same places.
-/

namespace PermissionUsage

namespace Millis

/-- Whole minutes are added to the minute of an instant. The epoch must not be crossed, since
minutes are rounded toward it. -/
theorem minute_add {t moved : Millis} {k : Int} (h : moved.toInt = t.toInt + 60000 * k)
    (afterEpoch : 0 ≤ t.toInt) (movedAfterEpoch : 0 ≤ moved.toInt) :
    moved.minute = t.minute + k := by
  unfold minute
  rw [Int.tdiv_eq_ediv_of_nonneg movedAfterEpoch, Int.tdiv_eq_ediv_of_nonneg afterEpoch]
  omega

end Millis

theorem compare_add_right (x y c : Int) : compare (x + c) (y + c) = compare x y := by
  have hlt : x + c < y + c ↔ x < y := by omega
  have heq : x + c = y + c ↔ x = y := by omega
  show compareOfLessAndEq (x + c) (y + c) = compareOfLessAndEq x y
  simp only [compareOfLessAndEq, hlt, heq]

theorem max?_map_add (l : List Int) (c : Int) : (l.map (· + c)).max? = l.max?.map (· + c) := by
  cases l with
  | nil => rfl
  | cons first rest =>
    have hadd : ∀ x y, max (x + c) (y + c) = max x y + c := by omega
    rw [List.map_cons, List.max?_cons', List.max?_cons']
    exact congrArg some (List.foldl_map_hom hadd)

theorem min?_map_add (l : List Int) (c : Int) : (l.map (· + c)).min? = l.min?.map (· + c) := by
  cases l with
  | nil => rfl
  | cons first rest =>
    have hadd : ∀ x y, min (x + c) (y + c) = min x y + c := by omega
    rw [List.map_cons, List.min?_cons', List.min?_cons']
    exact congrArg some (List.foldl_map_hom hadd)

namespace Access

/-! ## One access -/

/-- An access, and the same `k` minutes later; earlier if `k` is negative. -/
structure Moved (k : Int) (access moved : Access) : Prop where
  time : moved.time.toInt = access.time.toInt + 60000 * k
  same : moved = { access with time := moved.time }

/-- Nothing of the access lies before the epoch. -/
structure SinceEpoch (access : Access) : Prop where
  time : 0 ≤ access.time.toInt
  lastMinute : 0 ≤ access.lastMinute

variable {k : Int} {access moved other otherMoved : Access}

/-- An access that starts after the epoch and keeps its minute has its last minute after the epoch.
-/
theorem KeepsMinute.sinceEpoch (minute : access.KeepsMinute) (time : 0 ≤ access.time.toInt) :
    access.SinceEpoch :=
  ⟨time, Int.le_trans time minute.time_le_lastMinute⟩

namespace Moved

/-- What was moved forward is moved back. -/
theorem symm (h : Moved k access moved) : Moved (-k) moved access where
  time := by
    have htime := h.time
    omega
  same := by
    rw [h.same]

theorem op (h : Moved k access moved) : moved.op = access.op := by
  rw [h.same]

/-- The stop moves along. -/
theorem stop (h : Moved k access moved) : moved.stop = access.stop + 60000 * k := by
  have htime := h.time
  have hduration : moved.duration = access.duration := by rw [h.same]
  unfold Access.stop isContinuous
  rw [hduration]
  omega

/-- A moved access is as long as before, so it keeps its minute if the other does. -/
theorem keepsMinute (h : Moved k access moved) (minute : access.KeepsMinute) :
    moved.KeepsMinute := by
  rw [h.same]
  exact minute

end Moved

/-! ## Accesses in order -/

/-- Moved accesses are in the order in which they were, since time comes first and moves along. -/
theorem compare_moved (h : Moved k access moved) (h' : Moved k other otherMoved) :
    compare moved otherMoved = compare access other := by
  have htime := compare_add_right access.time.toInt other.time.toInt (60000 * k)
  rw [← h.time, ← h'.time] at htime
  show (compare moved.time.toInt otherMoved.time.toInt).then _ =
    (compare access.time.toInt other.time.toInt).then _
  rw [htime, h.same, h'.same]
  rfl

/-- Accesses that go one by one with others, and are ordered as these are, are sorted alike. -/
theorem forall₂_sort {R : Access → Access → Prop} {accesses others : List Access}
    (hcompare : ∀ a a' b b', R a b → R a' b' → compare b b' = compare a a')
    (h : List.Forall₂ R accesses others) : List.Forall₂ R (sort accesses) (sort others) := by
  obtain ⟨sorted, hsorted, hperm⟩ := List.perm_comp_forall₂ (perm_sort accesses) h
  have hinOrder : sorted.Pairwise fun a b => (compare a b).isLE := by
    refine pairwise_of_forall₂ hsorted (inOrder_sort accesses) fun a a' b b' hR hR' hle => ?_
    rwa [hcompare a a' b b' hR hR']
  rwa [← eq_sort_of_perm hperm hinOrder]

/-- An access and the same `k` minutes later, neither of them before the epoch. -/
structure MovedSinceEpoch (k : Int) (access moved : Access) : Prop where
  isMoved : Moved k access moved
  before : access.SinceEpoch
  after : moved.SinceEpoch

theorem MovedSinceEpoch.symm (h : MovedSinceEpoch k access moved) :
    MovedSinceEpoch (-k) moved access :=
  ⟨h.isMoved.symm, h.after, h.before⟩

/-- Accesses that start after the epoch, and do so moved as well, have all their minutes after it.
-/
theorem forall₂_movedSinceEpoch {accesses movedAll : List Access}
    (h : List.Forall₂ (Moved k) accesses movedAll) (minutes : ∀ a ∈ accesses, a.KeepsMinute)
    (afterEpoch : ∀ a ∈ accesses, 0 ≤ a.time.toInt)
    (movedAfterEpoch : ∀ a ∈ movedAll, 0 ≤ a.time.toInt) :
    List.Forall₂ (MovedSinceEpoch k) accesses movedAll := by
  induction h with
  | nil => exact .nil
  | cons hmoved _ ih =>
    obtain ⟨hminute, hminutes⟩ := List.forall_mem_cons.1 minutes
    obtain ⟨htime, htimes⟩ := List.forall_mem_cons.1 afterEpoch
    obtain ⟨hmovedTime, hmovedTimes⟩ := List.forall_mem_cons.1 movedAfterEpoch
    refine .cons ⟨hmoved, hminute.sinceEpoch htime, ?_⟩ (ih hminutes htimes hmovedTimes)
    exact (hmoved.keepsMinute hminute).sinceEpoch hmovedTime

end Access

namespace Clustering

variable {config : Clustering} {k : Int}

/-! ## Joining -/

/-- The last minute of moved accesses is moved as they are. -/
theorem max?_lastMinute_of_moved {cluster moved : List Access}
    (h : List.Forall₂ (Access.Moved k) cluster moved) :
    (moved.map Access.lastMinute).max? =
      (cluster.map Access.lastMinute).max?.map (· + 60000 * k) := by
  have hends : moved.map Access.lastMinute =
      cluster.map (fun access => access.lastMinute + 60000 * k) := by
    refine map_eq_map_of_forall₂ (fun access moved hmoved => ?_) h
    have hstop := hmoved.stop
    unfold Access.lastMinute
    omega
  rw [hends, ← max?_map_add, List.map_map]
  rfl

/-- The end of a cluster does not lie before the epoch if none of its accesses does. -/
theorem nonneg_of_max? {cluster : List Access} {last : Int}
    (h : (cluster.map Access.lastMinute).max? = some last)
    (sinceEpoch : ∀ a ∈ cluster, a.SinceEpoch) : 0 ≤ last := by
  obtain ⟨a, ha, rfl⟩ := List.mem_map.1 (List.max?_mem h)
  exact (sinceEpoch a ha).lastMinute

/-- An access that joins a cluster joins it after both are moved. -/
theorem not_cut_of_moved {cluster movedCluster : List Access} {candidate moved : Access}
    (h : List.Forall₂ (Access.MovedSinceEpoch k) cluster movedCluster)
    (hcandidate : Access.MovedSinceEpoch k candidate moved)
    (hjoin : config.canJoin candidate cluster = .ok true) :
    config.canJoin moved movedCluster ≠ .ok false := by
  intro hcut
  have hmoved : List.Forall₂ (Access.Moved k) cluster movedCluster := h.imp fun _ _ h => h.isMoved
  rcases hlast : movedCluster.getLast? with _ | movedPrevious
  · -- any access joins an empty cluster
    rw [List.getLast?_eq_none_iff.1 hlast] at hcut
    cases hcut
  have hops : movedCluster.map Access.op = cluster.map Access.op :=
    map_eq_map_of_forall₂ (fun _ _ hmoved => hmoved.op) hmoved
  obtain ⟨previous, hprevious, hop⟩ :
      ∃ previous, cluster.getLast? = some previous ∧ previous.op = movedPrevious.op := by
    have hsame := congrArg List.getLast? hops
    rw [List.getLast?_map, List.getLast?_map, hlast] at hsame
    exact Option.map_eq_some_iff.1 hsame.symm
  rcases apart_of_canJoin hlast hcut with hseparates | ⟨movedLast, hmovedLast, hlate⟩
  · -- the ops are the same, and they did not separate
    have hjoined := separates_of_canJoin hprevious hjoin
    rw [hop, ← hcandidate.isMoved.op, hseparates] at hjoined
    cases hjoined
  · have hne : cluster ≠ [] := by
      rintro rfl
      cases hprevious
    obtain ⟨last, hcovered, hclose⟩ := close_of_canJoin hne hjoin
    have hmax := max?_of_coveredUntil hcovered
    have hlastMoved : movedLast.toInt = last.toInt + 60000 * k := by
      rw [max?_lastMinute_of_moved hmoved, hmax] at hmovedLast
      exact (Option.some.inj hmovedLast).symm
    have hsince : 0 ≤ last.toInt := by
      refine nonneg_of_max? hmax fun a ha => ?_
      obtain ⟨a', -, ha'⟩ := exists_mem_of_forall₂ h.flip a ha
      exact ha'.before
    have hmovedSince : 0 ≤ movedLast.toInt := by
      refine nonneg_of_max? hmovedLast fun a ha => ?_
      obtain ⟨a', -, ha'⟩ := exists_mem_of_forall₂ h a ha
      exact ha'.after
    have hlastMinute := Millis.minute_add hlastMoved hsince hmovedSince
    have hminute := Millis.minute_add hcandidate.isMoved.time hcandidate.before.time
      hcandidate.after.time
    omega

/-- Joining does not depend on when the accesses are. -/
theorem eq_of_canJoin {cluster movedCluster : List Access} {candidate moved : Access}
    {joins joinsMoved : Bool} (h : List.Forall₂ (Access.MovedSinceEpoch k) cluster movedCluster)
    (hcandidate : Access.MovedSinceEpoch k candidate moved)
    (hjoins : config.canJoin candidate cluster = .ok joins)
    (hjoinsMoved : config.canJoin moved movedCluster = .ok joinsMoved) : joins = joinsMoved := by
  have hback : List.Forall₂ (Access.MovedSinceEpoch (-k)) movedCluster cluster :=
    h.flip.imp fun _ _ h => h.symm
  cases joins with
  | true =>
    cases joinsMoved with
    | true => rfl
    | false => exact absurd hjoinsMoved (not_cut_of_moved h hcandidate hjoins)
  | false =>
    cases joinsMoved with
    | true => exact absurd hjoins (not_cut_of_moved hback hcandidate.symm hjoinsMoved)
    | false => rfl

/-! ## Cutting -/

/-- Walks over accesses that go one by one with others cut at the same places if they agree on
joining. -/
theorem forall₂_split {R : Access → Access → Prop}
    (agree : ∀ cluster cluster' a a' joins joins', List.Forall₂ R cluster cluster' → R a a' →
      config.canJoin a cluster = .ok joins → config.canJoin a' cluster' = .ok joins' →
      joins = joins')
    {current current' rest rest' : List Access} {parts parts' : List (List Access)}
    (hcurrent : List.Forall₂ R current current') (hrest : List.Forall₂ R rest rest')
    (h : config.split current rest = .ok parts) (h' : config.split current' rest' = .ok parts') :
    List.Forall₂ (List.Forall₂ R) parts parts' := by
  induction hrest generalizing current current' parts parts' with
  | nil =>
    obtain rfl := Except.ok.inj h
    obtain rfl := Except.ok.inj h'
    cases hcurrent with
    | nil => exact .nil
    | cons ha hmore => exact .cons (.cons ha hmore) .nil
  | cons ha _ ih =>
    rcases split_cons_eq_ok_iff.1 h with ⟨hjoin, hwalk⟩ | ⟨hcut, further, hwalk, rfl⟩
    · rcases split_cons_eq_ok_iff.1 h' with ⟨-, hwalk'⟩ | ⟨hcut', -⟩
      · exact ih (List.rel_append hcurrent (.cons ha .nil)) hwalk hwalk'
      · cases agree _ _ _ _ _ _ hcurrent ha hjoin hcut'
    · rcases split_cons_eq_ok_iff.1 h' with ⟨hjoin', -⟩ | ⟨-, further', hwalk', rfl⟩
      · cases agree _ _ _ _ _ _ hcurrent ha hcut hjoin'
      · exact .cons hcurrent (ih (.cons ha .nil) hwalk hwalk')

end Clustering

end PermissionUsage
