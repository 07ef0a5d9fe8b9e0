import Mathlib.Combinatorics.SimpleGraph.Connectivity.Connected
import PermissionUsage.Proofs.Access.Greedy
/-!
# Clusters are connected components

Without self-clustering ops, all that keeps accesses apart is time. `closeness` is the graph of
accesses that are close: the later one starts at most the spacing after the last minute that the
earlier one covers. The walk over a batch compares an access only with the latest minute covered so
far, and yet it finds the connected components of this graph: `clusters_connected`.

* `exists_reaches_of_canJoin`: an access that joins is close to some access of the open cluster, so
  that a cluster is connected.
* `pairwise_not_reaches`: no access of a closed cluster is close to an access of a later one,
  because the accesses that follow start later still.
-/

namespace PermissionUsage

/-! ## Places in several lists -/

section Places

variable {α : Type}

/-- The number of the list that holds a place of several lists, laid one after the other. -/
def partAt : List (List α) → Nat → Nat
  | [], _ => 0
  | part :: rest, place =>
    if place < part.length then 0 else partAt rest (place - part.length) + 1

/-- A place of several lists, laid one after the other, is the place `k` of the list `part`. -/
structure IsPlace (parts : List (List α)) (place : Nat) (front : List (List α)) (part : List α)
    (back : List (List α)) (k : Nat) : Prop where
  parts_eq : parts = front ++ part :: back
  place_eq : place = front.flatten.length + k
  lt : k < part.length

variable {parts front front' back back' : List (List α)} {part part' : List α}
  {place place' k k' : Nat}

/-- Every place of the flattened parts is a place in one of them. -/
theorem exists_isPlace (h : place < parts.flatten.length) :
    ∃ front part back k, IsPlace parts place front part back k := by
  induction parts generalizing place with
  | nil => exact absurd h (Nat.not_lt_zero place)
  | cons part rest ih =>
    by_cases hplace : place < part.length
    · exact ⟨[], part, rest, place, rfl, (Nat.zero_add place).symm, hplace⟩
    · rw [List.flatten_cons, List.length_append] at h
      have hrest : place - part.length < rest.flatten.length := by omega
      obtain ⟨front, part', back, k, rfl, heq, hk⟩ := ih hrest
      refine ⟨part :: front, part', back, k, rfl, ?_, hk⟩
      rw [List.flatten_cons, List.length_append]
      omega

namespace IsPlace

/-- The part of a place is the one it is in. -/
theorem partAt_eq (h : IsPlace parts place front part back k) :
    partAt parts place = front.length := by
  obtain ⟨rfl, rfl, hk⟩ := h
  induction front with
  | nil => simp [partAt, hk]
  | cons first rest ih =>
    rw [List.flatten_cons, List.length_append, Nat.add_assoc, List.cons_append, partAt,
      if_neg (by omega), Nat.add_sub_cancel_left, ih, List.length_cons]

/-- A place of the flattened parts has the access that its part has there. -/
theorem getElem?_eq (h : IsPlace parts place front part back k) :
    parts.flatten[place]? = part[k]? := by
  obtain ⟨rfl, rfl, hk⟩ := h
  rw [List.flatten_append, List.flatten_cons, List.getElem?_append_right (Nat.le_add_right ..),
    Nat.add_sub_cancel_left, List.getElem?_append_left hk]

/-- Places of one part have the same lists in front of them and behind them. -/
theorem same_of_partAt (h : IsPlace parts place front part back k)
    (h' : IsPlace parts place' front' part' back' k')
    (heq : partAt parts place = partAt parts place') :
    IsPlace parts place' front part back k' := by
  rw [h.partAt_eq, h'.partAt_eq] at heq
  obtain ⟨rfl, hrest⟩ := List.append_inj (h.parts_eq.symm.trans h'.parts_eq) heq
  obtain ⟨rfl, rfl⟩ := List.cons.inj hrest
  exact h'

/-- A later place is one of the same part, or one of the parts behind. -/
theorem later_cases (h : IsPlace parts place front part back k) (hlt : place < place')
    {a : α} (ha : parts.flatten[place']? = some a) :
    (∃ k', IsPlace parts place' front part back k') ∨ ∃ later ∈ back, a ∈ later := by
  obtain ⟨hparts, hplace, hk⟩ := h
  by_cases hin : place' < front.flatten.length + part.length
  · exact .inl ⟨place' - front.flatten.length, hparts, by omega, by omega⟩
  · right
    rw [hparts, List.flatten_append, List.flatten_cons, ← List.append_assoc,
      List.getElem?_append_right (by rw [List.length_append]; omega)] at ha
    exact List.mem_flatten.1 (List.mem_of_getElem? ha)

end IsPlace

end Places

namespace Clustering

variable {config : Clustering}

/-! ## Close accesses -/

/-- The later access starts at most the spacing after the last minute that the earlier one
covers. -/
def Reaches (config : Clustering) (earlier later : Access) : Prop :=
  ∃ covered, earlier.lastCovered = .ok covered ∧
    later.time.minute - covered.minute ≤ config.spacingMinutes.toInt

/-- What reaches an access reaches every earlier one. -/
theorem Reaches.of_time_le {a b c : Access} (h : config.Reaches a c)
    (hle : b.time.toInt ≤ c.time.toInt) : config.Reaches a b := by
  obtain ⟨covered, hcovered, hclose⟩ := h
  have hminute : b.time.minute ≤ c.time.minute := Millis.minute_le_minute hle
  exact ⟨covered, hcovered, by omega⟩

/-- An access that joins a cluster is close to one of its accesses. -/
theorem exists_reaches_of_canJoin {candidate : Access} {cluster : List Access}
    (hne : cluster ≠ []) (h : config.canJoin candidate cluster = .ok true) :
    ∃ a ∈ cluster, config.Reaches a candidate := by
  obtain ⟨covered, hcovered, hclose⟩ := close_of_canJoin hne h
  obtain ⟨a, ha, hlast⟩ := exists_lastCovered_of_coveredUntil hcovered
  exact ⟨a, ha, covered, hlast, hclose⟩

/-- An access that cannot join a cluster without self-clustering ops is close to none of its
accesses. -/
theorem not_reaches_of_canJoin {candidate : Access} {cluster : List Access} (hne : cluster ≠ [])
    (hcandidate : config.isSelfClustering candidate.op = false)
    (hcluster : ∀ a ∈ cluster, config.isSelfClustering a.op = false)
    (h : config.canJoin candidate cluster = .ok false) :
    ∀ a ∈ cluster, ¬config.Reaches a candidate := by
  rintro a ha ⟨covered, hcovered, hclose⟩
  have hlast : cluster.getLast? = some (cluster.getLast hne) := List.getLast?_eq_some_getLast hne
  rcases apart_of_canJoin hlast h with hseparates | ⟨latest, hlatest, hgap⟩
  · have hprevious := hcluster (cluster.getLast hne) (List.getLast_mem hne)
    rw [separates_eq_false_iff.2 (.inl ⟨hcandidate, hprevious⟩)] at hseparates
    cases hseparates
  · have hle : a.lastMinute ≤ latest.toInt :=
      (List.max?_eq_some_iff.1 hlatest).2 _ (List.mem_map_of_mem ha)
    rw [← Access.toInt_of_lastCovered hcovered] at hle
    have hminute : covered.minute ≤ latest.minute := Millis.minute_le_minute hle
    omega

/-- No access is close to an access of a later part: the first access after the part is too late for
all of it, and the others start no earlier. -/
theorem pairwise_not_reaches {parts : List (List Access)} (greedy : config.Greedy parts)
    (free : ∀ a ∈ parts.flatten, config.isSelfClustering a.op = false)
    (sorted : parts.flatten.Pairwise (·.time.toInt ≤ ·.time.toInt)) :
    parts.Pairwise fun part later => ∀ a ∈ part, ∀ b ∈ later, ¬config.Reaches a b := by
  have hcut : parts.Pairwise fun part later => ∀ b ∈ later, ∀ a ∈ part, ¬config.Reaches a b := by
    refine greedy.pairwise (fun _ => Int.le_refl _) sorted ?_
    intro part hpart first hfirst hjoin _ b hle a ha hreaches
    exact not_reaches_of_canJoin (greedy.nonempty part hpart) (free first hfirst)
      (fun a ha => free a (List.mem_flatten_of_mem hpart ha)) hjoin a ha (hreaches.of_time_le hle)
  exact hcut.imp fun h a ha b hb => h b hb a ha

/-! ## Components -/

/-- The places of a list of accesses, joined where the two accesses are close. -/
def closeness (config : Clustering) (accesses : List Access) :
    SimpleGraph (Fin accesses.length) :=
  SimpleGraph.fromRel fun i j => i < j ∧ config.Reaches accesses[i] accesses[j]

/-- The places of two close accesses are joined by an edge. -/
theorem adj_of_reaches {accesses : List Access} {i j : Fin accesses.length} {a b : Access}
    (hi : accesses[i.val]? = some a) (hj : accesses[j.val]? = some b) (hlt : i < j)
    (h : config.Reaches a b) : (config.closeness accesses).Adj i j := by
  obtain ⟨_, rfl⟩ := List.getElem?_eq_some_iff.1 hi
  obtain ⟨_, rfl⟩ := List.getElem?_eq_some_iff.1 hj
  exact (SimpleGraph.fromRel_adj _ i j).2 ⟨hlt.ne, .inl ⟨hlt, h⟩⟩

variable {parts front back : List (List Access)} {part : List Access}

/-- A part that grows is connected: each of its accesses but the first is close to an earlier
one. -/
theorem reachable_of_grows (grows : config.Grows part) {first place : Fin parts.flatten.length}
    (hfirst : IsPlace parts first front part back 0) {k : Nat}
    (hplace : IsPlace parts place front part back k) :
    (config.closeness parts.flatten).Reachable first place := by
  induction k using Nat.strong_induction_on generalizing place with
  | h k ih =>
    rcases Nat.eq_zero_or_pos k with rfl | hpos
    · have heq : first = place := Fin.ext (hfirst.place_eq.trans hplace.place_eq.symm)
      rw [heq]
    · have hk : k < part.length := hplace.lt
      -- the access joined those before it, so one of these reaches it
      have hsplit : part = part.take k ++ part[k] :: part.drop (k + 1) := by simp
      have hne : part.take k ≠ [] := by
        rw [← List.length_pos_iff, List.length_take]
        omega
      obtain ⟨a, ha, hreaches⟩ := exists_reaches_of_canJoin hne (grows _ _ _ hsplit hne)
      obtain ⟨m, hm, hget⟩ := List.mem_take_iff_getElem.1 ha
      have hmk : m < k := by omega
      -- that one stands earlier in the whole list too
      have hlt : front.flatten.length + m < place := by
        rw [hplace.place_eq]
        omega
      let earlier : Fin parts.flatten.length := ⟨_, hlt.trans place.isLt⟩
      have hearlier : IsPlace parts earlier front part back m :=
        ⟨hplace.parts_eq, rfl, hmk.trans hk⟩
      have hadj : (config.closeness parts.flatten).Adj earlier place := by
        refine adj_of_reaches ?_ ?_ hlt hreaches
        · rw [hearlier.getElem?_eq, ← hget]
          exact List.getElem?_eq_getElem _
        · rw [hplace.getElem?_eq]
          exact List.getElem?_eq_getElem hk
      exact (ih m hmk hearlier).trans hadj.reachable

/-- Accesses that are close are in one part. -/
theorem partAt_eq_of_reaches
    (apart : parts.Pairwise fun part later => ∀ a ∈ part, ∀ b ∈ later, ¬config.Reaches a b)
    {i j : Fin parts.flatten.length} (hlt : i < j)
    (h : config.Reaches parts.flatten[i] parts.flatten[j]) : partAt parts i = partAt parts j := by
  obtain ⟨front, part, back, k, hi⟩ := exists_isPlace i.isLt
  rcases hi.later_cases hlt (List.getElem?_eq_getElem j.isLt) with ⟨k', hj⟩ | ⟨later, hlater, hb⟩
  · rw [hi.partAt_eq, hj.partAt_eq]
  · -- the later access would be close to one of a part that is closed
    have ha : parts.flatten[i] ∈ part := by
      refine List.mem_of_getElem? (?_ : part[k]? = _)
      rw [← hi.getElem?_eq]
      exact List.getElem?_eq_getElem i.isLt
    rw [hi.parts_eq] at apart
    obtain ⟨-, hback, -⟩ := List.pairwise_append.1 apart
    exact absurd h ((List.pairwise_cons.1 hback).1 later hlater _ ha _ hb)

/-- Two places are in one part if and only if a chain of close accesses joins them. -/
theorem partAt_eq_iff_reachable (greedy : config.Greedy parts)
    (apart : parts.Pairwise fun part later => ∀ a ∈ part, ∀ b ∈ later, ¬config.Reaches a b)
    (i j : Fin parts.flatten.length) :
    partAt parts i = partAt parts j ↔ (config.closeness parts.flatten).Reachable i j := by
  constructor
  · intro heq
    obtain ⟨front, part, back, k, hi⟩ := exists_isPlace i.isLt
    obtain ⟨front', part', back', k', hj⟩ := exists_isPlace j.isLt
    have hj := hi.same_of_partAt hj heq
    have hgrows : config.Grows part := by
      refine greedy.grows part ?_
      rw [hi.parts_eq]
      exact List.mem_append_right _ List.mem_cons_self
    have hstart : front.flatten.length < parts.flatten.length := by
      have hplace := hi.place_eq
      have hlt := i.isLt
      omega
    -- both are reachable from the first access of their part
    let first : Fin parts.flatten.length := ⟨front.flatten.length, hstart⟩
    have hfirst : IsPlace parts first front part back 0 :=
      ⟨hi.parts_eq, rfl, Nat.zero_lt_of_lt hi.lt⟩
    exact (reachable_of_grows hgrows hfirst hi).symm.trans (reachable_of_grows hgrows hfirst hj)
  · rintro ⟨chain⟩
    -- along the chain the part never changes
    induction chain with
    | nil => rfl
    | cons hadj _ ih =>
      refine Eq.trans ?_ ih
      rcases ((SimpleGraph.fromRel_adj _ _ _).1 hadj).2 with ⟨hlt, h⟩ | ⟨hlt, h⟩
      · exact partAt_eq_of_reaches apart hlt h
      · exact (partAt_eq_of_reaches apart hlt h).symm

/-- **Clusters are connected components.** If all accesses of a batch have a last minute and none is
of a self-clustering op, the batch has clusters: its accesses in order, of which two are in one
cluster if and only if a chain of close accesses joins them. -/
theorem clusters_connected (config : Clustering) (batch : Batch)
    (hcovered : Access.AllCovered batch.accesses)
    (free : ∀ a ∈ batch.accesses, config.isSelfClustering a.op = false) :
    ∃ clusters, config.clusters batch = .ok clusters ∧
      clusters.flatMap (·.accesses) = Access.sort batch.accesses ∧
      ∀ i j : Fin (Access.sort batch.accesses).length,
        partAt (clusters.map (·.accesses)) i = partAt (clusters.map (·.accesses)) j ↔
          (config.closeness (Access.sort batch.accesses)).Reachable i j := by
  obtain ⟨clusters, h⟩ : ∃ clusters, config.clusters batch = .ok clusters :=
    exists_clusters hcovered
  obtain ⟨parts, greedy, hflatten, rfl⟩ := clusters_eq_ok_iff.1 h
  have hfree : ∀ a ∈ parts.flatten, config.isSelfClustering a.op = false := by
    intro a ha
    rw [hflatten] at ha
    exact free a ((Access.perm_sort batch.accesses).mem_iff.1 ha)
  have hsorted : parts.flatten.Pairwise (·.time.toInt ≤ ·.time.toInt) :=
    hflatten ▸ Access.pairwise_sort batch.accesses
  refine ⟨_, h, ?_, ?_⟩
  · rw [List.flatMap_def, map_accesses, hflatten]
  · rw [map_accesses, ← hflatten]
    exact partAt_eq_iff_reachable greedy (pairwise_not_reaches greedy hfree hsorted)

/-! ### A call -/

namespace Call

/-- A call of fifteen minutes. -/
def talk : Access := { op := Op.phoneCallMicrophone, time := 60000, duration := 900000 }

def note : Access := { op := Op.recordAudio, time := 180000, duration := -1 }

def memo : Access := { op := Op.recordAudio, time := 960000, duration := -1 }

def later : Access := { op := Op.recordAudio, time := 1080000, duration := -1 }

def calls : Batch where
  owner := ⟨"com.example.phone", 0⟩
  accesses := [later, memo, note, talk]

theorem sort_calls : Access.sort calls.accesses = [talk, note, memo, later] := by
  refine (Access.eq_sort_of_perm ?_ ?_).symm
  · decide +kernel
  · decide +kernel

theorem clusters_calls : ({} : Clustering).clusters calls =
    .ok ([[talk, note, memo], [later]].map calls.withAccesses) := by
  have hsplit : ({} : Clustering).split [] [talk, note, memo, later] =
      .ok [[talk, note, memo], [later]] := by
    decide +kernel
  exact clusters_of_split (sort_calls ▸ Access.perm_sort _) (sort_calls ▸ Access.inOrder_sort _)
    hsplit

end Call

open Call in
/-- The note and the memo are far apart, and the call joins them. -/
theorem clusters_connected_of_call :
    Access.AllCovered calls.accesses ∧
      (∀ a ∈ calls.accesses, ({} : Clustering).isSelfClustering a.op = false) ∧
      ({} : Clustering).clusters calls =
        .ok ([[talk, note, memo], [later]].map calls.withAccesses) ∧
      (closeness {} [talk, note, memo, later]).Reachable ⟨1, by decide⟩ ⟨2, by decide⟩ ∧
      ¬(closeness {} [talk, note, memo, later]).Reachable ⟨2, by decide⟩ ⟨3, by decide⟩ := by
  have hcovered : Access.AllCovered calls.accesses :=
    Access.AllFit.allCovered (by decide +kernel)
  have hfree : ∀ a ∈ calls.accesses, ({} : Clustering).isSelfClustering a.op = false := by
    decide +kernel
  obtain ⟨clusters, h, -, hconnected⟩ := clusters_connected {} calls hcovered hfree
  obtain rfl := Except.ok.inj (clusters_calls.symm.trans h)
  rw [sort_calls] at hconnected
  exact ⟨hcovered, hfree, clusters_calls, (hconnected _ _).1 rfl,
    mt (hconnected _ _).2 (by decide)⟩

end Clustering

end PermissionUsage
