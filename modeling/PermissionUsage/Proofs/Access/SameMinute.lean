import Mathlib.Data.List.Pairwise
import PermissionUsage.Proofs.Access.Greedy
/-!
# Accesses of one op and one minute stay together

The order of accesses lets those of one op within a minute stand together, so that a self-clustering
op does not come between them (`same_of_between`). A cluster covers the start of its last access, so
that the walk does not cut between neighbours of one op that start at the same time either
(`not_cut_of_same`). Both together keep such accesses in one cluster: `clusters_keepMinutes`.
-/

namespace PermissionUsage

namespace Millis

/-- Instants on whole minutes are the same if their minutes are. -/
theorem eq_of_minute {s t : Millis} (h : s.minute = t.minute) (hs : 60000 ∣ s.toInt)
    (ht : 60000 ∣ t.toInt) : s = t := by
  apply Int64.toInt_inj.1
  rw [← Int.mul_tdiv_cancel' hs, ← Int.mul_tdiv_cancel' ht]
  exact congrArg (60000 * ·) h

end Millis

namespace Access

/-- The accesses are of one op, in one minute. -/
def SharesMinute (a b : Access) : Prop := a.op = b.op ∧ a.time.minute = b.time.minute

instance : DecidableRel SharesMinute := fun _ _ => inferInstanceAs (Decidable (_ ∧ _))

theorem isLE_self (a : Access) : (compare a a).isLE := by
  have hself : compare a a = .eq := Std.ReflCmp.compare_self
  rw [hself]
  rfl

/-- At one time accesses are in the order of their ops. -/
theorem op_le_of_compare {a b : Access} (h : (compare a b).isLE) (htime : a.time = b.time) :
    (compare a.op b.op).isLE := by
  have horder : ((compare a.time.toInt b.time.toInt).then ((compare a.op b.op).then _)).isLE := h
  have hself : compare b.time.toInt b.time.toInt = .eq := Std.ReflCmp.compare_self
  rw [htime, hself] at horder
  exact Ordering.isLE_left_of_isLE_then horder

/-- What stands between accesses of one op that start at the same time is such an access too. -/
theorem same_of_between {a between b : Access} (hop : a.op = b.op) (htime : a.time = b.time)
    (h : (compare a between).isLE) (h' : (compare between b).isLE) :
    between.op = a.op ∧ between.time = a.time := by
  have hbetween : between.time = a.time := by
    have hle := time_le_of_compare h
    have hle' := time_le_of_compare h'
    rw [← htime] at hle'
    exact Int64.toInt_inj.1 (Int.le_antisymm hle' hle)
  have hle := op_le_of_compare h hbetween.symm
  have hle' := op_le_of_compare h' (hbetween.trans htime)
  rw [← hop] at hle'
  exact ⟨Std.LawfulEqOrd.eq_of_compare (Std.OrientedCmp.isLE_antisymm hle' hle), hbetween⟩

end Access

namespace Clustering

variable {config : Clustering}

/-- An access joins a cluster whose most recent access is of the same op and starts at the same
time. -/
theorem not_cut_of_same (spacing : 0 ≤ config.spacingMinutes.toInt) {part : List Access}
    {previous access : Access} (hlast : part.getLast? = some previous)
    (minute : previous.KeepsMinute) (hop : access.op = previous.op)
    (htime : access.time = previous.time) : config.canJoin access part ≠ .ok false := by
  intro hcut
  rcases apart_of_canJoin hlast hcut with hseparates | ⟨covered, hcovered, hlate⟩
  · rw [separates_eq_false_iff.2 (.inr hop)] at hseparates
    cases hseparates
  · -- the cluster covers its most recent access
    have hmem : previous.lastMinute ∈ part.map Access.lastMinute :=
      List.mem_map_of_mem (List.mem_of_getLast? hlast)
    have hle : previous.lastMinute ≤ covered.toInt := (List.max?_eq_some_iff.1 hcovered).2 _ hmem
    have hminute : access.time.minute ≤ covered.minute := by
      rw [htime]
      exact Millis.minute_le_minute (Int.le_trans minute.time_le_lastMinute hle)
    omega

/-- No access has another of its op and its start in a later part: the last access of its part and
the first of the next part would be such accesses too, and not be cut. -/
theorem pairwise_not_same (spacing : 0 ≤ config.spacingMinutes.toInt) {parts : List (List Access)}
    (greedy : config.Greedy parts) (inOrder : parts.flatten.Pairwise fun a b => (compare a b).isLE)
    (minutes : ∀ a ∈ parts.flatten, a.KeepsMinute) :
    parts.Pairwise fun part later =>
      ∀ a ∈ part, ∀ b ∈ later, ¬(a.op = b.op ∧ a.time = b.time) := by
  have hcut : parts.Pairwise fun part later =>
      ∀ b ∈ later, ∀ a ∈ part, ¬(a.op = b.op ∧ a.time = b.time) := by
    refine greedy.pairwise Access.isLE_self inOrder ?_
    rintro part hpart first - hjoin hbefore b hfirstB a ha ⟨hop, htime⟩
    have hne : part ≠ [] := greedy.nonempty part hpart
    have hmem : part.getLast hne ∈ part := List.getLast_mem hne
    have hpartInOrder := (List.pairwise_flatten.1 inOrder).1 part hpart
    -- `a`, the last access of the part, the first one after it and `b` stand in this order
    have hlast : (compare a (part.getLast hne)).isLE :=
      hpartInOrder.rel_getLast_of_rel_getLast_getLast ha (Access.isLE_self _)
    have hlastFirst : (compare (part.getLast hne) first).isLE := hbefore _ hmem
    obtain ⟨hlastOp, hlastTime⟩ :=
      Access.same_of_between hop htime hlast (Std.TransCmp.isLE_trans hlastFirst hfirstB)
    obtain ⟨hfirstOp, hfirstTime⟩ :=
      Access.same_of_between hop htime (Std.TransCmp.isLE_trans hlast hlastFirst) hfirstB
    exact not_cut_of_same spacing (List.getLast?_eq_some_getLast hne)
      (minutes _ (List.mem_flatten_of_mem hpart hmem)) (hfirstOp.trans hlastOp.symm)
      (hfirstTime.trans hlastTime.symm) hjoin
  exact hcut.imp fun h a ha b hb => h b hb a ha

/-- Of lists of which no two share an element with `p`, one that has such an element has all. -/
theorem filter_flatten_of_pairwise {α : Type} {p : α → Bool} {parts : List (List α)}
    (h : parts.Pairwise fun part later => ∀ a ∈ part, ∀ b ∈ later, ¬(p a ∧ p b)) {part : List α}
    (hpart : part ∈ parts) {a : α} (ha : a ∈ part) (hp : p a) :
    parts.flatten.filter p = part.filter p := by
  obtain ⟨front, back, rfl⟩ := List.append_of_mem hpart
  obtain ⟨-, hback, hfront⟩ := List.pairwise_append.1 h
  have hnoneBefore : front.flatten.filter p = [] := by
    refine List.filter_eq_nil_iff.2 fun b hb hpb => ?_
    obtain ⟨part', hpart', hb⟩ := List.mem_flatten.1 hb
    exact hfront part' hpart' part List.mem_cons_self b hb a ha ⟨hpb, hp⟩
  have hnoneAfter : back.flatten.filter p = [] := by
    refine List.filter_eq_nil_iff.2 fun b hb hpb => ?_
    obtain ⟨part', hpart', hb⟩ := List.mem_flatten.1 hb
    exact (List.pairwise_cons.1 hback).1 part' hpart' a ha b hb ⟨hp, hpb⟩
  rw [List.flatten_append, List.flatten_cons, List.filter_append, List.filter_append, hnoneBefore,
    hnoneAfter, List.nil_append, List.append_nil]

/-- **Accesses of one op and one minute stay together.** Let all accesses of a batch start at whole
minutes and every continuous one last a minute at least, and let the spacing not be negative. A
batch whose accesses have a last minute has clusters. Whenever it has, there is for each access a
cluster with all accesses of its op in its minute, as often as the batch has them, whatever else is
in that minute and whatever ops are self-clustering. -/
theorem clusters_keepMinutes (spacing : 0 ≤ config.spacingMinutes.toInt) {batch : Batch}
    (whole : ∀ a ∈ batch.accesses, 60000 ∣ a.time.toInt)
    (minutes : ∀ a ∈ batch.accesses, a.KeepsMinute) :
    (Access.AllCovered batch.accesses → ∃ clusters, config.clusters batch = .ok clusters) ∧
      ∀ clusters, config.clusters batch = .ok clusters → ∀ a ∈ batch.accesses,
        ∃ cluster ∈ clusters, (cluster.accesses.filter (a.SharesMinute ·)).Perm
          (batch.accesses.filter (a.SharesMinute ·)) := by
  refine ⟨exists_clusters, fun clusters h a ha => ?_⟩
  obtain ⟨parts, greedy, hflatten, rfl⟩ := clusters_eq_ok_iff.1 h
  have hperm : parts.flatten.Perm batch.accesses := hflatten ▸ Access.perm_sort batch.accesses
  have hwhole : ∀ part ∈ parts, ∀ b ∈ part, 60000 ∣ b.time.toInt :=
    fun part hpart b hb => whole b (hperm.mem_iff.1 (List.mem_flatten_of_mem hpart hb))
  have hnotSame := pairwise_not_same spacing greedy (hflatten ▸ Access.inOrder_sort batch.accesses)
    fun b hb => minutes b (hperm.mem_iff.1 hb)
  -- whole minutes that are equal are equal times, and these are never cut apart
  have happart : parts.Pairwise fun part later =>
      ∀ b ∈ part, ∀ c ∈ later, ¬(a.SharesMinute b ∧ a.SharesMinute c) := by
    refine hnotSame.imp_of_mem fun hpart hlater hnot b hb c hc hshares => ?_
    obtain ⟨⟨hopB, hminuteB⟩, hopC, hminuteC⟩ := hshares
    have htime : b.time = c.time := Millis.eq_of_minute (hminuteB.symm.trans hminuteC)
      (hwhole _ hpart b hb) (hwhole _ hlater c hc)
    exact hnot b hb c hc ⟨hopB.symm.trans hopC, htime⟩
  obtain ⟨part, hpart, hapart⟩ := List.mem_flatten.1 (hperm.mem_iff.2 ha)
  -- so all that shares the minute of the access is in its part
  have hfilter : parts.flatten.filter (a.SharesMinute ·) = part.filter (a.SharesMinute ·) := by
    refine filter_flatten_of_pairwise ?_ hpart hapart (decide_eq_true ⟨rfl, rfl⟩)
    simpa only [decide_eq_true_eq] using happart
  refine ⟨batch.withAccesses part, List.mem_map_of_mem hpart, ?_⟩
  show (part.filter (a.SharesMinute ·)).Perm _
  rw [← hfilter]
  exact hperm.filter _

/-! ### A minute of emergency calls -/

namespace EmergencyMinute

def call : Access := { op := Op.emergencyLocation, time := 600000, duration := -1 }

def callBack : Access := { call with tag := "dispatch" }

def fix : Access := { op := Op.fineLocation, time := 600000, duration := 120000 }

def quickFix : Access := { fix with duration := -1 }

def roughFix : Access := { op := Op.coarseLocation, time := 600000, duration := -1 }

/-- The emergency calls come between the other accesses of the minute. -/
def minute : Batch where
  owner := ⟨"com.example.rescue", 0⟩
  accesses := [fix, call, roughFix, callBack, quickFix]

def parts : List Batch :=
  [[roughFix], [call, callBack], [quickFix, fix]].map minute.withAccesses

theorem clusters_minute : Drive.bypass.clusters minute = .ok parts := by
  have hperm : [roughFix, call, callBack, quickFix, fix].Perm minute.accesses := by decide +kernel
  have hsorted : [roughFix, call, callBack, quickFix, fix].Pairwise
      fun a b => (compare a b).isLE := by
    decide +kernel
  have hsplit : Drive.bypass.split [] [roughFix, call, callBack, quickFix, fix] =
      .ok [[roughFix], [call, callBack], [quickFix, fix]] := by
    decide +kernel
  exact clusters_of_split hperm hsorted hsplit

end EmergencyMinute

open EmergencyMinute in
theorem clusters_keepMinutes_of_emergencyMinute :
    Drive.bypass.isSelfClustering call.op ∧ Drive.bypass.clusters minute = .ok parts ∧
      (∃ cluster ∈ parts, (cluster.accesses.filter (call.SharesMinute ·)).Perm [call, callBack]) ∧
      ∃ cluster ∈ parts, (cluster.accesses.filter (fix.SharesMinute ·)).Perm [fix, quickFix] := by
  have hwhole : ∀ a ∈ minute.accesses, 60000 ∣ a.time.toInt := by decide
  have hminutes : ∀ a ∈ minute.accesses, a.KeepsMinute := by decide
  have hspacing : 0 ≤ Drive.bypass.spacingMinutes.toInt := by decide
  obtain ⟨-, hkeep⟩ := clusters_keepMinutes hspacing hwhole hminutes
  have htogether := hkeep parts clusters_minute
  refine ⟨by decide, clusters_minute, ?_, ?_⟩
  · exact htogether call (by decide)
  · exact htogether fix (by decide)

end Clustering

end PermissionUsage
