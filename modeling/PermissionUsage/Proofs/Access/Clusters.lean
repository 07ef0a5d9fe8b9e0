import Mathlib.Data.List.Chain
import PermissionUsage.Proofs.Access.Ends
/-!
# What clusters are

There is one way to put accesses in order (`eq_sort_of_perm`). The accesses of a cluster are in
order, and neighbouring clusters could not be one: `isChain_split` says that the first access of a
cluster did not join the cluster before it. What holds of a whole cluster is known from single
accesses and from joining (`forall_mem_split`). Joining looks at the most recent access only;
`unmixed_of_mem_split` says that this is enough to keep a self-clustering op apart from every other
op of the whole cluster.
-/

namespace PermissionUsage

namespace Access

/-- Time comes first in the order of accesses. -/
theorem time_le_of_compare {a b : Access} (h : (compare a b).isLE) :
    a.time.toInt ≤ b.time.toInt := by
  have horder : ((compare a.time.toInt b.time.toInt).then _).isLE := h
  exact Std.isLE_compare.1 (Ordering.isLE_left_of_isLE_then horder)

theorem perm_sort (accesses : List Access) : (sort accesses).Perm accesses :=
  List.mergeSort_perm _ _

theorem inOrder_sort (accesses : List Access) :
    (sort accesses).Pairwise fun a b => (compare a b).isLE :=
  pairwise_mergeSort_isLE accesses

/-- Sorted accesses do not go back in time. -/
theorem pairwise_sort (accesses : List Access) :
    (sort accesses).Pairwise (·.time.toInt ≤ ·.time.toInt) :=
  (inOrder_sort accesses).imp time_le_of_compare

/-- Only equal accesses are alike in their order, so that there is one way to sort them. -/
theorem eq_sort_of_perm {sorted accesses : List Access} (hperm : sorted.Perm accesses)
    (hsorted : sorted.Pairwise fun a b => (compare a b).isLE) : sorted = sort accesses := by
  refine (hperm.trans (perm_sort accesses).symm).eq_of_pairwise (fun a b _ _ hab hba => ?_) hsorted
    (inOrder_sort accesses)
  exact Std.LawfulEqOrd.eq_of_compare (Std.OrientedCmp.isLE_antisymm hab hba)

/-- The order of accesses is total, so the order in which they come has no say. -/
theorem sort_eq_of_perm {accesses others : List Access} (h : accesses.Perm others) :
    sort accesses = sort others :=
  eq_sort_of_perm ((perm_sort accesses).trans h) (inOrder_sort accesses)

end Access

namespace Clustering

variable {config : Clustering}

/-! ## Joining -/

/-- An access that continues a cluster is not to be kept apart from its most recent access. -/
theorem separates_of_canJoin {candidate previous : Access} {cluster : List Access}
    (hlast : cluster.getLast? = some previous) (h : config.canJoin candidate cluster = .ok true) :
    config.separates candidate.op previous.op = false := by
  unfold canJoin at h
  rw [hlast] at h
  rcases hseparates : config.separates candidate.op previous.op with _ | _
  · rfl
  · simp only [hseparates] at h
    cases h

/-- An access that continues a cluster starts at most the spacing after its end. -/
theorem close_of_canJoin {candidate : Access} {cluster : List Access} (hne : cluster ≠ [])
    (h : config.canJoin candidate cluster = .ok true) :
    ∃ covered : Millis, coveredUntil cluster = .ok (some covered) ∧
      candidate.time.minute - covered.minute ≤ config.spacingMinutes.toInt := by
  have hlast : cluster.getLast? = some (cluster.getLast hne) := List.getLast?_eq_some_getLast hne
  have hseparates := separates_of_canJoin hlast h
  unfold canJoin at h
  rw [hlast] at h
  simp only [hseparates, Bool.false_eq_true, if_false] at h
  obtain ⟨covered, hcovered, h⟩ := bind_eq_ok_iff.1 h
  cases covered with
  | none =>
    -- only a cluster without accesses has no end
    have hnone := List.max?_eq_none_iff.1 (max?_of_coveredUntil hcovered)
    exact absurd (List.map_eq_nil_iff.1 hnone) hne
  | some covered => exact ⟨covered, hcovered, of_decide_eq_true (Except.ok.inj h)⟩

/-- An access that does not continue a cluster is to be kept apart from its most recent access, or
comes too late. -/
theorem apart_of_canJoin {candidate previous : Access} {cluster : List Access}
    (hlast : cluster.getLast? = some previous) (h : config.canJoin candidate cluster = .ok false) :
    config.separates candidate.op previous.op = true ∨
      ∃ covered : Millis, (cluster.map Access.lastMinute).max? = some covered.toInt ∧
        config.spacingMinutes.toInt < candidate.time.minute - covered.minute := by
  unfold canJoin at h
  rw [hlast] at h
  rcases hseparates : config.separates candidate.op previous.op with _ | _
  · right
    simp only [hseparates, Bool.false_eq_true, if_false] at h
    obtain ⟨covered, hcovered, h⟩ := bind_eq_ok_iff.1 h
    have hmax := max?_of_coveredUntil hcovered
    cases covered with
    | none => cases h
    | some covered =>
      have hlate := of_decide_eq_false (Except.ok.inj h)
      exact ⟨covered, hmax, by omega⟩
  · exact .inl rfl

/-- Whether an access joins a cluster can be decided if the cluster has a last minute. -/
theorem exists_canJoin {cluster : List Access} (candidate : Access)
    (hcovered : Access.AllCovered cluster) :
    ∃ joins, config.canJoin candidate cluster = .ok joins := by
  unfold canJoin
  split
  · exact ⟨true, rfl⟩
  · split
    · exact ⟨false, rfl⟩
    · obtain ⟨covered, h⟩ := exists_coveredUntil hcovered
      rw [h]
      cases covered with
      | none => exact ⟨true, rfl⟩
      | some covered => exact ⟨_, rfl⟩

/-! ## Cutting -/

/-- Accesses that have a last minute each can be cut. -/
theorem exists_split {current rest : List Access}
    (hcovered : Access.AllCovered (current ++ rest)) :
    ∃ parts, config.split current rest = .ok parts := by
  induction rest generalizing current with
  | nil => exact ⟨_, rfl⟩
  | cons access rest ih =>
    obtain ⟨hcurrent, hrest⟩ : Access.AllCovered current ∧ Access.AllCovered ([access] ++ rest) :=
      List.forall_mem_append.1 hcovered
    obtain ⟨joins, hjoins⟩ : ∃ joins, config.canJoin access current = .ok joins :=
      exists_canJoin access hcurrent
    cases joins with
    | true =>
      -- the open cluster and what is left stay the same accesses
      rw [List.append_cons] at hcovered
      obtain ⟨parts, hparts⟩ := ih hcovered
      exact ⟨parts, split_cons_eq_ok_iff.2 (.inl ⟨hjoins, hparts⟩)⟩
    | false =>
      obtain ⟨further, hfurther⟩ := ih hrest
      exact ⟨_, split_cons_eq_ok_iff.2 (.inr ⟨hjoins, further, hfurther, rfl⟩)⟩

/-- The open cluster goes on: the first part begins with it. -/
theorem head_split {current rest : List Access} {parts : List (List Access)}
    (h : config.split current rest = .ok parts) (hne : current ≠ []) :
    ∃ first further, parts = (current ++ first) :: further := by
  induction rest generalizing current parts with
  | nil =>
    rw [split_nil, List.isEmpty_eq_false_iff.2 hne] at h
    exact ⟨[], [], by rw [List.append_nil]; exact (Except.ok.inj h).symm⟩
  | cons access rest ih =>
    rcases split_cons_eq_ok_iff.1 h with ⟨-, hrest⟩ | ⟨-, further, -, rfl⟩
    · obtain ⟨first, further, rfl⟩ := ih hrest (List.append_ne_nil_of_left_ne_nil hne _)
      exact ⟨access :: first, further, by rw [← List.append_cons]⟩
    · exact ⟨[], further, by rw [List.append_nil]⟩

/-- A cluster and the one after it: the first access of the later one did not join. -/
def Cut (config : Clustering) (part next : List Access) : Prop :=
  ∃ first ∈ next.head?, config.canJoin first part = .ok false

/-- Neighbouring parts are cut from each other. -/
theorem isChain_split {current rest : List Access} {parts : List (List Access)}
    (h : config.split current rest = .ok parts) : parts.IsChain config.Cut := by
  induction rest generalizing current parts with
  | nil =>
    obtain rfl := Except.ok.inj h
    cases current with
    | nil => exact .nil
    | cons => exact .singleton _
  | cons access rest ih =>
    rcases split_cons_eq_ok_iff.1 h with ⟨-, hrest⟩ | ⟨hjoin, further, hrest, rfl⟩
    · exact ih hrest
    · -- the cluster after the closed one starts with the access that did not join
      obtain ⟨first, later, rfl⟩ := head_split hrest (List.cons_ne_nil _ _)
      exact .cons_cons ⟨access, rfl, hjoin⟩ (ih hrest)

/-- What holds of every single access, and goes on to hold when an access joins, holds of every
cluster. -/
theorem forall_mem_split {P : List Access → Prop}
    (joined : ∀ part access, P part → config.canJoin access part = .ok true → P (part ++ [access]))
    (single : ∀ access, P [access]) {current rest : List Access} {parts : List (List Access)}
    (h : config.split current rest = .ok parts) (hcurrent : P current) :
    ∀ part ∈ parts, P part := by
  induction rest generalizing current parts with
  | nil =>
    obtain rfl := Except.ok.inj h
    intro part hpart
    split at hpart
    · cases hpart
    · rwa [List.mem_singleton.1 hpart]
  | cons access rest ih =>
    rcases split_cons_eq_ok_iff.1 h with ⟨hjoin, hrest⟩ | ⟨-, further, hrest, rfl⟩
    · exact ih hrest (joined current access hcurrent hjoin)
    · exact List.forall_mem_cons.2 ⟨hcurrent, ih hrest (single access)⟩

/-- The clusters of several batches are those of each batch, batch by batch. -/
theorem allClusters_eq_ok_iff {batches clusters : List Batch} :
    config.allClusters batches = .ok clusters ↔
      ∃ own, List.Forall₂ (fun batch own => config.clusters batch = .ok own) batches own ∧
        clusters = own.flatten := by
  unfold allClusters
  constructor
  · intro h
    obtain ⟨own, hown, h⟩ := bind_eq_ok_iff.1 h
    exact ⟨own, mapM_eq_ok_iff.1 hown, (Except.ok.inj h).symm⟩
  · rintro ⟨own, hown, rfl⟩
    exact bind_eq_ok_iff.2 ⟨own, mapM_eq_ok_iff.2 hown, rfl⟩

/-! ## Self-clustering ops -/

/-- Accesses without a self-clustering op, or of one op only. -/
def Unmixed (config : Clustering) (part : List Access) : Prop :=
  (∀ a ∈ part, config.isSelfClustering a.op = false) ∨ ∃ op, ∀ a ∈ part, a.op = op

/-- Two ops go together if neither clusters alone, or if they are the same. -/
theorem separates_eq_false_iff {op other : String} :
    config.separates op other = false ↔
      config.isSelfClustering op = false ∧ config.isSelfClustering other = false ∨ op = other := by
  simp only [separates, Bool.and_eq_false_iff, Bool.or_eq_false_iff, bne_eq_false_iff_eq]

/-- A cluster stays unmixed when an access joins it that goes together with the last one. All others
go together with that one already. -/
theorem Unmixed.append {part : List Access} {previous access : Access}
    (unmixed : config.Unmixed part) (hlast : part.getLast? = some previous)
    (h : config.separates access.op previous.op = false) : config.Unmixed (part ++ [access]) := by
  have hmem : previous ∈ part := List.mem_of_getLast? hlast
  have hmore : ∀ {P : Access → Prop}, (∀ a ∈ part, P a) → P access → ∀ a ∈ part ++ [access], P a :=
    fun hpart haccess => List.forall_mem_append.2 ⟨hpart, List.forall_mem_singleton.2 haccess⟩
  rcases separates_eq_false_iff.1 h with ⟨haccess, hprevious⟩ | heq
  · rcases unmixed with hpart | ⟨op, hpart⟩
    · exact .inl (hmore hpart haccess)
    · -- the one op of the cluster is that of `previous`, which does not cluster with itself only
      refine .inl (hmore (fun a ha => ?_) haccess)
      rw [hpart a ha, ← hpart previous hmem, hprevious]
  · rcases unmixed with hpart | ⟨op, hpart⟩
    · exact .inl (hmore hpart (heq ▸ hpart previous hmem))
    · exact .inr ⟨op, hmore hpart (heq.trans (hpart previous hmem))⟩

/-- No cluster mixes a self-clustering op with another op. -/
theorem unmixed_of_mem_split {current rest : List Access} {parts : List (List Access)}
    (h : config.split current rest = .ok parts) (unmixed : config.Unmixed current) :
    ∀ part ∈ parts, config.Unmixed part := by
  have hsingle : ∀ access, config.Unmixed [access] :=
    fun access => .inr ⟨access.op, fun a ha => by rw [List.mem_singleton.1 ha]⟩
  refine forall_mem_split (fun part access hpart hjoin => ?_) hsingle h unmixed
  rcases hlast : part.getLast? with _ | previous
  · -- nothing is open, as in front of the first access
    rw [List.getLast?_eq_none_iff.1 hlast]
    exact hsingle access
  · exact hpart.append hlast (separates_of_canJoin hlast hjoin)

end Clustering

end PermissionUsage
