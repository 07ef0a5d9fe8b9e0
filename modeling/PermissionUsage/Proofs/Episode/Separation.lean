import PermissionUsage.Proofs.Episode.Summary
/-!
# Rows of one batch are kept apart

The rows of a batch are ordered by their starts and never mix a self-clustering op with another op.
Neighbouring rows are further apart than the spacing, or are rows that must not be joined because
one of them is of a self-clustering op. Without such ops all rows are further apart than the
spacing.

What a row shows as its end comes from `endExclusive`, what clustering measures from `lastCovered`.
That the two agree is `finish_eq_of_summarizes`.
-/

namespace PermissionUsage

namespace Episode

/-- More than the spacing lies between the end of a row and the start of another. -/
def IsGap (config : Clustering) (row next : Episode) : Prop :=
  config.spacingMinutes.toInt < next.start.minute - row.finish.minute

/-- The row is of one op only, and of a self-clustering one. -/
def IsAlone (config : Clustering) (row : Episode) : Prop :=
  ∃ op, config.isSelfClustering op = true ∧ ∀ other, other ∈ row.ops ↔ other = op

/-- The rows of a batch are in order, unmixed and kept apart. -/
structure Separated (config : Clustering) (batch : Batch) (rows : List Episode) : Prop where
  ordered : rows.Pairwise (·.start.toInt ≤ ·.start.toInt)
  unmixed : ∀ row ∈ rows, (∀ op ∈ row.ops, config.isSelfClustering op = false) ∨
    ∃ op, ∀ other, other ∈ row.ops ↔ other = op
  neighbours : rows.IsChain fun row next => IsGap config row next ∨
    (∀ op ∈ row.ops, op ∉ next.ops) ∧ (IsAlone config row ∨ IsAlone config next)
  apart : (∀ a ∈ batch.accesses, config.isSelfClustering a.op = false) →
    rows.Pairwise (IsGap config)

/-! ## Starts and ends -/

/-- An episode of sorted accesses starts with the first of them. -/
theorem start_eq_of_summarizes {row : Episode} {cluster : Batch} (h : row.Summarizes cluster)
    (sorted : cluster.accesses.Pairwise (·.time.toInt ≤ ·.time.toInt)) {first : Access}
    (hfirst : first ∈ cluster.accesses.head?) : row.start.toInt = first.time.toInt := by
  obtain ⟨hmem, hmin⟩ := List.min?_eq_some_iff.1 h.start
  obtain ⟨rest, haccesses⟩ := List.head?_eq_some_iff.1 hfirst
  rw [haccesses] at hmem hmin sorted
  obtain ⟨a, ha, hstart⟩ := List.mem_map.1 hmem
  have hle : row.start.toInt ≤ first.time.toInt :=
    hmin _ (List.mem_map_of_mem List.mem_cons_self)
  have hge : first.time.toInt ≤ row.start.toInt := by
    rw [← hstart]
    rcases List.mem_cons.1 ha with rfl | ha
    · exact Int.le_refl _
    · exact (List.pairwise_cons.1 sorted).1 a ha
  omega

/-- The end of a row is the latest last minute, which clustering measures from. -/
theorem finish_eq_of_summarizes {row : Episode} {cluster : Batch} (h : row.Summarizes cluster)
    {covered : Int} (hcovered : (cluster.accesses.map Access.lastMinute).max? = some covered) :
    row.finish.toInt = covered := by
  obtain ⟨hmem, hmax⟩ := List.max?_eq_some_iff.1 h.finish
  obtain ⟨hmem', hmax'⟩ := List.max?_eq_some_iff.1 hcovered
  obtain ⟨a, ha, hstop⟩ := List.mem_map.1 hmem
  obtain ⟨b, hb, hlast⟩ := List.mem_map.1 hmem'
  have hle := hmax _ (List.mem_map_of_mem (f := Access.stop) hb)
  have hge := hmax' _ (List.mem_map_of_mem (f := Access.lastMinute) ha)
  unfold Access.lastMinute at hlast hge
  omega

/-! ## One row and the next -/

/-- What is known of a row and the part of a batch that it comes from. -/
structure Covers (config : Clustering) (batch : Batch) (part : List Access) (row : Episode) :
    Prop where
  summarizes : row.Summarizes (batch.withAccesses part)
  nonempty : part ≠ []
  sorted : part.Pairwise (·.time.toInt ≤ ·.time.toInt)
  unmixed : config.Unmixed part

namespace Covers

variable {config : Clustering} {batch : Batch} {part next : List Access} {row row' : Episode}

/-- The ops of a row are the ops of its accesses. -/
theorem mem_ops_iff (h : Covers config batch part row) {op : String} :
    op ∈ row.ops ↔ ∃ a ∈ part, a.op = op := h.summarizes.ops op

theorem op_mem (h : Covers config batch part row) {a : Access} (ha : a ∈ part) :
    a.op ∈ row.ops := h.mem_ops_iff.2 ⟨a, ha, rfl⟩

/-- A row has no op that clusters alone, or just one op. -/
theorem unmixed_ops (h : Covers config batch part row) :
    (∀ op ∈ row.ops, config.isSelfClustering op = false) ∨
      ∃ op, ∀ other, other ∈ row.ops ↔ other = op := by
  rcases h.unmixed with hfree | ⟨op, hop⟩
  · left
    intro op hmem
    obtain ⟨a, ha, rfl⟩ := h.mem_ops_iff.1 hmem
    exact hfree a ha
  · right
    obtain ⟨a, rest, rfl⟩ := List.exists_cons_of_ne_nil h.nonempty
    refine ⟨op, fun other => ⟨fun hmem => ?_, fun heq => ?_⟩⟩
    · obtain ⟨b, hb, rfl⟩ := h.mem_ops_iff.1 hmem
      exact hop b hb
    · rw [heq, ← hop a List.mem_cons_self]
      exact h.op_mem List.mem_cons_self

/-- A row with a self-clustering op is of that op only. -/
theorem isAlone_of_mem (h : Covers config batch part row) {op : String} (hmem : op ∈ row.ops)
    (hself : config.isSelfClustering op = true) : ∀ other, other ∈ row.ops ↔ other = op := by
  rcases h.unmixed_ops with hfree | ⟨only, honly⟩
  · rw [hfree op hmem] at hself
    cases hself
  · rwa [← (honly op).1 hmem] at honly

/-- Two rows of which one has a self-clustering op that the other has not are disjoint. -/
theorem disjoint_of_separates (h : Covers config batch part row)
    (h' : Covers config batch next row') {op op' : String} (hmem : op ∈ row.ops)
    (hmem' : op' ∈ row'.ops) (hseparates : config.separates op' op = true) :
    (∀ op ∈ row.ops, op ∉ row'.ops) ∧ (IsAlone config row ∨ IsAlone config row') := by
  obtain ⟨hself, hne⟩ := (Bool.and_eq_true _ _).mp hseparates
  have hne : op' ≠ op := bne_iff_ne.1 hne
  rcases (Bool.or_eq_true _ _).mp hself with hself | hself
  · have honly := h'.isAlone_of_mem hmem' hself
    refine ⟨fun other hother hother' => ?_, .inr ⟨op', hself, honly⟩⟩
    -- the op in common is `op'`, so the other row is of `op'` only as well
    rw [(honly other).1 hother'] at hother
    exact hne ((h.isAlone_of_mem hother hself op).1 hmem).symm
  · have honly := h.isAlone_of_mem hmem hself
    refine ⟨fun other hother hother' => ?_, .inl ⟨op, hself, honly⟩⟩
    rw [(honly other).1 hother] at hother'
    exact hne ((h'.isAlone_of_mem hother' hself op').1 hmem')

/-- Where a batch is cut, the rows are kept apart. -/
theorem of_cut (h : Covers config batch part row) (h' : Covers config batch next row')
    (hcut : config.Cut part next) : IsGap config row row' ∨
      (∀ op ∈ row.ops, op ∉ row'.ops) ∧ (IsAlone config row ∨ IsAlone config row') := by
  obtain ⟨first, hfirst, hjoin⟩ := hcut
  obtain ⟨previous, hlast⟩ : ∃ previous, part.getLast? = some previous :=
    ⟨_, List.getLast?_eq_some_getLast h.nonempty⟩
  rcases Clustering.apart_of_canJoin hlast hjoin with hseparates | ⟨covered, hcovered, hgap⟩
  · right
    have hmem : previous.op ∈ row.ops := h.op_mem (List.mem_of_getLast? hlast)
    have hmem' : first.op ∈ row'.ops := h'.op_mem (List.mem_of_head? hfirst)
    exact h.disjoint_of_separates h' hmem hmem' hseparates
  · left
    have hstart := start_eq_of_summarizes h'.summarizes h'.sorted hfirst
    have hfinish := finish_eq_of_summarizes h.summarizes hcovered
    unfold IsGap
    unfold Millis.minute at hgap ⊢
    rw [hstart, hfinish]
    exact hgap

end Covers

/-! ## All rows -/

variable {config : Clustering} {batch : Batch}

/-- What is a gap before a row is a gap before every later row. -/
theorem IsGap.trans_start {row next later : Episode} (h : IsGap config row next)
    (hle : next.start.toInt ≤ later.start.toInt) : IsGap config row later :=
  Int.lt_of_lt_of_le h (Int.sub_le_sub_right (Millis.minute_le_minute hle) _)

/-- If there is a gap between neighbours, there is one between any two rows in order. -/
theorem pairwise_isGap {rows : List Episode} (hgap : rows.IsChain (IsGap config))
    (ordered : rows.Pairwise (·.start.toInt ≤ ·.start.toInt)) : rows.Pairwise (IsGap config) := by
  induction rows with
  | nil => exact .nil
  | cons row rest ih =>
    obtain ⟨-, hrest⟩ := List.pairwise_cons.1 ordered
    have hseparated := ih (List.isChain_of_isChain_cons hgap) hrest
    refine List.pairwise_cons.2 ⟨fun later hlater => ?_, hseparated⟩
    cases rest with
    | nil => cases hlater
    | cons next rest =>
      have hnext : IsGap config row next := List.rel_of_isChain_cons_cons hgap
      rcases List.mem_cons.1 hlater with rfl | hlater
      · exact hnext
      · exact hnext.trans_start ((List.pairwise_cons.1 hrest).1 later hlater)

/-- The rows of a batch cover the parts into which it is cut. -/
theorem exists_covers {rows : List Episode} (h : ofBatch config batch = .ok rows) :
    ∃ parts, parts.flatten = Access.sort batch.accesses ∧ parts.IsChain config.Cut ∧
      List.Forall₂ (Covers config batch) parts rows := by
  obtain ⟨parts, hparts, hrows⟩ := ofBatch_eq_ok_iff.1 h
  have hflatten : parts.flatten = Access.sort batch.accesses := Clustering.flatten_split hparts
  have hsorted : parts.flatten.Pairwise (·.time.toInt ≤ ·.time.toInt) :=
    hflatten ▸ Access.pairwise_sort batch.accesses
  have hempty : config.Unmixed [] := .inl nofun
  refine ⟨parts, hflatten, Clustering.isChain_split hparts, ?_⟩
  have hpart : ∀ part ∈ parts, part ≠ [] ∧ part.Pairwise (·.time.toInt ≤ ·.time.toInt) ∧
      config.Unmixed part := by
    intro part hpart
    exact ⟨Clustering.ne_nil_of_mem_split hparts part hpart,
      (List.pairwise_flatten.1 hsorted).1 part hpart,
      Clustering.unmixed_of_mem_split hparts hempty part hpart⟩
  refine ((List.forall₂_and_left parts rows).2 ⟨hpart, hrows⟩).imp ?_
  rintro part row ⟨⟨hne, hsorted, hunmixed⟩, hrow⟩
  exact ⟨summarizes_ofCluster hrow, hne, hsorted, hunmixed⟩

/-- **Rows of one batch are kept apart.** A batch has rows if no arithmetic on its accesses leaves
the 64-bit range, and whenever it has rows, they are in order, unmixed and kept apart. -/
theorem ofBatch_separated (config : Clustering) (batch : Batch) :
    (Access.AllFit batch.accesses → ∃ rows, ofBatch config batch = .ok rows) ∧
      ∀ rows, ofBatch config batch = .ok rows → Separated config batch rows := by
  refine ⟨exists_ofBatch config, fun rows h => ?_⟩
  obtain ⟨parts, hflatten, hcut, hcovers⟩ := exists_covers h
  have hsorted : parts.flatten.Pairwise (·.time.toInt ≤ ·.time.toInt) :=
    hflatten ▸ Access.pairwise_sort batch.accesses
  have ordered : rows.Pairwise (·.start.toInt ≤ ·.start.toInt) := by
    refine pairwise_of_forall₂ hcovers (List.pairwise_flatten.1 hsorted).2 ?_
    intro part next row row' hpart hnext hle
    -- both rows start when some access of theirs does
    obtain ⟨a, ha, hstart⟩ := List.mem_map.1 (List.min?_mem hpart.summarizes.start)
    obtain ⟨b, hb, hstart'⟩ := List.mem_map.1 (List.min?_mem hnext.summarizes.start)
    rw [← hstart, ← hstart']
    exact hle a ha b hb
  have neighbours := isChain_of_forall₂ hcovers hcut fun _ _ _ _ => Covers.of_cut
  have hrow : ∀ row ∈ rows, ∃ part ∈ parts, Covers config batch part row :=
    exists_mem_of_forall₂ hcovers
  refine ⟨ordered, fun row hmem => ?_, neighbours, fun hfree => ?_⟩
  · obtain ⟨part, -, hpart⟩ := hrow row hmem
    exact hpart.unmixed_ops
  · -- no row is of a self-clustering op, so neighbours are kept apart by a gap only
    have hnever : ∀ row ∈ rows, ¬IsAlone config row := by
      intro row hmem ⟨op, hself, honly⟩
      obtain ⟨part, hpart, hcover⟩ := hrow row hmem
      obtain ⟨a, ha, rfl⟩ := hcover.mem_ops_iff.1 ((honly op).2 rfl)
      have hbatch : a ∈ batch.accesses := by
        rw [← (Access.perm_sort batch.accesses).mem_iff, ← hflatten]
        exact List.mem_flatten_of_mem hpart ha
      rw [hfree a hbatch] at hself
      cases hself
    refine pairwise_isGap (neighbours.imp_of_mem_imp fun row next hmem hmem' h => ?_) ordered
    rcases h with hgap | ⟨-, halone | halone⟩
    · exact hgap
    · exact absurd halone (hnever row hmem)
    · exact absurd halone (hnever next hmem')

/-! ### An emergency call -/

namespace EmergencyCall

def emergency : Access := { op := Op.emergencyLocation, time := 60000, duration := -1 }

def ordinary : Access := { op := Op.fineLocation, time := 120000, duration := 30000 }

/-- A fine location in the minute after one for an emergency call. -/
def locations : Batch where
  owner := ⟨"com.example.navigator", 0⟩
  accesses := [ordinary, emergency]

def bypass : Clustering := .ofFeatures { locationBypass := true }

end EmergencyCall

open EmergencyCall in
/-- Two accesses a minute apart, kept apart because one is of an emergency. -/
theorem ofBatch_separated_of_emergencyCall :
    ∃ rows, ofBatch bypass locations = .ok rows ∧ rows.length = 2 ∧
      Separated bypass locations rows := by
  obtain ⟨hexists, hseparated⟩ := ofBatch_separated bypass locations
  obtain ⟨rows, h⟩ := hexists (by decide +kernel)
  have hsort : Access.sort locations.accesses = [emergency, ordinary] :=
    (Access.eq_sort_of_perm (by decide +kernel) (by decide +kernel)).symm
  have hlength : (ofBatch bypass locations).map List.length = .ok 2 := by
    rw [ofBatch, Clustering.clusters, hsort]
    decide +kernel
  rw [h] at hlength
  exact ⟨rows, h, Except.ok.inj hlength, hseparated rows h⟩

end Episode

end PermissionUsage
