import PermissionUsage.Proofs.Access.Batches
import PermissionUsage.Proofs.Episode.Timeline
/-!
# Timelines do not depend on the order of what they are told

Before accesses are clustered they are sorted by all that they are made of, so that it does not
matter in which order a batch has them (`Episode.ofBatch_eq_of_alike`). What is left of the order of
batches and labels is the order of the episodes: `Timeline.sameUpToOrder_compute`.
-/

namespace PermissionUsage

/-! ## Results up to their order -/

/-- Two computations list the same, each in its order, or both fail: to load in the same way, or
both by an overflow. -/
inductive SameUpToOrder {α : Type} :
    Except ComputeError (List α) → Except ComputeError (List α) → Prop where
  | ok {l l' : List α} (perm : l.Perm l') : SameUpToOrder (.ok l) (.ok l')
  | load (error : LoadError) : SameUpToOrder (.error (.load error)) (.error (.load error))
  | overflow (operation operation' : Overflow) :
    SameUpToOrder (.error (.overflow operation)) (.error (.overflow operation'))

theorem SameUpToOrder.refl {α : Type} (r : Except ComputeError (List α)) : SameUpToOrder r r := by
  rcases r with (operation | error) | l
  · exact .overflow operation operation
  · exact .load error
  · exact .ok (.refl l)

/-- What is the same as a result up to order is a result. -/
theorem SameUpToOrder.exists_perm {α : Type} {r : Except ComputeError (List α)} {l' : List α}
    (h : SameUpToOrder r (.ok l')) : ∃ l, r = .ok l ∧ l.Perm l' := by
  cases h with
  | ok perm => exact ⟨_, rfl, perm⟩

/-- Checked computations are the same up to order if whenever one of them has a result, the other
has the same up to its order. -/
theorem sameUpToOrder_of_checked {α : Type} {r r' : Checked (List α)}
    (h : ∀ l, r = .ok l → ∃ l', r' = .ok l' ∧ l.Perm l')
    (h' : ∀ l', r' = .ok l' → ∃ l, r = .ok l) :
    SameUpToOrder (r.mapError .overflow) (r'.mapError .overflow) := by
  cases r with
  | ok l =>
    obtain ⟨l', rfl, perm⟩ := h l rfl
    exact .ok perm
  | error operation =>
    cases r' with
    | ok l' =>
      obtain ⟨l, hl⟩ := h' l' rfl
      cases hl
    | error operation' => exact .overflow operation operation'

/-! ## Episodes -/

namespace Episode

variable {config : Clustering} {batch other : Batch}

/-- Batches that are alike have the same episodes, in the same order. -/
theorem ofBatch_eq_of_alike (h : batch.Alike other) :
    ofBatch config batch = ofBatch config other := by
  unfold ofBatch Clustering.clusters
  rw [Access.sort_eq_of_perm h.accesses, h.withAccesses_eq]

/-- The episodes of a batch; none if its arithmetic overflows. -/
def rowsOf (config : Clustering) (batch : Batch) : List Episode :=
  (ofBatch config batch).toOption.getD []

/-- Where a batch has episodes, they are its rows. -/
theorem ofBatch_eq_rowsOf {rows : List Episode} (h : ofBatch config batch = .ok rows) :
    rowsOf config batch = rows := by
  rw [rowsOf, h]
  rfl

end Episode

/-! ## Timelines -/

namespace Timeline

variable {timeline : Timeline} {services : Services} {batches others : List Batch}

/-- The filters, sensitivity and labels keep batches alike. -/
theorem allAlike_attributed (h : AllAlike batches others) :
    AllAlike (timeline.attributed services batches) (timeline.attributed services others) := by
  have hkept : AllAlike (timeline.kept services batches) (timeline.kept services others) := by
    refine rel_filter (rel_filter h fun a b hab => ?_) fun a b hab => ?_
    · rw [hab.owner]
    · rw [hab.owner]
  have hclassified : AllAlike ((timeline.kept services batches).map (timeline.classify services))
      ((timeline.kept services others).map (timeline.classify services)) := by
    refine rel_map hkept fun a b hab => ⟨hab.owner, hab.label, ?_, hab.accesses⟩
    show services.isSensitive _ a.owner = services.isSensitive _ b.owner
    rw [hab.owner]
  refine rel_flatMap hclassified fun a b hab => ?_
  rw [hab.owner]
  exact hab.byLabel _

/-- A timeline exists if every part has episodes, and then it is made of their rows. So the order of
the parts is the only order that matters. -/
theorem compute_eq_ok_iff_rowsOf {episodes : List Episode} :
    timeline.compute services batches = .ok episodes ↔
      (∀ part ∈ timeline.attributed services batches,
        ∃ rows, Episode.ofBatch timeline.clustering part = .ok rows) ∧
      episodes =
        (timeline.attributed services batches).flatMap (Episode.rowsOf timeline.clustering) := by
  rw [compute_eq_ok_iff, List.flatMap_def]
  constructor
  · rintro ⟨rows, hrows, rfl⟩
    have hall : ∀ part ∈ timeline.attributed services batches,
        ∃ rows, Episode.ofBatch timeline.clustering part = .ok rows := by
      intro part hpart
      obtain ⟨rows, -, h⟩ := exists_mem_of_forall₂ hrows.flip part hpart
      exact ⟨rows, h⟩
    refine ⟨hall, congrArg List.flatten (Eq.symm ?_)⟩
    rw [← List.forall₂_eq_eq_eq, List.forall₂_map_left_iff]
    exact hrows.imp fun part rows h => Episode.ofBatch_eq_rowsOf h
  · rintro ⟨hall, rfl⟩
    refine ⟨_, List.forall₂_map_right_iff.2 (List.forall₂_same.2 fun part hpart => ?_), rfl⟩
    obtain ⟨rows, h⟩ := hall part hpart
    rw [h, Episode.ofBatch_eq_rowsOf h]

/-- Batches that are alike in pairs have the same episodes up to order. -/
theorem perm_of_compute (h : AllAlike batches others) {episodes : List Episode}
    (hepisodes : timeline.compute services batches = .ok episodes) :
    ∃ episodes', timeline.compute services others = .ok episodes' ∧ episodes.Perm episodes' := by
  have hparts : AllAlike (timeline.attributed services batches)
      (timeline.attributed services others) := allAlike_attributed h
  obtain ⟨hall, rfl⟩ := compute_eq_ok_iff_rowsOf.1 hepisodes
  refine ⟨_, compute_eq_ok_iff_rowsOf.2 ⟨fun part hpart => ?_, rfl⟩, ?_⟩
  · -- the part goes with one of the other timeline, which has the same episodes
    obtain ⟨part', hpart', halike⟩ :=
      Multiset.exists_mem_of_rel_of_mem (Multiset.rel_flip.2 hparts) hpart
    rw [← Episode.ofBatch_eq_of_alike halike]
    exact hall part' hpart'
  · refine perm_flatMap_of_rel hparts fun part part' halike => ?_
    rw [Episode.rowsOf, Episode.rowsOf, Episode.ofBatch_eq_of_alike halike]

/-- Timelines of batches that are alike tell the same, up to the order of the episodes. -/
theorem sameUpToOrder_compute (h : AllAlike batches others) :
    SameUpToOrder ((timeline.compute services batches).mapError .overflow)
      ((timeline.compute services others).mapError .overflow) := by
  refine sameUpToOrder_of_checked (fun _ => perm_of_compute h) fun episodes hepisodes => ?_
  obtain ⟨episodes', h', -⟩ := perm_of_compute h.symm hepisodes
  exact ⟨episodes', h'⟩

/-! ### Loading -/

variable {source : AccessSource} {now start : Millis}

/-- If the window has no start there is no timeline. -/
theorem loadAndCompute_of_overflow {operation : Overflow}
    (h : timeline.windowStart now = .error operation) :
    timeline.loadAndCompute source services now = .error (.overflow operation) := by
  unfold loadAndCompute load
  rw [h]
  rfl

/-- With the window and the loaded batches known, what remains is to compute. -/
theorem loadAndCompute_of_load (hstart : timeline.windowStart now = .ok start)
    (hload : source.loadAccesses timeline.ops start now = .ok batches) :
    timeline.loadAndCompute source services now =
      (timeline.compute services batches).mapError .overflow := by
  unfold loadAndCompute load
  rw [hstart]
  show ((source.loadAccesses timeline.ops start now).mapError _ >>= _) = _
  rw [hload]
  rfl

/-- The timeline that is computed is the one of the loaded batches. -/
theorem loadAndCompute_eq_ok_iff (hstart : timeline.windowStart now = .ok start)
    (hload : source.loadAccesses timeline.ops start now = .ok batches) {episodes : List Episode} :
    timeline.loadAndCompute source services now = .ok episodes ↔
      timeline.compute services batches = .ok episodes := by
  rw [loadAndCompute_of_load hstart hload, mapError_eq_ok_iff]

/-- Loading needs a window and an answer of the source. -/
theorem load_eq_ok_iff :
    timeline.load source now = .ok batches ↔ ∃ start, timeline.windowStart now = .ok start ∧
      source.loadAccesses timeline.ops start now = .ok batches := by
  unfold load
  simp only [bind_eq_ok_iff, mapError_eq_ok_iff]

/-- A timeline is loaded and then computed. -/
theorem loadAndCompute_eq_ok_iff_exists {episodes : List Episode} :
    timeline.loadAndCompute source services now = .ok episodes ↔
      ∃ batches, timeline.load source now = .ok batches ∧
        timeline.compute services batches = .ok episodes := by
  unfold loadAndCompute
  simp only [bind_eq_ok_iff, mapError_eq_ok_iff]

/-- A timeline can be loaded and computed if no arithmetic on the accesses that an owner whose
accesses are kept has among the listed ones leaves the 64-bit range. -/
theorem exists_loadAndCompute (hstart : timeline.windowStart now = .ok start)
    (hload : source.loadAccesses timeline.ops start now = .ok batches)
    {rows : List (PackageUser × Access)} (holds : Collects rows batches)
    (fit : ∀ owner, services.Keeps timeline.group owner → Access.AllFit (accessesBy rows owner)) :
    ∃ episodes, timeline.loadAndCompute source services now = .ok episodes := by
  obtain ⟨episodes, hepisodes⟩ : ∃ episodes, timeline.compute services batches = .ok episodes := by
    refine exists_compute fun batch hbatch hkeeps => (fit batch.owner hkeeps).mono fun a ha => ?_
    exact (holds.accesses batch hbatch).mem_iff.1 ha
  exact ⟨episodes, (loadAndCompute_eq_ok_iff hstart hload).2 hepisodes⟩

/-! ### Two sources -/

/-- Two sources give the same timeline: they answer every load with the same accesses of every
owner, the episodes are the same up to their order, and there are episodes wherever no arithmetic on
kept accesses overflows. -/
structure SameFrom (timeline : Timeline) (source other : AccessSource) : Prop where
  loads : ∀ now start, timeline.windowStart now = .ok start → ∃ batches others,
    source.loadAccesses timeline.ops start now = .ok batches ∧
      other.loadAccesses timeline.ops start now = .ok others ∧
      ∀ owner, (accessesBy (batches.flatMap Batch.rows) owner).Perm
        (accessesBy (others.flatMap Batch.rows) owner)
  episodes : ∀ services now, SameUpToOrder (timeline.loadAndCompute source services now)
    (timeline.loadAndCompute other services now)
  exists_episodes : ∀ services now start batches, timeline.windowStart now = .ok start →
    source.loadAccesses timeline.ops start now = .ok batches →
    (∀ owner, services.Keeps timeline.group owner →
      Access.AllFit (accessesBy (batches.flatMap Batch.rows) owner)) →
    ∃ episodes, timeline.loadAndCompute source services now = .ok episodes

/-- Sources that should list the same for each op of a timeline, and do, give the same timeline. -/
theorem sameFrom_of_answers {source other : AccessSource}
    {rows rows' : Millis → Millis → String → List (PackageUser × Access)}
    (answers : ∀ start stop, ∀ op ∈ timeline.ops,
      source.Answers start stop op (rows start stop op))
    (answers' : ∀ start stop, ∀ op ∈ timeline.ops,
      other.Answers start stop op (rows' start stop op))
    (perm : ∀ start stop, ∀ op ∈ timeline.ops, (rows start stop op).Perm (rows' start stop op)) :
    timeline.SameFrom source other := by
  -- both loads hold the same, so that the batches are alike
  have hloads : ∀ start now, ∃ batches others held held',
      source.loadAccesses timeline.ops start now = .ok batches ∧
        other.loadAccesses timeline.ops start now = .ok others ∧
        Collects held batches ∧ Collects held' others ∧ held.Perm held' := by
    intro start now
    obtain ⟨batches, hload, hcollects⟩ := AccessSource.exists_loadAccesses (answers start now)
    obtain ⟨others, hload', hcollects'⟩ := AccessSource.exists_loadAccesses (answers' start now)
    exact ⟨batches, others, _, _, hload, hload', hcollects, hcollects',
      List.Perm.flatMap_left timeline.ops (perm start now)⟩
  refine ⟨fun now start _ => ?_, fun services now => ?_,
    fun services now start batches hstart => ?_⟩
  · obtain ⟨batches, others, held, held', hload, hload', hcollects, hcollects', hheld⟩ :=
      hloads start now
    have hrows : (batches.flatMap Batch.rows).Perm (others.flatMap Batch.rows) :=
      hcollects.perm_flatMap_rows.trans (hheld.trans hcollects'.perm_flatMap_rows.symm)
    exact ⟨batches, others, hload, hload', accessesBy_perm hrows⟩
  · cases hstart : timeline.windowStart now with
    | error operation =>
      rw [loadAndCompute_of_overflow hstart, loadAndCompute_of_overflow hstart]
      exact .overflow operation operation
    | ok start =>
      obtain ⟨batches, others, held, held', hload, hload', hcollects, hcollects', hheld⟩ :=
        hloads start now
      rw [loadAndCompute_of_load hstart hload, loadAndCompute_of_load hstart hload']
      exact sameUpToOrder_compute (hcollects.allAlike hcollects' hheld)
  · intro hload fit
    obtain ⟨_, _, held, _, hfound, -, hcollects, -, -⟩ := hloads start now
    obtain rfl := Except.ok.inj (hload.symm.trans hfound)
    exact exists_loadAndCompute hstart hload
      (hcollects.of_perm hcollects.perm_flatMap_rows.symm) fit

/-- The timeline of the camera. -/
def camera (features : Features) : Timeline where
  group := .camera
  features := features
  ops := [Op.camera, Op.phoneCallCamera]
  ops_eq := historyOps_camera features

end Timeline

end PermissionUsage
