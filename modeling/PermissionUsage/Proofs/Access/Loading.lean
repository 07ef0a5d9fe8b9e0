import PermissionUsage.Proofs.Access.Merging
/-!
# What a load of several ops returns

A load asks about one op after another. It stops at the first op that is refused for another reason
than not being known (`FirstRefusal`), and then it fails with that refusal. Otherwise it has merged
all that it was answered (`MergesByOwner`): one item for each owner, in the order in which the
owners were first seen.

* `loadMerged_eq_error_iff`: a load fails with its first refusal.
* `loadMerged_filter_knows`: ops that are not known could be left out.
* `mergesByOwner_mergeAll`: what merging one item after another comes to.

Both loads obey this law: `AccessSource.loads_mergeByOwner`.
-/

namespace PermissionUsage

/-! ## Refusals -/

section Refusals

variable {β : Type} {read : String → Except SourceError β} {op : String} {cause : SourceError}

/-- A read is refused for another reason than that the op is not known. -/
def Refuses (read : String → Except SourceError β) (op : String) (cause : SourceError) : Prop :=
  read op = .error cause ∧ ∀ unknown, cause ≠ .unknownOp unknown

/-- The op is known, whether or not the read of it has an answer. -/
def knows (read : String → Except SourceError β) (op : String) : Bool :=
  match read op with
  | .error (.unknownOp _) => false
  | _ => true

/-- A read has an answer, or the op is not known, or the read is refused. -/
theorem read_cases (read : String → Except SourceError β) (op : String) :
    (∃ answer, read op = .ok answer) ∨ (∃ unknown, read op = .error (.unknownOp unknown)) ∨
      ∃ cause, Refuses read op cause := by
  cases hread : read op with
  | ok answer => exact .inl ⟨answer, rfl⟩
  | error cause =>
    cases cause with
    | unknownOp unknown => exact .inr (.inl ⟨unknown, rfl⟩)
    | unavailable reason => exact .inr (.inr ⟨.unavailable reason, hread, nofun⟩)

theorem not_refuses_of_ok {answer : β} (h : read op = .ok answer) : ¬Refuses read op cause := by
  rintro ⟨hread, -⟩
  cases h.symm.trans hread

/-- Not knowing an op is no refusal. -/
theorem not_refuses_of_unknownOp {unknown : String} (h : read op = .error (.unknownOp unknown)) :
    ¬Refuses read op cause := by
  rintro ⟨hread, hother⟩
  exact hother unknown (Except.error.inj (hread.symm.trans h))

/-- The first op of a list at which a read is refused. -/
inductive FirstRefusal (read : String → Except SourceError β) :
    List String → String → SourceError → Prop where
  | here {op : String} {rest : List String} {cause : SourceError} (h : Refuses read op cause) :
    FirstRefusal read (op :: rest) op cause
  | later {op first : String} {rest : List String} {cause : SourceError}
    (passes : ∀ other, ¬Refuses read op other) (h : FirstRefusal read rest first cause) :
    FirstRefusal read (op :: rest) first cause

/-- Where a read is not refused, the first refusal comes later. -/
theorem firstRefusal_cons_iff {first : String} {rest : List String}
    (passes : ∀ other, ¬Refuses read op other) :
    FirstRefusal read (op :: rest) first cause ↔ FirstRefusal read rest first cause := by
  refine ⟨fun h => ?_, .later passes⟩
  cases h with
  | here h => exact absurd h (passes cause)
  | later _ h => exact h

/-- Where a read is refused, it is the first refusal. -/
theorem FirstRefusal.eq_head {first : String} {rest : List String} {other : SourceError}
    (hop : Refuses read op cause) (h : FirstRefusal read (op :: rest) first other) :
    first = op ∧ other = cause := by
  cases h with
  | here h => exact ⟨rfl, Except.error.inj (h.1.symm.trans hop.1)⟩
  | later passes => exact absurd hop (passes cause)

/-- If the read of some op is refused, one of them is the first. -/
theorem exists_firstRefusal_iff {ops : List String} :
    (∃ first cause, FirstRefusal read ops first cause) ↔
      ∃ op ∈ ops, ∃ cause, Refuses read op cause := by
  constructor
  · rintro ⟨first, cause, h⟩
    induction h with
    | @here op rest cause h => exact ⟨op, List.mem_cons_self, cause, h⟩
    | later _ _ ih =>
      obtain ⟨op, hop, h⟩ := ih
      exact ⟨op, List.mem_cons_of_mem _ hop, h⟩
  · intro h
    induction ops with
    | nil => obtain ⟨op, hop, -⟩ := h; cases hop
    | cons op rest ih =>
      -- the first op may be refused already; then it is the one
      by_cases hop : ∃ cause, Refuses read op cause
      · obtain ⟨cause, hop⟩ := hop
        exact ⟨op, cause, .here hop⟩
      · obtain ⟨other, hother, hrefuses⟩ := h
        rcases List.mem_cons.1 hother with rfl | hother
        · exact absurd hrefuses hop
        · obtain ⟨first, cause, hfirst⟩ := ih ⟨other, hother, hrefuses⟩
          exact ⟨first, cause, .later (not_exists.1 hop) hfirst⟩

end Refusals

/-! ## Loads -/

section Loads

variable {α β : Type} {kind : LoadKind} {read : String → Except SourceError α}
  {merge : List β → α → List β} {op : String} {rest : List String}

/-- An op that is not known is passed over. -/
theorem loadMerged_of_unknownOp {unknown : String} (h : read op = .error (.unknownOp unknown))
    (merged : List β) :
    loadMerged kind read merge merged (op :: rest) = loadMerged kind read merge merged rest := by
  rw [loadMerged, h]

/-- A refusal ends the load. -/
theorem loadMerged_of_refuses {cause : SourceError} (h : Refuses read op cause)
    (merged : List β) :
    loadMerged kind read merge merged (op :: rest) = .error { kind, op, cause } := by
  obtain ⟨hread, hother⟩ := h
  rw [loadMerged, hread]
  cases cause with
  | unknownOp unknown => exact absurd rfl (hother unknown)
  | unavailable reason => rfl

/-- A load fails with its first refusal, and for no other reason. -/
theorem loadMerged_eq_error_iff {ops : List String} {merged : List β} {error : LoadError} :
    loadMerged kind read merge merged ops = .error error ↔
      ∃ op cause, FirstRefusal read ops op cause ∧ error = { kind, op, cause } := by
  induction ops generalizing merged with
  | nil =>
    constructor
    · nofun
    · rintro ⟨op, cause, h, -⟩
      cases h
  | cons op rest ih =>
    -- a read is answered, is of an op that is not known, or is refused
    rcases read_cases read op with ⟨answer, hread⟩ | ⟨unknown, hread⟩ | ⟨cause, hrefuses⟩
    · simp only [firstRefusal_cons_iff fun _ => not_refuses_of_ok hread]
      rw [loadMerged, hread]
      exact ih
    · simp only [firstRefusal_cons_iff fun _ => not_refuses_of_unknownOp hread]
      rw [loadMerged_of_unknownOp hread]
      exact ih
    · rw [loadMerged_of_refuses hrefuses]
      constructor
      · intro h
        exact ⟨op, cause, .here hrefuses, (Except.error.inj h).symm⟩
      · rintro ⟨first, other, hfirst, rfl⟩
        obtain ⟨rfl, rfl⟩ := hfirst.eq_head hrefuses
        rfl

/-- Ops that are not known could as well be left out. -/
theorem loadMerged_filter_knows (ops : List String) (merged : List β) :
    loadMerged kind read merge merged (ops.filter (knows read)) =
      loadMerged kind read merge merged ops := by
  induction ops generalizing merged with
  | nil => rfl
  | cons op rest ih =>
    rw [List.filter_cons]
    rcases read_cases read op with ⟨answer, hread⟩ | ⟨unknown, hread⟩ | ⟨cause, hrefuses⟩
    · have hknows : knows read op = true := by unfold knows; rw [hread]
      rw [if_pos hknows, loadMerged, loadMerged, hread]
      exact ih _
    · have hknows : knows read op = false := by unfold knows; rw [hread]
      rw [hknows, loadMerged_of_unknownOp hread]
      exact ih merged
    · have hknows : knows read op = true := by
        unfold knows
        split
        · next unknown hread => exact absurd hrefuses (not_refuses_of_unknownOp hread)
        · rfl
      rw [if_pos hknows, loadMerged_of_refuses hrefuses, loadMerged_of_refuses hrefuses]

end Loads

/-! ## Merging by owner -/

section Merges

variable {α β : Type} {owner : α → PackageUser} {contents : α → List β}
  {withContents : α → List β → α}

/-- What was found, merged by owner: one item for each owner that something was found for, in the
order in which the owners are first seen. It is the first item that was found for its owner, with
the contents of all that were found, in their order. -/
structure MergesByOwner (owner : α → PackageUser) (contents : α → List β)
    (withContents : α → List β → α) (found merged : List α) : Prop where
  owners : FirstSeen (found.map owner) (merged.map owner)
  items : ∀ item ∈ merged, ∃ first others,
    found.filter (owner · = owner item) = first :: others ∧
      item = withContents first ((first :: others).flatMap contents)

/-- Merging one item after another merges by owner, if joining items adds up their contents. -/
theorem mergesByOwner_mergeAll {join : α → α → α} (keeps : ∀ a b, owner (join a b) = owner a)
    (joins : ∀ first others, joined join (first :: others) =
      some (withContents first ((first :: others).flatMap contents)))
    (found : List α) :
    MergesByOwner owner contents withContents found (mergeAll owner join [] found) where
  owners := firstSeen_mergeAll keeps found
  items item hitem := by
    have hjoined : joined join (found.filter (owner · = owner item)) = some item :=
      joined_of_mem_mergeAll keeps hitem
    cases hfound : found.filter (owner · = owner item) with
    | nil =>
      rw [hfound] at hjoined
      cases hjoined
    | cons first others =>
      rw [hfound, joins] at hjoined
      exact ⟨first, others, rfl, (Option.some.inj hjoined).symm⟩

/-- How a load of several ops follows from the reads of the ops. -/
structure LoadsByOwner (kind : LoadKind) (owner : α → PackageUser) (contents : α → List β)
    (withContents : α → List β → α) (read : String → Except SourceError (List α))
    (load : List String → Except LoadError (List α)) : Prop where
  /-- It fails if and only if some read is refused. -/
  fails : ∀ ops, (∃ error, load ops = .error error) ↔ ∃ op ∈ ops, ∃ cause, Refuses read op cause
  /-- It fails with the first refusal. -/
  first : ∀ ops error, load ops = .error error ↔
    ∃ op cause, FirstRefusal read ops op cause ∧ error = { kind, op, cause }
  /-- Without a refusal it has merged all answers. -/
  merges : ∀ ops, (∀ op ∈ ops, ∀ cause, ¬Refuses read op cause) → ∃ merged,
    load ops = .ok merged ∧
      MergesByOwner owner contents withContents (ops.flatMap fun op => answered (read op)) merged
  /-- Ops that are not known add nothing. -/
  skips : ∀ ops, load (ops.filter (knows read)) = load ops

/-- **A load merges by owner.** The law of a load, whatever is loaded: it takes a way of joining
items that keeps their owner and adds up their contents. -/
theorem loadsByOwner_loadMerged (kind : LoadKind) {join : α → α → α}
    (keeps : ∀ a b, owner (join a b) = owner a)
    (joins : ∀ first others, joined join (first :: others) =
      some (withContents first ((first :: others).flatMap contents)))
    (read : String → Except SourceError (List α)) :
    LoadsByOwner kind owner contents withContents read
      (loadMerged kind read (mergeAll owner join) []) where
  fails ops := by
    rw [← exists_firstRefusal_iff]
    simp only [loadMerged_eq_error_iff]
    constructor
    · rintro ⟨error, first, cause, h, -⟩
      exact ⟨first, cause, h⟩
    · rintro ⟨first, cause, h⟩
      exact ⟨_, first, cause, h, rfl⟩
  first ops error := loadMerged_eq_error_iff
  merges ops passes := by
    have hknown : ∀ op ∈ ops, ∀ cause, read op = .error cause → ∃ o, cause = .unknownOp o := by
      intro op hop cause hread
      cases cause with
      | unknownOp unknown => exact ⟨unknown, rfl⟩
      | unavailable reason =>
        refine absurd ⟨hread, fun unknown h => ?_⟩ (passes op hop _)
        cases h
    exact ⟨_, loadMerged_eq_ok hknown [], mergesByOwner_mergeAll keeps joins _⟩
  skips ops := loadMerged_filter_knows ops []

end Merges

/-- **Both loads merge by owner.** A load of several ops fails if and only if the read of some op is
refused for another reason than not knowing the op, and then with the first such refusal. Otherwise
it returns all that was read merged by owner, and ops that are not known could as well be left
out. -/
theorem AccessSource.loads_mergeByOwner (source : AccessSource) :
    (∀ start stop, LoadsByOwner .accesses Batch.owner Batch.accesses Batch.withAccesses
      (source.accesses · start stop) (source.loadAccesses · start stop)) ∧
      LoadsByOwner .lastUses LastUses.owner LastUses.uses (fun first uses => { first with uses })
        source.lastUses source.loadLastUses := by
  constructor
  · intro start stop
    have hload : (source.loadAccesses · start stop) =
        loadMerged .accesses (source.accesses · start stop) mergeBatches [] :=
      funext fun ops => source.loadAccesses_eq ops start stop
    rw [hload]
    exact loadsByOwner_loadMerged .accesses Batch.owner_join Batch.addsUp.joined_cons _
  · have hload : source.loadLastUses = loadMerged .lastUses source.lastUses mergeLastUses [] :=
      funext source.loadLastUses_eq
    rw [hload]
    exact loadsByOwner_loadMerged .lastUses LastUses.owner_join LastUses.addsUp.joined_cons _

/-! ### Two batches of one owner in one answer -/

namespace SplitAnswer

def scan : Access := { op := Op.fineLocation, time := 60000, duration := -1 }

def labelled : Batch := { owner := ⟨"com.example.maps", 0⟩, accesses := [scan], label := "Maps" }

def repeated : Batch := { labelled with accesses := [scan, scan], isSensitive := true }

/-- It does not know emergency location, and has closed the history of the camera. -/
def source : AccessSource where
  accesses op _ _ :=
    if op = Op.emergencyLocation then .error (.unknownOp op)
    else if op = Op.camera then .error (.unavailable "closed")
    else .ok [labelled, repeated]
  lastUses op := .error (.unknownOp op)

example : source.loadAccesses [Op.emergencyLocation, Op.fineLocation] 0 90000 =
    .ok [labelled.withAccesses [scan, scan, scan]] := by
  decide +kernel

example : source.loadAccesses [Op.fineLocation, Op.emergencyLocation, Op.camera] 0 90000 =
    .error { kind := .accesses, op := Op.camera, cause := .unavailable "closed" } := by
  decide +kernel

end SplitAnswer

end PermissionUsage
