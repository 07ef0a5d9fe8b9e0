import PermissionUsage.Live.UseCase
/-!
# Processes that are left alone

A process looks at the platform many times, and the platform may change between two looks.
`Process.runOn` is its outcome if the platform stays as it is from now on.

* `Process.runOn_bind` and its neighbours: the outcome of a composed process is composed of the
  outcomes of its parts, so every process below is read as the function it asks its way through.
* `UseCase.runOn_process`: a computation that is left alone from its start ends with what
  `UseCase.recompute` returns in one go. So the looks and the one function are the same computation.
-/

namespace PermissionUsage

namespace Process

variable {α β : Type} {platform : Platform}

/-- The outcome of a process on a platform that stays as it is. -/
def runOn (platform : Platform) : Process α → α
  | ended outcome => outcome
  | look _ next => (next platform).runOn platform

/-- The outcome of a process that has ended. -/
def ended? : Process α → Option α
  | ended outcome => some outcome
  | look .. => none

/-! ## Composed processes -/

@[simp] theorem runOn_pure (a : α) : (pure a : Process α).runOn platform = a := rfl

@[simp] theorem runOn_lookup (question : Platform → α) :
    (lookup question).runOn platform = question platform := rfl

@[simp] theorem runOn_bind (process : Process α) (f : α → Process β) :
    (process >>= f).runOn platform = (f (process.runOn platform)).runOn platform := by
  induction process with
  | ended a => rfl
  | look isRead next ih => exact ih platform

@[simp] theorem runOn_forEach (f : α → Process β) (as : List α) :
    (forEach f as).runOn platform = as.map fun a => (f a).runOn platform := by
  induction as with
  | nil => rfl
  | cons a rest ih => simp only [forEach, runOn_bind, runOn_pure, ih, List.map_cons]

@[simp] theorem runOn_filter (keep : α → Process Bool) (as : List α) :
    (filter keep as).runOn platform = as.filter fun a => (keep a).runOn platform := by
  induction as with
  | nil => rfl
  | cons a rest ih => simp only [filter, runOn_bind, runOn_pure, ih, List.filter_cons]

@[simp] theorem runOn_any (condition : α → Process Bool) (as : List α) :
    (any condition as).runOn platform = as.any fun a => (condition a).runOn platform := by
  induction as with
  | nil => rfl
  | cons a rest ih =>
    rw [any, runOn_bind, List.any_cons, ← ih]
    cases (condition a).runOn platform <;> rfl

/-! ## Loading -/

/-- A question that may be refused is answered as the source answers it. -/
theorem runOn_answerOf {refusal : Process (Option SourceError)} (question : Platform → α) :
    (answerOf refusal question).runOn platform =
      match refusal.runOn platform with
      | some error => .error error
      | none => .ok (question platform) := by
  rw [answerOf, runOn_bind]
  cases refusal.runOn platform <;> rfl

/-- If each look at an op finds what reading it returns, then looking at one op after another finds
what `PermissionUsage.loadMerged` returns: both go on, skip the op or give up in the same cases. -/
theorem runOn_loadMerged {kind : LoadKind} {answer : String → Process (Except SourceError α)}
    {read : String → Except SourceError α} (h : ∀ op, (answer op).runOn platform = read op)
    (takeIn : β → α → β) (merged : β) (ops : List String) :
    (loadMerged kind answer takeIn merged ops).runOn platform =
      PermissionUsage.loadMerged kind read takeIn merged ops := by
  induction ops generalizing merged with
  | nil => rfl
  | cons op rest ih =>
    rw [loadMerged, PermissionUsage.loadMerged, runOn_bind, h]
    cases read op with
    | ok found => exact ih _
    | error cause =>
      cases cause with
      | unknownOp op => exact ih _
      | unavailable reason => rfl

/-- Read step by step, the platform gives what the loader gives. -/
theorem runOn_loadAccesses (ops : List String) (start stop : Millis) :
    (loadAccesses ops start stop).runOn platform =
      platform.source.loadAccesses ops start stop := by
  rw [loadAccesses, runOn_bind,
    runOn_loadMerged fun op => runOn_answerOf (·.accessesOf op start stop)]
  rfl

theorem runOn_loadLastUses (ops : List String) :
    (loadLastUses ops).runOn platform = platform.source.loadLastUses ops := by
  rw [loadLastUses, runOn_bind, runOn_loadMerged fun op => runOn_answerOf (·.lastUsesOf op)]
  rfl

/-! ## Visibility and sensitivity -/

/-- The packages that are shown. -/
theorem runOn_visibility : visibility.runOn platform = platform.isVisible := by
  simp only [visibility, runOn_bind, runOn_filter, runOn_lookup, runOn_pure]
  rfl

/-- The grants that need a warning. -/
theorem runOn_sensitivity (group : PermissionGroup) (owner : PackageUser) :
    (sensitivity group owner).runOn platform = platform.isSensitive group owner := by
  unfold sensitivity Services.isSensitive
  cases Services.isCallPlumbing owner.packageName group with
  | true => rfl
  | false =>
    show (lookup (·.packageInfo owner) >>= _ : Process Bool).runOn platform = _
    rw [runOn_bind, runOn_lookup]
    cases platform.packageInfo owner with
    | none => rfl
    | some info =>
      cases hsystem : info.isSystem with
      | false => simp [hsystem]
      | true =>
        simp only [hsystem, Bool.not_true, Bool.false_eq_true, if_false, runOn_any, Bool.not_false,
          Bool.true_and, Bool.false_or, Option.any_some]
        congr 1
        funext ⟨permission, index⟩
        -- the flags are asked for permissions of the group only
        by_cases hgroup : Permission.group? permission = some group
        · simp [hgroup]
        · simp [hgroup]

/-! ## Timelines and the dashboard -/

/-- Hence the steps of a timeline are its computation. -/
theorem runOn_computeTimeline (t : Timeline) (batches : List Batch) :
    (computeTimeline t batches).runOn platform = t.compute platform.toServices batches := by
  simp only [computeTimeline, runOn_bind, runOn_filter, runOn_forEach, runOn_lookup, runOn_pure,
    runOn_visibility, runOn_sensitivity]
  rw [Timeline.compute, Timeline.attributed, List.flatMap_def]
  rfl

theorem runOn_timeline (t : Timeline) (now : Millis) :
    (timeline t now).runOn platform = t.loadAndCompute platform.source platform.toServices now := by
  unfold timeline Timeline.loadAndCompute Timeline.load
  cases t.windowStart now with
  | error operation => rfl
  | ok start =>
    show (loadAccesses t.ops start now >>= _ : Process _).runOn platform = _
    rw [runOn_bind, runOn_loadAccesses]
    show _ = ((platform.source.loadAccesses t.ops start now).mapError ComputeError.load >>= _)
    cases platform.source.loadAccesses t.ops start now with
    | error error => rfl
    | ok batches =>
      show (computeTimeline t batches >>= _ : Process _).runOn platform = _
      rw [runOn_bind, runOn_computeTimeline]
      rfl

/-- Which groups an owner used does not depend on the sensitivity of their use, so it can be found
out afterwards. -/
theorem groupUses_eq_map (uses : LastUses) (ops : List String)
    (sensitive : PermissionGroup → PackageUser → Bool) :
    uses.groupUses ops (sensitive · uses.owner) =
      (uses.groupUses ops fun _ => false).map fun use =>
        { use with isSensitive := sensitive use.group use.owner } := by
  unfold LastUses.groupUses
  rw [List.map_filterMap]
  congr 1
  funext group
  cases uses.lastOf ops group <;> rfl

/-- The steps of the dashboard are its computation. -/
theorem runOn_computeDashboard (d : Dashboard) (uses : List LastUses) :
    (computeDashboard d uses).runOn platform = d.compute platform.toServices uses := by
  simp only [computeDashboard, runOn_bind, runOn_forEach, runOn_lookup, runOn_pure,
    runOn_visibility, runOn_sensitivity]
  unfold Dashboard.compute
  rw [List.filterMap_map, List.filterMap_flatMap, List.filter_flatMap]
  congr 1
  funext item
  rw [groupUses_eq_map, List.filter_map]
  -- both sides keep the uses that are requested and fill in their sensitivity
  induction item.groupUses d.ops fun _ => false with
  | nil => rfl
  | cons use rest ih =>
    rw [List.filterMap_cons, List.filter_cons, ih]
    cases h : platform.requests use.group use.owner <;> simp [h]

theorem runOn_dashboard (d : Dashboard) :
    (dashboard d).runOn platform = d.loadAndCompute platform.source platform.toServices := by
  unfold dashboard Dashboard.loadAndCompute
  rw [runOn_bind, runOn_loadLastUses]
  cases platform.source.loadLastUses d.ops with
  | error error => rfl
  | ok uses =>
    show (computeDashboard d uses >>= _ : Process _).runOn platform = _
    rw [runOn_bind, runOn_computeDashboard]
    rfl

end Process

/-- A computation that is left alone from its start ends with what recomputing in one go returns. -/
theorem UseCase.runOn_process (useCase : UseCase) (platform : Platform) (now : Millis) :
    (useCase.process now).runOn platform =
      useCase.recompute platform.source platform.toServices now := by
  cases useCase with
  | timeline t =>
    rw [process, Process.runOn_bind, Process.runOn_timeline]
    rfl
  | dashboard d =>
    rw [process, Process.runOn_bind, Process.runOn_dashboard]
    rfl

end PermissionUsage
