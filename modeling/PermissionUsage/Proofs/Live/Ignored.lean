import Mathlib
import PermissionUsage.Change.Event
import PermissionUsage.Live.UseCase
import PermissionUsage.Proofs.Access.Merging
/-!
# What a subscription ignores could not have changed its result

A subscription hears of changes through a filter on the ops that its use case watches. A change
that the filter rejects is about an op that is not watched, and such an op is never read:

* `ListenerFilter.accepts_watching_eq_false_iff`: which changes are rejected.
* `UseCase.recompute_congr`: a result depends on what a source answers about watched ops, and on
  nothing else that it answers.
* `Platform.SameBut`: platforms that differ in what there is of one op.

`UseCase.recompute_eq_of_ignored` puts these together.
-/

namespace PermissionUsage

/-! ## Rejected changes -/

theorem ChangeKind.contains_all (kind : ChangeKind) : all.contains kind = true := by
  cases kind <;> rfl

/-- Of all changes, those of ops that are not watched are rejected. -/
theorem ListenerFilter.accepts_watching_eq_false_iff {ops : List String} {event : ChangeEvent} :
    (watching ops).accepts event = false ↔ ∃ op, event.op? = some op ∧ op ∉ ops := by
  unfold accepts
  show (ChangeKind.all.contains event.kind && _) = false ↔ _
  rw [ChangeKind.contains_all, Bool.true_and]
  cases hop : event.op? with
  | none => simp
  | some op => simp [watching]

/-! ## What a result is read from -/

/-- A load asks about its ops and nothing else. -/
theorem loadMerged_congr {α γ : Type} {kind : LoadKind}
    {read read' : String → Except SourceError α} {takeIn : γ → α → γ} {ops : List String}
    (same : ∀ op ∈ ops, read op = read' op) (merged : γ) :
    loadMerged kind read takeIn merged ops = loadMerged kind read' takeIn merged ops := by
  induction ops generalizing merged with
  | nil => rfl
  | cons op rest ih =>
    obtain ⟨hop, hrest⟩ := List.forall_mem_cons.1 same
    rw [loadMerged, loadMerged, hop]
    -- what follows an op is the same from whatever was merged so far
    cases read' op with
    | ok found => exact ih hrest _
    | error cause =>
      cases cause with
      | unknownOp => exact ih hrest _
      | unavailable => rfl

/-- Sources that answer alike about the ops that a use case watches give it the same result. -/
theorem UseCase.recompute_congr {useCase : UseCase} {source other : AccessSource}
    (accesses : ∀ op ∈ useCase.watchedOps, source.accesses op = other.accesses op)
    (lastUses : ∀ op ∈ useCase.watchedOps, source.lastUses op = other.lastUses op)
    (services : Services) (now : Millis) :
    useCase.recompute source services now = useCase.recompute other services now := by
  cases useCase with
  | timeline timeline =>
    -- the window is known before anything is read, so the sources are compared from any start
    have hload : ∀ start, source.loadAccesses timeline.ops start now =
        other.loadAccesses timeline.ops start now := fun start =>
      congrArg (Except.map _) <|
        loadMerged_congr (fun op hop => congrFun₂ (accesses op hop) start now) _
    unfold recompute Timeline.loadAndCompute Timeline.load
    simp only [hload]
  | dashboard dashboard =>
    have hload : source.loadLastUses dashboard.ops = other.loadLastUses dashboard.ops :=
      congrArg (Except.map _) (loadMerged_congr lastUses _)
    unfold recompute Dashboard.loadAndCompute
    simp only [hload]

/-! ## Platforms that differ in one op -/

namespace Platform

/-- The platforms have the same services and the same fault, and what there is of any other op than
this one is the same: whether it is known, and its accesses, in their order. -/
structure SameBut (platform other : Platform) (op : String) : Prop where
  services : platform.toServices = other.toServices
  failure : platform.failure = other.failure
  isUnknown : ∀ o, o ≠ op → platform.isUnknown o = other.isUnknown o
  accesses : platform.accesses.filter (·.access.op ≠ op) =
    other.accesses.filter (·.access.op ≠ op)

namespace SameBut

variable {platform other : Platform} {op : String} (h : platform.SameBut other op)
include h

/-- Every other op is refused or not as before. -/
theorem refusal_eq {o : String} (hne : o ≠ op) : platform.refusal o = other.refusal o := by
  rw [refusal, refusal, h.failure, h.isUnknown o hne]

/-- A filter that leaves out the op finds the same. -/
theorem filter_accesses {p : OwnedAccess → Bool} (hp : ∀ a, p a = true → a.access.op ≠ op) :
    platform.accesses.filter p = other.accesses.filter p := by
  -- what `p` picks out is left where the accesses of the op are taken away first
  have hkept : ∀ l : List OwnedAccess, l.filter p = (l.filter (·.access.op ≠ op)).filter p := by
    intro l
    rw [List.filter_filter]
    refine List.filter_congr fun a _ => ?_
    cases ha : p a with
    | false => rfl
    | true => rw [decide_eq_true (hp a ha), Bool.and_true]
  rw [hkept, h.accesses, ← hkept]

/-- So the reads of every other op are the same. -/
theorem source_accesses_eq {o : String} (hne : o ≠ op) :
    platform.source.accesses o = other.source.accesses o := by
  funext start stop
  have haccesses : platform.accessesOf o start stop = other.accessesOf o start stop := by
    refine congrArg batches (h.filter_accesses fun a ha => ?_)
    rw [(of_decide_eq_true ha).1]
    exact hne
  show platform.readAccesses o start stop = other.readAccesses o start stop
  rw [readAccesses, readAccesses, h.refusal_eq hne, haccesses]

theorem source_lastUses_eq {o : String} (hne : o ≠ op) :
    platform.source.lastUses o = other.source.lastUses o := by
  have huses : platform.lastUsesOf o = other.lastUsesOf o := by
    refine congrArg (latestByOwner o) (h.filter_accesses fun a ha => ?_)
    rw [of_decide_eq_true ha]
    exact hne
  show platform.readLastUses o = other.readLastUses o
  rw [readLastUses, readLastUses, h.refusal_eq hne, huses]

end SameBut

end Platform

/-! ## Ignored changes -/

/-- **What a subscription ignores could not have changed its result.** A change that the filter of
a use case rejects is about an op, and platforms that differ in that op alone give the use case
the same result or the same error, at every time. -/
theorem UseCase.recompute_eq_of_ignored (useCase : UseCase) (event : ChangeEvent)
    (ignored : (ListenerFilter.watching useCase.watchedOps).accepts event = false) :
    ∃ op, event.op? = some op ∧ ∀ platform other : Platform, platform.SameBut other op →
      ∀ now, useCase.recompute platform.source platform.toServices now =
        useCase.recompute other.source other.toServices now := by
  obtain ⟨op, hop, hunwatched⟩ := ListenerFilter.accepts_watching_eq_false_iff.1 ignored
  refine ⟨op, hop, fun platform other hsame now => ?_⟩
  -- every op that is read is watched, and this one is not
  have hne : ∀ o ∈ useCase.watchedOps, o ≠ op := fun o ho heq => hunwatched (heq ▸ ho)
  rw [← hsame.services]
  apply recompute_congr
  · exact fun o ho => hsame.source_accesses_eq (hne o ho)
  · exact fun o ho => hsame.source_lastUses_eq (hne o ho)

/-! ### An emergency call

Without the location bypass the timeline of locations leaves emergency locations out, and a
subscription ignores them. With it the timeline has them, and the subscription hears of them.
-/

/-- The timeline of locations. -/
def Timeline.location (features : Features) : Timeline where
  group := .location
  features := features
  ops := [Op.fineLocation, Op.coarseLocation] ++
    if features.locationBypass then [Op.emergencyLocation] else []
  ops_eq := historyOps_location features

namespace EmergencyCall

def navigator : PackageUser := ⟨"com.example.navigator", 0⟩

def before : Platform :=
  ((Platform.fresh.install navigator [Permission.accessFineLocation] false).forgetOp
    Op.emergencyLocation).addAccesses navigator
      [{ op := Op.fineLocation, time := 6000000, duration := 120000 }]

def called : Platform :=
  ((Platform.fresh.install navigator [Permission.accessFineLocation] false).addAccesses navigator
    [{ op := Op.emergencyLocation, time := 600000, duration := -1 },
     { op := Op.fineLocation, time := 6000000, duration := 120000 }])

def event : ChangeEvent := .opNoted Op.emergencyLocation navigator

def now : Millis := 90000000

/-- When the episodes begin after the call, under some features. -/
def starts (features : Features) : Except ComputeError (List Millis) :=
  ((Timeline.location features).loadAndCompute called.source called.toServices now).map
    (·.map (·.start))

end EmergencyCall

open EmergencyCall in
/-- Emergency calls, which the location timeline reads only when asked to. -/
theorem UseCase.recompute_eq_of_emergencyCall :
    before.SameBut called Op.emergencyLocation ∧
      (ListenerFilter.watching (Timeline.location {}).ops).accepts event = false ∧
      (timeline (.location {})).recompute before.source before.toServices now =
        (timeline (.location {})).recompute called.source called.toServices now ∧
      starts {} = .ok [6000000] ∧
      (ListenerFilter.watching (Timeline.location { locationBypass := true }).ops).accepts event ∧
      starts { locationBypass := true } = .ok [600000, 6000000] := by
  have hsame : before.SameBut called Op.emergencyLocation := {
    services := rfl
    failure := rfl
    isUnknown := fun o hne => if_neg hne
    accesses := by decide +kernel }
  have hignored : (ListenerFilter.watching (Timeline.location {}).ops).accepts event = false := by
    decide +kernel
  obtain ⟨op, hop, hequal⟩ := recompute_eq_of_ignored (timeline (.location {})) event hignored
  obtain rfl := Option.some.inj hop
  have hstarts : starts {} = .ok [6000000] := by cbv
  have hbypass : starts { locationBypass := true } = .ok [600000, 6000000] := by cbv
  exact ⟨hsame, hignored, hequal before called hsame now, hstarts, by decide +kernel, hbypass⟩

end PermissionUsage
