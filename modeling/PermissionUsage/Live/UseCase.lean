import PermissionUsage.Episode.Timeline
import PermissionUsage.LastUse.Groups
import PermissionUsage.Live.Process
/-!
# Use cases

What can be kept up to date while the platform changes: the timeline of a group or the dashboard.
Alone, a computation is one function of the platform and the time. While other things happen it is a
process: each question to the platform is a look of its own, in the order in which the questions
come up.
-/

namespace PermissionUsage

inductive UseCase where
  | timeline (timeline : Timeline)
  | dashboard (dashboard : Dashboard)

inductive UsageState where
  | timeline (state : TimelineState)
  | dashboard (state : DashboardState)
  deriving DecidableEq

namespace UseCase

def name : UseCase → String
  | timeline t => s!"timeline {t.group.name}"
  | dashboard _ => "privacy dashboard"

/-- The ops whose changes make a result out of date. -/
def watchedOps : UseCase → List String
  | timeline t => t.ops
  | dashboard d => d.ops

/-- What is published before the first computation has ended. -/
def loading : UseCase → UsageState
  | timeline _ => .timeline .loading
  | dashboard _ => .dashboard .loading

/-- The result at `now`, from a source of records and the services. -/
def recompute (useCase : UseCase) (source : AccessSource) (services : Services) (now : Millis) :
    Except ComputeError UsageState :=
  match useCase with
  | timeline t => (t.loadAndCompute source services now).map (.timeline ∘ .success)
  | dashboard d => (d.loadAndCompute source services).map (.dashboard ∘ .success)

end UseCase

namespace Process

/-! ## Loading -/

/-- What the platform answers unless it refuses: it is asked for a refusal first. -/
def answerOf {α : Type} (refusal : Process (Option SourceError)) (question : Platform → α) :
    Process (Except SourceError α) := do
  match ← refusal with
  | some error => return .error error
  | none => return .ok (← lookup question)

/-- Reads one op after another and takes in what was read, as `PermissionUsage.loadMerged` does. -/
def loadMerged {α γ : Type} (kind : LoadKind) (answer : String → Process (Except SourceError α))
    (takeIn : γ → α → γ) (merged : γ) : List String → Process (Except LoadError γ)
  | [] => return .ok merged
  | op :: ops => do
    match ← answer op with
    | .ok found => loadMerged kind answer takeIn (takeIn merged found) ops
    | .error (.unknownOp _) => loadMerged kind answer takeIn merged ops
    | .error cause => return .error { kind, op, cause }

/-- The accesses of several ops in a range of time, one batch for each owner. -/
def loadAccesses (ops : List String) (start stop : Millis) :
    Process (Except LoadError (List Batch)) := do
  let merged ← loadMerged .accesses
    (fun op => answerOf (read (·.refusal op)) (·.accessesOf op start stop))
    (Merged.addAll Batch.owner_join) .empty ops
  return merged.map (·.items)

/-- The latest uses of several ops, one item for each owner. These reads take no time. -/
def loadLastUses (ops : List String) : Process (Except LoadError (List LastUses)) := do
  let merged ← loadMerged .lastUses
    (fun op => answerOf (lookup (·.refusal op)) (·.lastUsesOf op))
    (Merged.addAll LastUses.owner_join) .empty ops
  return merged.map (·.items)

/-! ## Visibility and sensitivity -/

/-- Whose usage may be shown, as `Services.isVisible` says. -/
def visibility : Process (PackageUser → Bool) := do
  let profiles ← lookup (·.profiles)
  let visible ← filter (fun user => do
    let quiet ← lookup (·.isQuiet user)
    let shows ← lookup (·.showsWhenQuiet user)
    return !quiet || shows) profiles
  let isExempted ← lookup (·.isExempted)
  return fun owner => visible.contains owner.userId && !isExempted owner.packageName

/-- The use of a group by a package is user sensitive, as `Services.isSensitive` says. -/
def sensitivity (group : PermissionGroup) (owner : PackageUser) : Process Bool := do
  if Services.isCallPlumbing owner.packageName group then return false
  match ← lookup (·.packageInfo owner) with
  | none => return false
  | some info =>
    if !info.isSystem then return true
    any (fun (permission, index) => do
      if Permission.group? permission ≠ some group then return false
      let flags ← lookup (·.permissionFlags permission owner)
      return Services.flagsSensitive (info.flagsAt index) flags) info.requestedPermissions.zipIdx

/-! ## Timelines and the dashboard -/

/-- The episodes of a snapshot of accesses, as `Timeline.compute` says. -/
def computeTimeline (timeline : Timeline) (batches : List Batch) :
    Process (Checked (List Episode)) := do
  let isVisible ← visibility
  let kept ← filter (fun batch => lookup (·.requests timeline.group batch.owner))
    (batches.filter (isVisible ·.owner))
  let classified ← forEach (fun batch => do
    return { batch with isSensitive := ← sensitivity timeline.group batch.owner }) kept
  let attributed ← forEach (fun batch => do
    return batch.byLabel (← lookup (·.attribution batch.owner))) classified
  return timeline.clustering.allClusters attributed.flatten >>= Episode.ofClusters

/-- The episodes at `now`, as `Timeline.loadAndCompute` says. -/
def timeline (timeline : Timeline) (now : Millis) : Process (Except ComputeError (List Episode)) :=
  match timeline.windowStart now with
  | .error operation => return .error (.overflow operation)
  | .ok start => do
    match ← loadAccesses timeline.ops start now with
    | .error error => return .error (.load error)
    | .ok batches => return (← computeTimeline timeline batches).mapError .overflow

/-- The last uses of groups, as `Dashboard.compute` says. -/
def computeDashboard (dashboard : Dashboard) (uses : List LastUses) :
    Process (List GroupUse) := do
  let isVisible ← visibility
  let candidates := (uses.filter (isVisible ·.owner)).flatMap
    (·.groupUses dashboard.ops fun _ => false)
  let checks ← forEach (fun use => do
    let requests ← lookup (·.requests use.group use.owner)
    let isSensitive ← sensitivity use.group use.owner
    return if requests then some { use with isSensitive } else none) candidates
  return checks.filterMap id

/-- The last uses of groups as they are now, as `Dashboard.loadAndCompute` says. -/
def dashboard (dashboard : Dashboard) : Process (Except ComputeError (List GroupUse)) := do
  match ← loadLastUses dashboard.ops with
  | .error error => return .error (.load error)
  | .ok uses => return .ok (← computeDashboard dashboard uses)

end Process

abbrev Outcome := Except ComputeError UsageState

/-- The computation that is started at `now`. -/
def UseCase.process (useCase : UseCase) (now : Millis) : Process Outcome :=
  match useCase with
  | timeline t => do return (← Process.timeline t now).map (.timeline ∘ .success)
  | dashboard d => do return (← Process.dashboard d).map (.dashboard ∘ .success)

end PermissionUsage
