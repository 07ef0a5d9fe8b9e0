import PermissionUsage.Access.Labels
import PermissionUsage.Access.Source
import PermissionUsage.Episode.Basic
import PermissionUsage.Package.Services
/-!
# Timelines

The timeline of a dashboard group: the accesses of the group's ops, of the packages that may be
shown and still request the group, classified, split by label, clustered, one episode for each
cluster.
-/

namespace PermissionUsage

/-- Why a computation of usage ended without a result. -/
inductive ComputeError where
  | overflow (operation : Overflow)
  | load (error : LoadError)
  deriving DecidableEq, Repr

/-- What a timeline is computed for: a group with a usage history, its ops, and the features. -/
structure Timeline where
  group : PermissionGroup
  features : Features
  ops : List String
  ops_eq : group.historyOps features = .ok ops

namespace Timeline

/-- The timeline of a group, refused if the group has no usage history. -/
def ofGroup (group : PermissionGroup) (features : Features) : Except GroupError Timeline :=
  match h : group.historyOps features with
  | .ok ops => .ok { group, features, ops, ops_eq := h }
  | .error error => .error error

/-- When accesses of the timeline belong to one episode. -/
def clustering (timeline : Timeline) : Clustering := .ofFeatures timeline.features

/-- The batches that the timeline shows: of visible owners whose package requests the group. -/
def kept (timeline : Timeline) (services : Services) (batches : List Batch) : List Batch :=
  (batches.filter (services.isVisible ·.owner)).filter (services.requests timeline.group ·.owner)

def classify (timeline : Timeline) (services : Services) (batch : Batch) : Batch :=
  { batch with isSensitive := services.isSensitive timeline.group batch.owner }

/-- The batches to be clustered: kept, classified, and split by label. -/
def attributed (timeline : Timeline) (services : Services) (batches : List Batch) : List Batch :=
  ((timeline.kept services batches).map (timeline.classify services)).flatMap fun batch =>
    batch.byLabel (services.attribution batch.owner)

/-- The episodes of a snapshot of accesses. -/
def compute (timeline : Timeline) (services : Services) (batches : List Batch) :
    Checked (List Episode) := do
  Episode.ofClusters (← timeline.clustering.allClusters (timeline.attributed services batches))

/-- The first instant whose accesses are read at `now`. -/
def windowStart (timeline : Timeline) (now : Millis) : Checked Millis :=
  now.sub timeline.features.historyWindow

/-- The accesses of the timeline's ops in the history window that ends at `now`. -/
def load (timeline : Timeline) (source : AccessSource) (now : Millis) :
    Except ComputeError (List Batch) := do
  let start ← (timeline.windowStart now).mapError .overflow
  (source.loadAccesses timeline.ops start now).mapError .load

def loadAndCompute (timeline : Timeline) (source : AccessSource) (services : Services)
    (now : Millis) : Except ComputeError (List Episode) := do
  let batches ← timeline.load source now
  (timeline.compute services batches).mapError .overflow

end Timeline

end PermissionUsage
