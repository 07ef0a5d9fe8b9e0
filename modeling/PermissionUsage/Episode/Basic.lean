import PermissionUsage.Access.Cluster
import PermissionUsage.Ordered.Set
/-!
# Episodes

An *episode* summarizes one cluster of accesses: the row of a permission timeline. It runs from the
first access to the last minute that any access covers, and its duration counts that minute.
-/

namespace PermissionUsage

/-- One row of a permission timeline. -/
structure Episode where
  owner : PackageUser
  ops : OrderedSet String
  start : Millis
  /-- The start of the last minute covered. -/
  finish : Millis
  duration : Millis
  isSensitive : Bool
  label : Option String := none
  tags : Option (OrderedSet String) := none
  proxyPackage : Option String := none
  proxyUser : Option UInt32 := none
  deriving DecidableEq

/-- A timeline that is being computed, or the episodes of the last computation. -/
inductive TimelineState where
  | loading
  | success (episodes : List Episode)
  deriving DecidableEq

namespace Episode

/-- The first access made through a proxy package. -/
def proxyAccess (accesses : List Access) : Option Access := accesses.find? (·.proxyPackage.isSome)

/-- The episode of a cluster; a batch without accesses has none. -/
def ofCluster (cluster : Batch) : Checked (Option Episode) :=
  match cluster.accesses with
  | [] => return none
  | first :: rest => do
    let accesses := first :: rest
    let start := Millis.earliest first.time (rest.map (·.time))
    let stop := Millis.latest (← first.endExclusive) (← rest.mapM Access.endExclusive)
    let proxy := proxyAccess accesses
    return some {
      owner := cluster.owner
      ops := .ofList (accesses.map (·.op))
      start
      finish := ← stop.sub Millis.oneMinute
      duration := ← stop.sub start
      isSensitive := cluster.isSensitive
      label := cluster.label
      tags := some (.ofList (accesses.filterMap (·.tag)))
      proxyPackage := proxy.bind (·.proxyPackage)
      proxyUser := proxy.bind (·.proxyUser) }

def ofClusters (clusters : List Batch) : Checked (List Episode) := do
  return (← clusters.mapM ofCluster).filterMap id

end Episode

end PermissionUsage
