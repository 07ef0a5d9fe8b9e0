import PermissionUsage.Access.Basic
/-!
# Clusters

The accesses of a batch, in order, are cut into *clusters* of accesses close in time. The walk is
greedy: an access that cannot continue the open cluster closes it and opens the next one.
`flatten_split` says that cutting moves no access and `ne_nil_of_mem_split` that no cluster is
empty.
-/

namespace PermissionUsage

/-- When accesses belong to one episode. -/
structure Clustering where
  /-- The largest gap, in minutes, that does not end a cluster. -/
  spacingMinutes : Int64 := 1
  /-- Ops that cluster with accesses of the same op only. -/
  selfClusteringOps : List String := []
  deriving DecidableEq, Repr, Inhabited

namespace Clustering

/-- With the location bypass, emergency location stays apart from everything else. -/
def ofFeatures (features : Features) : Clustering :=
  { selfClusteringOps := if features.locationBypass then [Op.emergencyLocation] else [] }

def isSelfClustering (config : Clustering) (op : String) : Bool :=
  config.selfClusteringOps.contains op

/-- Two neighbouring accesses of these ops are kept apart. -/
def separates (config : Clustering) (op other : String) : Bool :=
  (config.isSelfClustering op || config.isSelfClustering other) && op != other

/-- The last minute covered by any access of a list, if there is one. -/
def coveredUntil (cluster : List Access) : Checked (Option Millis) := do
  match ← cluster.mapM Access.lastCovered with
  | [] => return none
  | first :: rest => return some (Millis.latest first rest)

/-- Whether an access continues the episode formed by a cluster. Ops are compared with the most
recent access only. The gap is measured from the last minute covered by any access, so that a long
access can pull in later ones. -/
def canJoin (config : Clustering) (candidate : Access) (cluster : List Access) : Checked Bool :=
  match cluster.getLast? with
  | none => return true
  | some previous =>
    if config.separates candidate.op previous.op then return false
    else do
      match ← coveredUntil cluster with
      | none => return true
      | some covered =>
        return candidate.time.minute - covered.minute ≤ config.spacingMinutes.toInt

/-- Cuts `rest`, a list in order, with the cluster `current` open. -/
def split (config : Clustering) (current : List Access) :
    List Access → Checked (List (List Access))
  | [] => return if current.isEmpty then [] else [current]
  | access :: rest => do
    if ← config.canJoin access current then
      split config (current ++ [access]) rest
    else
      return current :: (← split config [access] rest)

/-- The clusters of a batch, each one a batch of the same owner, label and sensitivity. -/
def clusters (config : Clustering) (batch : Batch) : Checked (List Batch) := do
  return (← config.split [] (Access.sort batch.accesses)).map batch.withAccesses

/-- The clusters of all batches, batch by batch. -/
def allClusters (config : Clustering) (batches : List Batch) : Checked (List Batch) := do
  return (← batches.mapM config.clusters).flatten

/-! ## What cutting keeps -/

theorem canJoin_nil (config : Clustering) (candidate : Access) :
    config.canJoin candidate [] = .ok true := rfl

theorem split_nil (config : Clustering) (current : List Access) :
    config.split current [] = .ok (if current.isEmpty then [] else [current]) := rfl

/-- One step of the walk: the access joins the open cluster, or closes it and opens another. -/
theorem split_cons_eq_ok_iff {config : Clustering} {current : List Access} {access : Access}
    {rest : List Access} {parts : List (List Access)} :
    config.split current (access :: rest) = .ok parts ↔
      (config.canJoin access current = .ok true ∧
          config.split (current ++ [access]) rest = .ok parts) ∨
        config.canJoin access current = .ok false ∧
          ∃ further, config.split [access] rest = .ok further ∧ parts = current :: further := by
  rw [split]
  cases config.canJoin access current with
  | error e => simp [bind, Except.bind]
  | ok joins =>
    cases joins with
    | true => simp [bind, Except.bind]
    | false =>
      cases config.split [access] rest with
      | error e => simp [bind, Except.bind]
      | ok further => simp [bind, Except.bind, pure, Except.pure, eq_comm]

/-- Cutting neither loses an access nor moves one. -/
theorem flatten_split {config : Clustering} {current rest : List Access}
    {parts : List (List Access)} (h : config.split current rest = .ok parts) :
    parts.flatten = current ++ rest := by
  induction rest generalizing current parts with
  | nil =>
    obtain rfl := Except.ok.inj h
    cases current <;> rfl
  | cons access rest ih =>
    rcases split_cons_eq_ok_iff.1 h with ⟨-, hrest⟩ | ⟨-, further, hrest, rfl⟩
    · simpa using ih hrest
    · simpa using ih hrest

/-- No part is empty: a cluster is opened with an access. -/
theorem ne_nil_of_mem_split {config : Clustering} {current rest : List Access}
    {parts : List (List Access)} (h : config.split current rest = .ok parts) :
    ∀ part ∈ parts, part ≠ [] := by
  induction rest generalizing current parts with
  | nil =>
    obtain rfl := Except.ok.inj h
    cases current <;> simp
  | cons access rest ih =>
    rcases split_cons_eq_ok_iff.1 h with ⟨-, hrest⟩ | ⟨hjoin, further, hrest, rfl⟩
    · exact ih hrest
    · intro part hpart
      rcases List.mem_cons.1 hpart with rfl | hpart
      · rintro rfl
        cases hjoin
      · exact ih hrest part hpart

end Clustering

end PermissionUsage
