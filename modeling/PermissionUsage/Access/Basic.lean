import PermissionUsage.Package.Basic
/-!
# Accesses

One recorded use of an op, the time it covers, and its rounding to whole minutes. History is kept at
minute granularity: an access without a length covers the minute it falls into.
-/

namespace PermissionUsage

/-- One use of an op. It is *continuous* if its duration is positive, else instantaneous. -/
structure Access where
  op : String
  time : Millis
  duration : Millis
  tag : Option String := none
  proxyPackage : Option String := none
  proxyUser : Option UInt32 := none
  deriving DecidableEq, Repr, Inhabited

namespace Access

def isContinuous (access : Access) : Bool := 0 < access.duration.toInt

/-- The start of the last minute that the access covers. -/
def lastCovered (access : Access) : Checked Millis :=
  if access.isContinuous then do
    (← Millis.add access.time access.duration).sub Millis.oneMinute
  else .ok access.time

/-- The first instant after the access. -/
def endExclusive (access : Access) : Checked Millis :=
  if access.isContinuous then Millis.add access.time access.duration
  else Millis.add access.time Millis.oneMinute

/-- A duration rounded down to whole minutes. A positive one under a minute becomes `-1`, the
duration of an instantaneous access; one that is not positive stays. -/
def wholeMinutes (duration : Millis) : Millis :=
  if 0 < duration.toInt then
    if 60000 ≤ duration.toInt then Int64.ofInt (duration.toInt - duration.toInt % 60000) else -1
  else duration

/-- The access as the history keeps it: time and duration rounded down to whole minutes. -/
def truncated (access : Access) : Checked Access := do
  let time ← access.time.sub (Int64.ofInt (access.time.toInt % 60000))
  return { access with time, duration := wholeMinutes access.duration }

/-- Accesses are ordered by time and, at the same time, by op, so that the uses of one op within a
minute stand together; the other fields make the order total. -/
def order : Access → Access → Ordering :=
  compareLex (compareOn (·.time.toInt)) <|
  compareLex (compareOn (·.op)) <|
  compareLex (compareOn (·.duration.toInt)) <|
  compareLex (compareOn (·.tag)) <|
  compareLex (compareOn (·.proxyPackage)) <|
  compareOn (·.proxyUser)

instance : Ord Access := ⟨order⟩

instance : Std.TransOrd Access :=
  inferInstanceAs (Std.TransCmp (compareLex _ _))

instance : Std.LawfulEqOrd Access where
  eq_of_compare {a b} h := by
    have h : order a b = .eq := h
    simp only [order, compareLex_eq_eq, compareOn, Std.LawfulEqCmp.compare_eq_iff_eq] at h
    obtain ⟨htime, hop, hduration, htag, hpackage, huser⟩ := h
    cases a; cases b
    simp_all [Int64.toInt_inj]

def sort (accesses : List Access) : List Access :=
  accesses.mergeSort fun a b => (compare a b).isLE

end Access

/-- Accesses of one owner, with what is known of them so far. -/
structure Batch where
  owner : PackageUser
  accesses : List Access
  label : Option String := none
  isSensitive : Bool := false
  deriving DecidableEq, Repr, Inhabited

def Batch.withAccesses (batch : Batch) (accesses : List Access) : Batch := { batch with accesses }

end PermissionUsage
