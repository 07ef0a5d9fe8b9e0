import PermissionUsage.Live.Hub
/-!
# Subscriptions in time

Subscriptions on a platform whose time only moves on when it is told to. Then every worker makes all
its moves that are due by the end of the period. A move takes no time, except that a read waits for
a while before it looks at the platform. Whoever stops a subscription waits for its worker only,
which takes no time either: a computation that is reading gives up.
-/

namespace PermissionUsage

/-- What workers meet while they move: the platform, what their clock shows, and for how long a read
waits. -/
structure Surroundings where
  platform : Platform := .fresh
  now : Millis := 0
  wait : Nat := 0

namespace Worker

/-- The next move of a worker by the time `limit`, and when it is made. A look that ends a read is
made when the read is due. -/
def nextBy? (worker : Worker) (time due limit : Nat) : Option (Move × Nat) :=
  match worker.next? with
  | none => none
  | some .proceed =>
    if worker.running.any (·.isReading) then
      if due ≤ limit then some (.proceed, max time due) else none
    else some (.proceed, time)
  | some move => some (move, time)

/-- A schedule has only moves that are possible. -/
theorem can_of_nextBy? {worker : Worker} {time due limit : Nat} {move : Move} {made : Nat}
    (h : worker.nextBy? time due limit = some (move, made)) : worker.can move := by
  unfold nextBy? at h
  split at h
  · cases h
  · next hnext =>
    split at h
    · split at h
      · cases h; exact can_of_next? hnext
      · cases h
    · cases h; exact can_of_next? hnext
  · next hnext => cases h; exact can_of_next? hnext

/-- Makes all moves that are due by the time `limit`. A read that is begun is due after the wait.
The worker, and when the read that is under way is due. -/
def runUntil (surroundings : Surroundings) (limit : Nat) (worker : Worker) (time due : Nat) :
    Worker × Nat :=
  match _h : worker.nextBy? time due limit with
  | none => (worker, due)
  | some (move, time) =>
    let next := worker.make surroundings.platform surroundings.now move
    runUntil surroundings limit next time
      (if next.reads = worker.reads then due else time + surroundings.wait)
termination_by worker.left
decreasing_by exact lessLeft_make _ _ (can_of_nextBy? _h)

end Worker

/-- The subscription at the time `limit`, if its worker has made all moves that are due by then and
a stop has returned that waited for it. -/
def Subscription.runUntil (surroundings : Surroundings) (limit time : Nat) (s : Subscription) :
    Subscription :=
  let (worker, due) := s.worker.runUntil surroundings limit time s.due
  { s with worker, due }.stopReturns

structure Session where
  surroundings : Surroundings := {}
  time : Nat := 0
  hub : Hub := {}

namespace Session

/-- Lets time pass, at least one millisecond. -/
def advance (session : Session) (millis : Nat) : Session :=
  let limit := session.time + max 1 millis
  { session with
    time := limit
    hub := { session.hub with
      subscriptions :=
        session.hub.subscriptions.map (·.runUntil session.surroundings limit session.time) } }

/-- What was done with the hub is done: also the stops have returned. -/
def withHub (session : Session) (hub : Hub) : Session :=
  { session with
    hub := { hub with
      subscriptions := hub.subscriptions.map fun s =>
        if s.tenure = .stopping then s.runUntil session.surroundings session.time session.time
        else s } }

def start (session : Session) (name : String) (useCase : UseCase) : Session :=
  session.withHub (session.hub.start name useCase)

end Session

end PermissionUsage
