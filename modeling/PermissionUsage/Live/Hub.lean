import PermissionUsage.Change.Registry
import PermissionUsage.Live.Worker
/-!
# Subscriptions

A subscription is a worker with a listener that triggers it at every change of an op its use case
watches. Subscriptions have names; a name stands for the subscription that was started under it
last. A subscription is held until it is stopped or dropped, and for as long its listener is
registered.

Stopping takes a while (`Tenure`): it tells the worker to end, removes the listener, and returns
once the worker has ended. Dropping does not wait.
-/

namespace PermissionUsage

/-- What has become of a subscription. -/
inductive Tenure where
  | held
  | dropped
  /-- Somebody stops it, and waits until its worker has ended. -/
  | stopping
  /-- The stop has returned. -/
  | stopped
  deriving DecidableEq, Repr

/-- It is neither stopped nor dropped. -/
def Tenure.isHeld : Tenure → Bool
  | .held => true
  | _ => false

/-- A worker, the listener that triggers it, and the name under which it was started. -/
structure Subscription where
  name : String
  listener : ListenerId
  worker : Worker
  tenure : Tenure := .held
  /-- The time at which the read that is under way looks at the platform. -/
  due : Nat := 0

namespace Subscription

def isHeld (s : Subscription) : Bool := s.tenure.isHeld

/-- Lets go of the subscription: its worker is told to end. -/
def release (s : Subscription) (waits : Bool) : Subscription :=
  { s with worker := s.worker.cancel, tenure := if waits then .stopping else .dropped }

/-- Whoever stops the subscription has waited long enough, if its worker has ended. -/
def stopReturns (s : Subscription) : Subscription :=
  if s.tenure = .stopping ∧ s.worker.phase = .ended then { s with tenure := .stopped } else s

end Subscription

/-- Subscriptions, newest first, and the registry of their listeners. -/
structure Hub where
  registry : Registry := .empty
  subscriptions : List Subscription := []

namespace Hub

def find? (hub : Hub) (name : String) : Option Subscription :=
  hub.subscriptions.find? (·.name = name)

def modify (hub : Hub) (listener : ListenerId) (change : Subscription → Subscription) : Hub :=
  { hub with subscriptions :=
      hub.subscriptions.map fun s => if s.listener = listener then change s else s }

/-- Lets go of a subscription and removes its listener. -/
def release (hub : Hub) (subscription : Subscription) (waits : Bool) : Hub :=
  { hub with registry := hub.registry.unregister subscription.listener }.modify
    subscription.listener (·.release waits)

/-- Drops a subscription, and does not wait for its worker. It has no effect a second time. -/
def drop (hub : Hub) (subscription : Subscription) : Hub :=
  if subscription.isHeld then hub.release subscription false else hub

/-- Begins to stop a subscription, which can be done once. -/
def stop? (hub : Hub) (subscription : Subscription) : Option Hub :=
  if subscription.isHeld then some (hub.release subscription true) else none

/-- The stop of a subscription returns, if its worker has ended. -/
def stopReturns (hub : Hub) (subscription : Subscription) : Hub :=
  hub.modify subscription.listener Subscription.stopReturns

/-- Starts a subscription and drops the one that had its name. -/
def start (hub : Hub) (name : String) (useCase : UseCase) : Hub :=
  let hub := (hub.find? name).elim hub hub.drop
  let (listener, registry) := hub.registry.register (.watching useCase.watchedOps)
  let subscription := { name, listener, worker := .ofUseCase useCase }
  { registry, subscriptions := subscription :: hub.subscriptions }

/-- Triggers a subscription, unless it was let go. -/
def refresh (hub : Hub) (subscription : Subscription) : Hub :=
  if subscription.isHeld then
    hub.modify subscription.listener fun s => { s with worker := s.worker.trigger }
  else hub

/-- Notifies of a change: every listener that it concerns triggers its subscription. The number of
these listeners. -/
def notify (hub : Hub) (event : ChangeEvent) : Nat × Hub :=
  let concerned := hub.registry.concerned event
  (concerned.length, concerned.foldl (fun hub listener =>
    hub.modify listener fun s => { s with worker := s.worker.trigger }) hub)

/-- Notes that the published state of a subscription was looked at. -/
def see (hub : Hub) (subscription : Subscription) : Hub :=
  hub.modify subscription.listener fun s => { s with worker := s.worker.see }

def reads (hub : Hub) : Nat := hub.subscriptions.foldl (fun n s => n + s.worker.reads) 0

end Hub

end PermissionUsage
