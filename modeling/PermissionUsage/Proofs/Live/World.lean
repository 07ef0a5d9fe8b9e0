import PermissionUsage.Proofs.Live.Wiring
/-!
# Everything that may happen around subscriptions

A `World` is a hub with the platform its workers look at and the time their clocks show. In a world
anything may happen at any moment (`World.Event`): the platform or the clock changes, the platform
notifies of a change, subscriptions come and go, or a worker makes one of the moves that are
possible for it. A stop takes two events, between which anything may happen: it is called, and it
returns. Nothing says which worker moves next, which of its possible moves it makes, or how
long a read takes, so a list of events is one interleaving, and every interleaving is such a list.

`World.held_after` is the view of one subscription: while it is held, an event does to its worker
what `World.workerAfter` says and nothing else.
-/

namespace PermissionUsage

/-! ## Worlds -/

/-- Live subscriptions, the platform that their workers look at, and the time that their clocks
show. -/
structure World where
  platform : Platform
  now : Millis
  hub : Hub := {}

namespace World

/-- What may happen in a world. Subscriptions are told apart by their listeners. -/
inductive Event where
  | change (platform : Platform)
  | setClock (now : Millis)
  | notify (event : ChangeEvent)
  | start (name : String) (useCase : UseCase)
  | refresh (listener : ListenerId)
  | stop (listener : ListenerId)
  /-- A stop that was called before returns, if the worker has ended. -/
  | stopReturns (listener : ListenerId)
  | drop (listener : ListenerId)
  | see (listener : ListenerId)
  /-- A worker makes a move, if that move is possible. -/
  | move (listener : ListenerId) (move : Worker.Move)

/-- Lets a worker make a move, if it is possible. -/
def attempt (world : World) (move : Worker.Move) (worker : Worker) : Worker :=
  if worker.can move then worker.make world.platform world.now move else worker

/-- The world after an event. What concerns a subscription that does not exist has no effect. -/
def after (world : World) : Event → World
  | .change platform => { world with platform }
  | .setClock now => { world with now }
  | .notify event => { world with hub := (world.hub.notify event).2 }
  | .start name useCase => { world with hub := world.hub.start name useCase }
  | .refresh listener => { world with hub := world.hub.doTo listener world.hub.refresh }
  | .stop listener =>
    { world with hub := world.hub.doTo listener fun s => (world.hub.stop? s).getD world.hub }
  | .stopReturns listener => { world with hub := world.hub.doTo listener world.hub.stopReturns }
  | .drop listener => { world with hub := world.hub.doTo listener world.hub.drop }
  | .see listener => { world with hub := world.hub.doTo listener world.hub.see }
  | .move listener move =>
    { world with hub := world.hub.modify listener fun s =>
        { s with worker := world.attempt move s.worker } }

def run (world : World) (events : List Event) : World := events.foldl after world

/-- The event triggers the subscription of a listener, which watches the ops of a use case. -/
def Event.triggers (listener : ListenerId) (useCase : UseCase) : Event → Bool
  | .notify event => (ListenerFilter.watching useCase.watchedOps).accepts event
  | .refresh refreshed => listener = refreshed
  | _ => false

/-- What an event does to the worker of a subscription that is held before and after. -/
def workerAfter (world : World) (listener : ListenerId) (worker : Worker) : Event → Worker
  | .notify event =>
    if (ListenerFilter.watching worker.useCase.watchedOps).accepts event then worker.trigger
    else worker
  | .refresh refreshed => if listener = refreshed then worker.trigger else worker
  | .see seen => if listener = seen then worker.see else worker
  | .move moved move => if listener = moved then world.attempt move worker else worker
  | _ => worker

/-- An event that triggers a worker does nothing else to it. -/
theorem workerAfter_of_triggers {world : World} {listener : ListenerId} {worker : Worker}
    {event : Event} (h : event.triggers listener worker.useCase) :
    world.workerAfter listener worker event = worker.trigger := by
  cases event with
  | notify event => exact if_pos h
  | refresh refreshed => exact if_pos (of_decide_eq_true h)
  | _ => cases h

theorem useCase_attempt (world : World) (move : Worker.Move) (worker : Worker) :
    (world.attempt move worker).useCase = worker.useCase := by
  unfold attempt
  split
  · exact worker.useCase_make _ _ _
  · rfl

/-- No event changes what a worker computes. -/
theorem useCase_workerAfter (world : World) (listener : ListenerId) (worker : Worker)
    (event : Event) : (world.workerAfter listener worker event).useCase = worker.useCase := by
  cases event with
  | move moved move =>
    show (ite _ _ _ : Worker).useCase = _
    split
    · exact world.useCase_attempt move worker
    · rfl
  | notify | refresh | see =>
    show (ite _ _ _ : Worker).useCase = _
    split <;> rfl
  | change | setClock | start | stop | stopReturns | drop => rfl

/-! ## The view of one subscription -/

/-- An event starts a subscription, or changes nothing but what `Hub.Becomes` lists. -/
theorem becomes_after (world : World) (event : Event) :
    (∃ name useCase, event = .start name useCase) ∨ world.hub.Becomes (world.after event).hub := by
  cases event with
  | start name useCase => exact .inl ⟨name, useCase, rfl⟩
  | change | setClock => exact .inr (.same world.hub)
  | notify event => exact .inr (world.hub.becomes_notify event)
  | refresh listener => exact .inr (.doTo (fun s _ => world.hub.becomes_refresh s) listener)
  | stop listener => exact .inr (.doTo (fun _ => Hub.becomes_stop) listener)
  | stopReturns listener =>
    exact .inr (.doTo (fun s _ => .inside _ s.listener Subscription.inside_stopReturns) listener)
  | drop listener => exact .inr (.doTo (fun _ => Hub.becomes_drop) listener)
  | see listener =>
    exact .inr (.doTo (fun s _ => world.hub.becomes_work s.listener Worker.see fun _ => rfl)
      listener)
  | move listener move =>
    exact .inr (world.hub.becomes_work listener (world.attempt move) (world.useCase_attempt move))

/-- A subscription keeps its wiring, whatever happens. -/
theorem wired_after {world : World} {listener : ListenerId} (wired : world.hub.Wired listener)
    (event : Event) : (world.after event).hub.Wired listener := by
  obtain ⟨name, useCase, rfl⟩ | h := world.becomes_after event
  · exact wired.start name useCase
  · exact wired.becomes h

/-- While a subscription is held, an event does to its worker what `workerAfter` says. -/
theorem held_after {world : World} {listener : ListenerId} {s : Subscription} {event : Event}
    (wired : world.hub.Wired listener) (h : (world.after event).hub.at? listener = some s)
    (held : s.isHeld) :
    ∃ before, world.hub.at? listener = some before ∧ before.isHeld ∧
      s.worker = world.workerAfter listener before.worker event := by
  cases event with
  | change => exact ⟨s, h, held, rfl⟩
  | setClock => exact ⟨s, h, held, rfl⟩
  | notify event =>
    change (world.hub.notify event).2.at? listener = some s at h
    rw [Hub.at?_notify] at h
    -- the listeners concerned are those whose filters accept the change
    split at h
    · next hconcerned =>
      obtain ⟨before, hbefore, rfl⟩ := Option.map_eq_some_iff.1 h
      have haccepts :=
        (Registry.mem_concerned_iff (wired.registered before hbefore held) event).1 hconcerned
      exact ⟨before, hbefore, held, (if_pos haccepts).symm⟩
    · next hconcerned =>
      have haccepts :=
        mt (Registry.mem_concerned_iff (wired.registered s h held) event).2 hconcerned
      exact ⟨s, h, held, (if_neg haccepts).symm⟩
  | start name useCase =>
    change (world.hub.start name useCase).at? listener = some s at h
    rw [Hub.at?_start, if_neg] at h
    · exact ⟨s, Hub.at?_of_beforeStart h held, held, rfl⟩
    · rintro rfl
      exact Nat.lt_irrefl _ (wired.becomes (world.hub.becomes_beforeStart name)).known
  | refresh refreshed => exact Hub.held_of_refresh h held
  | stop stopped =>
    refine ⟨s, ?_, held, rfl⟩
    revert h
    refine Hub.doTo_induction (P := fun hub => hub.at? listener = some s → _) id fun r _ h => ?_
    unfold Hub.stop? at h
    split at h
    · change (world.hub.release r true).at? listener = some s at h
      exact (Hub.at?_of_release h held).2
    · exact h
  | stopReturns stopped =>
    revert h
    exact Hub.doTo_induction (P := fun hub => hub.at? listener = some s → _)
      (fun h => ⟨s, h, held, rfl⟩) fun r _ h => Hub.held_of_stopReturns h held
  | drop dropped =>
    refine ⟨s, ?_, held, rfl⟩
    revert h
    exact Hub.doTo_induction (P := fun hub => hub.at? listener = some s → _) id
      fun r _ h => Hub.at?_of_drop h held
  | see seen => exact Hub.held_of_see h held
  | move moved move => exact Hub.held_of_modify (world.useCase_attempt move) h held

/-- So a subscription stays wired along a run. -/
theorem wired_run {world : World} {listener : ListenerId} (wired : world.hub.Wired listener)
    (events : List Event) : (world.run events).hub.Wired listener := by
  induction events generalizing world with
  | nil => exact wired
  | cons event rest ih => exact ih (wired_after wired event)

end World

end PermissionUsage
