import PermissionUsage.Proofs.Live.Published
import PermissionUsage.Proofs.Live.Registered
import PermissionUsage.Proofs.Live.World
/-!
# Subscriptions from their start to their end

A `Scene` is a world in which others use the registry too: listeners are registered directly, and a
trigger may still be on its way to a worker that was let go. A list of happenings is one
interleaving of all that. Whoever drops a subscription tells its worker to end and goes on; whoever
stops it waits as well, and anything may happen between the call and its return.

* `Scene.at?_after_of_some`: what a happening does to one subscription is a list of deeds.
* `Scene.Lives` is the invariant of a run, with the journals of the subscriptions beside the scene;
  `Scene.Lives.after` is its step and `Scene.Lives.run` the run.
* `Scene.Lives.exists_stopped`: a stop that was called can return, whatever the worker was doing.
* `Scene.shows_results`: over its whole life a subscription shows that it is loading, and then the
  results of its computations in the order of their starts. A computation may be about to publish
  when its subscription is let go, and then it does; no other result comes after that, and none at
  all once a stop has returned.
-/

namespace PermissionUsage

namespace Hub

/-- What happens to the worker of one listener. -/
theorem at?_modifyWorker {hub : Hub} {s : Subscription} (h : hub.at? s.listener = some s)
    (changed : ListenerId) (change : Worker → Worker) :
    (hub.modify changed fun s => { s with worker := change s.worker }).at? s.listener =
      some (if changed = s.listener then { s with worker := change s.worker } else s) := by
  rw [at?_modify hub changed s.listener]
  · by_cases hchanged : s.listener = changed
    · rw [if_pos hchanged, if_pos hchanged.symm, h]
      rfl
    · rw [if_neg hchanged, if_neg (Ne.symm hchanged), h]
  · intro s
    rfl

/-- A release touches the subscription it is about. -/
theorem at?_release {hub : Hub} {s : Subscription} (h : hub.at? s.listener = some s)
    (released : Subscription) (waits : Bool) :
    (hub.release released waits).at? s.listener =
      some (if released.listener = s.listener then s.release waits else s) := by
  rw [release, at?_modify _ released.listener s.listener]
  · by_cases hreleased : s.listener = released.listener
    · rw [if_pos hreleased, if_pos hreleased.symm]
      exact congrArg (Option.map _) h
    · rw [if_neg hreleased, if_neg (Ne.symm hreleased)]
      exact h
  · intro s
    rfl

/-- What is done only with a subscription that is held. -/
theorem at?_ifHeld {hub acted : Hub} {s after t : Subscription} (h : hub.at? s.listener = some s)
    (hacted : acted.at? s.listener = some (if t.listener = s.listener then after else s)) :
    (if t.isHeld then acted else hub).at? s.listener =
      some (if t.listener = s.listener ∧ t.isHeld then after else s) := by
  by_cases held : t.isHeld
  · rw [if_pos held, hacted]
    simp only [held, and_true]
  · rw [if_neg held, if_neg fun ht => held ht.2]
    exact h

/-- A drop lets go of a held subscription, and waits for nothing. -/
theorem at?_drop {hub : Hub} {s : Subscription} (h : hub.at? s.listener = some s)
    (dropped : Subscription) : (hub.drop dropped).at? s.listener =
      some (if dropped.listener = s.listener ∧ dropped.isHeld then s.release false else s) :=
  at?_ifHeld h (at?_release h dropped false)

/-- A stop lets go of it as well, and waits. -/
theorem at?_stop {hub : Hub} {s : Subscription} (h : hub.at? s.listener = some s)
    (stopped : Subscription) : ((hub.stop? stopped).getD hub).at? s.listener =
      some (if stopped.listener = s.listener ∧ stopped.isHeld then s.release true else s) := by
  have hstop : (hub.stop? stopped).getD hub =
      if stopped.isHeld then hub.release stopped true else hub := by
    unfold stop?
    split <;> rfl
  rw [hstop]
  exact at?_ifHeld h (at?_release h stopped true)

/-- A refresh is one more trigger for its worker. -/
theorem at?_refresh {hub : Hub} {s : Subscription} (h : hub.at? s.listener = some s)
    (refreshed : Subscription) : (hub.refresh refreshed).at? s.listener =
      some (if refreshed.listener = s.listener ∧ refreshed.isHeld then
        { s with worker := s.worker.trigger } else s) :=
  at?_ifHeld h (at?_modifyWorker h refreshed.listener Worker.trigger)

/-- What is done with the subscription of one listener, and only under a condition on it. -/
theorem at?_doTo {hub : Hub} {s after : Subscription} (h : hub.at? s.listener = some s)
    {p : Subscription → Prop} [DecidablePred p] {act : Subscription → Hub}
    (hact : ∀ t, (act t).at? s.listener = some (if t.listener = s.listener ∧ p t then after else s))
    (listener : ListenerId) : (hub.doTo listener act).at? s.listener =
      some (if listener = s.listener ∧ p s then after else s) := by
  unfold doTo
  cases hlistener : hub.at? listener with
  | none =>
    have hother : ¬(listener = s.listener ∧ p s) := by
      rintro ⟨rfl, -⟩
      cases h.symm.trans hlistener
    rw [if_neg hother]
    exact h
  | some t =>
    obtain rfl := listener_of_at? hlistener
    show (act t).at? s.listener = _
    rw [hact]
    by_cases hsame : t.listener = s.listener
    · -- the one that was found under this listener is the subscription itself
      rw [hsame, h] at hlistener
      obtain rfl := Option.some.inj hlistener
      rfl
    · rw [if_neg fun hp => hsame hp.1, if_neg fun hp => hsame hp.1]

end Hub

/-! ## Scenes -/

/-- A world with the listeners that others registered directly. -/
structure Scene where
  world : World
  direct : List ListenerId := []

/-- What may happen in a scene. -/
inductive Happening where
  | event (event : World.Event)
  /-- A trigger that was on its way reaches a worker, even one that was let go meanwhile. -/
  | arrive (listener : ListenerId)
  | register (filter : ListenerFilter)
  /-- Somebody removes a listener that was registered directly. -/
  | unregister (listener : ListenerId)

namespace Scene

def hub (scene : Scene) : Hub := scene.world.hub

/-- Something happens to the worker of a listener. -/
def meet (scene : Scene) (listener : ListenerId) (deed : Deed) : Scene :=
  { scene with world := { scene.world with hub := scene.hub.modify listener fun s =>
      { s with worker := s.worker.meet ⟨scene.world.platform, scene.world.now, deed⟩ } } }

/-- The scene after a happening. -/
def after (scene : Scene) : Happening → Scene
  | .event event => { scene with world := scene.world.after event }
  | .arrive listener => scene.meet listener .trigger
  | .register filter =>
    let (listener, registry) := scene.hub.registry.register filter
    { world := { scene.world with hub := { scene.hub with registry } }
      direct := listener :: scene.direct }
  | .unregister listener =>
    if listener ∈ scene.direct then
      { world := { scene.world with hub :=
          { scene.hub with registry := scene.hub.registry.unregister listener } }
        direct := scene.direct.filter (· ≠ listener) }
    else scene

def run (scene : Scene) (happenings : List Happening) : Scene := happenings.foldl after scene

/-- A happening lets go of a subscription: it is stopped or dropped, or another one takes its
name. -/
def letsGo (scene : Scene) (s : Subscription) : Happening → Bool
  | .event (.start name _) => (scene.hub.find? name).any (·.listener = s.listener)
  | .event (.stop listener) => listener = s.listener
  | .event (.drop listener) => listener = s.listener
  | _ => false

/-- What a happening does to the worker of a subscription: whoever lets go of a subscription tells
its worker to end. -/
def deeds (scene : Scene) (s : Subscription) : Happening → List Deed
  | .event (.notify event) =>
    if s.listener ∈ scene.hub.registry.concerned event then [.trigger] else []
  | .event (.refresh listener) => if listener = s.listener ∧ s.isHeld then [.trigger] else []
  | .event (.see listener) => if listener = s.listener then [.see] else []
  | .event (.move listener move) => if listener = s.listener then [.move move] else []
  | .arrive listener => if listener = s.listener then [.trigger] else []
  | happening => if scene.letsGo s happening && s.isHeld then [.cancel] else []

/-- What becomes of a subscription in a happening. -/
def tenureAfter (scene : Scene) (s : Subscription) : Happening → Tenure
  | .event (.stop listener) =>
    if scene.letsGo s (.event (.stop listener)) && s.isHeld then .stopping else s.tenure
  | .event (.stopReturns listener) =>
    if listener = s.listener then s.stopReturns.tenure else s.tenure
  | happening => if scene.letsGo s happening && s.isHeld then .dropped else s.tenure

/-- The moments of a happening for the worker of a subscription. -/
def moments (scene : Scene) (s : Subscription) (happening : Happening) : List Moment :=
  (scene.deeds s happening).map (⟨scene.world.platform, scene.world.now, ·⟩)

/-- A subscription after a happening. -/
def next (scene : Scene) (happening : Happening) (s : Subscription) : Subscription :=
  { s with
    worker := s.worker.meetAll (scene.moments s happening)
    tenure := scene.tenureAfter s happening }

section

variable {scene : Scene} {s : Subscription} {happening : Happening}

/-- A subscription to which nothing is done stays as it is. -/
theorem next_of_idle (h : scene.deeds s happening = [])
    (tenure : scene.tenureAfter s happening = s.tenure) : scene.next happening s = s := by
  unfold next moments
  rw [h, tenure]
  rfl

/-- A happening lets go of a subscription, if it does anything to it. -/
theorem next_of_leaving {waits : Bool} {p : Prop} [Decidable p]
    (h : scene.deeds s happening = if scene.letsGo s happening && s.isHeld then [.cancel] else [])
    (tenure : scene.tenureAfter s happening =
      if scene.letsGo s happening && s.isHeld then if waits then .stopping else .dropped
      else s.tenure)
    (hp : (scene.letsGo s happening && s.isHeld) = true ↔ p) :
    scene.next happening s = if p then s.release waits else s := by
  split
  · next hleaves =>
    unfold next moments
    rw [h, tenure, if_pos (hp.2 hleaves), if_pos (hp.2 hleaves)]
    rfl
  · next hstays =>
    exact next_of_idle (h.trans (if_neg (mt hp.1 hstays))) (tenure.trans (if_neg (mt hp.1 hstays)))

/-- What a happening does to a subscription, if it does anything, is one deed. -/
theorem next_of_deed {deed : Deed} {p : Prop} [Decidable p]
    (h : scene.deeds s happening = if p then [deed] else [])
    (tenure : scene.tenureAfter s happening = s.tenure) :
    scene.next happening s = if p then
      { s with worker := s.worker.meet ⟨scene.world.platform, scene.world.now, deed⟩ } else s := by
  split
  · next hp =>
    unfold next moments
    rw [h, tenure, if_pos hp]
    rfl
  · next hp => exact next_of_idle (h.trans (if_neg hp)) tenure

end

/-- A start lets go of an earlier subscription of the same name, and of no other. -/
theorem at?_after_start {scene : Scene} {s : Subscription}
    (registers : scene.hub.Registers scene.direct) (h : scene.hub.at? s.listener = some s)
    (name : String) (useCase : UseCase) :
    (scene.hub.start name useCase).at? s.listener =
      some (scene.next (.event (.start name useCase)) s) := by
  have hnew : s.listener ≠ ⟨(scene.hub.beforeStart name).registry.next⟩ := by
    intro heq
    have known := registers.known_of_at? h
    rw [heq, (scene.hub.becomes_beforeStart name).next] at known
    exact Nat.lt_irrefl _ known
  rw [Hub.at?_start, if_neg hnew, Hub.beforeStart]
  cases hfind : scene.hub.find? name with
  | none =>
    have hleaving : (scene.letsGo s (.event (.start name useCase)) && s.isHeld) = true ↔ False := by
      rw [letsGo, hfind]
      simp
    have hnext : scene.next (.event (.start name useCase)) s =
        if False then s.release false else s := next_of_leaving rfl rfl hleaving
    rw [hnext]
    exact h
  | some old =>
    have hold : scene.hub.at? old.listener = some old :=
      registers.at?_of_mem (List.mem_of_find?_eq_some hfind)
    -- the old one is the subscription itself if it has the same listener
    have hleaving : (scene.letsGo s (.event (.start name useCase)) && s.isHeld) = true ↔
        old.listener = s.listener ∧ old.isHeld := by
      rw [letsGo, hfind, Option.any_some, Bool.and_eq_true, decide_eq_true_eq]
      refine and_congr_right fun hsame => ?_
      rw [hsame, h] at hold
      rw [Option.some.inj hold]
    have hnext : scene.next (.event (.start name useCase)) s =
        if old.listener = s.listener ∧ old.isHeld then s.release false else s :=
      next_of_leaving rfl rfl hleaving
    rw [hnext]
    exact Hub.at?_drop h old

/-- A stop returns for the subscription that waits for it. -/
theorem at?_after_stopReturns {scene : Scene} {s : Subscription}
    (h : scene.hub.at? s.listener = some s) (stopped : ListenerId) :
    (scene.hub.doTo stopped scene.hub.stopReturns).at? s.listener =
      some (scene.next (.event (.stopReturns stopped)) s) := by
  have hnext : scene.next (.event (.stopReturns stopped)) s =
      if stopped = s.listener ∧ True then s.stopReturns else s := by
    obtain ⟨tenure, hreturns, -⟩ := s.stopReturns_eq
    unfold next
    rw [tenureAfter, hreturns]
    by_cases hstopped : stopped = s.listener
    · rw [if_pos hstopped, if_pos ⟨hstopped, trivial⟩]
      rfl
    · rw [if_neg hstopped, if_neg fun hp => hstopped hp.1]
      rfl
  rw [hnext]
  refine Hub.at?_doTo (p := fun _ => True) h (fun t => ?_) stopped
  rw [Hub.at?_stopReturns, h]
  by_cases ht : t.listener = s.listener
  · rw [if_pos ht.symm, if_pos ⟨ht, trivial⟩]
    rfl
  · rw [if_neg (Ne.symm ht), if_neg fun hp => ht hp.1]

/-- A happening does to each subscription what its deeds say. -/
theorem at?_after_of_some {scene : Scene} {s : Subscription}
    (registers : scene.hub.Registers scene.direct) (h : scene.hub.at? s.listener = some s)
    (happening : Happening) :
    (scene.after happening).hub.at? s.listener = some (scene.next happening s) := by
  -- what concerns other subscriptions only, or none at all
  have hidle : scene.deeds s happening = [] → scene.tenureAfter s happening = s.tenure →
      some s = some (scene.next happening s) := fun hdeeds htenure => by
    rw [next_of_idle hdeeds htenure]
  -- whether this subscription is let go is computed
  have hleaving : ∀ listener, (decide (listener = s.listener) && s.isHeld) = true ↔
      listener = s.listener ∧ s.isHeld := fun listener => by
    rw [Bool.and_eq_true, decide_eq_true_eq]
  cases happening with
  | event event =>
    cases event with
    | change | setClock => exact h.trans (hidle rfl rfl)
    | notify event =>
      rw [next_of_deed rfl rfl]
      show (scene.hub.notify event).2.at? s.listener = _
      rw [Hub.at?_notify, h]
      split <;> rfl
    | start name useCase => exact at?_after_start registers h name useCase
    | refresh refreshed =>
      rw [next_of_deed rfl rfl]
      exact Hub.at?_doTo h (Hub.at?_refresh h) refreshed
    | stop stopped =>
      have hnext : scene.next (.event (.stop stopped)) s =
          if stopped = s.listener ∧ s.isHeld then s.release true else s :=
        next_of_leaving rfl rfl (hleaving stopped)
      rw [hnext]
      exact Hub.at?_doTo h (Hub.at?_stop h) stopped
    | stopReturns stopped => exact at?_after_stopReturns h stopped
    | drop dropped =>
      have hnext : scene.next (.event (.drop dropped)) s =
          if dropped = s.listener ∧ s.isHeld then s.release false else s :=
        next_of_leaving rfl rfl (hleaving dropped)
      rw [hnext]
      exact Hub.at?_doTo h (Hub.at?_drop h) dropped
    | see seen =>
      have hsee : ∀ t, (scene.hub.see t).at? s.listener =
          some (if t.listener = s.listener ∧ True then
            { s with worker := s.worker.see } else s) := by
        intro t
        simp only [and_true]
        exact Hub.at?_modifyWorker h t.listener Worker.see
      have hdoTo := Hub.at?_doTo (p := fun _ => True) h hsee seen
      simp only [and_true] at hdoTo
      rw [next_of_deed rfl rfl]
      exact hdoTo
    | move moved move =>
      rw [next_of_deed rfl rfl]
      exact Hub.at?_modifyWorker h moved (scene.world.attempt move)
  | arrive arrived =>
    rw [next_of_deed rfl rfl]
    exact Hub.at?_modifyWorker h arrived Worker.trigger
  | register filter => exact h.trans (hidle rfl rfl)
  | unregister removed =>
    rw [← hidle rfl rfl]
    simp only [after]
    split <;> exact h

/-- A happening keeps the listeners of subscriptions, unless it starts one. -/
theorem listeners_after (scene : Scene) (happening : Happening) :
    (scene.after happening).hub.listeners = scene.hub.listeners ∨
      ∃ name useCase, happening = .event (.start name useCase) := by
  cases happening with
  | event event =>
    obtain ⟨name, useCase, rfl⟩ | h := scene.world.becomes_after event
    · exact .inr ⟨name, useCase, rfl⟩
    · exact .inl h.listeners
  | arrive listener => exact .inl (scene.hub.listeners_modify listener fun _ => rfl)
  | register => exact .inl rfl
  | unregister removed =>
    simp only [after]
    split <;> exact .inl rfl

/-- A subscription that was not there before was just started. -/
theorem at?_after_of_none {scene : Scene} {listener : ListenerId} {happening : Happening}
    {s : Subscription} (hnone : scene.hub.at? listener = none)
    (h : (scene.after happening).hub.at? listener = some s) :
    ∃ useCase, s.worker = .ofUseCase useCase ∧ s.tenure = .held := by
  obtain hsame | ⟨name, useCase, rfl⟩ := scene.listeners_after happening
  · rw [Hub.at?_eq_none_iff, ← hsame, ← Hub.at?_eq_none_iff, h] at hnone
    cases hnone
  · change (scene.hub.start name useCase).at? listener = some s at h
    rw [Hub.at?_start] at h
    split at h
    · obtain rfl := Option.some.inj h
      exact ⟨useCase, rfl, rfl⟩
    · rw [Hub.at?_eq_none_iff, ← (scene.hub.becomes_beforeStart name).listeners,
        ← Hub.at?_eq_none_iff, h] at hnone
      cases hnone

/-! ## Runs of scenes -/

/-- The registry goes on listing what is held and what is registered directly. -/
theorem registers_after {scene : Scene} (registers : scene.hub.Registers scene.direct)
    (happening : Happening) :
    (scene.after happening).hub.Registers (scene.after happening).direct := by
  cases happening with
  | event event =>
    obtain ⟨name, useCase, rfl⟩ | h := scene.world.becomes_after event
    · exact registers.start name useCase
    · exact registers.becomes h
  | arrive listener =>
    exact registers.modify listener (Subscription.inside_worker Worker.trigger fun _ => rfl)
  | register filter => exact registers.register filter
  | unregister removed =>
    by_cases hmem : removed ∈ scene.direct
    · simp only [after, if_pos hmem]
      exact registers.unregister hmem
    · simp only [after, if_neg hmem]
      exact registers

/-- What is noted of a happening for the subscription of a listener. -/
def notes (scene : Scene) (listener : ListenerId) (happening : Happening) : List Note :=
  (scene.hub.at? listener).elim [] fun s => s.worker.journal (scene.moments s happening)

/-- The journal of the subscription of a listener. -/
def journal (scene : Scene) (listener : ListenerId) : List Happening → List Note
  | [] => []
  | happening :: rest =>
    scene.notes listener happening ++ (scene.after happening).journal listener rest

/-- What holds in a scene in which these are the journals of the subscriptions. -/
structure Lives (scene : Scene) (journals : ListenerId → List Note) : Prop where
  registers : scene.hub.Registers scene.direct
  publishes : ∀ listener s, scene.hub.at? listener = some s →
    Publishes (journals listener) s.worker
  /-- A subscription is held until its worker is told to end. -/
  isHeld : ∀ listener s, scene.hub.at? listener = some s → s.isHeld = !s.worker.cancelled
  /-- A stop has waited for the worker when it returns. -/
  stopped : ∀ listener s, scene.hub.at? listener = some s →
    s.tenure = .stopped → s.worker.phase = .ended
  unborn : ∀ listener, scene.hub.at? listener = none → journals listener = []

section

variable {scene : Scene} {s : Subscription} {happening : Happening}

/-- A subscription is held until a happening lets go of it. -/
theorem isHeld_tenureAfter (scene : Scene) (s : Subscription) (happening : Happening) :
    (scene.tenureAfter s happening).isHeld = (s.isHeld && !scene.letsGo s happening) := by
  -- stops, drops and starts may let go of it
  have hleaves : ∀ tenure : Tenure, tenure.isHeld = false →
      (if scene.letsGo s happening && s.isHeld then tenure else s.tenure).isHeld =
        (s.isHeld && !scene.letsGo s happening) := by
    intro tenure htenure
    unfold Subscription.isHeld
    cases hgo : scene.letsGo s happening <;> cases hheld : s.tenure.isHeld <;> simp [htenure, hheld]
  -- anything else leaves it as it is
  have hstays : scene.letsGo s happening = false → scene.tenureAfter s happening = s.tenure →
      (scene.tenureAfter s happening).isHeld = (s.isHeld && !scene.letsGo s happening) := by
    intro hgo htenure
    rw [hgo, htenure, Bool.not_false, Bool.and_true]
    rfl
  cases happening with
  | event event =>
    cases event with
    | stop => exact hleaves .stopping rfl
    | start | drop => exact hleaves .dropped rfl
    | stopReturns listener =>
      show (ite _ _ _ : Tenure).isHeld = (s.isHeld && true)
      rw [Bool.and_true]
      split
      · exact s.isHeld_stopReturns
      · rfl
    | change | setClock | notify | refresh | see | move => exact hstays rfl rfl
  | arrive | register | unregister => exact hstays rfl rfl

/-- A worker is told to end when its subscription is let go, and not before. -/
theorem cancelled_next (scene : Scene) (s : Subscription) (happening : Happening) :
    (scene.next happening s).worker.cancelled =
      (s.worker.cancelled || (scene.letsGo s happening && s.isHeld)) := by
  -- where it is let go, the worker is told to end and nothing else is done
  have hleaves : scene.deeds s happening =
        (if scene.letsGo s happening && s.isHeld then [.cancel] else []) →
      (scene.next happening s).worker.cancelled =
        (s.worker.cancelled || (scene.letsGo s happening && s.isHeld)) := by
    intro hdeeds
    unfold next moments
    rw [hdeeds]
    cases scene.letsGo s happening && s.isHeld
    · exact (Bool.or_false _).symm
    · exact (Bool.or_true _).symm
  -- where it is not, what is done to the worker tells it nothing of that kind
  have hdeed : ∀ (deed : Deed) (p : Prop) [Decidable p], deed ≠ .cancel →
      scene.letsGo s happening = false → (scene.deeds s happening = if p then [deed] else []) →
      (scene.next happening s).worker.cancelled =
        (s.worker.cancelled || (scene.letsGo s happening && s.isHeld)) := by
    intro deed p _ hother hgo hdeeds
    unfold next moments
    rw [hdeeds, hgo, Bool.false_and, Bool.or_false]
    split
    · rcases (s.worker.meets ⟨scene.world.platform, scene.world.now, deed⟩).cancelled with
        ⟨hcancel, -⟩ | ⟨-, hsame⟩
      · exact absurd hcancel hother
      · exact hsame
    · rfl
  cases happening with
  | event event =>
    cases event with
    | notify | refresh => exact hdeed .trigger _ nofun rfl rfl
    | see => exact hdeed .see _ nofun rfl rfl
    | move _ move => exact hdeed (.move move) _ nofun rfl rfl
    | change | setClock | start | stop | stopReturns | drop => exact hleaves rfl
  | arrive => exact hdeed .trigger _ nofun rfl rfl
  | register | unregister => exact hleaves rfl

/-- A stop returns only where the worker has ended. -/
theorem ended_of_tenureAfter (h : scene.tenureAfter s happening = .stopped) :
    s.tenure = .stopped ∨ s.worker.phase = .ended := by
  have hleaves : ∀ tenure : Tenure, tenure ≠ .stopped →
      (if scene.letsGo s happening && s.isHeld then tenure else s.tenure) = .stopped →
        s.tenure = .stopped := by
    intro tenure hother heq
    split at heq
    · exact absurd heq hother
    · exact heq
  cases happening with
  | event event =>
    cases event with
    | stop => exact .inl (hleaves .stopping nofun h)
    | start | drop => exact .inl (hleaves .dropped nofun h)
    | stopReturns listener =>
      change (if listener = s.listener then s.stopReturns.tenure else s.tenure) = .stopped at h
      obtain ⟨tenure, hreturns, rfl | ⟨-, ended, -⟩⟩ := s.stopReturns_eq
      · rw [hreturns, ite_self] at h
        exact .inl h
      · exact .inr ended
    | change | setClock | notify | refresh | see | move => exact .inl h
  | arrive | register | unregister => exact .inl h

/-- A stop that has returned is the last that becomes of a subscription. -/
theorem tenureAfter_of_stopped (h : s.tenure = .stopped) (happening : Happening) :
    scene.tenureAfter s happening = .stopped := by
  have hleaves : ∀ (tenure : Tenure), (if scene.letsGo s happening && s.isHeld then tenure
      else s.tenure) = .stopped := by
    intro tenure
    rw [Subscription.isHeld, h, if_neg (by simp [Tenure.isHeld])]
  cases happening with
  | event event =>
    cases event with
    | stop => exact hleaves .stopping
    | start | drop => exact hleaves .dropped
    | stopReturns listener =>
      show (ite _ _ _ : Tenure) = .stopped
      obtain ⟨tenure, hreturns, rfl | ⟨hstopping, -⟩⟩ := s.stopReturns_eq
      · rw [hreturns, ite_self]
        exact h
      · cases h.symm.trans hstopping
    | change | setClock | notify | refresh | see | move => exact h
  | arrive | register | unregister => exact h

end

namespace Lives

variable {scene : Scene} {journals : ListenerId → List Note}

/-- What becomes of a subscription in a scene that has come about. -/
theorem at?_after (lives : scene.Lives journals) {listener : ListenerId} {s : Subscription}
    (h : scene.hub.at? listener = some s) (happening : Happening) :
    (scene.after happening).hub.at? listener = some (scene.next happening s) := by
  obtain rfl := Hub.listener_of_at? h
  exact at?_after_of_some lives.registers h happening

/-- What is found under a listener after a happening was there before, or was just started. -/
theorem at?_after_cases (lives : scene.Lives journals) {happening : Happening}
    {listener : ListenerId} {later : Subscription}
    (h : (scene.after happening).hub.at? listener = some later) :
    (∃ s, scene.hub.at? listener = some s ∧ later = scene.next happening s) ∨
      scene.hub.at? listener = none ∧
        ∃ useCase, later.worker = .ofUseCase useCase ∧ later.tenure = .held := by
  cases hbefore : scene.hub.at? listener with
  | none => exact .inr ⟨rfl, at?_after_of_none hbefore h⟩
  | some s =>
    exact .inl ⟨s, rfl, Option.some.inj (h.symm.trans (lives.at?_after hbefore happening))⟩

theorem after (lives : scene.Lives journals) (happening : Happening) :
    (scene.after happening).Lives fun listener =>
      journals listener ++ scene.notes listener happening where
  registers := registers_after lives.registers happening
  publishes listener later hlater := by
    rcases lives.at?_after_cases hlater with ⟨s, hs, rfl⟩ | ⟨hnone, useCase, hworker, -⟩
    · rw [notes, hs]
      exact (lives.publishes listener s hs).meetAll _
    · -- a subscription that was just started has an empty journal
      rw [lives.unborn listener hnone, notes, hnone, hworker]
      exact .ofUseCase useCase
  isHeld listener later hlater := by
    rcases lives.at?_after_cases hlater with ⟨s, hs, rfl⟩ | ⟨-, useCase, hworker, held⟩
    · show (scene.tenureAfter s happening).isHeld = _
      rw [isHeld_tenureAfter, cancelled_next, lives.isHeld listener s hs]
      cases s.worker.cancelled <;> cases scene.letsGo s happening <;> rfl
    · rw [hworker, Subscription.isHeld, held]
      rfl
  stopped listener later hlater hstopped := by
    rcases lives.at?_after_cases hlater with ⟨s, hs, rfl⟩ | ⟨-, useCase, -, held⟩
    · rcases ended_of_tenureAfter hstopped with h | ended
      · exact Worker.ended_meetAll (lives.stopped listener s hs h) _
      · exact Worker.ended_meetAll ended _
    · cases hstopped.symm.trans held
  unborn listener hnone := by
    cases hbefore : scene.hub.at? listener with
    | none => rw [lives.unborn listener hbefore, notes, hbefore]; rfl
    | some before =>
      rw [lives.at?_after hbefore happening] at hnone
      cases hnone

/-- And the run, by induction over the happenings. -/
theorem run (lives : scene.Lives journals) (happenings : List Happening) :
    (scene.run happenings).Lives fun listener =>
      journals listener ++ scene.journal listener happenings := by
  induction happenings generalizing scene journals with
  | nil =>
    simp only [journal, List.append_nil]
    exact lives
  | cons happening rest ih =>
    have hrest := ih (lives.after happening)
    simp only [List.append_assoc] at hrest
    exact hrest

/-- A subscription stays, and what happens to its worker is what its journal tells. -/
theorem exists_later (lives : scene.Lives journals) {listener : ListenerId} {s : Subscription}
    (h : scene.hub.at? listener = some s) (happenings : List Happening) :
    ∃ later moments, (scene.run happenings).hub.at? listener = some later ∧
      later.worker = s.worker.meetAll moments ∧
      scene.journal listener happenings = s.worker.journal moments ∧
      (s.tenure = .stopped → later.tenure = .stopped) := by
  induction happenings generalizing scene journals s with
  | nil => exact ⟨s, [], h, rfl, rfl, id⟩
  | cons happening rest ih =>
    obtain ⟨later, moments, hlater, hworker, hjournal, hstopped⟩ :=
      ih (lives.after happening) (lives.at?_after h happening)
    refine ⟨later, scene.moments s happening ++ moments, hlater, ?_, ?_, fun stopped => ?_⟩
    · rw [hworker]
      exact List.foldl_append.symm
    · rw [journal, notes, h, hjournal, Worker.journal_append]
      rfl
    · exact hstopped (tenureAfter_of_stopped stopped happening)

end Lives

/-! ## What is seen of subscriptions -/

/-- A subscription with its journal: what it shows. -/
structure Shows (s : Subscription) (notes : List Note) : Prop where
  /-- It is loading at first, and shows the last result after that. -/
  published : s.worker.published = shownAfter s.worker.useCase.loading (results 0 notes)
  isResult : ∀ result ∈ results 0 notes, s.worker.useCase.isResult result.2
  /-- The numbers of the computations whose results were shown. -/
  inOrder : ((results 0 notes).map (·.1)).Pairwise (· < ·)

/-- A subscription and what becomes of it, with its journal now and from now on. -/
structure Continues (s later : Subscription) (notes more : List Note) : Prop where
  listener : later.listener = s.listener
  useCase : later.worker.useCase = s.worker.useCase
  /-- What was shown stays in its place before what is shown later. -/
  growing : results 0 notes <+: results 0 (notes ++ more)
  /-- A subscription that was let go publishes what a computation was about to publish then, and
  nothing else. -/
  closing : s.isHeld = false →
    (results 0 (notes ++ more)).map (·.2) <+: (results 0 notes).map (·.2) ++ s.worker.pending
  /-- A subscription whose stop has returned publishes nothing any more. -/
  silent : s.tenure = .stopped → later.tenure = .stopped ∧
    results 0 (notes ++ more) = results 0 notes ∧
    later.worker.published = s.worker.published ∧
    (later.worker.unseen = true → s.worker.unseen = true)

/-- A subscription shows the results that its journal tells of. -/
theorem Lives.shows {scene : Scene} {journals : ListenerId → List Note}
    (lives : scene.Lives journals) {s : Subscription} (h : s ∈ scene.hub.subscriptions) :
    Shows s (journals s.listener) := by
  have hpublishes := lives.publishes s.listener s (lives.registers.at?_of_mem h)
  exact ⟨hpublishes.shown, hpublishes.isResult, hpublishes.inOrder⟩

/-- It goes on as its journal goes on. -/
theorem Lives.exists_continues {scene : Scene} {journals : ListenerId → List Note}
    (lives : scene.Lives journals) {s : Subscription} (h : s ∈ scene.hub.subscriptions)
    (more : List Happening) : ∃ later ∈ (scene.run more).hub.subscriptions,
      Continues s later (journals s.listener) (scene.journal s.listener more) := by
  have hs := lives.registers.at?_of_mem h
  have hpublishes := lives.publishes s.listener s hs
  obtain ⟨later, moments, hlater, hworker, hjournal, hstopped⟩ := lives.exists_later hs more
  have hresults := results_append 0 (journals s.listener) (scene.journal s.listener more)
  refine ⟨later, Hub.mem_of_at? hlater, Hub.listener_of_at? hlater, ?_, ?_,
    fun hgone => ?_, fun stopped => ⟨hstopped stopped, ?_⟩⟩
  · rw [hworker, s.worker.useCase_meetAll]
  · rw [hresults]
    exact List.prefix_append _ _
  · -- the worker is told to end: all that it still publishes is what it was about to publish
    have hcancelled : s.worker.cancelled = true := by
      rw [lives.isHeld s.listener s hs] at hgone
      simpa using hgone
    rw [hresults, List.map_append, hjournal, ← hpublishes.results_of_cancelled hcancelled moments,
      ← List.append_assoc]
    exact List.prefix_append _ _
  · -- the stop has returned, so the worker has ended
    have ended := lives.stopped s.listener s hs stopped
    have hsilent := hpublishes.results_of_ended ended moments
    have hshown : later.worker.published = s.worker.published := by
      rw [hworker, (hpublishes.meetAll moments).shown, hpublishes.shown, s.worker.useCase_meetAll,
        results_append, hsilent, List.append_nil]
    rw [hresults, hjournal, hsilent, List.append_nil, hworker]
    rw [hworker] at hshown
    exact ⟨rfl, hshown, Worker.unseen_meetAll (hsilent 0)⟩

/-! ## Stops return -/

/-- A worker makes moves, and nobody else does anything. -/
def moving (listener : ListenerId) (moves : List Worker.Move) : List Happening :=
  moves.map fun move => .event (.move listener move)

/-- A run of moves of its own worker. -/
theorem Lives.at?_moving {scene : Scene} {journals : ListenerId → List Note}
    (lives : scene.Lives journals) {listener : ListenerId} {s : Subscription}
    (h : scene.hub.at? listener = some s) (moves : List Worker.Move) :
    (scene.run (moving listener moves)).hub.at? listener = some { s with
      worker := s.worker.meetAll
        (moves.map fun move => ⟨scene.world.platform, scene.world.now, .move move⟩) } := by
  induction moves generalizing scene journals s with
  | nil => exact h
  | cons move rest ih =>
    have hnext := lives.at?_after h (.event (.move listener move))
    rw [next_of_deed (p := listener = s.listener) rfl rfl,
      if_pos (Hub.listener_of_at? h).symm] at hnext
    exact ih (lives.after _) hnext

/-- **A stop returns.** Whatever a worker was doing when its subscription was stopped, it comes to
its end by moves of its own, and then the stop can return. -/
theorem Lives.exists_stopped {scene : Scene} {journals : ListenerId → List Note}
    (lives : scene.Lives journals) {s : Subscription} (h : s ∈ scene.hub.subscriptions)
    (stopping : s.tenure = .stopping) :
    ∃ moves, ∃ later ∈ (scene.run (moving s.listener moves ++
        [.event (.stopReturns s.listener)])).hub.subscriptions,
      later.listener = s.listener ∧ later.tenure = .stopped := by
  have hs := lives.registers.at?_of_mem h
  have hcancelled : s.worker.cancelled = true := by
    have hheld := lives.isHeld s.listener s hs
    rw [Subscription.isHeld, stopping] at hheld
    exact Bool.not_eq_eq_eq_not.1 hheld.symm
  -- the worker is told to end, and comes to its end
  obtain ⟨moves, hended⟩ :=
    s.worker.exists_ended hcancelled scene.world.platform scene.world.now
  have hmoved := lives.at?_moving hs moves
  -- now there is nothing left to wait for
  have hreturned := (lives.run (moving s.listener moves)).at?_after hmoved
    (.event (.stopReturns s.listener))
  have hrun : scene.run (moving s.listener moves ++ [.event (.stopReturns s.listener)]) =
      (scene.run (moving s.listener moves)).after (.event (.stopReturns s.listener)) :=
    List.foldl_append
  rw [← hrun] at hreturned
  refine ⟨moves, _, Hub.mem_of_at? hreturned, rfl, ?_⟩
  show (ite _ _ _ : Tenure) = .stopped
  rw [if_pos rfl, Subscription.stopReturns, if_pos ⟨stopping, hended⟩]

/-- A subscription is held from its start until it is let go. -/
theorem Lives.isHeld_after_iff {scene : Scene} {journals : ListenerId → List Note}
    (lives : scene.Lives journals) {happening : Happening} {next : Subscription}
    (h : next ∈ (scene.after happening).hub.subscriptions) :
    next.isHeld = true ↔ ∀ s ∈ scene.hub.subscriptions, s.listener = next.listener →
      s.isHeld = true ∧ scene.letsGo s happening = false := by
  have hnext := (lives.after happening).registers.at?_of_mem h
  rcases lives.at?_after_cases hnext with ⟨before, hbefore, hsame⟩ | ⟨hnone, -, -, held⟩
  · have hmem : before ∈ scene.hub.subscriptions := Hub.mem_of_at? hbefore
    have hheld : next.isHeld = (before.isHeld && !scene.letsGo before happening) := by
      rw [hsame, ← isHeld_tenureAfter]
      rfl
    rw [hheld, Bool.and_eq_true, Bool.not_eq_true']
    refine ⟨fun held s hs hlistener => ?_, fun hall =>
      hall before hmem (Hub.listener_of_at? hbefore)⟩
    rw [← hlistener, lives.registers.at?_of_mem hs] at hbefore
    obtain rfl := Option.some.inj hbefore
    exact held
  · -- a subscription that is new is held, and no older one has its listener
    refine iff_of_true (by rw [Subscription.isHeld, held]; rfl) fun s hs hlistener => ?_
    rw [← hlistener, lives.registers.at?_of_mem hs] at hnone
    cases hnone

/-- A scene before anything has happened. -/
def fresh (platform : Platform) (now : Millis) : Scene := { world := { platform, now } }

/-- At first there are no subscriptions. -/
theorem lives_fresh (platform : Platform) (now : Millis) :
    (fresh platform now).Lives fun _ => [] where
  registers := ⟨.nil, nofun, .nil⟩
  publishes listener s h := by cases h
  isHeld listener s h := by cases h
  stopped listener s h := by cases h
  unborn _ _ := rfl

/-- **The life of a subscription.** Whatever happens to any number of subscriptions and in whatever
order: the registry holds one listener for each subscription that is held, besides those that were
registered directly; a subscription is held from its start until it is let go; it shows that it is
loading, and then the results of its computations in the order in which they were started; what is
shown stays in its place. A subscription that was let go publishes what a computation was about to
publish, and nothing else; one whose stop has returned publishes nothing more; and every stop can
return. -/
theorem shows_results (platform : Platform) (now : Millis) (happenings : List Happening) :
    let scene := (fresh platform now).run happenings
    let journal := fun listener => (fresh platform now).journal listener happenings
    (scene.hub.registry.listeners.map (·.1)).Perm (scene.hub.heldListeners ++ scene.direct) ∧
      (∀ happening, ∀ next ∈ (scene.after happening).hub.subscriptions,
        next.isHeld = true ↔ ∀ s ∈ scene.hub.subscriptions, s.listener = next.listener →
          s.isHeld = true ∧ scene.letsGo s happening = false) ∧
      (∀ s ∈ scene.hub.subscriptions, Shows s (journal s.listener) ∧
        ∀ more, ∃ later ∈ (scene.run more).hub.subscriptions,
          Continues s later (journal s.listener) (scene.journal s.listener more)) ∧
      ∀ s ∈ scene.hub.subscriptions, s.tenure = .stopping →
        ∃ moves, ∃ later ∈ (scene.run (moving s.listener moves ++
            [.event (.stopReturns s.listener)])).hub.subscriptions,
          later.listener = s.listener ∧ later.tenure = .stopped := by
  intro scene journal
  have lives : scene.Lives journal := (lives_fresh platform now).run happenings
  exact ⟨lives.registers.ids, fun happening next hnext => lives.isHeld_after_iff hnext,
    fun s hs => ⟨lives.shows hs, lives.exists_continues hs⟩,
    fun s hs stopping => lives.exists_stopped hs stopping⟩

/-! ### Stopped in the middle of a computation

The first computation of a subscription ends well and the second one fails. The third one has
checked that it may publish, and is marked for a follow-up, when the subscription is stopped: it
publishes while the stop waits, and there is no follow-up. A trigger that comes after the return
finds a worker that has ended. Beside it there are another subscription and a listener of somebody
else.
-/

namespace StoppedMidway

open Worker.SteadyTriggers (board owner platform shown)

def first : ListenerId := ⟨0⟩

/-- The app has used the camera once more. -/
def usedAgain : Platform :=
  platform.addAccesses owner [{ op := Op.camera, time := 640000, duration := -1 }]

def shownAgain : UsageState :=
  .dashboard (.success [{ owner, group := .camera, last := 640000, isSensitive := true }])

def move (move : Worker.Move) : Happening := .event (.move first move)

/-- A computation from the handling of triggers on, as far as it goes in some steps. -/
def turn (steps : Nat) : List Happening :=
  .event (.refresh first) :: move .takeTriggers :: List.replicate steps (move .proceed)

/-- What happens until the subscription is stopped. -/
def before : List Happening :=
  [.event (.start "first" board), .register {}, .event (.start "second" board), move .boot] ++
    List.replicate 22 (move .proceed) ++ move .noticeEnd ::
    .event (.change (platform.failWith (.unavailable "gone"))) :: turn 2 ++
    move .noticeEnd :: .event (.change usedAgain) :: turn 21 ++ turn 0

/-- The stop, until it returns. -/
def stop : List Happening :=
  [.event (.stop first), .event (.stopReturns first), move .leave, move .join, move .proceed,
    move .join, .event (.stopReturns first)]

/-- The scene in which the stop has returned. -/
def stopped : Scene := (fresh platform 660000).run (before ++ stop)

/-- What was noted of the subscription until then. -/
def noted : List Note := (fresh platform 660000).journal first (before ++ stop)

def late : List Happening :=
  [.arrive first, move .proceed, move .noticeEnd, move .takeTriggers]

end StoppedMidway

open StoppedMidway in
open Worker.SteadyTriggers (platform shown) in
/-- A subscription is stopped while a result is about to be published: the result is shown still,
and nothing after the return. -/
theorem shows_results_of_stoppedMidway :
    (stopped.hub.registry.listeners.map (·.1)).Perm [⟨2⟩, ⟨1⟩] ∧
      results 0 noted = [(1, shown), (3, shownAgain)] ∧
      ∃ s ∈ stopped.hub.subscriptions, s.tenure = .stopped ∧ Shows s noted ∧
        ∃ later ∈ (stopped.run late).hub.subscriptions,
          later.listener = first ∧ later.tenure = .stopped ∧
            later.worker.published = shownAgain := by
  obtain ⟨hids, -, hsubscriptions, -⟩ := shows_results platform 660000 (before ++ stop)
  have hscene : (fresh platform 660000).run (before ++ stop) = stopped := rfl
  rw [hscene] at hids hsubscriptions
  have hheld : stopped.hub.heldListeners ++ stopped.direct = [⟨2⟩, ⟨1⟩] := by decide +kernel
  have hresults : results 0 noted = [(1, shown), (3, shownAgain)] := by decide +kernel
  have hfirst : (stopped.hub.at? first).map (fun s => (s.tenure, s.worker.published)) =
      some (.stopped, shownAgain) := by decide +kernel
  obtain ⟨s, hs, hseen⟩ := Option.map_eq_some_iff.1 hfirst
  obtain ⟨hstopped, hpublished⟩ := Prod.mk.inj hseen
  have hlistener : s.listener = first := Hub.listener_of_at? hs
  have hmem : s ∈ stopped.hub.subscriptions := Hub.mem_of_at? hs
  obtain ⟨hshows, hcontinues⟩ := hsubscriptions s hmem
  rw [hlistener] at hshows
  obtain ⟨later, hlater, hcontinues⟩ := hcontinues late
  obtain ⟨hstays, -, hsame, -⟩ := hcontinues.silent hstopped
  exact ⟨hids.trans (.of_eq hheld), hresults, s, hmem, hstopped, hshows, later, hlater,
    hcontinues.listener.trans hlistener, hstays, hsame.trans hpublished⟩

end Scene

end PermissionUsage
