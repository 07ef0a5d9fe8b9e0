import PermissionUsage.Live.Hub
import PermissionUsage.Proofs.Change.Registry
/-!
# Hubs, one subscription at a time

A hub changes its subscriptions through their listeners. The lemmas say what becomes of the
subscription of one listener (`Hub.at?`) when something is done to the hub.

* `Hub.at?_modify`, `Hub.at?_notify`: the other subscriptions stay as they are, and a notification
  triggers each subscription it concerns once.
* `Hub.Becomes`: all that may be done to the subscriptions of a hub. An invariant of hubs is a case
  analysis of it, and of `Hub.start`.
* `Hub.Wired` is such an invariant: while a subscription is held, it is registered under the filter
  of its use case. With `Registry.mem_concerned_iff` this says which changes reach it.
-/

namespace PermissionUsage

namespace Subscription

variable (s : Subscription)

/-- A subscription that was let go is not held any more. -/
theorem isHeld_release (waits : Bool) : (s.release waits).isHeld = false := by
  cases waits <;> rfl

/-- What the return of a stop changes is the tenure: it was `stopping`, with an ended worker. -/
theorem stopReturns_eq : ∃ tenure, s.stopReturns = { s with tenure } ∧
    (tenure = s.tenure ∨ s.tenure = .stopping ∧ s.worker.phase = .ended ∧ tenure = .stopped) := by
  unfold stopReturns
  split
  · next h => exact ⟨_, rfl, .inr ⟨h.1, h.2, rfl⟩⟩
  · exact ⟨_, rfl, .inl rfl⟩

theorem listener_stopReturns : s.stopReturns.listener = s.listener := by
  obtain ⟨_, h, -⟩ := s.stopReturns_eq
  rw [h]

theorem worker_stopReturns : s.stopReturns.worker = s.worker := by
  obtain ⟨_, h, -⟩ := s.stopReturns_eq
  rw [h]

theorem isHeld_stopReturns : s.stopReturns.isHeld = s.isHeld := by
  obtain ⟨_, h, rfl | ⟨hstopping, -, rfl⟩⟩ := s.stopReturns_eq
  · rw [h]
  · rw [h, isHeld, isHeld, hstopping]
    rfl

/-- Something happens inside a subscription: its listener and its use case stay, and it is held
afterwards if it was before. -/
structure Inside (change : Subscription → Subscription) : Prop where
  listener : ∀ s, (change s).listener = s.listener
  isHeld : ∀ s, (change s).isHeld = s.isHeld
  useCase : ∀ s, (change s).worker.useCase = s.worker.useCase

theorem inside_worker (change : Worker → Worker)
    (useCase : ∀ worker, (change worker).useCase = worker.useCase) :
    Inside fun s => { s with worker := change s.worker } :=
  ⟨fun _ => rfl, fun _ => rfl, fun s => useCase s.worker⟩

theorem inside_stopReturns : Inside stopReturns :=
  ⟨listener_stopReturns, isHeld_stopReturns, fun s => congrArg Worker.useCase s.worker_stopReturns⟩

end Subscription

namespace Hub

def at? (hub : Hub) (listener : ListenerId) : Option Subscription :=
  hub.subscriptions.find? (·.listener = listener)

/-- A subscription is found under its own listener. -/
theorem listener_of_at? {hub : Hub} {listener : ListenerId} {s : Subscription}
    (h : hub.at? listener = some s) : s.listener = listener := by
  simpa using List.find?_some h

/-- What is found is there. -/
theorem mem_of_at? {hub : Hub} {listener : ListenerId} {s : Subscription}
    (h : hub.at? listener = some s) : s ∈ hub.subscriptions :=
  List.mem_of_find?_eq_some h

/-- Does something with the subscription of a listener, if there is one. -/
def doTo (hub : Hub) (listener : ListenerId) (act : Subscription → Hub) : Hub :=
  (hub.at? listener).elim hub act

/-- What is done to a subscription happens to the one that is found, if there is one. -/
theorem doTo_induction {P : Hub → Prop} {hub : Hub} {listener : ListenerId}
    {act : Subscription → Hub} (hub_ok : P hub)
    (act_ok : ∀ s, hub.at? listener = some s → P (act s)) : P (hub.doTo listener act) := by
  unfold doTo
  cases h : hub.at? listener with
  | none => exact hub_ok
  | some s => exact act_ok s h

/-! ## What is done to one subscription -/

/-- Changing the subscriptions of one listener leaves those of the others alone. -/
theorem at?_modify (hub : Hub) (changed listener : ListenerId)
    {change : Subscription → Subscription} (hchange : ∀ s, (change s).listener = s.listener) :
    (hub.modify changed change).at? listener =
      if listener = changed then (hub.at? listener).map change else hub.at? listener := by
  unfold at? modify
  induction hub.subscriptions with
  | nil => simp
  | cons s rest ih =>
    -- what is found stands first, or is found in the rest
    rw [List.map_cons, List.find?_cons, List.find?_cons]
    by_cases hs : s.listener = changed
    · by_cases hl : s.listener = listener
      · simp [hs, hchange, ← hl]
      · have hne : listener ≠ changed := fun h => hl (hs.trans h.symm)
        simp only [hs, if_true, hchange, hne.symm, hne, if_false, decide_false]
        simpa [hne] using ih
    · by_cases hl : s.listener = listener
      · have hne : listener ≠ changed := fun h => hs (hl.trans h)
        simp [hl, hne]
      · simpa [hs, hl] using ih

/-- A notification triggers the subscriptions of the listeners it concerns, each once, and leaves
the others alone. -/
theorem at?_notify (hub : Hub) (event : ChangeEvent) (listener : ListenerId) :
    (hub.notify event).2.at? listener =
      if listener ∈ hub.registry.concerned event then
        (hub.at? listener).map fun s => { s with worker := s.worker.trigger }
      else hub.at? listener := by
  show (List.foldl _ hub (hub.registry.concerned event)).at? listener = _
  -- each listener is concerned once, so its subscription is triggered once
  have hnodup := hub.registry.nodup_concerned event
  generalize hub.registry.concerned event = concerned at hnodup ⊢
  induction concerned generalizing hub with
  | nil => rfl
  | cons first rest ih =>
    obtain ⟨hfirst, hrest⟩ := List.nodup_cons.1 hnodup
    rw [List.foldl_cons, ih _ hrest, at?_modify]
    · by_cases hl : listener = first
      · subst hl
        rw [if_neg hfirst, if_pos rfl, if_pos List.mem_cons_self]
      · simp [hl]
    · intro s
      rfl

/-- A subscription that is still held after another one was let go is that one's neighbour: nothing
was done to it. -/
theorem at?_of_release {hub : Hub} {released s : Subscription} {waits : Bool}
    {listener : ListenerId} (h : (hub.release released waits).at? listener = some s)
    (held : s.isHeld) : listener ≠ released.listener ∧ hub.at? listener = some s := by
  rw [release, at?_modify] at h
  · split at h
    · obtain ⟨before, -, rfl⟩ := Option.map_eq_some_iff.1 h
      rw [before.isHeld_release] at held
      cases held
    · next hne => exact ⟨hne, h⟩
  · intro s
    rfl

/-- A stop returns for one subscription, and no other is touched. -/
theorem at?_stopReturns (hub : Hub) (stopped : Subscription) (listener : ListenerId) :
    (hub.stopReturns stopped).at? listener =
      if listener = stopped.listener then (hub.at? listener).map (·.stopReturns)
      else hub.at? listener :=
  hub.at?_modify stopped.listener listener Subscription.listener_stopReturns

/-- What happens inside one subscription leaves each that is held as it was, or changes just that
one. -/
theorem held_of_inside {hub : Hub} {changed listener : ListenerId}
    {change : Subscription → Subscription} (inside : Subscription.Inside change)
    {s : Subscription} (h : (hub.modify changed change).at? listener = some s) (held : s.isHeld) :
    ∃ before, hub.at? listener = some before ∧ before.isHeld ∧
      s = if listener = changed then change before else before := by
  rw [at?_modify hub changed listener inside.listener] at h
  split at h
  · next hl =>
    obtain ⟨before, hbefore, rfl⟩ := Option.map_eq_some_iff.1 h
    rw [inside.isHeld] at held
    exact ⟨before, hbefore, held, (if_pos hl).symm⟩
  · next hl => exact ⟨s, h, held, (if_neg hl).symm⟩

/-! ## What may be done to a hub -/

/-- What becomes of a hub that starts no subscription: something happens inside one, or one that is
held is let go, any number of times. -/
inductive Becomes : Hub → Hub → Prop where
  | same (hub : Hub) : Becomes hub hub
  | inside (hub : Hub) (changed : ListenerId) {change : Subscription → Subscription}
    (inside : Subscription.Inside change) : Becomes hub (hub.modify changed change)
  | release {hub : Hub} {released : Subscription} (hmem : released ∈ hub.subscriptions)
    (held : released.isHeld) (waits : Bool) : Becomes hub (hub.release released waits)
  | trans {first second third : Hub} (h : Becomes first second) (h' : Becomes second third) :
    Becomes first third

/-- What is done to the subscription that is found becomes of the hub. -/
theorem Becomes.doTo {hub : Hub} {act : Subscription → Hub}
    (h : ∀ s ∈ hub.subscriptions, hub.Becomes (act s)) (listener : ListenerId) :
    hub.Becomes (hub.doTo listener act) :=
  doTo_induction (.same hub) fun s hs => h s (mem_of_at? hs)

theorem becomes_work (hub : Hub) (changed : ListenerId) (change : Worker → Worker)
    (useCase : ∀ worker, (change worker).useCase = worker.useCase) :
    hub.Becomes (hub.modify changed fun s => { s with worker := change s.worker }) :=
  .inside hub changed (Subscription.inside_worker change useCase)

theorem becomes_refresh (hub : Hub) (refreshed : Subscription) :
    hub.Becomes (hub.refresh refreshed) := by
  unfold Hub.refresh
  split
  · exact hub.becomes_work refreshed.listener Worker.trigger fun _ => rfl
  · exact .same hub

/-- A notification triggers one worker after another. -/
theorem becomes_notify (hub : Hub) (event : ChangeEvent) : hub.Becomes (hub.notify event).2 := by
  show hub.Becomes (List.foldl _ hub (hub.registry.concerned event))
  generalize hub.registry.concerned event = concerned
  induction concerned generalizing hub with
  | nil => exact .same hub
  | cons first rest ih =>
    exact .trans (hub.becomes_work first Worker.trigger fun _ => rfl) (ih _)

theorem becomes_stop {hub : Hub} {stopped : Subscription} (hmem : stopped ∈ hub.subscriptions) :
    hub.Becomes ((hub.stop? stopped).getD hub) := by
  unfold Hub.stop?
  split
  · next held => exact .release hmem held true
  · exact .same hub

theorem becomes_drop {hub : Hub} {dropped : Subscription} (hmem : dropped ∈ hub.subscriptions) :
    hub.Becomes (hub.drop dropped) := by
  unfold Hub.drop
  split
  · next held => exact .release hmem held false
  · exact .same hub

/-- The hub of which a new subscription becomes part: one of the same name was dropped. -/
def beforeStart (hub : Hub) (name : String) : Hub := (hub.find? name).elim hub hub.drop

theorem becomes_beforeStart (hub : Hub) (name : String) : hub.Becomes (hub.beforeStart name) := by
  unfold Hub.beforeStart
  cases hfind : hub.find? name with
  | none => exact .same hub
  | some old => exact becomes_drop (List.mem_of_find?_eq_some hfind)

/-- Numbers for listeners are given out by starts only. -/
theorem Becomes.next {hub later : Hub} (h : hub.Becomes later) :
    later.registry.next = hub.registry.next := by
  induction h with
  | same | inside | release => rfl
  | trans _ _ ih ih' => exact ih'.trans ih

/-! ## Wiring -/

/-- A listener that is known to a hub and whose subscription, while it is held, is registered under
the filter of its use case. -/
structure Wired (hub : Hub) (listener : ListenerId) : Prop where
  known : listener.number < hub.registry.next
  registered : ∀ s, hub.at? listener = some s → s.isHeld →
    (listener, .watching s.worker.useCase.watchedOps) ∈ hub.registry.listeners

/-- A listener stays wired, whatever is done to the subscriptions. -/
theorem Wired.becomes {hub later : Hub} {listener : ListenerId} (wired : hub.Wired listener)
    (h : hub.Becomes later) : later.Wired listener := by
  induction h with
  | same => exact wired
  | inside hub changed inside =>
    refine ⟨wired.known, fun s hs held => ?_⟩
    obtain ⟨before, hbefore, hheld, rfl⟩ := held_of_inside inside hs held
    have huse := wired.registered before hbefore hheld
    split
    · rw [inside.useCase]
      exact huse
    · exact huse
  | release =>
    refine ⟨wired.known, fun s hs held => ?_⟩
    -- the listener that goes is not that of a subscription that is still held
    obtain ⟨hne, hs⟩ := at?_of_release hs held
    exact Registry.mem_listeners_unregister (wired.registered s hs held) hne
  | trans _ _ ih ih' => exact ih' (ih wired)

/-- What is still held was not dropped. -/
theorem at?_of_drop {hub : Hub} {dropped s : Subscription} {listener : ListenerId}
    (h : (hub.drop dropped).at? listener = some s) (held : s.isHeld) :
    hub.at? listener = some s := by
  unfold Hub.drop at h
  split at h
  · exact (at?_of_release h held).2
  · exact h

/-- What is held afterwards was held before. -/
theorem at?_of_beforeStart {hub : Hub} {name : String} {s : Subscription} {listener : ListenerId}
    (h : (hub.beforeStart name).at? listener = some s) (held : s.isHeld) :
    hub.at? listener = some s := by
  unfold Hub.beforeStart at h
  cases hfind : hub.find? name with
  | none => rwa [hfind] at h
  | some old =>
    rw [hfind] at h
    exact at?_of_drop h held

/-- A new subscription has a listener of its own, which no subscription had before. -/
theorem at?_start (hub : Hub) (name : String) (useCase : UseCase) (listener : ListenerId) :
    (hub.start name useCase).at? listener =
      if listener = ⟨(hub.beforeStart name).registry.next⟩ then
        some { name, listener, worker := .ofUseCase useCase }
      else (hub.beforeStart name).at? listener := by
  show List.find? _ ((⟨name, ⟨(hub.beforeStart name).registry.next⟩, .ofUseCase useCase, .held, 0⟩ :
    Subscription) :: (hub.beforeStart name).subscriptions) = _
  rw [List.find?_cons]
  by_cases hl : listener = ⟨(hub.beforeStart name).registry.next⟩
  · simp [hl]
  · rw [if_neg hl, decide_eq_false (Ne.symm hl)]
    rfl

theorem registry_start (hub : Hub) (name : String) (useCase : UseCase) :
    (hub.start name useCase).registry =
      ((hub.beforeStart name).registry.register (.watching useCase.watchedOps)).2 := rfl

/-- A start registers one more listener. -/
theorem Wired.start {hub : Hub} {listener : ListenerId} (wired : hub.Wired listener)
    (name : String) (useCase : UseCase) : (hub.start name useCase).Wired listener := by
  have hbefore := wired.becomes (hub.becomes_beforeStart name)
  refine ⟨Nat.lt_succ_of_lt hbefore.known, fun s hs held => ?_⟩
  rw [at?_start] at hs
  rw [registry_start]
  split at hs
  · next hl =>
    -- the id of the new subscription is not known before
    obtain rfl := hl
    exact absurd hbefore.known (Nat.lt_irrefl _)
  · exact Registry.mem_listeners_register (hbefore.registered s hs held)

/-- And the new subscription is wired from its start. -/
theorem wired_start (hub : Hub) (name : String) (useCase : UseCase) :
    (hub.start name useCase).Wired ⟨(hub.beforeStart name).registry.next⟩ := by
  refine ⟨Nat.lt_succ_self _, fun s hs _ => ?_⟩
  rw [at?_start, if_pos rfl] at hs
  obtain rfl := Option.some.inj hs
  exact List.mem_append_right _ (List.mem_singleton.2 rfl)

/-! ## One subscription while it is held -/

/-- A stop that returns does nothing to a worker. -/
theorem held_of_stopReturns {hub : Hub} {stopped s : Subscription} {listener : ListenerId}
    (h : (hub.stopReturns stopped).at? listener = some s) (held : s.isHeld) :
    ∃ before, hub.at? listener = some before ∧ before.isHeld ∧ s.worker = before.worker := by
  obtain ⟨before, hbefore, hheld, rfl⟩ := held_of_inside Subscription.inside_stopReturns h held
  refine ⟨before, hbefore, hheld, ?_⟩
  split
  · exact before.worker_stopReturns
  · rfl

/-- What happens to one worker happens to no other. -/
theorem held_of_modify {hub : Hub} {changed listener : ListenerId} {f : Worker → Worker}
    (useCase : ∀ worker, (f worker).useCase = worker.useCase) {s : Subscription}
    (h : (hub.modify changed fun s => { s with worker := f s.worker }).at? listener = some s)
    (held : s.isHeld) :
    ∃ before, hub.at? listener = some before ∧ before.isHeld ∧
      s.worker = if listener = changed then f before.worker else before.worker := by
  obtain ⟨before, hbefore, hheld, rfl⟩ :=
    held_of_inside (Subscription.inside_worker f useCase) h held
  refine ⟨before, hbefore, hheld, ?_⟩
  split <;> rfl

/-- Somebody looks at one subscription, and the others do not notice. -/
theorem held_of_see {hub : Hub} {seen listener : ListenerId} {s : Subscription}
    (h : (hub.doTo seen hub.see).at? listener = some s) (held : s.isHeld) :
    ∃ before, hub.at? listener = some before ∧ before.isHeld ∧
      s.worker = if listener = seen then before.worker.see else before.worker := by
  unfold doTo at h
  cases hseen : hub.at? seen with
  | none =>
    rw [hseen] at h
    refine ⟨s, h, held, (if_neg ?_).symm⟩
    rintro rfl
    cases hseen.symm.trans h
  | some r =>
    rw [hseen] at h
    obtain rfl := listener_of_at? hseen
    exact held_of_modify (f := Worker.see) (fun _ => rfl) h held

/-- A refresh of one subscription triggers that one and no other. -/
theorem held_of_refresh {hub : Hub} {refreshed listener : ListenerId} {s : Subscription}
    (h : (hub.doTo refreshed hub.refresh).at? listener = some s) (held : s.isHeld) :
    ∃ before, hub.at? listener = some before ∧ before.isHeld ∧
      s.worker = if listener = refreshed then before.worker.trigger else before.worker := by
  unfold doTo at h
  cases hrefreshed : hub.at? refreshed with
  | none =>
    rw [hrefreshed] at h
    refine ⟨s, h, held, (if_neg ?_).symm⟩
    rintro rfl
    cases hrefreshed.symm.trans h
  | some r =>
    rw [hrefreshed] at h
    obtain rfl := listener_of_at? hrefreshed
    change (hub.refresh r).at? listener = some s at h
    unfold Hub.refresh at h
    split at h
    · exact held_of_modify (f := Worker.trigger) (fun _ => rfl) h held
    · next hnot =>
      -- `r` is not held and `s` is, so they are different subscriptions
      refine ⟨s, h, held, (if_neg ?_).symm⟩
      rintro rfl
      obtain rfl := Option.some.inj (hrefreshed.symm.trans h)
      exact hnot held

end Hub

end PermissionUsage
