import PermissionUsage.Proofs.Live.Wiring
/-!
# One listener for each subscription

Subscriptions share their registry with listeners that others register directly. `Hub.Registers`
says what the registry holds: one listener for each subscription that is held, and those others.
Every operation on a hub keeps it so.
-/

namespace PermissionUsage

namespace Hub

def listeners (hub : Hub) : List ListenerId := hub.subscriptions.map (·.listener)

/-- The listeners of the subscriptions that are neither stopped nor dropped. -/
def heldListeners (hub : Hub) : List ListenerId :=
  (hub.subscriptions.filter (·.isHeld)).map (·.listener)

/-- The registry of a hub holds one listener for each subscription that is held and those that were
registered directly. It knows the listeners of all subscriptions, which are different ones. -/
structure Registers (hub : Hub) (direct : List ListenerId) : Prop where
  ids : (hub.registry.listeners.map (·.1)).Perm (hub.heldListeners ++ direct)
  known : ∀ id ∈ hub.listeners, id.number < hub.registry.next
  distinct : hub.listeners.Nodup

/-- What happens inside a subscription leaves the listeners that are held. -/
theorem heldListeners_modify (hub : Hub) (changed : ListenerId)
    {change : Subscription → Subscription} (inside : Subscription.Inside change) :
    (hub.modify changed change).heldListeners = hub.heldListeners := by
  unfold heldListeners modify
  induction hub.subscriptions with
  | nil => rfl
  | cons s rest ih =>
    have hhead : (if s.listener = changed then change s else s).isHeld = s.isHeld ∧
        (if s.listener = changed then change s else s).listener = s.listener := by
      split
      · exact ⟨inside.isHeld s, inside.listener s⟩
      · exact ⟨rfl, rfl⟩
    rw [List.map_cons, List.filter_cons, List.filter_cons, hhead.1]
    split
    · rw [List.map_cons, List.map_cons, hhead.2, ih]
    · exact ih

/-- Of the listeners of held subscriptions one goes away with the subscription that is let go. -/
theorem heldListeners_release (hub : Hub) (released : Subscription) (waits : Bool) :
    (hub.release released waits).heldListeners =
      hub.heldListeners.filter (· ≠ released.listener) := by
  unfold heldListeners release modify
  induction hub.subscriptions with
  | nil => rfl
  | cons s rest ih =>
    rw [List.map_cons, List.filter_cons, List.filter_cons]
    by_cases hreleased : s.listener = released.listener
    · rw [if_pos hreleased, s.isHeld_release, if_neg Bool.false_ne_true, ih]
      split
      · rw [List.map_cons, List.filter_cons_of_neg (by simpa using hreleased)]
      · rfl
    · rw [if_neg hreleased]
      split
      · rw [List.map_cons, List.map_cons, List.filter_cons_of_pos (by simpa using hreleased), ih]
      · exact ih

theorem listeners_modify (hub : Hub) (changed : ListenerId)
    {change : Subscription → Subscription} (listener : ∀ s, (change s).listener = s.listener) :
    (hub.modify changed change).listeners = hub.listeners := by
  unfold listeners modify
  rw [List.map_map]
  refine List.map_congr_left fun s _ => ?_
  show (if s.listener = changed then change s else s).listener = _
  split
  · exact listener s
  · rfl

/-- A release forgets no subscription. -/
theorem listeners_release (hub : Hub) (released : Subscription) (waits : Bool) :
    (hub.release released waits).listeners = hub.listeners :=
  listeners_modify { hub with registry := hub.registry.unregister released.listener } _ fun _ => rfl

/-- No subscription is found exactly under a listener that belongs to none. -/
theorem at?_eq_none_iff {hub : Hub} {listener : ListenerId} :
    hub.at? listener = none ↔ listener ∉ hub.listeners := by
  simp [at?, listeners, List.find?_eq_none]

/-- Only a start makes a subscription, and none is ever forgotten. -/
theorem Becomes.listeners {hub later : Hub} (h : hub.Becomes later) :
    later.listeners = hub.listeners := by
  induction h with
  | same => rfl
  | inside hub changed inside => exact hub.listeners_modify changed inside.listener
  | release => exact listeners_release _ _ _
  | trans _ _ ih ih' => exact ih'.trans ih

namespace Registers

variable {hub : Hub} {direct : List ListenerId}

/-- No listener is held twice, nor registered directly as well as held. -/
theorem nodup (registers : hub.Registers direct) : (hub.heldListeners ++ direct).Nodup :=
  registers.ids.nodup_iff.1 hub.registry.nodup

/-- A number that was given out is below the next one. -/
theorem known_of_at? (registers : hub.Registers direct) {listener : ListenerId} {s : Subscription}
    (h : hub.at? listener = some s) : listener.number < hub.registry.next :=
  registers.known listener
    (List.mem_map.2 ⟨s, mem_of_at? h, listener_of_at? h⟩)

/-- A subscription is found by its listener. -/
theorem at?_of_mem (registers : hub.Registers direct) {s : Subscription}
    (h : s ∈ hub.subscriptions) : hub.at? s.listener = some s := by
  cases hfound : hub.at? s.listener with
  | none => exact absurd (List.mem_map.2 ⟨s, h, rfl⟩) (at?_eq_none_iff.1 hfound)
  | some t =>
    have ht : t ∈ hub.subscriptions := mem_of_at? hfound
    rw [List.inj_on_of_nodup_map registers.distinct ht h (listener_of_at? hfound)]

/-- What happens inside a subscription is no concern of the registry. -/
theorem modify (registers : hub.Registers direct) (changed : ListenerId)
    {change : Subscription → Subscription} (inside : Subscription.Inside change) :
    (hub.modify changed change).Registers direct where
  ids := by
    rw [heldListeners_modify hub changed inside]
    exact registers.ids
  known := by
    rw [listeners_modify hub changed inside.listener]
    exact registers.known
  distinct := by
    rw [listeners_modify hub changed inside.listener]
    exact registers.distinct

/-- A release takes the listener out of both lists. -/
theorem release (registers : hub.Registers direct) {released : Subscription}
    (hmem : released ∈ hub.subscriptions) (held : released.isHeld) (waits : Bool) :
    (hub.release released waits).Registers direct where
  ids := by
    have hheld : released.listener ∈ hub.heldListeners :=
      List.mem_map.2 ⟨released, List.mem_filter.2 ⟨hmem, held⟩, rfl⟩
    have hdirect : direct.filter (· ≠ released.listener) = direct := by
      refine List.filter_eq_self.2 fun id hid => decide_eq_true ?_
      rintro rfl
      exact (List.nodup_append.1 registers.nodup).2.2 _ hheld _ hid rfl
    have hids := registers.ids.filter (· ≠ released.listener)
    rw [List.filter_append, hdirect, ← heldListeners_release hub released waits] at hids
    exact (hub.registry.ids_unregister released.listener).symm ▸ hids
  known := by
    rw [listeners_release]
    exact registers.known
  distinct := by
    rw [listeners_release]
    exact registers.distinct

/-- Whatever is done to the subscriptions, the registry goes on holding what it is to hold. -/
theorem becomes {later : Hub} (registers : hub.Registers direct) (h : hub.Becomes later) :
    later.Registers direct := by
  induction h with
  | same => exact registers
  | inside _ changed inside => exact registers.modify changed inside
  | release hmem held waits => exact registers.release hmem held waits
  | trans _ _ ih ih' => exact ih' (ih registers)

/-- A start adds one listener to both lists, with a number that is new. -/
theorem start (registers : hub.Registers direct) (name : String) (useCase : UseCase) :
    (hub.start name useCase).Registers direct := by
  have hbefore := registers.becomes (hub.becomes_beforeStart name)
  generalize hhub : hub.beforeStart name = before at hbefore
  have hstart : hub.start name useCase =
      { registry := (before.registry.register (.watching useCase.watchedOps)).2
        subscriptions := ⟨name, ⟨before.registry.next⟩, .ofUseCase useCase, .held, 0⟩ ::
          before.subscriptions } := by
    rw [← hhub]
    rfl
  rw [hstart]
  refine ⟨?_, List.forall_mem_cons.2 ⟨Nat.lt_succ_self _, fun id hid =>
    Nat.lt_succ_of_lt (hbefore.known id hid)⟩, List.nodup_cons.2 ⟨fun hnew => ?_, hbefore.distinct⟩⟩
  · rw [Registry.ids_register]
    exact (hbefore.ids.append_right _).trans List.perm_append_comm
  · -- the new listener is not known before
    exact Nat.lt_irrefl _ (hbefore.known _ hnew)

/-- Somebody registers a listener directly. -/
theorem register (registers : hub.Registers direct) (filter : ListenerFilter) :
    Registers { hub with registry := (hub.registry.register filter).2 }
      (⟨hub.registry.next⟩ :: direct) where
  ids := by
    rw [Registry.ids_register]
    refine (registers.ids.append_right _).trans ?_
    rw [List.append_assoc]
    exact List.perm_append_comm.append_left hub.heldListeners
  known id hid := Nat.lt_succ_of_lt (registers.known id hid)
  distinct := registers.distinct

/-- Somebody removes a listener that was registered directly. -/
theorem unregister (registers : hub.Registers direct) {removed : ListenerId}
    (hmem : removed ∈ direct) :
    Registers { hub with registry := hub.registry.unregister removed }
      (direct.filter (· ≠ removed)) where
  ids := by
    have hheld : hub.heldListeners.filter (· ≠ removed) = hub.heldListeners := by
      refine List.filter_eq_self.2 fun id hid => decide_eq_true ?_
      rintro rfl
      exact (List.nodup_append.1 registers.nodup).2.2 _ hid _ hmem rfl
    have hids := registers.ids.filter (· ≠ removed)
    rw [List.filter_append, hheld] at hids
    exact (hub.registry.ids_unregister removed).symm ▸ hids
  known := registers.known
  distinct := registers.distinct

end Registers

end Hub

end PermissionUsage
