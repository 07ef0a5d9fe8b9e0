import PermissionUsage.Change.Event
/-!
# The registry of listeners

Listeners are registered with a filter and get an id that no other listener ever gets. Whom a change
concerns is looked up once, when its delivery begins.
-/

namespace PermissionUsage

structure ListenerId where
  number : Nat
  deriving DecidableEq, Repr, Inhabited

/-- The registered listeners in the order of their registration. -/
structure Registry where
  listeners : List (ListenerId × ListenerFilter) := []
  next : Nat := 0
  number_lt : ∀ l ∈ listeners, l.1.number < next := by simp
  nodup : (listeners.map (·.1)).Nodup := by simp

namespace Registry

def empty : Registry := {}

def size (registry : Registry) : Nat := registry.listeners.length

instance : Membership ListenerId Registry := ⟨fun registry id => id ∈ registry.listeners.map (·.1)⟩

instance (registry : Registry) (id : ListenerId) : Decidable (id ∈ registry) :=
  inferInstanceAs (Decidable (id ∈ registry.listeners.map (·.1)))

/-- Registers a listener under a new id. -/
def register (registry : Registry) (filter : ListenerFilter) : ListenerId × Registry :=
  (⟨registry.next⟩, {
    listeners := registry.listeners ++ [(⟨registry.next⟩, filter)]
    next := registry.next + 1
    number_lt := by
      intro l hl
      rcases List.mem_append.1 hl with hl | hl
      · exact Nat.lt_succ_of_lt (registry.number_lt l hl)
      · obtain rfl := List.mem_singleton.1 hl
        exact Nat.lt_succ_self _
    nodup := by
      rw [List.map_append, List.nodup_append]
      refine ⟨registry.nodup, by simp, fun id hid other hother => ?_⟩
      obtain ⟨l, hl, rfl⟩ := List.mem_map.1 hid
      obtain rfl := List.mem_singleton.1 hother
      intro h
      have := registry.number_lt l hl
      rw [h] at this
      exact Nat.lt_irrefl _ this })

def unregister (registry : Registry) (id : ListenerId) : Registry where
  listeners := registry.listeners.filter (·.1 ≠ id)
  next := registry.next
  number_lt l hl := registry.number_lt l (List.mem_filter.1 hl).1
  nodup := registry.nodup.sublist (List.filter_sublist.map _)

/-- Removes every listener. Their ids are not given out again. -/
def clear (registry : Registry) : Registry where
  next := registry.next

/-- The listeners that a change concerns, each once. -/
def concerned (registry : Registry) (event : ChangeEvent) : List ListenerId :=
  (registry.listeners.filter (·.2.accepts event)).map (·.1)

/-- No listener is called twice for one change, since listeners have different ids. -/
theorem nodup_concerned (registry : Registry) (event : ChangeEvent) :
    (registry.concerned event).Nodup :=
  registry.nodup.sublist (List.filter_sublist.map _)

theorem size_register (registry : Registry) (filter : ListenerFilter) :
    (registry.register filter).2.size = registry.size + 1 := by
  simp [register, size]

end Registry

end PermissionUsage
