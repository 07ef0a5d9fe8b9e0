import Mathlib.Data.List.Nodup
import PermissionUsage.Change.Registry
import PermissionUsage.Proofs.Keyed
/-!
# Whom a registry knows

A registry is known by the filter that each listener is registered with (`Registry.filterOf`). The
order of its listeners is of no account: `Rearranged` says of two registries that nothing else tells
them apart.

* `filterOf_register`, `filterOf_unregister`: what becomes of the filters.
* `size_unregister`: how many listeners are left.
* `mem_concerned_iff`, `filter_concerned`: a change concerns a listener, and that once, if the
  filter of the listener accepts it.
-/

namespace PermissionUsage

namespace Registry

/-! ## Listeners -/

theorem mem_listeners_register {registry : Registry} {filter : ListenerFilter}
    {l : ListenerId × ListenerFilter} (h : l ∈ registry.listeners) :
    l ∈ (registry.register filter).2.listeners :=
  List.mem_append_left _ h

/-- Removing one listener leaves the others. -/
theorem mem_listeners_unregister {registry : Registry} {id : ListenerId}
    {l : ListenerId × ListenerFilter} (h : l ∈ registry.listeners) (hne : l.1 ≠ id) :
    l ∈ (registry.unregister id).listeners :=
  List.mem_filter.2 ⟨h, decide_eq_true hne⟩

/-- A new listener comes last, under an id that was never given before. -/
theorem ids_register (registry : Registry) (filter : ListenerFilter) :
    (registry.register filter).2.listeners.map (·.1) =
      registry.listeners.map (·.1) ++ [⟨registry.next⟩] :=
  List.map_append

/-- The removed listener goes, and the others keep their order. -/
theorem ids_unregister (registry : Registry) (id : ListenerId) :
    (registry.unregister id).listeners.map (·.1) =
      (registry.listeners.map (·.1)).filter (· ≠ id) := by
  rw [List.filter_map]
  rfl

/-- No listener is registered under the id that is given out next. -/
theorem number_ne_next {registry : Registry} {l : ListenerId × ListenerFilter}
    (h : l ∈ registry.listeners) : l.1 ≠ ⟨registry.next⟩ := by
  intro heq
  have hlt := registry.number_lt l h
  rw [heq] at hlt
  exact Nat.lt_irrefl _ hlt

/-- Removing a listener leaves one less, if it was there. -/
theorem size_unregister (registry : Registry) (id : ListenerId) :
    (registry.unregister id).size + (if id ∈ registry then 1 else 0) = registry.size := by
  have hsize : ∀ r : Registry, r.size = (r.listeners.map (·.1)).length :=
    fun r => (List.length_map _).symm
  -- no id is listed twice, so filtering one out erases one
  have herase : (registry.unregister id).listeners.map (·.1) =
      (registry.listeners.map (·.1)).erase id := by
    rw [ids_unregister, registry.nodup.erase_eq_filter]
    refine List.filter_congr fun other _ => ?_
    by_cases h : other = id <;> simp [h]
  rw [hsize, hsize, herase]
  by_cases h : id ∈ registry
  · rw [if_pos h]
    exact List.length_erase_add_one h
  · rw [if_neg h, List.erase_of_not_mem h]
    rfl

/-! ## Filters -/

/-- The filter that a listener is registered with, if it is. -/
def filterOf (registry : Registry) (id : ListenerId) : Option ListenerFilter :=
  (registry.listeners.find? (·.1 = id)).map (·.2)

variable {registry other : Registry} {id : ListenerId}

/-- A listener has one filter, since its id is listed once. -/
theorem filterOf_eq_some_iff {filter : ListenerFilter} :
    registry.filterOf id = some filter ↔ (id, filter) ∈ registry.listeners := by
  unfold filterOf
  rw [Option.map_eq_some_iff]
  constructor
  · rintro ⟨l, hfind, rfl⟩
    obtain rfl : l.1 = id := by simpa using List.find?_some hfind
    exact List.mem_of_find?_eq_some hfind
  · intro h
    exact ⟨(id, filter), find?_of_mem registry.nodup h, rfl⟩

/-- Registering a listener tells its filter and changes no other. -/
theorem filterOf_register (registry : Registry) (filter : ListenerFilter) (id : ListenerId) :
    (registry.register filter).2.filterOf id =
      if id = (registry.register filter).1 then some filter else registry.filterOf id := by
  apply Option.ext
  intro found
  have hlisteners : (registry.register filter).2.listeners =
      registry.listeners ++ [((registry.register filter).1, filter)] := rfl
  rw [filterOf_eq_some_iff, hlisteners, List.mem_append, List.mem_singleton, Prod.mk.injEq]
  split
  · next hnew =>
    subst hnew
    -- an id that is given out has not been registered before
    have hnone : ((registry.register filter).1, found) ∉ registry.listeners :=
      fun h => number_ne_next h rfl
    simp [hnone, eq_comm]
  · next hold => simp [hold, filterOf_eq_some_iff]

/-- Removing a listener takes its filter and no other. -/
theorem filterOf_unregister (registry : Registry) (removed id : ListenerId) :
    (registry.unregister removed).filterOf id =
      if id = removed then none else registry.filterOf id := by
  apply Option.ext
  intro found
  rw [filterOf_eq_some_iff]
  show (id, found) ∈ registry.listeners.filter _ ↔ _
  split
  · next hremoved => simp [hremoved]
  · next hkept => simp [hkept, filterOf_eq_some_iff]

/-! ## Whom a change concerns -/

/-- Whom a change concerns follows from the filters. The order of the listeners has no say. -/
theorem mem_concerned_iff_filterOf (event : ChangeEvent) :
    id ∈ registry.concerned event ↔ (registry.filterOf id).any (·.accepts event) = true := by
  rw [concerned, List.mem_map, Option.any_eq_true]
  constructor
  · rintro ⟨l, hl, rfl⟩
    obtain ⟨hl, haccepts⟩ := List.mem_filter.1 hl
    exact ⟨l.2, filterOf_eq_some_iff.2 hl, haccepts⟩
  · rintro ⟨filter, hfilter, haccepts⟩
    exact ⟨_, List.mem_filter.2 ⟨filterOf_eq_some_iff.1 hfilter, haccepts⟩, rfl⟩

/-- A registered listener is concerned by exactly the changes that its filter accepts. -/
theorem mem_concerned_iff {filter : ListenerFilter} (h : (id, filter) ∈ registry.listeners)
    (event : ChangeEvent) : id ∈ registry.concerned event ↔ filter.accepts event := by
  rw [mem_concerned_iff_filterOf, filterOf_eq_some_iff.2 h]
  rfl

/-- A change concerns a listener once, or not at all. -/
theorem filter_concerned (event : ChangeEvent) :
    (registry.concerned event).filter (· = id) =
      if (registry.filterOf id).any (·.accepts event) then [id] else [] := by
  rw [List.filter_eq, (registry.nodup_concerned event).count]
  simp only [mem_concerned_iff_filterOf]
  split <;> rfl

/-! ## The order of listeners -/

/-- The same listeners are registered with the same filters, in another order. -/
structure Rearranged (registry other : Registry) : Prop where
  listeners : registry.listeners.Perm other.listeners
  next : registry.next = other.next

namespace Rearranged

theorem refl (registry : Registry) : registry.Rearranged registry := ⟨.refl _, rfl⟩

variable (h : registry.Rearranged other)
include h

/-- Rearranged registries have the same filters. -/
theorem filterOf_eq (id : ListenerId) : registry.filterOf id = other.filterOf id := by
  apply Option.ext
  intro filter
  rw [filterOf_eq_some_iff, filterOf_eq_some_iff, h.listeners.mem_iff]

theorem size_eq : registry.size = other.size := h.listeners.length_eq

end Rearranged

end Registry

end PermissionUsage
