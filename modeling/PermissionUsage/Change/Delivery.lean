import PermissionUsage.Change.Registry
/-!
# Deliveries

A notification turns into calls of the listeners it concerns. A call may itself register listeners,
remove them or notify of another change; the calls of a notification made during a call come before
the calls that were still to be made. A listener that is removed while its call is due is still
called, and one that is registered during a delivery is not.
-/

namespace PermissionUsage

structure ListenerCall where
  listener : ListenerId
  event : ChangeEvent
  deriving DecidableEq, Repr

/-- A registry with the calls that are due, next one first, and those that were made, last one
first. -/
structure Delivery where
  registry : Registry := .empty
  due : List ListenerCall := []
  made : List ListenerCall := []

namespace Delivery

def register (delivery : Delivery) (filter : ListenerFilter) : ListenerId × Delivery :=
  let (id, registry) := delivery.registry.register filter
  (id, { delivery with registry })

def unregister (delivery : Delivery) (id : ListenerId) : Delivery :=
  { delivery with registry := delivery.registry.unregister id }

/-- Notifies of a change: its calls are the next ones due. -/
def notify (delivery : Delivery) (event : ChangeEvent) : Delivery :=
  { delivery with due := (delivery.registry.concerned event).map (⟨·, event⟩) ++ delivery.due }

def next? (delivery : Delivery) : Option (ListenerCall × Delivery) :=
  match delivery.due with
  | [] => none
  | call :: due => some (call, { delivery with due, made := call :: delivery.made })

/-- The next call is one of those that are due, and the others stay due. -/
theorem length_due_of_next? {delivery rest : Delivery} {call : ListenerCall}
    (h : delivery.next? = some (call, rest)) : delivery.due.length = rest.due.length + 1 := by
  unfold next? at h
  split at h
  · cases h
  · next hdue => cases h; rw [hdue]; rfl

end Delivery

end PermissionUsage
