import PermissionUsage.Change.Delivery
/-!
# Counting listeners

Named listeners that count the changes they hear of and may react to their first one, during its
delivery. A name stands for the listener that was registered under it last; earlier ones stay
registered and go on counting under the name.
-/

namespace PermissionUsage

/-- What a listener does once, when it is called for the first time. -/
inductive Reaction where
  | register (name : String) (filter : ListenerFilter)
  | unregister (name : String)
  | notify (event : ChangeEvent)
  deriving DecidableEq, Repr

/-- A listener with a name, and its reaction until it has reacted. -/
structure NamedListener where
  id : ListenerId
  name : String
  reaction : Option Reaction
  deriving DecidableEq, Repr

/-- Named listeners, newest first, on one registry. -/
structure Board where
  delivery : Delivery := {}
  listeners : List NamedListener := []

namespace Board

def find? (board : Board) (name : String) : Option NamedListener :=
  board.listeners.find? (·.name = name)

def register (board : Board) (name : String) (filter : ListenerFilter)
    (reaction : Option Reaction) : Board :=
  let (id, delivery) := board.delivery.register filter
  { delivery, listeners := { id, name, reaction } :: board.listeners }

/-- Removes the listener that a name stands for: whether it was registered, or none for a name never
seen. -/
def unregister (board : Board) (name : String) : Option Bool × Board :=
  match board.find? name with
  | none => (none, board)
  | some listener =>
    (some (listener.id ∈ board.delivery.registry),
      { board with delivery := board.delivery.unregister listener.id })

/-- The reaction that a listener is still to show. -/
def reactionOf (id : ListenerId) : List NamedListener → Option Reaction
  | [] => none
  | listener :: rest => if listener.id = id then listener.reaction else reactionOf id rest

def settle (id : ListenerId) : List NamedListener → List NamedListener
  | [] => []
  | listener :: rest =>
    if listener.id = id then { listener with reaction := none } :: rest
    else listener :: settle id rest

/-- The number of listeners that are still to react. -/
def unsettled (listeners : List NamedListener) : Nat := listeners.countP (·.reaction.isSome)

/-- A listener that reacts has one reaction less left. -/
theorem unsettled_settle_lt {id : ListenerId} {listeners : List NamedListener}
    (h : (reactionOf id listeners).isSome) :
    unsettled (settle id listeners) < unsettled listeners := by
  induction listeners with
  | nil => cases h
  | cons listener rest ih =>
    unfold reactionOf at h
    unfold settle
    split at h
    · next hid => simp [hid, unsettled, h]
    · next hid =>
      rw [if_neg hid]
      simpa [unsettled, List.countP_cons] using ih h

def react (board : Board) : Reaction → Board
  | .register name filter => board.register name filter none
  | .unregister name => (board.unregister name).2
  | .notify event => { board with delivery := board.delivery.notify event }

/-- What a reaction does leaves as many reactions to come. -/
theorem unsettled_react (board : Board) (reaction : Reaction) :
    unsettled (board.react reaction).listeners = unsettled board.listeners := by
  cases reaction with
  | register name filter => simp [react, register, unsettled]
  | unregister name =>
    show unsettled (board.unregister name).2.listeners = _
    unfold unregister
    cases board.find? name <;> rfl
  | notify event => rfl

/-- Makes all calls that are due, and the ones that these give rise to. -/
def deliver (board : Board) : Board :=
  match _hnext : board.delivery.next? with
  | none => board
  | some (call, delivery) =>
    match _hreaction : reactionOf call.listener board.listeners with
    | none => deliver { board with delivery }
    | some reaction =>
      deliver (react { delivery, listeners := settle call.listener board.listeners } reaction)
termination_by (unsettled board.listeners, board.delivery.due.length)
decreasing_by
  · refine Prod.Lex.right _ ?_
    have := Delivery.length_due_of_next? _hnext
    show delivery.due.length < board.delivery.due.length
    omega
  · refine Prod.Lex.left _ _ ?_
    rw [unsettled_react]
    exact unsettled_settle_lt (by rw [_hreaction]; rfl)

/-- Notifies of a change and makes all calls; the number of listeners it concerned. -/
def notify (board : Board) (event : ChangeEvent) : Nat × Board :=
  ((board.delivery.registry.concerned event).length,
    deliver { board with delivery := board.delivery.notify event })

/-! ## Counts -/

/-- The name that the calls of a listener count under. -/
def nameOf? (board : Board) (id : ListenerId) : Option String :=
  (board.listeners.find? (·.id = id)).map (·.name)

def count (board : Board) (name : String) (kind : ChangeKind) : Nat :=
  board.delivery.made.countP fun call =>
    board.nameOf? call.listener = some name ∧ call.event.kind = kind

/-- The counts of a name that are not zero. -/
def countsOf (board : Board) (name : String) : List (ChangeKind × Nat) :=
  (ChangeKind.all.map fun kind => (kind, board.count name kind)).filter (·.2 ≠ 0)

/-- The counts of every name under which changes were heard of. -/
def counts (board : Board) : List (String × List (ChangeKind × Nat)) :=
  ((board.listeners.map (·.name)).eraseDups.map fun name => (name, board.countsOf name)).filter
    (·.2 ≠ [])

end Board

end PermissionUsage
