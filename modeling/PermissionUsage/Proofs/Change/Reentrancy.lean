import PermissionUsage.Change.Board
import PermissionUsage.Proofs.Change.Registry
/-!
# Notifications reach the right listeners

A listener that is called may itself register listeners, remove them and notify of further changes,
so that one notification goes on inside another, to any depth. A run is followed moment by moment,
in whatever order the registry lists its listeners.

* `Delivery.Step`, `Delivery.Run`: what may happen next, and what has happened so far.
* `Delivery.Stretch`: the part of a run that belongs to one notification. It makes calls of its own,
  and a notification inside it is over when the calls that were due before are due again.
  `Stretch.due` carries the argument: what was due is the stretch's own calls and what is due
  afterwards. `Run.stretch` takes apart a run that leaves no call due.
* `Delivery.Faithful`: what a registry owes its listeners; `Delivery.run_faithful` says that every
  run pays it.
* `Board.exists_run`: what counting listeners do is such a run.
-/

namespace PermissionUsage

namespace Delivery

/-! ## Runs -/

inductive Moment where
  | registered (id : ListenerId) (filter : ListenerFilter)
  /-- A listener is removed, if it is found. -/
  | unregistered (id : ListenerId) (found : Bool)
  /-- A notification begins, which will answer with a count. -/
  | notified (event : ChangeEvent) (count : Nat)
  | called (call : ListenerCall)
  deriving DecidableEq, Repr

/-- What may happen next. A notification finds the listeners in any order. -/
inductive Step : Delivery → Moment → Delivery → Prop where
  | register (delivery : Delivery) (filter : ListenerFilter) :
    Step delivery (.registered (delivery.register filter).1 filter) (delivery.register filter).2
  | unregister (delivery : Delivery) (id : ListenerId) :
    Step delivery (.unregistered id (id ∈ delivery.registry)) (delivery.unregister id)
  | notify {delivery : Delivery} {registry : Registry}
    (order : delivery.registry.Rearranged registry) (event : ChangeEvent) :
    Step delivery (.notified event (registry.concerned event).length)
      (({ delivery with registry } : Delivery).notify event)
  | call {delivery rest : Delivery} {call : ListenerCall}
    (next : delivery.next? = some (call, rest)) : Step delivery (.called call) rest

/-- A run, with the moments that it consists of. Calls may be due at its end. -/
inductive Run : Delivery → List Moment → Delivery → Prop where
  | nil (delivery : Delivery) : Run delivery [] delivery
  | cons {first second last : Delivery} {moment : Moment} {later : List Moment}
    (step : Step first moment second) (run : Run second later last) :
    Run first (moment :: later) last

theorem Run.append {first second last : Delivery} {before later : List Moment}
    (h : Run first before second) (h' : Run second later last) :
    Run first (before ++ later) last := by
  induction h with
  | nil => exact h'
  | cons step _ ih => exact .cons step (ih h')

/-! ## Notifications inside notifications -/

/-- A stretch of a run with the calls that it makes of those that are due at its beginning. A
notification inside it begins, makes its own calls in a stretch, and is over when the same calls are
due as before it. -/
inductive Stretch : Delivery → List ListenerCall → List Moment → Delivery → Prop where
  | done (delivery : Delivery) : Stretch delivery [] [] delivery
  /-- Something happens that leaves the due calls alone. -/
  | quiet {first second last : Delivery} {moment : Moment} {calls : List ListenerCall}
    {later : List Moment} (step : Step first moment second) (same : second.due = first.due)
    (rest : Stretch second calls later last) : Stretch first calls (moment :: later) last
  | notified {first begun ended last : Delivery} {event : ChangeEvent} {count : Nat}
    {own calls : List ListenerCall} {inner later : List Moment}
    (step : Step first (.notified event count) begun) (inside : Stretch begun own inner ended)
    (same : ended.due = first.due) (rest : Stretch ended calls later last) :
    Stretch first calls (.notified event count :: (inner ++ later)) last
  | called {first second last : Delivery} {call : ListenerCall} {calls : List ListenerCall}
    {later : List Moment} (step : Step first (.called call) second)
    (rest : Stretch second calls later last) :
    Stretch first (call :: calls) (.called call :: later) last

/-- The next call is the first that is due, and is noted as made. -/
theorem next?_eq_some_iff {delivery rest : Delivery} {call : ListenerCall} :
    delivery.next? = some (call, rest) ↔ ∃ due, delivery.due = call :: due ∧
      rest = { delivery with due, made := call :: delivery.made } := by
  unfold next?
  cases delivery.due with
  | nil => simp
  | cons first due =>
    constructor
    · intro h
      obtain ⟨rfl, rfl⟩ := Prod.mk.inj (Option.some.inj h)
      exact ⟨due, rfl, rfl⟩
    · rintro ⟨others, hdue, rfl⟩
      obtain ⟨rfl, rfl⟩ := List.cons.inj hdue
      rfl

/-- Whoever is called was the first in line. -/
theorem Step.due_of_called {delivery rest : Delivery} {call : ListenerCall}
    (step : Step delivery (.called call) rest) : delivery.due = call :: rest.due := by
  cases step with
  | call next =>
    obtain ⟨due, hdue, rfl⟩ := next?_eq_some_iff.1 next
    exact hdue

namespace Stretch

variable {first last : Delivery} {calls : List ListenerCall} {journal : List Moment}

/-- What was due is what the stretch calls and what is due afterwards. -/
theorem due (h : Stretch first calls journal last) : first.due = calls ++ last.due := by
  induction h with
  | done => rfl
  | quiet step same rest ih => rw [← same, ih]
  | notified step inside same rest inner ih => rw [← same, ih]
  | called step rest ih =>
    rw [step.due_of_called, ih]
    rfl

/-- A stretch is a run: nothing happens in it but moments of its journal. -/
theorem run (h : Stretch first calls journal last) : Run first journal last := by
  induction h with
  | done delivery => exact .nil delivery
  | quiet step same rest ih => exact .cons step ih
  | notified step inside same rest inner ih => exact .cons step (inner.append ih)
  | called step rest ih => exact .cons step ih

/-- A stretch can be left after any of its calls. -/
theorem split {front back : List ListenerCall} (h : Stretch first (front ++ back) journal last) :
    ∃ middle before later, Stretch first front before middle ∧ Stretch middle back later last ∧
      journal = before ++ later := by
  generalize hcalls : front ++ back = calls at h
  induction h generalizing front with
  | done delivery =>
    obtain ⟨rfl, rfl⟩ := List.append_eq_nil_iff.1 hcalls
    exact ⟨delivery, [], [], .done _, .done _, rfl⟩
  | quiet step same rest ih =>
    obtain ⟨middle, before, later, hfront, hback, rfl⟩ := ih hcalls
    exact ⟨middle, _, later, .quiet step same hfront, hback, rfl⟩
  | notified step inside same rest _ ih =>
    -- a notification inside is not cut: it belongs to the front as a whole
    obtain ⟨middle, before, later, hfront, hback, rfl⟩ := ih hcalls
    refine ⟨middle, _, later, .notified step inside same hfront, hback, ?_⟩
    rw [List.cons_append, List.append_assoc]
  | @called first second last call calls later step rest ih =>
    cases front with
    | nil =>
      obtain rfl : back = call :: calls := hcalls
      exact ⟨first, [], _, .done _, .called step rest, rfl⟩
    | cons made front =>
      obtain ⟨rfl, hrest⟩ := List.cons.inj hcalls
      obtain ⟨middle, before, later, hfront, hback, rfl⟩ := ih hrest
      exact ⟨middle, _, later, .called step hfront, hback, rfl⟩

end Stretch

/-- A run that leaves no call due makes the calls that were due, one notification inside another. -/
theorem Run.stretch {first last : Delivery} {journal : List Moment} (h : Run first journal last)
    (idle : last.due = []) : Stretch first first.due journal last := by
  induction h with
  | nil delivery =>
    rw [idle]
    exact .done delivery
  | cons step _ ih =>
    have rest := ih idle
    cases step with
    | register filter => exact .quiet (.register _ filter) rfl rest
    | unregister id => exact .quiet (.unregister _ id) rfl rest
    | notify order event =>
      -- the calls of the notification come first, and then the ones that were due
      obtain ⟨middle, inner, later, hinner, hlater, rfl⟩ := rest.split
      have hsame : middle.due = _ := (List.append_cancel_left hinner.due).symm
      exact .notified (.notify order event) hinner hsame hlater
    | call next =>
      rw [(Step.call next).due_of_called]
      exact .called (.call next) rest

/-- A run can be left before any of its moments. -/
theorem Run.split {first last : Delivery} {before later : List Moment} {moment : Moment}
    (h : Run first (before ++ moment :: later) last) :
    ∃ second third, Run first before second ∧ Step second moment third ∧ Run third later last := by
  induction before generalizing first with
  | nil =>
    cases h with
    | cons step run => exact ⟨first, _, .nil _, step, run⟩
  | cons earlier before ih =>
    cases h with
    | cons step run =>
      obtain ⟨second, third, hbefore, hstep, hlater⟩ := ih run
      exact ⟨second, third, .cons step hbefore, hstep, hlater⟩

/-- A notification begins, makes its own calls, and is over. -/
def Completes (first : Delivery) (event : ChangeEvent) (count : Nat) (calls : List ListenerCall)
    (inner : List Moment) (ended : Delivery) : Prop :=
  ∃ begun, Step first (.notified event count) begun ∧ Stretch begun calls inner ended ∧
    ended.due = first.due

/-- A notification has called the listeners that were registered with a filter that accepts the
change when it began, each of them once and nobody else, and has answered with their number. -/
structure Notification (registry : Registry) (event : ChangeEvent) (count : Nat)
    (calls : List ListenerCall) : Prop where
  called_iff : ∀ call, call ∈ calls ↔
    call.event = event ∧ (registry.filterOf call.listener).any (·.accepts event) = true
  once : calls.Nodup
  count_eq : count = calls.length

/-- A notification that is over has made its own calls, whatever happened meanwhile. -/
theorem Completes.notification {first ended : Delivery} {event : ChangeEvent} {count : Nat}
    {calls : List ListenerCall} {inner : List Moment}
    (h : Completes first event count calls inner ended) :
    Notification first.registry event count calls := by
  obtain ⟨begun, step, inside, same⟩ := h
  cases step with
  | @notify registry order =>
    have hdue : (registry.concerned event).map (⟨·, event⟩) ++ first.due = calls ++ ended.due :=
      inside.due
    -- the same calls are due afterwards, so its own are exactly those that it began with
    rw [same] at hdue
    obtain rfl := List.append_cancel_right hdue
    refine ⟨fun call => ?_, ?_, (List.length_map _).symm⟩
    · rw [order.filterOf_eq, ← Registry.mem_concerned_iff_filterOf, List.mem_map]
      constructor
      · rintro ⟨id, hid, rfl⟩
        exact ⟨rfl, hid⟩
      · rintro ⟨rfl, hid⟩
        exact ⟨_, hid, rfl⟩
    · refine (registry.nodup_concerned event).map fun id id' h => ?_
      exact (ListenerCall.mk.inj h).1

/-- A notification in a run that leaves no call due is over before the run is. -/
theorem Run.exists_completes {first last : Delivery} {before later : List Moment}
    {event : ChangeEvent} {count : Nat}
    (h : Run first (before ++ .notified event count :: later) last) (idle : last.due = []) :
    ∃ second calls inner ended rest, Run first before second ∧
      Completes second event count calls inner ended ∧ Run ended rest last ∧
      later = inner ++ rest := by
  obtain ⟨second, begun, hbefore, step, hlater⟩ := h.split
  have hstretch := hlater.stretch idle
  cases step with
  | notify order event =>
    obtain ⟨ended, inner, rest, hinner, hrest, hjournal⟩ := hstretch.split
    have hsame : ended.due = second.due := (List.append_cancel_left hinner.due).symm
    exact ⟨second, _, inner, ended, rest, hbefore, ⟨_, .notify order event, hinner, hsame⟩,
      hrest.run, hjournal⟩

/-! ## What a journal says -/

namespace Moment

def isRegistration : Moment → Bool
  | registered _ _ => true
  | _ => false

/-- A removal that finds its listener. -/
def isRemoval : Moment → Bool
  | unregistered _ found => found
  | _ => false

/-- The filter that a listener is registered with after a moment. -/
def filterAfter (id : ListenerId) (filter : Option ListenerFilter) : Moment → Option ListenerFilter
  | registered added new => if id = added then some new else filter
  | unregistered removed _ => if id = removed then none else filter
  | _ => filter

/-- The change that begins to be told in a moment, if a filter accepts it. -/
def told (filter : Option ListenerFilter) : Moment → List ChangeEvent
  | notified event _ => if filter.any (·.accepts event) then [event] else []
  | _ => []

end Moment

/-- The filter that a listener is registered with after a journal. -/
def filterAfter (id : ListenerId) (filter : Option ListenerFilter) (journal : List Moment) :
    Option ListenerFilter :=
  journal.foldl (Moment.filterAfter id) filter

/-- The changes of a journal whose notification begins while a listener is registered with a filter
that accepts them. -/
def concerning (id : ListenerId) (filter : Option ListenerFilter) :
    List Moment → List ChangeEvent
  | [] => []
  | moment :: later => moment.told filter ++ concerning id (moment.filterAfter id filter) later

/-- The changes that a listener is told by some calls. -/
def eventsTo (id : ListenerId) (calls : List ListenerCall) : List ChangeEvent :=
  (calls.filter (·.listener = id)).map (·.event)

/-- What a listener is told in calls one after another. -/
theorem eventsTo_append (id : ListenerId) (calls more : List ListenerCall) :
    eventsTo id (calls ++ more) = eventsTo id calls ++ eventsTo id more := by
  unfold eventsTo
  rw [List.filter_append, List.map_append]

/-- Of the calls of a notification one is to a listener that the change concerns, and none to
another. -/
theorem eventsTo_concerned (registry : Registry) (id : ListenerId) (event : ChangeEvent) :
    eventsTo id ((registry.concerned event).map (⟨·, event⟩)) =
      if (registry.filterOf id).any (·.accepts event) then [event] else [] := by
  unfold eventsTo
  rw [List.filter_map]
  show ((((registry.concerned event).filter (· = id)).map _).map _) = _
  rw [Registry.filter_concerned]
  split <;> rfl

/-! ## One step -/

namespace Step

variable {first second : Delivery} {moment : Moment}

theorem filterOf_eq (step : Step first moment second) (id : ListenerId) :
    second.registry.filterOf id = moment.filterAfter id (first.registry.filterOf id) := by
  cases step with
  | register filter => exact first.registry.filterOf_register filter id
  | unregister removed => exact first.registry.filterOf_unregister removed id
  | notify order event => exact (order.filterOf_eq id).symm
  | call next =>
    obtain ⟨due, -, rfl⟩ := next?_eq_some_iff.1 next
    rfl

theorem size_eq (step : Step first moment second) :
    second.registry.size + (if moment.isRemoval then 1 else 0) =
      first.registry.size + (if moment.isRegistration then 1 else 0) := by
  cases step with
  | register filter => exact first.registry.size_register filter
  | unregister removed =>
    show (first.registry.unregister removed).size +
      (if decide (removed ∈ first.registry) = true then 1 else 0) = first.registry.size
    simp only [decide_eq_true_eq]
    exact first.registry.size_unregister removed
  | notify order event => exact order.size_eq.symm
  | call next =>
    obtain ⟨due, -, rfl⟩ := next?_eq_some_iff.1 next
    rfl

/-- A step adds to what a listener was told and is to be told the change that it begins to tell. -/
theorem eventsTo_perm (step : Step first moment second) (id : ListenerId) :
    (eventsTo id (second.made ++ second.due)).Perm
      (eventsTo id (first.made ++ first.due) ++ moment.told (first.registry.filterOf id)) := by
  cases step with
  | register | unregister =>
    -- nobody is told anything
    show (eventsTo id (first.made ++ first.due)).Perm (_ ++ [])
    rw [List.append_nil]
  | @notify registry order event =>
    -- the new calls stand between what was made and what was due
    show (eventsTo id (first.made ++ (_ ++ first.due))).Perm
      (_ ++ if (first.registry.filterOf id).any (·.accepts event) then [event] else [])
    rw [order.filterOf_eq, ← eventsTo_concerned, eventsTo_append, eventsTo_append, eventsTo_append,
      List.append_assoc]
    exact List.perm_append_comm.append_left _
  | @call rest call next =>
    -- a call that was due is made, so that it stands elsewhere
    obtain ⟨due, hdue, rfl⟩ := next?_eq_some_iff.1 next
    show (eventsTo id (call :: first.made ++ due)).Perm (eventsTo id (first.made ++ _) ++ [])
    rw [List.append_nil, hdue]
    exact (List.perm_middle.symm.filter _).map _

end Step

/-! ## Whole runs -/

namespace Run

variable {first last : Delivery} {journal : List Moment} (run : Run first journal last)
include run

theorem filterOf_eq (id : ListenerId) :
    last.registry.filterOf id = filterAfter id (first.registry.filterOf id) journal := by
  induction run with
  | nil => rfl
  | cons step _ ih =>
    rw [ih, step.filterOf_eq]
    rfl

theorem size_eq : last.registry.size + journal.countP (·.isRemoval) =
    first.registry.size + journal.countP (·.isRegistration) := by
  induction run with
  | nil => rfl
  | cons step _ ih =>
    have hstep := step.size_eq
    rw [List.countP_cons, List.countP_cons]
    omega

theorem eventsTo_perm (id : ListenerId) :
    (eventsTo id (last.made ++ last.due)).Perm
      (eventsTo id (first.made ++ first.due) ++
        concerning id (first.registry.filterOf id) journal) := by
  induction run with
  | nil =>
    rw [concerning, List.append_nil]
  | cons step _ ih =>
    -- what is told later is decided by the filter that the step leaves
    rw [step.filterOf_eq] at ih
    rw [concerning, ← List.append_assoc]
    exact ih.trans ((step.eventsTo_perm id).append_right _)

end Run

/-- What a registry owes its listeners, after a journal. -/
structure Faithful (journal : List Moment) (delivery : Delivery) : Prop where
  /-- The listeners that are left are those that were registered and not removed. -/
  size : delivery.registry.size + journal.countP (·.isRemoval) =
    journal.countP (·.isRegistration)
  filters : ∀ id, delivery.registry.filterOf id = filterAfter id none journal
  /-- A listener has heard or will hear, as often as they were notified, of the changes whose
  notification began while it was registered with a filter that accepts them. -/
  heard : ∀ id, (eventsTo id (delivery.made ++ delivery.due)).Perm (concerning id none journal)
  received : delivery.due = [] →
    ∀ id, (eventsTo id delivery.made).Perm (concerning id none journal)
  /-- A notification that begins now calls those who are registered now, and nobody else, however
  the registry changes until it is over. -/
  notified : ∀ (event : ChangeEvent) (count : Nat) (calls : List ListenerCall)
    (inner : List Moment) (ended : Delivery), Completes delivery event count calls inner ended →
    Notification delivery.registry event count calls
  /-- Where no call is due, every notification is over and has called those who were registered
  when it began. -/
  completed : delivery.due = [] →
    ∀ (before : List Moment) (event : ChangeEvent) (count : Nat) (later : List Moment),
    journal = before ++ .notified event count :: later →
    ∃ first calls inner ended rest, Run {} before first ∧
      Completes first event count calls inner ended ∧ Run ended rest delivery ∧
      later = inner ++ rest ∧ Notification first.registry event count calls

/-- **Notifications reach the right listeners.** After every run on a new registry, with any
registrations, removals and notifications inside notifications, and in the middle of any of them,
the registry has been faithful to its listeners. -/
theorem run_faithful {journal : List Moment} {delivery : Delivery}
    (run : Run {} journal delivery) : Faithful journal delivery where
  size := by
    rw [run.size_eq]
    exact Nat.zero_add _
  filters := run.filterOf_eq
  heard := run.eventsTo_perm
  received idle id := by
    have hheard := run.eventsTo_perm id
    rw [idle, List.append_nil] at hheard
    exact hheard
  notified _ _ _ _ _ := Completes.notification
  completed idle before event count later hjournal := by
    subst hjournal
    obtain ⟨first, calls, inner, ended, rest, hbefore, hcompletes, hrest, hlater⟩ :=
      run.exists_completes idle
    exact ⟨first, calls, inner, ended, rest, hbefore, hcompletes, hrest, hlater,
      hcompletes.notification⟩

/-! ### A removal during a delivery

Two listeners are called in the reverse order of their registration. The first of them, while it is
called, removes the other, registers a third one and notifies of another change.
-/

namespace Removal

def scanner : PackageUser := ⟨"com.example.scanner", 0⟩

def used : ChangeEvent := .opNoted Op.camera scanner

def installed : ChangeEvent := .packageChanged scanner

def everything : ListenerFilter := {}

def notes : ListenerFilter := { kinds := [.opNoted] }

/-- The first two listeners. -/
def before : Delivery := ((({} : Delivery).register everything).2.register notes).2

def reversed : Registry where
  listeners := [(⟨1⟩, notes), (⟨0⟩, everything)]
  next := 2
  number_lt := by decide
  nodup := by decide

def begun : Delivery := ({ before with registry := reversed } : Delivery).notify used

def after : Delivery where
  registry := ((reversed.unregister ⟨0⟩).register everything).2
  made := [⟨⟨0⟩, used⟩, ⟨⟨2⟩, installed⟩, ⟨⟨1⟩, used⟩]

def inner : List Moment :=
  [.called ⟨⟨1⟩, used⟩, .unregistered ⟨0⟩ true, .registered ⟨2⟩ everything,
   .notified installed 1, .called ⟨⟨2⟩, installed⟩, .called ⟨⟨0⟩, used⟩]

theorem run_before : Run {} [.registered ⟨0⟩ everything, .registered ⟨1⟩ notes] before :=
  .cons (.register _ everything) (.cons (.register _ notes) (.nil _))

theorem begins : Step before (.notified used 2) begun :=
  @Step.notify before reversed ⟨List.Perm.swap _ _ _, rfl⟩ used

theorem inside : Stretch begun [⟨⟨1⟩, used⟩, ⟨⟨0⟩, used⟩] inner after :=
  .called (.call rfl) <| .quiet (.unregister _ ⟨0⟩) rfl <| .quiet (.register _ everything) rfl <|
    .notified (.notify (.refl _) installed) (.called (.call rfl) (.done _)) (by rfl) <|
      .called (.call rfl) (.done _)

end Removal

open Removal in
/-- A listener removes another one that has not been called yet. The other is called all the same,
since the calls were fixed before, and the one that is registered meanwhile hears of later changes
only. -/
theorem run_faithful_of_removal :
    Notification before.registry used 2 [⟨⟨1⟩, used⟩, ⟨⟨0⟩, used⟩] ∧
      Faithful ([.registered ⟨0⟩ everything, .registered ⟨1⟩ notes] ++
        .notified used 2 :: inner) after ∧
      eventsTo ⟨0⟩ after.made = [used] ∧ eventsTo ⟨2⟩ after.made = [installed] ∧
      after.registry.size = 2 := by
  have hnotified : Notification before.registry used 2 [⟨⟨1⟩, used⟩, ⟨⟨0⟩, used⟩] :=
    (run_faithful run_before).notified used 2 _ inner after ⟨begun, begins, inside, rfl⟩
  have hrun : Run {} ([.registered ⟨0⟩ everything, .registered ⟨1⟩ notes] ++
      .notified used 2 :: inner) after := run_before.append (.cons begins inside.run)
  exact ⟨hnotified, run_faithful hrun, by decide +kernel, by decide +kernel, rfl⟩

end Delivery

/-! ## Counting listeners -/

namespace Board

open Delivery

/-- A board without calls to make is delivered. -/
theorem deliver_of_idle {board : Board} (h : board.delivery.next? = none) :
    board.deliver = board := by
  rw [deliver]
  split
  · rfl
  · next hnext =>
    rw [h] at hnext
    cases hnext

/-- The board after a call: its listener reacts, if it has not yet. -/
def answer (board : Board) (call : ListenerCall) (rest : Delivery) : Board :=
  (reactionOf call.listener board.listeners).elim { board with delivery := rest }
    (react ⟨rest, settle call.listener board.listeners⟩)

/-- A board answers the next call and goes on. -/
theorem deliver_of_next {board : Board} {call : ListenerCall} {rest : Delivery}
    (h : board.delivery.next? = some (call, rest)) :
    board.deliver = (board.answer call rest).deliver := by
  rw [deliver]
  split
  · next hnext =>
    rw [h] at hnext
    cases hnext
  · next hnext =>
    rw [h] at hnext
    obtain ⟨rfl, rfl⟩ := Prod.mk.inj (Option.some.inj hnext)
    unfold answer
    split
    · next hreaction => rw [hreaction]; rfl
    · next hreaction => rw [hreaction]; rfl

/-- Removing a listener by its name is a run, or nothing if there is no such listener. -/
theorem exists_run_unregister (board : Board) (name : String) :
    ∃ journal, Run board.delivery journal (board.unregister name).2.delivery := by
  unfold unregister
  cases board.find? name with
  | none => exact ⟨[], .nil _⟩
  | some listener => exact ⟨_, .cons (.unregister board.delivery listener.id) (.nil _)⟩

/-- A reaction is a run, whatever it does. -/
theorem exists_run_react (board : Board) (reaction : Reaction) :
    ∃ journal, Run board.delivery journal (board.react reaction).delivery := by
  cases reaction with
  | register name filter => exact ⟨_, .cons (.register board.delivery filter) (.nil _)⟩
  | unregister name => exact board.exists_run_unregister name
  | notify event => exact ⟨_, .cons (.notify (.refl _) event) (.nil _)⟩

/-- The calls of counting listeners and their reactions are a run that leaves no call due. -/
theorem exists_run_deliver (board : Board) :
    ∃ journal, Run board.delivery journal board.deliver.delivery ∧
      board.deliver.delivery.due = [] := by
  induction board using deliver.induct with
  | case1 board hnext =>
    rw [deliver_of_idle hnext]
    refine ⟨[], .nil _, ?_⟩
    unfold next? at hnext
    split at hnext
    · assumption
    · cases hnext
  | case2 board call rest hnext hreaction ih =>
    obtain ⟨journal, hrun, hidle⟩ := ih
    have hanswer : board.answer call rest = { board with delivery := rest } := by
      rw [answer, hreaction]
      rfl
    rw [deliver_of_next hnext, hanswer]
    exact ⟨_, .cons (.call hnext) hrun, hidle⟩
  | case3 board call rest hnext reaction hreaction ih =>
    obtain ⟨later, hlater, hidle⟩ := ih
    obtain ⟨reacting, hreacting⟩ :=
      exists_run_react ⟨rest, settle call.listener board.listeners⟩ reaction
    have hanswer : board.answer call rest =
        react ⟨rest, settle call.listener board.listeners⟩ reaction := by
      rw [answer, hreaction]
      rfl
    rw [deliver_of_next hnext, hanswer]
    exact ⟨_, .cons (.call hnext) (hreacting.append hlater), hidle⟩

/-- What is done to a board while no call is due. -/
inductive Deed where
  | register (name : String) (filter : ListenerFilter) (reaction : Option Reaction)
  | unregister (name : String)
  | notify (event : ChangeEvent)
  deriving DecidableEq, Repr

def after (board : Board) : Deed → Board
  | .register name filter reaction => board.register name filter reaction
  | .unregister name => (board.unregister name).2
  | .notify event => (board.notify event).2

def run (board : Board) (deeds : List Deed) : Board := deeds.foldl after board

/-- A notification of a board is over when it answers, and it answers with the number of its
calls. -/
theorem exists_completes_notify {board : Board} (idle : board.delivery.due = [])
    (event : ChangeEvent) :
    ∃ calls inner, Completes board.delivery event (board.notify event).1 calls inner
      (board.notify event).2.delivery := by
  obtain ⟨journal, hrun, hidle⟩ :=
    exists_run_deliver { board with delivery := board.delivery.notify event }
  exact ⟨_, journal, _, .notify (.refl _) event, hrun.stretch hidle, hidle.trans idle.symm⟩

/-- Whatever is done with an idle board is a run that leaves it idle. -/
theorem exists_run_after {board : Board} (idle : board.delivery.due = []) (deed : Deed) :
    ∃ journal, Run board.delivery journal (board.after deed).delivery ∧
      (board.after deed).delivery.due = [] := by
  cases deed with
  | register name filter reaction =>
    exact ⟨_, .cons (.register board.delivery filter) (.nil _), idle⟩
  | unregister name =>
    obtain ⟨journal, hrun⟩ := board.exists_run_unregister name
    refine ⟨journal, hrun, ?_⟩
    show (board.unregister name).2.delivery.due = []
    unfold unregister
    cases board.find? name with
    | none => exact idle
    | some listener => exact idle
  | notify event =>
    obtain ⟨calls, inner, begun, step, inside, same⟩ := exists_completes_notify idle event
    exact ⟨_, .cons step inside.run, same.trans idle⟩

/-- Whatever is done to a new board, with all reactions of its listeners, is a run, and no call is
left due. -/
theorem exists_run (deeds : List Deed) :
    ∃ journal, Run {} journal (({} : Board).run deeds).delivery ∧
      (({} : Board).run deeds).delivery.due = [] := by
  induction deeds using List.reverseRecOn with
  | nil => exact ⟨[], .nil _, rfl⟩
  | append_singleton deeds deed ih =>
    obtain ⟨before, hbefore, hidle⟩ := ih
    obtain ⟨later, hlater, hlast⟩ := exists_run_after hidle deed
    have hrun : ({} : Board).run (deeds ++ [deed]) = (({} : Board).run deeds).after deed :=
      List.foldl_append
    rw [hrun]
    exact ⟨_, hbefore.append hlater, hlast⟩

end Board

end PermissionUsage
