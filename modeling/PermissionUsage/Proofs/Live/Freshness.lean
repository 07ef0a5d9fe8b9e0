import PermissionUsage.Proofs.Live.Process
import PermissionUsage.Proofs.Live.World
/-!
# No update is lost

A subscription may be told of a change at any moment: before its first computation, between two
looks of one, while its result is checked and published, or while its end waits to be noticed.
Whatever the moment, once the subscription has come to rest, what it has published is what a
computation returns that is done alone on the platform as it is.

* `World.Announced`: every change of the platform that mattered to a worker (`Worker.IsAffected`)
  was followed by a trigger.
* `Chronicle`: when the last computation was started and how it ended. A worker does not remember
  this, so it is written down beside the run.
* `Chronicle.Fits`: the invariant. Its heart is `current`: if everything was announced, no trigger
  waits and no further run is marked, then the last computation ends, or ended, with what
  recomputing on the present platform returns. A change that matters and a trigger make this hold
  vacuously; the start of a computation makes it true again.
* `World.published_eq_recompute`: the statement above.
-/

namespace PermissionUsage

def UseCase.recomputeOn (useCase : UseCase) (platform : Platform) (now : Millis) :
    Outcome :=
  useCase.recompute platform.source platform.toServices now

namespace Worker

/-- A change of the platform matters to a worker: it alters what recomputing returns at some time,
or how the computation that is under way would end. -/
def IsAffected (worker : Worker) (before after : Platform) : Prop :=
  (∃ now, worker.useCase.recomputeOn before now ≠ worker.useCase.recomputeOn after now) ∨
    ∃ isReading look, worker.running = some (.looking isReading look) ∧
      (look before).runOn before ≠ (look after).runOn after

/-- No computation is in flight: there is none, or the last one has ended and no further one is
marked, which would start as soon as that end is noticed. -/
def IsIdle (worker : Worker) : Prop :=
  worker.running = none ∨ worker.running = some .done ∧ worker.rerun = false

/-- A move, if it is possible, starts a computation. -/
def starts (worker : Worker) : Move → Bool
  | .boot => true
  | .takeTriggers => worker.running.isNone
  | .noticeEnd => worker.rerun
  | .leave => false
  | .join => false
  | .proceed => false
  | .abandon => false

/-- How the computation ends, if it ends when it goes on: it has failed, or it publishes. -/
def ending? (worker : Worker) : Option Outcome :=
  match worker.running with
  | some (.returned (.error error)) => some (.error error)
  | some (.publishing state) => some (.ok state)
  | _ => none

end Worker

/-! ## The chronicle of a run -/

/-- What is written down of one subscription along a run. -/
structure Chronicle where
  /-- What the clock showed when the last computation was started. -/
  startedAt : Option Millis := none
  /-- How the last computation that was started has ended, if it has. -/
  outcome : Option Outcome := none

namespace Chronicle

/-- The chronicle after a move that was possible. -/
def afterMove (chronicle : Chronicle) (world : World) (worker : Worker) (move : Worker.Move) :
    Chronicle :=
  if worker.starts move then { startedAt := some world.now }
  else if move = .proceed then
    { chronicle with outcome := worker.ending?.or chronicle.outcome }
  else chronicle

def after (chronicle : Chronicle) (world : World) (listener : ListenerId) (worker : Worker) :
    World.Event → Chronicle
  | .move moved move =>
    if listener = moved ∧ worker.can move then chronicle.afterMove world worker move else chronicle
  | _ => chronicle

def run (chronicle : Chronicle) (listener : ListenerId) (world : World) :
    List World.Event → Chronicle
  | [] => chronicle
  | event :: rest =>
    run ((world.hub.at? listener).elim chronicle fun s =>
      chronicle.after world listener s.worker event) listener (world.after event) rest

/-- The chronicle of one run after another. -/
theorem run_append (chronicle : Chronicle) (listener : ListenerId) (world : World)
    (first second : List World.Event) :
    chronicle.run listener world (first ++ second) =
      (chronicle.run listener world first).run listener (world.run first) second := by
  induction first generalizing chronicle world with
  | nil => rfl
  | cons event rest ih => exact ih _ _

/-- How the last computation that was started has ended, or will end if it is left alone. -/
def prospect (chronicle : Chronicle) (platform : Platform) (worker : Worker) :
    Option Outcome :=
  match worker.running with
  | some (.looking _ look) => some ((look platform).runOn platform)
  | some (.returned outcome) => some outcome
  | some (.publishing state) => some (.ok state)
  | _ => chronicle.outcome

/-- What a chronicle says of the worker of a subscription that is held, depending on whether
everything was announced. -/
structure Fits (chronicle : Chronicle) (announced : Prop) (platform : Platform) (worker : Worker) :
    Prop where
  active : worker.cancelled = false
  stays : worker.phase ≠ .leaving
  running : worker.rerun = true → worker.running.isSome
  started : chronicle.startedAt.isSome ∨ worker.running = none ∧ chronicle.outcome = none
  published : ∀ state, chronicle.outcome = some (.ok state) → worker.published = state
  current : announced → worker.queued = 0 → worker.rerun = false →
    ∀ now, chronicle.startedAt = some now →
      chronicle.prospect platform worker = some (worker.useCase.recomputeOn platform now)

/-- A new worker has still to begin. -/
theorem fits_ofUseCase (announced : Prop) (platform : Platform) (useCase : UseCase) :
    ({} : Chronicle).Fits announced platform (.ofUseCase useCase) where
  active := rfl
  stays := nofun
  running h := by cases h
  started := .inr ⟨rfl, rfl⟩
  published _ h := by cases h
  current _ _ _ _ h := by cases h

end Chronicle

namespace Chronicle

/-- A computation will come to what its process gives, if the platform stays. -/
theorem prospect_take (chronicle : Chronicle) (platform : Platform) (worker : Worker)
    (process : Process Outcome) :
    chronicle.prospect platform (worker.take process) = some (process.runOn platform) := by
  cases process <;> rfl

/-- When a worker takes over what is left of a computation, the chronicle goes on to fit, provided
that this, left alone, would end with what recomputing returns. -/
theorem fits_take {chronicle : Chronicle} {announced : Prop} {platform : Platform}
    {worker : Worker} {process : Process Outcome} (active : worker.cancelled = false)
    (stays : worker.phase ≠ .leaving) (started : chronicle.startedAt.isSome)
    (published : ∀ state, chronicle.outcome = some (.ok state) → worker.published = state)
    (current : announced → worker.queued = 0 → worker.rerun = false →
      ∀ now, chronicle.startedAt = some now →
        process.runOn platform = worker.useCase.recomputeOn platform now) :
    chronicle.Fits announced platform (worker.take process) where
  active := active
  stays := stays
  running _ := rfl
  started := .inl started
  published := published
  current hannounced hqueued hrerun now hnow := by
    rw [prospect_take, current hannounced hqueued hrerun now hnow]
    rfl

/-- A computation that starts now sees everything that was changed before. -/
theorem fits_startRun (announced : Prop) (platform : Platform) {worker : Worker}
    (active : worker.cancelled = false) (stays : worker.phase ≠ .leaving) (now : Millis) :
    ({ startedAt := some now } : Chronicle).Fits announced platform (worker.startRun now) := by
  refine fits_take active stays rfl nofun fun _ _ _ now' hnow => ?_
  obtain rfl := Option.some.inj hnow
  exact worker.useCase.runOn_process platform now

namespace Fits

variable {chronicle : Chronicle} {announced later : Prop} {world : World} {platform : Platform}
  {worker : Worker}

/-- While a trigger waits, the last computation need not know of anything. -/
theorem trigger (fits : chronicle.Fits announced platform worker) :
    chronicle.Fits later platform worker.trigger where
  active := fits.active
  stays := fits.stays
  running := fits.running
  started := fits.started
  published := fits.published
  current _ hqueued := absurd hqueued (Nat.succ_ne_zero _)

/-- What was announced later was announced before, if nothing happened that matters. -/
theorem mono (fits : chronicle.Fits announced platform worker) (h : later → announced) :
    chronicle.Fits later platform worker where
  active := fits.active
  stays := fits.stays
  running := fits.running
  started := fits.started
  published := fits.published
  current hlater := fits.current (h hlater)

/-- Looking at what is published changes neither what it is nor what is to be done. -/
theorem see (fits : chronicle.Fits announced platform worker) (listener seen : ListenerId) :
    chronicle.Fits announced platform (if listener = seen then worker.see else worker) := by
  split
  · exact ⟨fits.active, fits.stays, fits.running, fits.started, fits.published, fits.current⟩
  · exact fits

/-- The platform changes: either this matters and is not announced yet, or both what recomputing
returns and how the computation under way would end stay as they are. -/
theorem change (fits : chronicle.Fits announced platform worker) {next : Platform}
    (h : later → ¬worker.IsAffected platform next ∧ announced) :
    chronicle.Fits later next worker where
  active := fits.active
  stays := fits.stays
  running := fits.running
  started := fits.started
  published := fits.published
  current hlater hqueued hrerun now hnow := by
    obtain ⟨hunaffected, hannounced⟩ := h hlater
    -- a change that made a difference to recomputing would affect the worker
    have hresult : worker.useCase.recomputeOn platform now =
        worker.useCase.recomputeOn next now := by
      by_contra hne
      exact hunaffected (.inl ⟨now, hne⟩)
    have hcurrent := fits.current hannounced hqueued hrerun now hnow
    rw [← hresult, ← hcurrent]
    unfold prospect
    split
    · next isReading look hrunning =>
      congr 1
      by_contra hne
      exact hunaffected (.inr ⟨isReading, look, hrunning, Ne.symm hne⟩)
    · rfl
    · rfl
    · rfl

/-- A computation has a time at which it started. -/
theorem isSome_startedAt (fits : chronicle.Fits announced platform worker)
    (h : worker.running.isSome) : chronicle.startedAt.isSome := by
  rcases fits.started with hstarted | ⟨hnone, -⟩
  · exact hstarted
  · rw [hnone] at h
    cases h

/-- A computation that goes on comes to the outcome that it was to come to. -/
theorem proceed (fits : chronicle.Fits announced platform worker)
    (busy : worker.running.any (·.isBusy)) :
    ({ chronicle with outcome := worker.ending?.or chronicle.outcome } : Chronicle).Fits announced
      platform (worker.proceed platform) := by
  have hstarted : worker.running.isSome → chronicle.startedAt.isSome := fits.isSome_startedAt
  have hcurrent := fits.current
  unfold Worker.proceed
  unfold Worker.ending?
  rcases hrunning : worker.running with _ | ⟨isReading, look⟩ | outcome | state | _
  · rw [hrunning] at busy
    cases busy
  · refine fits_take fits.active fits.stays (hstarted (by rw [hrunning]; rfl)) fits.published ?_
    intro hannounced hqueued hrerun now hnow
    have hprospect := hcurrent hannounced hqueued hrerun now hnow
    rw [prospect, hrunning] at hprospect
    exact Option.some.inj hprospect
  · have hprospect : chronicle.prospect platform worker = some outcome := by
      rw [prospect, hrunning]
    rw [hprospect] at hcurrent
    cases outcome with
    | error =>
      exact ⟨fits.active, fits.stays, fun _ => rfl, .inl (hstarted (by rw [hrunning]; rfl)), nofun,
        hcurrent⟩
    | ok state =>
      -- nobody told the worker to end, so the result is to be published
      have hsettle : worker.settle (.ok state) =
          { worker with running := some (.publishing state) } := by
        rw [Worker.settle, fits.active]
        rfl
      show Fits _ _ _ (worker.settle (.ok state))
      rw [hsettle]
      exact ⟨fits.active, fits.stays, fun _ => rfl, .inl (hstarted (by rw [hrunning]; rfl)),
        fits.published, hcurrent⟩
  · have hprospect : chronicle.prospect platform worker = some (.ok state) := by
      rw [prospect, hrunning]
    rw [hprospect] at hcurrent
    refine ⟨fits.active, fits.stays, fun _ => rfl, .inl (hstarted (by rw [hrunning]; rfl)), ?_,
      hcurrent⟩
    intro published hpublished
    exact Except.ok.inj (Option.some.inj hpublished)
  · rw [hrunning] at busy
    cases busy

/-- The step of the invariant for a move of the worker: the platform stays as it is. -/
theorem make (fits : chronicle.Fits announced world.platform worker) {move : Worker.Move}
    (possible : worker.can move) :
    (chronicle.afterMove world worker move).Fits announced world.platform
      (worker.make world.platform world.now move) := by
  cases move with
  | boot =>
    have active : ({ worker with phase := .live } : Worker).cancelled = false := fits.active
    exact fits_startRun announced world.platform active nofun world.now
  | takeTriggers =>
    show Fits _ _ _ (worker.takeTriggers world.now)
    unfold Worker.takeTriggers
    by_cases hrunning : worker.running.isSome
    · have hstarts : ¬worker.starts .takeTriggers := by
        simpa [Worker.starts, Option.isSome_iff_ne_none] using hrunning
      rw [if_pos hrunning, afterMove, if_neg hstarts, if_neg (by decide)]
      -- a further run is marked, so nothing is said of the present one
      exact {
        active := fits.active
        stays := fits.stays
        running := fun _ => hrunning
        started := .inl (fits.isSome_startedAt hrunning)
        published := fits.published
        current := fun _ _ hrerun => by cases hrerun }
    · have active : ({ worker with queued := 0 } : Worker).cancelled = false := fits.active
      have hstarts : worker.starts .takeTriggers := by
        simpa [Worker.starts, Option.isSome_iff_ne_none] using hrunning
      rw [if_neg hrunning, afterMove, if_pos hstarts]
      exact fits_startRun announced world.platform active fits.stays world.now
  | noticeEnd =>
    obtain ⟨-, hdone⟩ := (Bool.and_eq_true _ _).mp possible
    show Fits _ _ _ (worker.noticeEnd world.now)
    unfold Worker.noticeEnd
    by_cases hrerun : worker.rerun = true
    · have active : ({ worker with rerun := false } : Worker).cancelled = false := fits.active
      have hstarts : worker.starts .noticeEnd := hrerun
      rw [if_pos hrerun, afterMove, if_pos hstarts]
      exact fits_startRun announced world.platform active fits.stays world.now
    · have hstarts : ¬worker.starts .noticeEnd := hrerun
      have hrunning : worker.running = some .done := Running.eq_done hdone
      rw [if_neg hrerun, afterMove, if_neg hstarts, if_neg (by decide)]
      refine ⟨fits.active, fits.stays, fun h => absurd h hrerun, ?_, fits.published, ?_⟩
      · exact .inl (fits.isSome_startedAt (by rw [hrunning]; rfl))
      · -- the computation has ended, so its end is remembered whether it is noticed or not
        intro hannounced hqueued hrerun now hnow
        have hcurrent := fits.current hannounced hqueued hrerun now hnow
        rw [prospect, hrunning] at hcurrent
        exact hcurrent
  | proceed => exact fits.proceed possible
  | leave =>
    obtain ⟨-, hcancelled⟩ := (Bool.and_eq_true _ _).mp possible
    cases hcancelled.symm.trans fits.active
  | join =>
    obtain ⟨hleaving, -⟩ := (Bool.and_eq_true _ _).mp possible
    exact absurd (of_decide_eq_true hleaving) fits.stays
  | abandon =>
    obtain ⟨hcancelled, -⟩ := (Bool.and_eq_true _ _).mp possible
    cases hcancelled.symm.trans fits.active

/-- Whatever happens to the worker of a subscription that stays held, its chronicle goes on to fit.
What is announced afterwards was announced before, unless the event is a trigger, and the event does
not matter to the worker. -/
theorem after (fits : chronicle.Fits announced world.platform worker) (listener : ListenerId)
    (event : World.Event)
    (untold : later → ¬event.triggers listener worker.useCase → announced)
    (harmless : later → ∀ platform, event = .change platform →
      ¬worker.IsAffected world.platform platform) :
    (chronicle.after world listener worker event).Fits later (world.after event).platform
      (world.workerAfter listener worker event) := by
  by_cases htriggers : event.triggers listener worker.useCase
  · rw [World.workerAfter_of_triggers htriggers]
    cases event with
    | notify => exact fits.trigger
    | refresh => exact fits.trigger
    | _ => cases htriggers
  · -- no trigger: what is announced afterwards was announced before
    have fits : chronicle.Fits later world.platform worker := fits.mono fun h => untold h htriggers
    cases event with
    | change next => exact fits.change fun h => ⟨harmless h next rfl, h⟩
    | notify event =>
      have hignored : ¬(ListenerFilter.watching worker.useCase.watchedOps).accepts event :=
        htriggers
      rw [World.workerAfter, if_neg hignored]
      exact fits
    | refresh refreshed =>
      rw [World.workerAfter, if_neg (mt decide_eq_true htriggers)]
      exact fits
    | see seen => exact fits.see listener seen
    | move moved move =>
      show Fits (ite _ _ _) later world.platform (ite _ _ _)
      by_cases hmoved : listener = moved
      · rw [if_pos hmoved]
        unfold World.attempt
        by_cases possible : worker.can move
        · rw [if_pos ⟨hmoved, possible⟩, if_pos possible]
          exact fits.make possible
        · rw [if_neg fun h => possible h.2, if_neg possible]
          exact fits
      · rw [if_neg fun h => hmoved h.1, if_neg hmoved]
        exact fits
    | setClock | start | stop | stopReturns | drop => exact fits

end Fits

end Chronicle

/-! ## Runs -/

namespace World

/-- In a run every change of the platform that mattered to the worker of a subscription was followed
by a trigger. -/
def Announced (listener : ListenerId) (useCase : UseCase) (world : World) (events : List Event) :
    Prop :=
  ∀ before platform after, events = before ++ .change platform :: after →
    ∀ s, (world.run before).hub.at? listener = some s →
      s.worker.IsAffected (world.run before).platform platform →
        ∃ event ∈ after, event.triggers listener useCase

namespace Announced

variable {listener : ListenerId} {useCase : UseCase} {world : World} {events : List Event}

/-- What was announced by the end was announced before an event that is no trigger. -/
theorem of_append {event : Event} (h : Announced listener useCase world (events ++ [event]))
    (hnot : ¬event.triggers listener useCase) : Announced listener useCase world events := by
  intro before platform after hevents s hs haffected
  have hsplit : events ++ [event] = before ++ .change platform :: (after ++ [event]) := by
    rw [hevents, List.append_assoc, List.cons_append]
  obtain ⟨e, he, htriggers⟩ := h before platform (after ++ [event]) hsplit s hs haffected
  rcases List.mem_append.1 he with he | he
  · exact ⟨e, he, htriggers⟩
  · obtain rfl := List.mem_singleton.1 he
    exact absurd htriggers hnot

/-- A change that has just been made and that mattered is not announced. -/
theorem not_isAffected {platform : Platform} {s : Subscription}
    (h : Announced listener useCase world (events ++ [.change platform]))
    (hs : (world.run events).hub.at? listener = some s) :
    ¬s.worker.IsAffected (world.run events).platform platform := by
  intro haffected
  obtain ⟨e, he, -⟩ := h events platform [] rfl s hs haffected
  cases he

/-- A trigger announces all that happened before it. -/
theorem of_triggers {before after : List Event} {event : Event}
    (h : event.triggers listener useCase)
    (unchanged : ∀ e ∈ event :: after, ∀ platform, e ≠ .change platform) :
    Announced listener useCase world (before ++ event :: after) := by
  intro front platform back hsplit s _ _
  rcases List.append_eq_append_iff.1 hsplit with ⟨rest, -, hrest⟩ | ⟨rest, -, hrest⟩
  · -- the change would be one of the events from the trigger on
    have hmem : Event.change platform ∈ event :: after := by
      rw [hrest]
      exact List.mem_append_right _ List.mem_cons_self
    exact absurd rfl (unchanged _ hmem platform)
  · refine ⟨event, ?_, h⟩
    rcases List.cons_eq_append_iff.1 hrest with ⟨rfl, heq⟩ | ⟨rest, -, rfl⟩
    · obtain ⟨rfl, -⟩ := List.cons.inj heq
      exact absurd rfl (unchanged _ List.mem_cons_self platform)
    · exact List.mem_append_right _ List.mem_cons_self

end Announced

theorem run_append_singleton (world : World) (events : List Event) (event : Event) :
    world.run (events ++ [event]) = (world.run events).after event := by
  rw [run, List.foldl_append]
  rfl

/-- Along a run from its start the chronicle of a subscription fits, as long as the subscription is
held. The induction takes the last event off, because `Announced` looks back from there. -/
theorem fits_run {world : World} {listener : ListenerId} {useCase : UseCase}
    (wired : world.hub.Wired listener)
    (start : ∀ s, world.hub.at? listener = some s → s.worker = .ofUseCase useCase)
    (events : List Event) : ∀ s, (world.run events).hub.at? listener = some s → s.isHeld →
      s.worker.useCase = useCase ∧
        (({} : Chronicle).run listener world events).Fits
          (Announced listener useCase world events) (world.run events).platform s.worker := by
  induction events using List.reverseRecOn with
  | nil =>
    intro s hs _
    rw [start s hs]
    exact ⟨rfl, Chronicle.fits_ofUseCase _ _ useCase⟩
  | append_singleton events event ih =>
    intro s hs held
    rw [run_append_singleton] at hs
    obtain ⟨before, hbefore, hheld, hworker⟩ := held_after (wired_run wired events) hs held
    obtain ⟨huse, fits⟩ := ih before hbefore hheld
    have hchronicle : ({} : Chronicle).run listener world (events ++ [event]) =
        (({} : Chronicle).run listener world events).after (world.run events) listener
          before.worker event := by
      rw [Chronicle.run_append, Chronicle.run, hbefore]
      rfl
    rw [hworker, useCase_workerAfter, hchronicle, run_append_singleton]
    refine ⟨huse, fits.after listener event (fun hlater hnot => ?_) fun hlater platform heq => ?_⟩
    · rw [huse] at hnot
      exact hlater.of_append hnot
    · subst heq
      exact hlater.not_isAffected hbefore

/-! ## Freshness -/

def initial (platform : Platform) (now : Millis) : World := { platform, now }

/-- The listener of the next subscription, which is to be started under a name. -/
def nextListener (world : World) (name : String) : ListenerId :=
  ⟨(world.hub.beforeStart name).registry.next⟩

/-- **No update is lost.** A subscription is started after any history of its hub, and then anything
happens in any order. Whenever it is held, every change of the platform that mattered to it was
followed by a trigger, no trigger waits, no computation is in flight and the last one that was
started ended well, it has published what a computation returns that is done alone on the platform
as it is, at the time that the clock showed when the last computation was started. -/
theorem published_eq_recompute (platform : Platform) (now : Millis) (earlier : List Event)
    (name : String) (useCase : UseCase) (events : List Event) (s : Subscription)
    (state : UsageState) :
    let world := (initial platform now).run earlier
    let listener := world.nextListener name
    let started := world.after (.start name useCase)
    let chronicle := ({} : Chronicle).run listener started events
    let final := started.run events
    final.hub.at? listener = some s → s.isHeld → Announced listener useCase started events →
      s.worker.queued = 0 → s.worker.IsIdle → chronicle.outcome = some (.ok state) →
      ∃ startedAt, chronicle.startedAt = some startedAt ∧
        useCase.recompute final.platform.source final.platform.toServices startedAt =
          .ok s.worker.published := by
  intro world listener started chronicle final hs held announced hqueued hidle houtcome
  have wired : started.hub.Wired listener := world.hub.wired_start name useCase
  have start : ∀ s, started.hub.at? listener = some s → s.worker = .ofUseCase useCase := by
    intro s hs
    change (world.hub.start name useCase).at? listener = some s at hs
    rw [Hub.at?_start] at hs
    obtain rfl := Option.some.inj ((if_pos rfl).symm.trans hs)
    rfl
  obtain ⟨huse, fits⟩ := fits_run wired start events s hs held
  -- no further run is marked, or the worker would not be idle
  have hrerun : s.worker.rerun = false := by
    rcases hidle with hnone | ⟨-, hrerun⟩
    · rw [Bool.eq_false_iff]
      intro hrerun
      have hsome := fits.running hrerun
      rw [hnone] at hsome
      cases hsome
    · exact hrerun
  -- an idle worker comes to nothing else than the last outcome
  have hprospect : chronicle.prospect final.platform s.worker = chronicle.outcome := by
    rcases hidle with h | ⟨h, -⟩ <;> rw [Chronicle.prospect, h]
  obtain ⟨startedAt, hstarted⟩ : ∃ startedAt, chronicle.startedAt = some startedAt := by
    rcases fits.started with h | ⟨-, h⟩
    · exact Option.isSome_iff_exists.1 h
    · cases h.symm.trans houtcome
  have hcurrent := fits.current announced hqueued hrerun startedAt hstarted
  refine ⟨startedAt, hstarted, ?_⟩
  calc useCase.recompute final.platform.source final.platform.toServices startedAt
      = s.worker.useCase.recomputeOn final.platform startedAt := by rw [huse]; rfl
    _ = .ok state := Option.some.inj (hcurrent.symm.trans (hprospect.trans houtcome))
    _ = .ok s.worker.published := by rw [fits.published state houtcome]

/-! ### A change after the last read of the camera

The dashboard's computation has read the camera op when an app uses the camera. The notification of
that marks one further run, and the further run sees the use.
-/

namespace LateChange

def owner : PackageUser := ⟨"com.example.camera", 0⟩

/-- The app is installed and has not used the camera. -/
def installed : Platform := Platform.fresh.install owner [Permission.camera] false

def used : Platform :=
  installed.addAccesses owner [{ op := Op.camera, time := 600000, duration := -1 }]

def useCase : UseCase := .dashboard { features := {} }

def moves (n : Nat) (move : Worker.Move) : List Event := List.replicate n (.move ⟨0⟩ move)

/-- The first computation begins and has read three ops when the app uses the camera. -/
def before : List Event := moves 1 .boot ++ moves 6 .proceed ++ [.change used]

def notice : Event := .notify (.opChanged Op.camera owner)

def rest : List Event :=
  moves 1 .takeTriggers ++ moves 14 .proceed ++ moves 1 .noticeEnd ++ moves 22 .proceed ++
    moves 1 .noticeEnd

def started : World := (initial installed 660000).after (.start "board" useCase)

def final : World := started.run (before ++ notice :: rest)

def shown : UsageState :=
  .dashboard (.success [{ owner, group := .camera, last := 600000, isSensitive := true }])

theorem announced : Announced ⟨0⟩ useCase started (before ++ notice :: rest) := by
  refine Announced.of_triggers (by decide +kernel) fun e he platform heq => ?_
  subst heq
  simp [rest, notice, moves] at he

theorem published_final :
    (final.hub.at? ⟨0⟩).any (fun s => s.isHeld && s.worker.queued == 0 &&
      s.worker.running.isNone && s.worker.published == shown) := by
  decide +kernel

end LateChange

open LateChange in
/-- A change that comes while a computation reads is not lost. -/
theorem published_eq_recompute_of_lateChange :
    ∃ s, final.hub.at? ⟨0⟩ = some s ∧ s.worker.published = shown ∧
      ∃ startedAt, useCase.recompute used.source used.toServices startedAt =
        .ok s.worker.published := by
  obtain ⟨s, hs, hfinal⟩ := (Option.any_eq_true _ _).mp published_final
  simp only [Bool.and_eq_true, beq_iff_eq, Option.isNone_iff_eq_none] at hfinal
  obtain ⟨⟨⟨held, hqueued⟩, hrunning⟩, hpublished⟩ := hfinal
  have houtcome : (({} : Chronicle).run ⟨0⟩ started (before ++ notice :: rest)).outcome =
      some (.ok shown) := by
    decide +kernel
  obtain ⟨startedAt, -, hrecompute⟩ := published_eq_recompute installed 660000 [] "board" useCase
    (before ++ notice :: rest) s shown hs held announced hqueued (.inl hrunning) houtcome
  exact ⟨s, hs, hpublished, startedAt, hrecompute⟩

end World

end PermissionUsage
