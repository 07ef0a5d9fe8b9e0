import Mathlib.Data.List.Basic
import PermissionUsage.Live.Worker
/-!
# The journal of a worker

A run of a worker is a list of moments, each with the platform and the clock as they are then
(`Moment`). What a worker does in a moment is noted (`Worker.notes`): triggers that are sent and
handled, computations that start and end, ends that are noticed. The notes of a run are its journal.

A journal follows a protocol, `Stage.after?`, which knows nothing of platforms, processes or queues.
`Stage.fits_of_meets` is the step: the notes of a moment are allowed where the worker stands, and
lead to where it stands afterwards. `Records` is the invariant of a run.
-/

namespace PermissionUsage

/-! ## Runs -/

/-- What happens to a worker. -/
inductive Deed where
  | trigger
  | cancel
  | see
  | move (move : Worker.Move)

/-- Something happens to a worker, on a platform and while the clock shows `now`. -/
structure Moment where
  platform : Platform
  now : Millis
  deed : Deed

namespace Worker

/-- The worker after a moment. A move that is not possible has no effect. -/
def meet (worker : Worker) (moment : Moment) : Worker :=
  match moment.deed with
  | .trigger => worker.trigger
  | .cancel => worker.cancel
  | .see => worker.see
  | .move move =>
    if worker.can move then worker.make moment.platform moment.now move else worker

def meetAll (worker : Worker) (moments : List Moment) : Worker := moments.foldl meet worker

end Worker

/-! ## Notes -/

inductive Note where
  /-- A trigger is sent. -/
  | sent
  /-- The worker is told to end. -/
  | cancelled
  /-- All triggers in the queue, of which there is one at least, are taken out of it. -/
  | handled
  | started
  /-- A computation ends by itself: it has failed, or it publishes its result. -/
  | ended (outcome : Outcome)
  /-- A computation gives up, or its result is given up. -/
  | abandoned
  /-- The worker notices that its computation has ended. -/
  | noticed
  deriving DecidableEq

namespace Note

def isSent : Note → Bool
  | sent => true
  | _ => false

def isHandled : Note → Bool
  | handled => true
  | _ => false

def isStart : Note → Bool
  | started => true
  | _ => false

def isEnd : Note → Bool
  | ended _ => true
  | abandoned => true
  | _ => false

end Note

namespace Worker

/-- What is noted when a computation goes on: its end, if it ends. A result that is not to be
published any more is given up. -/
def proceedNotes (worker : Worker) : List Note :=
  match worker.running with
  | some (.returned (.error error)) => [.ended (.error error)]
  | some (.returned (.ok _)) => if worker.cancelled then [.abandoned] else []
  | some (.publishing state) => [.ended (.ok state)]
  | _ => []

/-- What is noted of a move that is possible. -/
def moveNotes (worker : Worker) : Move → List Note
  | .boot => [.started]
  | .takeTriggers => .handled :: if worker.running.isSome then [] else [.started]
  | .noticeEnd => .noticed :: if worker.rerun then [.started] else []
  | .leave => []
  | .join => []
  | .proceed => worker.proceedNotes
  | .abandon => [.abandoned]

/-- What is noted of a moment. -/
def notes (worker : Worker) (moment : Moment) : List Note :=
  match moment.deed with
  | .trigger => [.sent]
  | .cancel => [.cancelled]
  | .see => []
  | .move move => if worker.can move then worker.moveNotes move else []

/-- The notes of a run, moment after moment. -/
def journal (worker : Worker) : List Moment → List Note
  | [] => []
  | moment :: rest => worker.notes moment ++ (worker.meet moment).journal rest

end Worker

/-! ## What happens in a moment -/

namespace Worker

/-- A worker comes to start a computation: what is noted of that, and the worker as it is then. -/
inductive Starts (worker : Worker) : List Note → Worker → Prop where
  | boot (waiting : worker.phase = .waiting) : Starts worker [] { worker with phase := .live }
  | takeTriggers (live : worker.phase = .live) (queued : 0 < worker.queued)
    (free : worker.running = none) : Starts worker [.handled] { worker with queued := 0 }
  | noticeEnd (live : worker.phase = .live) (done : worker.running = some .done)
    (marked : worker.rerun = true) : Starts worker [.noticed] { worker with rerun := false }

/-- All that may happen to a worker in a moment, with what is noted and with what becomes of it. -/
inductive Meets (worker : Worker) (moment : Moment) : List Note → Worker → Prop where
  | trigger (deed : moment.deed = .trigger) : Meets worker moment [.sent] worker.trigger
  | cancel (deed : moment.deed = .cancel) : Meets worker moment [.cancelled] worker.cancel
  | see (deed : moment.deed = .see) : Meets worker moment [] worker.see
  /-- What should happen is not possible. -/
  | nothing : Meets worker moment [] worker
  | start {lead : List Note} {before : Worker} (starts : worker.Starts lead before) :
    Meets worker moment (lead ++ [.started]) (before.startRun moment.now)
  /-- Triggers are handled during a computation. -/
  | mark (live : worker.phase = .live) (queued : 0 < worker.queued)
    (running : worker.running.isSome) :
    Meets worker moment [.handled] { worker with queued := 0, rerun := true }
  | look {isReading : Bool} {look : Platform → Process Outcome}
    (deed : moment.deed = .move .proceed)
    (looking : worker.running = some (.looking isReading look)) :
    Meets worker moment [] (worker.take (look moment.platform))
  | fail {error : ComputeError} (deed : moment.deed = .move .proceed)
    (returned : worker.running = some (.returned (.error error))) :
    Meets worker moment [.ended (.error error)] { worker with running := some .done }
  /-- A computation checks that the worker goes on. -/
  | pass {state : UsageState} (deed : moment.deed = .move .proceed)
    (returned : worker.running = some (.returned (.ok state)))
    (uncancelled : worker.cancelled = false) :
    Meets worker moment [] { worker with running := some (.publishing state) }
  | publish {state : UsageState} (deed : moment.deed = .move .proceed)
    (publishing : worker.running = some (.publishing state)) :
    Meets worker moment [.ended (.ok state)] (worker.publish state)
  /-- A computation gives up that has not found yet that the worker goes on. -/
  | abandon {running : Running} (found : worker.running = some running) (busy : running.isBusy)
    (unchecked : ∀ state, running ≠ .publishing state) (cancelled : worker.cancelled = true) :
    Meets worker moment [.abandoned] worker.abandon
  /-- The end of a computation is noticed that is not marked. -/
  | rest (live : worker.phase = .live) (done : worker.running = some .done)
    (unmarked : worker.rerun = false) :
    Meets worker moment [.noticed] { worker with running := none }
  | leave (live : worker.phase = .live) (cancelled : worker.cancelled = true) :
    Meets worker moment [] worker.leave
  | join (leaving : worker.phase = .leaving) (free : worker.running.all (!·.isBusy)) :
    Meets worker moment [] worker.join

/-- What happens when a computation goes on. -/
theorem meets_proceed {worker : Worker} {moment : Moment} (deed : moment.deed = .move .proceed) :
    worker.Meets moment worker.proceedNotes (worker.proceed moment.platform) := by
  unfold proceedNotes proceed
  rcases hrunning : worker.running with _ | ⟨isReading, look⟩ | outcome | state | _
  · exact .nothing
  · exact .look deed hrunning
  · cases outcome with
    | error error => exact .fail deed hrunning
    | ok state =>
      show worker.Meets moment (ite _ _ _) { worker with running := some (ite _ _ _) }
      by_cases cancelled : worker.cancelled = true
      · rw [if_pos cancelled, if_pos cancelled]
        exact .abandon hrunning rfl nofun cancelled
      · rw [if_neg cancelled, if_neg cancelled]
        exact .pass deed hrunning (Bool.eq_false_iff.2 cancelled)
  · exact .publish deed hrunning
  · exact .nothing

/-- What happens in a move that is possible. -/
theorem meets_make {worker : Worker} {moment : Moment} {move : Move}
    (deed : moment.deed = .move move) (possible : worker.can move) :
    worker.Meets moment (worker.moveNotes move)
      (worker.make moment.platform moment.now move) := by
  cases move with
  | boot => exact .start (.boot (of_decide_eq_true possible))
  | takeTriggers =>
    obtain ⟨hlive, hqueued⟩ := Bool.and_eq_true_iff.1 possible
    have live : worker.phase = .live := of_decide_eq_true hlive
    have queued : 0 < worker.queued := of_decide_eq_true hqueued
    show worker.Meets moment (.handled :: ite _ _ _) (ite _ _ _)
    by_cases running : worker.running.isSome
    · rw [if_pos running, if_pos running]
      exact .mark live queued running
    · rw [if_neg running, if_neg running]
      exact .start (.takeTriggers live queued (Option.not_isSome_iff_eq_none.1 running))
  | noticeEnd =>
    obtain ⟨hlive, hdone⟩ := Bool.and_eq_true_iff.1 possible
    have live : worker.phase = .live := of_decide_eq_true hlive
    have done : worker.running = some .done := Running.eq_done hdone
    show worker.Meets moment (.noticed :: ite _ _ _) (ite _ _ _)
    by_cases marked : worker.rerun
    · rw [if_pos marked, if_pos marked]
      exact .start (.noticeEnd live done marked)
    · rw [if_neg marked, if_neg marked]
      exact .rest live done (Bool.eq_false_iff.2 marked)
  | leave =>
    obtain ⟨hlive, cancelled⟩ := Bool.and_eq_true_iff.1 possible
    exact .leave (of_decide_eq_true hlive) cancelled
  | join =>
    obtain ⟨hleaving, free⟩ := Bool.and_eq_true_iff.1 possible
    exact .join (of_decide_eq_true hleaving) free
  | proceed => exact meets_proceed deed
  | abandon =>
    obtain ⟨cancelled, hlooking⟩ := Bool.and_eq_true_iff.1 possible
    obtain ⟨isReading, look, hrunning⟩ := Running.exists_looking hlooking
    exact .abandon hrunning rfl nofun cancelled

/-- What happens in a moment is one of the things that `Meets` lists, and no other proof about runs
opens the moves again. -/
theorem meets (worker : Worker) (moment : Moment) :
    worker.Meets moment (worker.notes moment) (worker.meet moment) := by
  unfold notes meet
  split
  · next deed => exact .trigger deed
  · next deed => exact .cancel deed
  · next deed => exact .see deed
  · next move deed =>
    by_cases possible : worker.can move
    · rw [if_pos possible, if_pos possible]
      exact meets_make deed possible
    · rw [if_neg possible, if_neg possible]
      exact .nothing

namespace Starts

variable {worker before : Worker} {lead : List Note} (starts : worker.Starts lead before)
include starts

/-- A computation is started by a live worker only. -/
theorem live : before.phase = .live := by
  cases starts with
  | boot => rfl
  | takeTriggers live => exact live
  | noticeEnd live => exact live

/-- To start one does not change whether the worker is told to end. -/
theorem cancelled : before.cancelled = worker.cancelled := by
  cases starts <;> rfl

/-- Before a start a worker at most handles triggers or notices an end. -/
theorem mem_lead {note : Note} (h : note ∈ lead) : note = .handled ∨ note = .noticed := by
  cases starts with
  | boot => cases h
  | takeTriggers => exact .inl (List.mem_singleton.1 h)
  | noticeEnd => exact .inr (List.mem_singleton.1 h)

end Starts

end Worker

/-! ## The protocol of a journal -/

/-- Where a worker stands, as far as its computations are concerned. `marked` says that triggers
were handled since the computation was started. -/
inductive Stage where
  | new
  | idle
  /-- Triggers were handled while there was no computation: one starts at once. -/
  | asked
  | busy (marked : Bool)
  | done (marked : Bool)
  /-- The end of a marked computation was noticed: another one starts at once. -/
  | due
  deriving DecidableEq

namespace Stage

/-- Where a worker stands after a note, if the note may stand there. -/
def after? : Stage → Note → Option Stage
  | new, .started | asked, .started | due, .started => some (busy false)
  | asked, _ | due, _ => none
  | stage, .sent | stage, .cancelled => some stage
  | idle, .handled => some asked
  | busy _, .handled => some (busy true)
  | done _, .handled => some (done true)
  | busy marked, .ended _ | busy marked, .abandoned => some (done marked)
  | done true, .noticed => some due
  | done false, .noticed => some idle
  | _, _ => none

/-- Where a worker stands after some notes, if they may stand there in their order. -/
def follow (stage : Stage) : List Note → Option Stage
  | [] => some stage
  | note :: rest => (stage.after? note).bind (·.follow rest)

theorem follow_append (stage : Stage) (first second : List Note) :
    stage.follow (first ++ second) = (stage.follow first).bind (·.follow second) := by
  induction first generalizing stage with
  | nil => rfl
  | cons note rest ih =>
    show (stage.after? note).bind (·.follow (rest ++ second)) = _
    cases h : stage.after? note with
    | none => simp [follow, h]
    | some next => simp [follow, h, ih]

/-- Where a worker stands that has begun and has not ended. -/
def ofRunning : Option Running → Bool → Stage
  | none, _ => idle
  | some .done, marked => done marked
  | some _, marked => busy marked

def isBusy : Stage → Bool
  | busy _ => true
  | _ => false

/-- A stage is where a worker stands. An ended worker may stand anywhere but at a computation or
before one that starts at once. -/
structure Fits (stage : Stage) (worker : Worker) : Prop where
  waiting : worker.phase = .waiting →
    stage = new ∧ worker.running = none ∧ worker.rerun = false
  begun : worker.phase = .live ∨ worker.phase = .leaving →
    stage = ofRunning worker.running worker.rerun
  ended : worker.phase = .ended →
    stage ≠ asked ∧ stage ≠ due ∧ stage.isBusy = false ∧ worker.running = none
  rerun : worker.rerun → worker.running.isSome

/-- A new worker has not begun. -/
theorem fits_ofUseCase (useCase : UseCase) : new.Fits (.ofUseCase useCase) where
  waiting _ := ⟨rfl, rfl, rfl⟩
  begun h := by rcases h with h | h <;> cases h
  ended h := by cases h
  rerun h := by cases h

/-- A computation that has not ended is under way. -/
theorem ofRunning_of_isBusy {running : Running} (busy : running.isBusy) (marked : Bool) :
    ofRunning (some running) marked = .busy marked := by
  cases running with
  | done => cases busy
  | _ => rfl

namespace Fits

variable {stage : Stage} {worker : Worker}

/-- Wherever a worker stands, no computation is to start at once: it starts in the moment in which
that comes about. -/
theorem settled (fits : stage.Fits worker) : stage ≠ asked ∧ stage ≠ due := by
  have hbegun : ∀ running marked, ofRunning running marked ≠ asked ∧
      ofRunning running marked ≠ due := by
    intro running marked
    rcases running with _ | ⟨_, _⟩ | _ | _ | _ <;> exact ⟨nofun, nofun⟩
  cases hphase : worker.phase with
  | waiting =>
    obtain ⟨rfl, -, -⟩ := fits.waiting hphase
    exact ⟨nofun, nofun⟩
  | live =>
    rw [fits.begun (.inl hphase)]
    exact hbegun _ _
  | leaving =>
    rw [fits.begun (.inr hphase)]
    exact hbegun _ _
  | ended =>
    obtain ⟨hasked, hdue, -, -⟩ := fits.ended hphase
    exact ⟨hasked, hdue⟩

/-- Only a worker that has begun and has not ended has a computation. -/
theorem begun_of_running (fits : stage.Fits worker) (h : worker.running.isSome) :
    worker.phase = .live ∨ worker.phase = .leaving := by
  cases hphase : worker.phase with
  | waiting =>
    rw [(fits.waiting hphase).2.1] at h
    cases h
  | live => exact .inl rfl
  | leaving => exact .inr rfl
  | ended =>
    obtain ⟨-, -, -, hrunning⟩ := fits.ended hphase
    rw [hrunning] at h
    cases h

/-- A mark is kept only as long as there is a computation. -/
theorem rerun_eq_false (fits : stage.Fits worker) (h : worker.running = none) :
    worker.rerun = false := by
  cases hrerun : worker.rerun with
  | false => rfl
  | true =>
    have hsome := fits.rerun hrerun
    rw [h] at hsome
    cases hsome

/-- While there is a computation, it says where the worker stands. -/
theorem stage_of_running (fits : stage.Fits worker) {running : Running}
    (h : worker.running = some running) : stage = ofRunning (some running) worker.rerun := by
  rw [← h]
  exact fits.begun (fits.begun_of_running (Option.isSome_of_eq_some h))

/-- A stage says whether a computation is under way. -/
theorem isBusy_eq (fits : stage.Fits worker) : stage.isBusy = worker.running.any (·.isBusy) := by
  cases hrunning : worker.running with
  | some running =>
    rw [fits.stage_of_running hrunning]
    cases running <;> rfl
  | none =>
    cases hphase : worker.phase with
    | waiting =>
      obtain ⟨rfl, -, -⟩ := fits.waiting hphase
      rfl
    | live =>
      rw [fits.begun (.inl hphase), hrunning]
      rfl
    | leaving =>
      rw [fits.begun (.inr hphase), hrunning]
      rfl
    | ended =>
      obtain ⟨-, -, hbusy, -⟩ := fits.ended hphase
      exact hbusy

/-- A worker that differs in nothing that a stage depends on stands at the same stage. -/
theorem congr (fits : stage.Fits worker) {other : Worker} (phase : other.phase = worker.phase)
    (running : other.running = worker.running) (rerun : other.rerun = worker.rerun) :
    stage.Fits other := by
  refine ⟨?_, ?_, ?_, ?_⟩
  · rw [phase, running, rerun]; exact fits.waiting
  · rw [phase, running, rerun]; exact fits.begun
  · rw [phase, running]; exact fits.ended
  · rw [running, rerun]; exact fits.rerun

/-- Where a worker stands that has begun and has not ended. -/
theorem of_begun {stage : Stage} {worker : Worker}
    (begun : worker.phase = .live ∨ worker.phase = .leaving)
    (h : stage = ofRunning worker.running worker.rerun)
    (rerun : worker.rerun → worker.running.isSome) : stage.Fits worker where
  waiting hwaiting := by rcases begun with h | h <;> cases h.symm.trans hwaiting
  begun _ := h
  ended hended := by rcases begun with h | h <;> cases h.symm.trans hended
  rerun := rerun

/-- A computation that was under way goes on. -/
theorem goesOn (fits : stage.Fits worker) {old new : Running} (h : worker.running = some old)
    (oldBusy : old.isBusy) (newBusy : new.isBusy) :
    stage.Fits { worker with running := some new } := by
  refine of_begun (fits.begun_of_running (Option.isSome_of_eq_some h)) ?_ fun _ => rfl
  show stage = ofRunning (some new) worker.rerun
  rw [fits.stage_of_running h, ofRunning_of_isBusy oldBusy, ofRunning_of_isBusy newBusy]

/-- A computation that ends stays where it is until its end is noticed. -/
theorem ends (fits : stage.Fits worker) {old : Running} (h : worker.running = some old) :
    (done worker.rerun).Fits { worker with running := some .done } :=
  of_begun (fits.begun_of_running (Option.isSome_of_eq_some h)) rfl fun _ => rfl

/-- A worker ends between computations. -/
theorem join (settled : stage ≠ asked ∧ stage ≠ due) (free : stage.isBusy = false) :
    stage.Fits worker.join where
  waiting hwaiting := by cases hwaiting
  begun hbegun := by rcases hbegun with h | h <;> cases h
  ended _ := ⟨settled.1, settled.2, free, rfl⟩
  rerun hrerun := by cases hrerun

end Fits

theorem follow_singleton (stage : Stage) (note : Note) :
    stage.follow [note] = stage.after? note := by
  unfold follow
  cases stage.after? note <;> rfl

/-- A trigger may be sent at any time. -/
theorem after?_sent {stage : Stage} (h : stage ≠ asked ∧ stage ≠ due) :
    stage.after? .sent = some stage := by
  obtain ⟨hasked, hdue⟩ := h
  cases stage <;> first | rfl | contradiction

/-- And a worker may be told to end at any time. -/
theorem after?_cancelled {stage : Stage} (h : stage ≠ asked ∧ stage ≠ due) :
    stage.after? .cancelled = some stage := by
  obtain ⟨hasked, hdue⟩ := h
  cases stage <;> first | rfl | contradiction

/-- Where a computation may start, a worker without a mark starts it. -/
theorem fits_startRun {stage : Stage} {worker : Worker}
    (may : stage.after? .started = some (busy false)) (live : worker.phase = .live)
    (unmarked : worker.rerun = false) (now : Millis) :
    ∃ next, stage.follow [.started] = some next ∧ next.Fits (worker.startRun now) := by
  refine ⟨busy false, (stage.follow_singleton .started).trans may, .of_begun (.inl live) ?_
    fun _ => rfl⟩
  show _ = ofRunning (some (.ofProcess _)) worker.rerun
  rw [ofRunning_of_isBusy (Running.isBusy_ofProcess _), unmarked]

/-- However a computation comes to be started, the worker is busy with it afterwards. -/
theorem fits_of_starts {stage : Stage} {worker before : Worker} {lead : List Note}
    (fits : stage.Fits worker) (starts : worker.Starts lead before) (now : Millis) :
    ∃ next, stage.follow (lead ++ [.started]) = some next ∧ next.Fits (before.startRun now) := by
  cases starts with
  | boot waiting =>
    obtain ⟨rfl, -, hrerun⟩ := fits.waiting waiting
    exact @fits_startRun new { worker with phase := .live } rfl rfl hrerun now
  | takeTriggers live queued free =>
    have hstage : stage = idle := by rw [fits.begun (.inl live), free]; rfl
    have hrerun : worker.rerun = false := fits.rerun_eq_false free
    subst hstage
    exact @fits_startRun asked { worker with queued := 0 } rfl live hrerun now
  | noticeEnd live done marked =>
    have hstage : stage = .done true := by rw [fits.begun (.inl live), done, marked]; rfl
    subst hstage
    exact @fits_startRun due { worker with rerun := false } rfl live rfl now

/-- What is noted of a moment is allowed where the worker stands, and leads to where it stands
then. -/
theorem fits_of_meets {stage : Stage} {worker next : Worker} {moment : Moment} {notes : List Note}
    (fits : stage.Fits worker) (h : worker.Meets moment notes next) :
    ∃ last, stage.follow notes = some last ∧ last.Fits next := by
  cases h with
  | trigger =>
    refine ⟨stage, ?_, fits.congr rfl rfl rfl⟩
    exact (follow_singleton stage .sent).trans (after?_sent fits.settled)
  | cancel =>
    refine ⟨stage, ?_, fits.congr rfl rfl rfl⟩
    exact (follow_singleton stage .cancelled).trans (after?_cancelled fits.settled)
  | see => exact ⟨stage, rfl, fits.congr rfl rfl rfl⟩
  | nothing => exact ⟨stage, rfl, fits⟩
  | start starts => exact fits_of_starts fits starts moment.now
  | mark live queued running =>
    obtain ⟨now, hnow⟩ := Option.isSome_iff_exists.1 running
    rw [fits.stage_of_running hnow]
    refine ⟨ofRunning (some now) true, ?_, .of_begun (.inl live) ?_ fun _ => running⟩
    · cases now <;> rfl
    · exact congrArg (ofRunning · true) hnow.symm
  -- a computation that goes on is under way before and after
  | @look _ look deed looking =>
    have hgoesOn := fits.goesOn looking rfl (Running.isBusy_ofProcess (look moment.platform))
    exact ⟨stage, rfl, hgoesOn.congr rfl rfl rfl⟩
  | pass deed returned => exact ⟨stage, rfl, fits.goesOn returned rfl rfl⟩
  | fail deed returned =>
    rw [fits.stage_of_running returned]
    exact ⟨_, rfl, fits.ends returned⟩
  | publish deed publishing =>
    rw [fits.stage_of_running publishing]
    exact ⟨_, rfl, (fits.ends publishing).congr rfl rfl rfl⟩
  | abandon found busy =>
    rw [fits.stage_of_running found, ofRunning_of_isBusy busy]
    exact ⟨_, rfl, fits.ends found⟩
  | rest live done unmarked =>
    rw [fits.stage_of_running done, unmarked]
    refine ⟨idle, rfl, .of_begun (.inl live) rfl fun hrerun => ?_⟩
    cases hrerun
  | leave live =>
    exact ⟨stage, rfl, .of_begun (.inr rfl) (fits.begun (.inl live)) fits.rerun⟩
  | join leaving free =>
    refine ⟨stage, rfl, .join fits.settled ?_⟩
    rw [fits.isBusy_eq]
    cases hrunning : worker.running with
    | none => rfl
    | some running =>
      rw [hrunning] at free
      exact Bool.not_eq_eq_eq_not.1 free

end Stage

/-! ## What a journal records -/

namespace Worker

variable {worker next : Worker} {moment : Moment} {notes : List Note}

/-- In a moment no more triggers are handled than wait, or are sent. -/
theorem Meets.handled (h : worker.Meets moment notes next) :
    notes.countP Note.isHandled + min 1 next.queued ≤
      min 1 worker.queued + notes.countP Note.isSent := by
  cases h with
  | trigger =>
    show 0 + min 1 (worker.queued + 1) ≤ min 1 worker.queued + 1
    omega
  | cancel | see | nothing | look | fail | pass | publish | abandon | rest | leave =>
    exact Nat.le_of_eq (Nat.add_comm _ _)
  | start starts =>
    cases starts with
    | boot | noticeEnd => exact Nat.le_of_eq (Nat.add_comm _ _)
    | takeTriggers live queued =>
      -- some trigger waited, and none waits any more
      show 1 + min 1 0 ≤ min 1 worker.queued + 0
      omega
  | mark live queued =>
    show 1 + min 1 0 ≤ min 1 worker.queued + 0
    omega
  | join => exact Nat.zero_le _

/-- Before and at the start of a computation nothing else is noted. -/
theorem Starts.of_mem_notes {before : Worker} {lead : List Note}
    (starts : worker.Starts lead before) {note : Note} (h : note ∈ lead ++ [.started]) :
    note = .handled ∨ note = .noticed ∨ note = .started := by
  rcases List.mem_append.1 h with h | h
  · rcases starts.mem_lead h with h | h
    · exact .inl h
    · exact .inr (.inl h)
  · exact .inr (.inr (List.mem_singleton.1 h))

/-- A worker is told to end in one way only, and that is noted. -/
theorem Meets.cancelled (h : worker.Meets moment notes next) :
    (moment.deed = .cancel ∧ .cancelled ∈ notes ∧ next.cancelled = true) ∨
      (.cancelled ∉ notes ∧ next.cancelled = worker.cancelled) := by
  cases h with
  | cancel deed => exact .inl ⟨deed, List.mem_singleton_self _, rfl⟩
  | trigger | see | nothing | mark | look | fail | pass | publish | abandon | rest | leave | join =>
    exact .inr ⟨by simp, rfl⟩
  | start starts =>
    refine .inr ⟨fun hmem => ?_, starts.cancelled⟩
    rcases starts.of_mem_notes hmem with h | h | h <;> cases h

/-- A worker that is told to end stays told. -/
theorem Meets.cancelled_iff (h : worker.Meets moment notes next) :
    next.cancelled = true ↔ worker.cancelled = true ∨ .cancelled ∈ notes := by
  rcases h.cancelled with ⟨-, hmem, hnext⟩ | ⟨hmem, hnext⟩
  · exact iff_of_true hnext (.inr hmem)
  · rw [hnext, or_iff_left hmem]

/-- A computation gives up only because the worker is told to end. -/
theorem Meets.cancelled_of_abandoned (h : worker.Meets moment notes next)
    (hmem : .abandoned ∈ notes) : worker.cancelled = true := by
  cases h with
  | abandon found busy unchecked cancelled => exact cancelled
  | trigger | cancel | see | nothing | mark | look | fail | pass | publish | rest | leave | join =>
    simp at hmem
  | start starts => rcases starts.of_mem_notes hmem with h | h | h <;> cases h

end Worker

/-- What a journal says of the worker after the run. -/
structure Records (notes : List Note) (worker : Worker) : Prop where
  stage : ∃ stage, Stage.new.follow notes = some stage ∧ stage.Fits worker
  handled : notes.countP Note.isHandled + min 1 worker.queued ≤ notes.countP Note.isSent
  cancelled : worker.cancelled = true ↔ .cancelled ∈ notes
  abandoned : ∀ before after : List Note,
    notes = before ++ .abandoned :: after → .cancelled ∈ before

namespace Records

/-- A new worker has no journal. -/
theorem ofUseCase (useCase : UseCase) : Records [] (.ofUseCase useCase) where
  stage := ⟨.new, rfl, Stage.fits_ofUseCase useCase⟩
  handled := Nat.le_refl 0
  cancelled := iff_of_false Bool.false_ne_true List.not_mem_nil
  abandoned before after h := by cases List.nil_eq_append_iff.1 h |>.2

theorem meet {notes : List Note} {worker : Worker} (records : Records notes worker)
    (moment : Moment) : Records (notes ++ worker.notes moment) (worker.meet moment) where
  stage := by
    obtain ⟨stage, hstage, hfits⟩ := records.stage
    obtain ⟨next, hnext, hnextFits⟩ := Stage.fits_of_meets hfits (worker.meets moment)
    exact ⟨next, by rw [Stage.follow_append, hstage]; exact hnext, hnextFits⟩
  handled := by
    have hbefore := records.handled
    have hmoment := (worker.meets moment).handled
    rw [List.countP_append, List.countP_append]
    omega
  cancelled := by
    rw [(worker.meets moment).cancelled_iff, records.cancelled, List.mem_append]
  abandoned before after h := by
    rcases List.append_eq_append_iff.1 h with ⟨front, rfl, hmoment⟩ | ⟨back, hnotes, hafter⟩
    · -- the computation gives up in this moment
      have hmem : .abandoned ∈ worker.notes moment :=
        hmoment ▸ List.mem_append_right front List.mem_cons_self
      exact List.mem_append_left front
        (records.cancelled.1 ((worker.meets moment).cancelled_of_abandoned hmem))
    · cases back with
      | nil =>
        rw [List.nil_append] at hafter
        rw [List.append_nil] at hnotes
        have hmem : .abandoned ∈ worker.notes moment := hafter ▸ List.mem_cons_self
        exact hnotes ▸ records.cancelled.1 ((worker.meets moment).cancelled_of_abandoned hmem)
      | cons note rest =>
        obtain ⟨rfl, -⟩ := List.cons.inj hafter
        exact records.abandoned before rest hnotes

/-- And the run, by induction over its moments. -/
theorem meetAll {notes : List Note} {worker : Worker} (records : Records notes worker)
    (moments : List Moment) :
    Records (notes ++ worker.journal moments) (worker.meetAll moments) := by
  induction moments generalizing notes worker with
  | nil => rwa [Worker.journal, List.append_nil]
  | cons moment rest ih =>
    rw [Worker.journal, ← List.append_assoc]
    exact ih (records.meet moment)

end Records

end PermissionUsage
