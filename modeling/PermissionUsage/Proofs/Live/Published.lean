import PermissionUsage.Proofs.Live.Serialized
/-!
# What a worker publishes

The journal of a worker tells what it publishes (`results`): the states of the computations that end
well, each with the number of its computation. One that is given up has no result.

* `UseCase.all_process`: whatever a computation finds on its looks, a state that it ends with is a
  result and not the loading state.
* `Stage.results_of_follow`: a computation has one result at most, and results come in the order in
  which their computations were started.
* `Publishes` is the invariant of a run: the published state is the last result, or the loading
  state before there is one.
* `Publishes.results_of_cancelled`: a worker that is told to end publishes what a computation is
  about to publish at that moment (`Worker.pending`), and nothing else. The order may come between
  the check of a computation and its publication, so there may be such a state.
* `Publishes.results_of_ended`: it is published before the worker ends, because the worker waits for
  its computation. After that there is silence.
-/

namespace PermissionUsage

/-! ## What computations come to -/

namespace Process

variable {α β : Type}

/-- Every outcome that a process may come to meets a condition, whatever it finds on its looks. -/
def All (p : α → Prop) : Process α → Prop
  | ended outcome => p outcome
  | look _ next => ∀ platform, (next platform).All p

/-- What holds of all results of the second process holds of the whole. -/
theorem all_bind {p : β → Prop} (process : Process α) {f : α → Process β}
    (h : ∀ a, (f a).All p) : (process >>= f).All p := by
  induction process with
  | ended a => exact h a
  | look isRead next ih => exact ih

end Process

namespace UseCase

/-- The state is a result of a use case. -/
def isResult : UseCase → UsageState → Bool
  | timeline _, .timeline (.success _) => true
  | dashboard _, .dashboard (.success _) => true
  | _, _ => false

/-- An outcome that a computation of a use case may have. -/
def Yields (useCase : UseCase) (outcome : Outcome) : Prop :=
  ∀ state, outcome = .ok state → useCase.isResult state

/-- A use case computes results of its own kind. -/
theorem all_process (useCase : UseCase) (now : Millis) :
    (useCase.process now).All useCase.Yields := by
  cases useCase with
  | timeline t =>
    refine Process.all_bind _ fun answer state h => ?_
    cases answer <;> cases h
    rfl
  | dashboard d =>
    refine Process.all_bind _ fun answer state h => ?_
    cases answer <;> cases h
    rfl

end UseCase

/-! ## Results -/

/-- What is published in the course of a journal, if some computations were `started` before it: the
state of every computation that ends well, with the number of the computation. -/
def results (started : Nat) : List Note → List (Nat × UsageState)
  | [] => []
  | .started :: rest => results (started + 1) rest
  | .ended (.ok state) :: rest => (started, state) :: results started rest
  | _ :: rest => results started rest

/-- Results are numbered on from the starts that came before. -/
theorem results_append (started : Nat) (first second : List Note) :
    results started (first ++ second) =
      results started first ++ results (started + first.countP Note.isStart) second := by
  induction first generalizing started with
  | nil => rfl
  | cons note rest ih =>
    cases note with
    | started =>
      have hcount : started + (Note.started :: rest).countP Note.isStart =
          started + 1 + rest.countP Note.isStart := by
        rw [List.countP_cons_of_pos rfl]
        omega
      simp [results, ih, hcount]
    | ended outcome => cases outcome <;> simp [results, ih, Note.isStart]
    | sent | cancelled | handled | abandoned | noticed => simp [results, ih, Note.isStart]

/-- A result is the end of a computation. -/
theorem mem_of_mem_results {started : Nat} {notes : List Note} {result : Nat × UsageState}
    (h : result ∈ results started notes) : .ended (.ok result.2) ∈ notes := by
  induction notes generalizing started with
  | nil => cases h
  | cons note rest ih =>
    cases note with
    | ended outcome =>
      cases outcome with
      | error => exact List.mem_cons_of_mem _ (ih h)
      | ok state =>
        rcases List.mem_cons.1 h with rfl | h
        · exact List.mem_cons_self
        · exact List.mem_cons_of_mem _ (ih h)
    | started | sent | cancelled | handled | abandoned | noticed =>
      exact List.mem_cons_of_mem _ (ih h)

namespace Stage

/-- Where a computation is under way its own result may come next, anywhere else only those of later
computations. -/
theorem results_of_follow {stage last : Stage} {notes : List Note} (started : Nat)
    (h : stage.follow notes = some last) :
    (∀ result ∈ results started notes, started + (!stage.isBusy).toNat ≤ result.1) ∧
      ((results started notes).map (·.1)).Pairwise (· < ·) := by
  induction notes generalizing stage started with
  | nil => exact ⟨nofun, .nil⟩
  | cons note rest ih =>
    obtain ⟨next, hnext, hrest⟩ := follow_cons_eq_some_iff.1 h
    have hbusy := isBusy_of_after? hnext
    cases note with
    | started =>
      obtain ⟨hlater, hordered⟩ := ih (started + 1) hrest
      refine ⟨fun result hresult => ?_, hordered⟩
      have hfree : (!stage.isBusy).toNat ≤ 1 := Bool.toNat_le _
      have := hlater result hresult
      omega
    | ended outcome =>
      obtain ⟨hlater, hordered⟩ := ih started hrest
      have hstage : stage.isBusy = true ∧ next.isBusy = false := by
        have hends : 0 + stage.isBusy.toNat = 1 + next.isBusy.toNat := hbusy
        revert hends
        cases stage.isBusy <;> cases next.isBusy <;> decide
      rw [hstage.2] at hlater
      rw [hstage.1]
      have hlater : ∀ result ∈ results started rest, started < result.1 := hlater
      cases outcome with
      | error => exact ⟨fun result hresult => Nat.le_of_lt (hlater result hresult), hordered⟩
      | ok state =>
        have hrest : ∀ number ∈ (results started rest).map (·.1), started < number := by
          intro number hnumber
          obtain ⟨result, hresult, rfl⟩ := List.mem_map.1 hnumber
          exact hlater result hresult
        exact ⟨List.forall_mem_cons.2 ⟨Nat.le_refl _, fun result hresult =>
          Nat.le_of_lt (hlater result hresult)⟩, List.pairwise_cons.2 ⟨hrest, hordered⟩⟩
    | sent | cancelled | handled | abandoned | noticed =>
      obtain ⟨hlater, hordered⟩ := ih started hrest
      -- none of these notes leads to a computation that is under way
      have hstage : (!stage.isBusy).toNat ≤ (!next.isBusy).toNat := by
        revert hbusy
        cases stage.isBusy <;> cases next.isBusy <;> decide
      exact ⟨fun result hresult => Nat.le_trans (Nat.add_le_add_left hstage started)
        (hlater result hresult), hordered⟩

end Stage

/-- The state that is shown after some results, if another one was shown before. -/
def shownAfter (before : UsageState) (shown : List (Nat × UsageState)) : UsageState :=
  (shown.map (·.2)).getLast?.getD before

/-- What is shown after some results and some more. -/
theorem shownAfter_append (before : UsageState) (first second : List (Nat × UsageState)) :
    shownAfter before (first ++ second) = shownAfter (shownAfter before first) second := by
  unfold shownAfter
  rw [List.map_append, List.getLast?_append]
  cases (second.map (·.2)).getLast? <;> rfl

/-! ## What happens in a moment -/

namespace Worker

variable {worker next : Worker} {moment : Moment} {notes : List Note}

theorem useCase_meet (worker : Worker) (moment : Moment) :
    (worker.meet moment).useCase = worker.useCase := by
  unfold meet
  split
  · rfl
  · rfl
  · rfl
  · split
    · exact worker.useCase_make _ _ _
    · rfl

theorem useCase_meetAll (worker : Worker) (moments : List Moment) :
    (worker.meetAll moments).useCase = worker.useCase := by
  induction moments generalizing worker with
  | nil => rfl
  | cons moment rest ih => exact (ih _).trans (worker.useCase_meet moment)

/-- The journal of one run after another. -/
theorem journal_append (worker : Worker) (first second : List Moment) :
    worker.journal (first ++ second) =
      worker.journal first ++ (worker.meetAll first).journal second := by
  induction first generalizing worker with
  | nil => rfl
  | cons moment rest ih =>
    show worker.notes moment ++ (worker.meet moment).journal (rest ++ second) = _
    rw [ih, ← List.append_assoc]
    rfl

/-- Nothing is published before and at the start of a computation. -/
theorem Starts.results {before : Worker} {lead : List Note} (starts : worker.Starts lead before)
    (started : Nat) : PermissionUsage.results started (lead ++ [.started]) = [] := by
  cases starts <;> rfl

/-- What a worker publishes in a moment is what the notes of that moment tell. -/
theorem Meets.published (h : worker.Meets moment notes next) (started : Nat) :
    next.published = shownAfter worker.published (results started notes) := by
  cases h with
  | trigger | cancel | see | nothing | mark | look | fail | pass | publish | abandon | rest
  | leave | join => rfl
  | start starts =>
    rw [starts.results]
    cases starts <;> rfl

/-- Somebody may look at a new state only where one was published. -/
theorem Meets.unseen (h : worker.Meets moment notes next) (started : Nat)
    (silent : results started notes = []) : next.unseen = true → worker.unseen = true := by
  cases h with
  | trigger | cancel | nothing | mark | look | fail | pass | abandon | rest | leave | join =>
    exact id
  | see => exact nofun
  | start starts => cases starts <;> exact id
  | publish => cases silent

/-- The state that the computation is about to publish, if there is one. -/
def pending (worker : Worker) : List UsageState :=
  match worker.running with
  | some (.publishing state) => [state]
  | _ => []

/-- Only a computation that has passed its check is about to publish. -/
theorem pending_eq_nil (worker : Worker)
    (h : ∀ state, worker.running ≠ some (.publishing state)) : worker.pending = [] := by
  unfold pending
  split
  · next state hpublishing => exact absurd hpublishing (h state)
  · rfl

/-- Nothing is about to be published where a computation begins or goes on looking. -/
theorem pending_take (worker : Worker) (process : Process Outcome) :
    (worker.take process).pending = [] := by
  cases process <;> rfl

/-- A worker that is told to end publishes what it was about to publish, sooner or later, and comes
upon nothing else to publish. -/
theorem Meets.pending (h : worker.Meets moment notes next) (cancelled : worker.cancelled = true)
    (waiting : worker.phase = .waiting → worker.running = none) (started : Nat) :
    (results started notes).map (·.2) ++ next.pending = worker.pending := by
  cases h with
  | trigger | cancel | see | nothing | mark | leave => rfl
  | look _ looking =>
    rw [pending_take, pending_eq_nil _ (by rw [looking]; exact nofun)]
    rfl
  | fail _ returned =>
    rw [pending_eq_nil worker (by rw [returned]; exact nofun)]
    rfl
  -- the check was still to be made, and now it fails
  | pass _ _ uncancelled => cases cancelled.symm.trans uncancelled
  | publish _ publishing =>
    show [_] = worker.pending
    rw [Worker.pending, publishing]
  | abandon found _ unchecked =>
    rw [pending_eq_nil worker fun state h =>
      unchecked state (Option.some.inj (found.symm.trans h))]
    rfl
  | rest _ done =>
    rw [pending_eq_nil worker (by rw [done]; exact nofun)]
    rfl
  | join _ free =>
    -- before the worker ends, its computation has
    rw [pending_eq_nil worker fun state h => by rw [h] at free; cases free]
    rfl
  | start starts =>
    rw [starts.results, startRun, pending_take]
    -- no computation starts while another one is about to publish
    refine (pending_eq_nil _ fun state publishing => ?_).symm
    cases starts with
    | boot phase => cases publishing.symm.trans (waiting phase)
    | takeTriggers _ _ free => cases publishing.symm.trans free
    | noticeEnd _ done => cases publishing.symm.trans done

/-- A worker that has ended stays so. -/
theorem Meets.stays_ended (h : worker.Meets moment notes next) (ended : worker.phase = .ended) :
    next.phase = .ended := by
  cases h with
  | trigger | cancel | see | nothing | mark | look | fail | pass | publish | abandon | rest =>
    exact ended
  | leave live => cases ended.symm.trans live
  | join => rfl
  | start starts =>
    cases starts with
    | boot waiting => cases ended.symm.trans waiting
    | takeTriggers live | noticeEnd live => cases ended.symm.trans live

/-- A worker that has ended does not come back. -/
theorem ended_meetAll (ended : worker.phase = .ended) (moments : List Moment) :
    (worker.meetAll moments).phase = .ended := by
  induction moments generalizing worker with
  | nil => exact ended
  | cons moment rest ih => exact ih ((worker.meets moment).stays_ended ended)

/-- A worker that publishes nothing leaves nothing new to be seen. -/
theorem unseen_meetAll {moments : List Moment} {started : Nat}
    (silent : results started (worker.journal moments) = []) :
    (worker.meetAll moments).unseen = true → worker.unseen = true := by
  induction moments generalizing worker started with
  | nil => exact id
  | cons moment rest ih =>
    rw [journal, results_append] at silent
    obtain ⟨hmoment, hrest⟩ := List.append_eq_nil_iff.1 silent
    exact fun h => (worker.meets moment).unseen started hmoment (ih hrest h)

/-- A worker that is told to end can make a move, until it has ended. -/
theorem exists_can (cancelled : worker.cancelled = true) (alive : worker.phase ≠ .ended) :
    ∃ move, worker.can move = true := by
  cases hphase : worker.phase with
  | waiting => exact ⟨.boot, decide_eq_true hphase⟩
  | live => exact ⟨.leave, Bool.and_eq_true_iff.2 ⟨decide_eq_true hphase, cancelled⟩⟩
  | leaving =>
    cases hrunning : worker.running with
    | none =>
      refine ⟨.join, Bool.and_eq_true_iff.2 ⟨decide_eq_true hphase, ?_⟩⟩
      rw [hrunning]
      rfl
    | some running =>
      cases hbusy : running.isBusy with
      | true => exact ⟨.proceed, by rw [can, hrunning]; exact hbusy⟩
      | false =>
        refine ⟨.join, Bool.and_eq_true_iff.2 ⟨decide_eq_true hphase, ?_⟩⟩
        rw [hrunning, Option.all_some, hbusy]
        rfl
  | ended => exact absurd hphase alive

/-- A worker that is told to end comes to its end by moves of its own, whatever it was doing. Every
move leaves less to do, so it does not matter which ones it makes. -/
theorem exists_ended (worker : Worker) (cancelled : worker.cancelled = true) (platform : Platform)
    (now : Millis) : ∃ moves : List Move,
      (worker.meetAll (moves.map fun move => ⟨platform, now, .move move⟩)).phase = .ended := by
  by_cases ended : worker.phase = .ended
  · exact ⟨[], ended⟩
  · obtain ⟨move, possible⟩ := exists_can cancelled ended
    have hmeets := worker.meets ⟨platform, now, .move move⟩
    have hmeet : worker.meet ⟨platform, now, .move move⟩ = worker.make platform now move :=
      if_pos possible
    have hnext : (worker.make platform now move).cancelled = true :=
      hmeet ▸ hmeets.cancelled_iff.2 (.inl cancelled)
    obtain ⟨moves, hended⟩ := exists_ended (worker.make platform now move) hnext platform now
    exact ⟨move :: moves, by rw [← hmeet] at hended; exact hended⟩
termination_by worker.left
decreasing_by exact lessLeft_make platform now possible

/-- A worker has left only if it was told to. -/
theorem Meets.left (h : worker.Meets moment notes next) :
    next.phase = .leaving ∨ next.phase = .ended →
      worker.phase = .leaving ∨ worker.phase = .ended ∨ worker.cancelled = true := by
  cases h with
  | trigger | cancel | see | nothing | mark | look | fail | pass | publish | abandon | rest =>
    exact Or.imp_right .inl
  | leave _ cancelled => exact fun _ => .inr (.inr cancelled)
  | join leaving => exact fun _ => .inl leaving
  | start starts =>
    intro hleft
    rcases hleft with hleft | hleft <;> cases starts.live.symm.trans hleft

end Worker

/-- Every outcome that a computation may come to meets a condition, whatever it finds. -/
def Running.All (p : Outcome → Prop) : Running → Prop
  | looking _ look => ∀ platform, (look platform).All p
  | returned outcome => p outcome
  | publishing state => p (.ok state)
  | done => True

namespace Worker

variable {worker next : Worker} {moment : Moment} {notes : List Note}

/-- The computation that is under way ends with a result, if it ends well. -/
def IsOnCourse (worker : Worker) : Prop :=
  ∀ running, worker.running = some running → running.All worker.useCase.Yields

/-- A process whose results are of the right kind stays on course, wherever it is. -/
theorem isOnCourse_take {process : Process Outcome} (h : process.All worker.useCase.Yields) :
    (worker.take process).IsOnCourse := by
  rintro running ⟨⟩
  cases process <;> exact h

/-- A worker stays on course in every moment. -/
theorem Meets.isOnCourse (h : worker.Meets moment notes next) (course : worker.IsOnCourse) :
    next.IsOnCourse := by
  cases h with
  | trigger | cancel | see | nothing | mark | leave => exact course
  | fail | publish | abandon => rintro running ⟨⟩; trivial
  | rest | join => exact nofun
  | @start lead before starts => exact isOnCourse_take (before.useCase.all_process moment.now)
  | look _ looking => exact isOnCourse_take (course _ looking moment.platform)
  | pass _ returned =>
    have hyields := course _ returned
    rintro running ⟨⟩
    exact hyields

/-- An end that is noted has an outcome that the use case may have. -/
theorem Meets.yields (h : worker.Meets moment notes next) (course : worker.IsOnCourse)
    {outcome : Outcome} (hmem : .ended outcome ∈ notes) : worker.useCase.Yields outcome := by
  cases h with
  | fail _ returned =>
    obtain ⟨rfl⟩ := List.mem_singleton.1 hmem
    exact course _ returned
  | publish _ publishing =>
    obtain ⟨rfl⟩ := List.mem_singleton.1 hmem
    exact course _ publishing
  | start starts => rcases starts.of_mem_notes hmem with h | h | h <;> cases h
  | trigger | cancel | see | nothing | mark | look | pass | abandon | rest | leave | join =>
    simp at hmem

end Worker

/-! ## What is published in a run -/

/-- What a journal says of the states that a worker published. -/
structure Publishes (notes : List Note) (worker : Worker) : Prop where
  records : Records notes worker
  course : worker.IsOnCourse
  left : worker.phase = .leaving ∨ worker.phase = .ended → worker.cancelled = true
  /-- The last result is shown, or that the worker is loading if there is none. -/
  shown : worker.published = shownAfter worker.useCase.loading (results 0 notes)
  isResult : ∀ result ∈ results 0 notes, worker.useCase.isResult result.2

namespace Publishes

variable {notes : List Note} {worker : Worker}

/-- A new worker shows that it is loading. -/
theorem ofUseCase (useCase : UseCase) : Publishes [] (.ofUseCase useCase) where
  records := .ofUseCase useCase
  course := nofun
  left h := by rcases h with h | h <;> cases h
  shown := rfl
  isResult := nofun

/-- The step of the invariant: the value changes only where a result is noted. -/
theorem meet (publishes : Publishes notes worker) (moment : Moment) :
    Publishes (notes ++ worker.notes moment) (worker.meet moment) where
  records := publishes.records.meet moment
  course := (worker.meets moment).isOnCourse publishes.course
  left hleft := by
    refine (worker.meets moment).cancelled_iff.2 (.inl ?_)
    rcases (worker.meets moment).left hleft with hleft | hleft | hcancelled
    · exact publishes.left (.inl hleft)
    · exact publishes.left (.inr hleft)
    · exact hcancelled
  shown := by
    rw [(worker.meets moment).published (0 + notes.countP Note.isStart), worker.useCase_meet,
      results_append, shownAfter_append, ← publishes.shown]
  isResult result hresult := by
    rw [worker.useCase_meet]
    rw [results_append] at hresult
    rcases List.mem_append.1 hresult with hresult | hresult
    · exact publishes.isResult result hresult
    · exact (worker.meets moment).yields publishes.course (mem_of_mem_results hresult) _ rfl

/-- And the run, by induction over its moments. -/
theorem meetAll (publishes : Publishes notes worker) (moments : List Moment) :
    Publishes (notes ++ worker.journal moments) (worker.meetAll moments) := by
  induction moments generalizing notes worker with
  | nil => rwa [Worker.journal, List.append_nil]
  | cons moment rest ih =>
    rw [Worker.journal, ← List.append_assoc]
    exact ih (publishes.meet moment)

/-- A worker has no computation before its first and after its end. -/
theorem running_of_phase (publishes : Publishes notes worker)
    (h : worker.phase = .waiting ∨ worker.phase = .ended) : worker.running = none := by
  obtain ⟨stage, -, fits⟩ := publishes.records.stage
  rcases h with waiting | ended
  · exact (fits.waiting waiting).2.1
  · exact (fits.ended ended).2.2.2

/-- **What is published after the order to end**: what a computation was about to publish when the
order came, and nothing else. -/
theorem results_of_cancelled (publishes : Publishes notes worker)
    (cancelled : worker.cancelled = true) (moments : List Moment) (started : Nat) :
    (results started (worker.journal moments)).map (·.2) ++ (worker.meetAll moments).pending =
      worker.pending := by
  induction moments generalizing notes worker started with
  | nil => rfl
  | cons moment rest ih =>
    have hmeets := worker.meets moment
    have hmoment := hmeets.pending cancelled (fun h => publishes.running_of_phase (.inl h)) started
    have hrest := ih (publishes.meet moment) (hmeets.cancelled_iff.2 (.inl cancelled))
      (started + (worker.notes moment).countP Note.isStart)
    rw [Worker.journal, results_append, List.map_append, List.append_assoc]
    show _ ++ (_ ++ ((worker.meet moment).meetAll rest).pending) = _
    rw [hrest, hmoment]

/-- A worker that has ended publishes nothing more: it waited for its computation. -/
theorem results_of_ended (publishes : Publishes notes worker) (ended : worker.phase = .ended)
    (moments : List Moment) (started : Nat) : results started (worker.journal moments) = [] := by
  have hresults := publishes.results_of_cancelled (publishes.left (.inr ended)) moments started
  have hpending : worker.pending = [] := worker.pending_eq_nil fun state publishing => by
    cases publishing.symm.trans (publishes.running_of_phase (.inr ended))
  rw [hpending] at hresults
  exact List.map_eq_nil_iff.1 (List.append_eq_nil_iff.1 hresults).1

/-- Results come in the order in which their computations were started. -/
theorem inOrder (publishes : Publishes notes worker) :
    ((results 0 notes).map (·.1)).Pairwise (· < ·) := by
  obtain ⟨stage, hstage, -⟩ := publishes.records.stage
  exact (Stage.results_of_follow 0 hstage).2

end Publishes

end PermissionUsage
