import PermissionUsage.Live.UseCase
/-!
# Workers

A worker keeps the result of a use case up to date. Triggers wait in its queue. At most one
computation runs at a time; triggers that are taken while one is running mark one further run, which
starts once the end of the running one is noticed. A computation that fails leaves the published
state as it is.

A computation runs beside its worker. When it has a result it checks whether the worker is to end,
and publishes in a step of its own (`Running`): the order to end may come between the two. A worker
that is told to end leaves its loop and then waits for its computation (`Phase`).

`Worker.can` says which moves are possible, in any order. A worker that is left alone makes its
moves in one order, `Worker.next?`, and comes to rest: every move leaves less to do.
-/

namespace PermissionUsage

/-- Where a computation stands. -/
inductive Running where
  /-- It is about to look at the platform, after the wait of a read if it is reading. -/
  | looking (isReading : Bool) (look : Platform → Process Outcome)
  /-- It has its outcome, and has not checked yet whether the worker is to end. -/
  | returned (outcome : Outcome)
  /-- It found that the worker goes on, and is about to publish, whatever happens meanwhile. -/
  | publishing (state : UsageState)
  /-- It has ended, and the worker has not noticed. -/
  | done

namespace Running

/-- Where a computation stands of which this is left. -/
def ofProcess : Process Outcome → Running
  | .ended outcome => returned outcome
  | .look isRead next => looking isRead next

/-- It has not ended. -/
def isBusy : Running → Bool
  | done => false
  | _ => true

def isLooking : Running → Bool
  | looking .. => true
  | _ => false

def isReading : Running → Bool
  | looking isReading _ => isReading
  | _ => false

/-- A computation has not ended before it has checked what to do with its outcome. -/
theorem isBusy_ofProcess (process : Process Outcome) : (ofProcess process).isBusy := by
  cases process <;> rfl

theorem eq_done {running : Option Running} (h : running.any (!·.isBusy)) :
    running = some .done := by
  rcases running with _ | ⟨_, _⟩ | _ | _ | _ <;> first | rfl | cases h

theorem exists_looking {running : Option Running} (h : running.any (·.isLooking)) :
    ∃ isReading look, running = some (.looking isReading look) := by
  rcases running with _ | ⟨isReading, look⟩ | _ | _ | _
  case some.looking => exact ⟨isReading, look, rfl⟩
  all_goals cases h

end Running

/-- Where a worker is in its life. -/
inductive Phase where
  /-- The worker has not done anything. -/
  | waiting
  | live
  /-- It has left its loop, and waits until its computation has ended. -/
  | leaving
  | ended
  deriving DecidableEq, Repr

structure Worker where
  useCase : UseCase
  published : UsageState
  /-- A state was published that nobody has looked at. -/
  unseen : Bool := false
  /-- The number of triggers in the queue. -/
  queued : Nat := 0
  running : Option Running := none
  /-- Triggers were taken during the run. -/
  rerun : Bool := false
  reads : Nat := 0
  /-- The worker is to end, and its computation with it. -/
  cancelled : Bool := false
  phase : Phase := .waiting

namespace Worker

/-- A new worker has published that it is loading. -/
def ofUseCase (useCase : UseCase) : Worker := { useCase, published := useCase.loading }

/-! ## From outside -/

def trigger (worker : Worker) : Worker := { worker with queued := worker.queued + 1 }

/-- The worker is told to end. It may go on for a while before it notices. -/
def cancel (worker : Worker) : Worker := { worker with cancelled := true }

/-- Somebody looks at the published state. -/
def see (worker : Worker) : Worker := { worker with unseen := false }

/-! ## Moves of the computation -/

/-- Takes over what is left of the computation. -/
def take (worker : Worker) (process : Process Outcome) : Worker :=
  { worker with
    running := some (.ofProcess process)
    reads := worker.reads + (Running.ofProcess process).isReading.toNat }

/-- The computation checks what to do with its outcome: a result is to be published, unless the
worker is to end. A failure is not published. -/
def settle (worker : Worker) : Outcome → Worker
  | .ok state =>
    { worker with running := some (if worker.cancelled then .done else .publishing state) }
  | .error _ => { worker with running := some .done }

/-- The computation publishes. It has checked before that it may. -/
def publish (worker : Worker) (state : UsageState) : Worker :=
  { worker with published := state, unseen := true, running := some .done }

/-- The computation goes on: with its next look, or with the check or the publication after its last
one. -/
def proceed (worker : Worker) (platform : Platform) : Worker :=
  match worker.running with
  | some (.looking _ look) => worker.take (look platform)
  | some (.returned outcome) => worker.settle outcome
  | some (.publishing state) => worker.publish state
  | _ => worker

/-- The computation gives up, because its worker is to end. -/
def abandon (worker : Worker) : Worker := { worker with running := some .done }

/-! ## Moves of the loop -/

def startRun (worker : Worker) (now : Millis) : Worker := worker.take (worker.useCase.process now)

/-- The worker begins its life with a computation. -/
def boot (worker : Worker) (now : Millis) : Worker := { worker with phase := .live }.startRun now

/-- Takes all triggers out of the queue: they start a computation, or mark a further one. -/
def takeTriggers (worker : Worker) (now : Millis) : Worker :=
  if worker.running.isSome then { worker with queued := 0, rerun := true }
  else { worker with queued := 0 }.startRun now

/-- Notices that the computation has ended, and starts the marked one if there is one. -/
def noticeEnd (worker : Worker) (now : Millis) : Worker :=
  if worker.rerun then { worker with rerun := false }.startRun now
  else { worker with running := none }

/-- The worker leaves its loop. No computation starts any more. -/
def leave (worker : Worker) : Worker := { worker with phase := .leaving }

/-- The computation has ended, and so does the worker. -/
def join (worker : Worker) : Worker :=
  { worker with phase := .ended, running := none, queued := 0, rerun := false }

/-! ## What is possible -/

inductive Move where
  | boot
  | takeTriggers
  | noticeEnd
  | leave
  | join
  | proceed
  | abandon
  deriving DecidableEq, Repr

/-- A move is possible. A worker that is told to end may make other moves before it leaves, and its
computation may go on instead of giving up; but the worker ends only after its computation. -/
def can (worker : Worker) : Move → Bool
  | .boot => worker.phase = .waiting
  | .takeTriggers => worker.phase = .live && 0 < worker.queued
  | .noticeEnd => worker.phase = .live && worker.running.any (!·.isBusy)
  | .leave => worker.phase = .live && worker.cancelled
  | .join => worker.phase = .leaving && worker.running.all (!·.isBusy)
  | .proceed => worker.running.any (·.isBusy)
  | .abandon => worker.cancelled && worker.running.any (·.isLooking)

/-- Makes a move on a platform, while the clock shows `now`. -/
def make (worker : Worker) (platform : Platform) (now : Millis) : Move → Worker
  | .boot => worker.boot now
  | .takeTriggers => worker.takeTriggers now
  | .noticeEnd => worker.noticeEnd now
  | .leave => worker.leave
  | .join => worker.join
  | .proceed => worker.proceed platform
  | .abandon => worker.abandon

/-- No move changes what a worker computes. -/
theorem useCase_make (worker : Worker) (platform : Platform) (now : Millis) (move : Move) :
    (worker.make platform now move).useCase = worker.useCase := by
  cases move with
  | boot | leave | join | abandon => rfl
  | takeTriggers =>
    show (worker.takeTriggers now).useCase = _
    unfold takeTriggers
    split <;> rfl
  | noticeEnd =>
    show (worker.noticeEnd now).useCase = _
    unfold noticeEnd
    split <;> rfl
  | proceed =>
    show (worker.proceed platform).useCase = _
    unfold proceed
    split
    · rfl
    · next outcome _ => cases outcome <;> rfl
    · rfl
    · rfl

/-! ## The order of moves

Left alone, a worker first looks whether it is to end or to begin, then at its queue, and then at
its computation, which gives up as soon as it is told to end.
-/

/-- The next move of a worker that is left alone. -/
def next? (worker : Worker) : Option Move :=
  [.leave, .join, .boot, .takeTriggers, .noticeEnd, .abandon, .proceed].find? worker.can

/-- A worker that is left alone makes only moves that are possible. -/
theorem can_of_next? {worker : Worker} {move : Move} (h : worker.next? = some move) :
    worker.can move := by
  simpa using List.find?_some h

/-- Less is left of one run than of another: a computation that looks, checks, publishes or gives up
comes closer to being noticed. -/
inductive RunLess : Option Running → Option Running → Prop where
  | noticed : RunLess none (some .done)
  | ended {running : Running} (busy : running.isBusy) : RunLess (some .done) (some running)
  | settled (outcome : Outcome) (state : UsageState) :
    RunLess (some (.publishing state)) (some (.returned outcome))
  | looked {isReading : Bool} {look : Platform → Process Outcome} (platform : Platform) :
    RunLess (some (.ofProcess (look platform))) (some (.looking isReading look))

theorem acc_none : Acc RunLess none := by
  refine ⟨_, fun run h => ?_⟩
  cases h

theorem acc_done : Acc RunLess (some .done) := by
  refine ⟨_, fun run h => ?_⟩
  cases h with
  | noticed => exact acc_none
  | ended busy => cases busy

theorem acc_publishing (state : UsageState) : Acc RunLess (some (.publishing state)) := by
  refine ⟨_, fun run h => ?_⟩
  cases h with
  | ended => exact acc_done

theorem acc_returned (outcome : Outcome) : Acc RunLess (some (.returned outcome)) := by
  refine ⟨_, fun run h => ?_⟩
  cases h with
  | ended => exact acc_done
  | settled => exact acc_publishing _

/-- However the platform changes meanwhile, a process comes to its end. -/
theorem acc_ofProcess (process : Process Outcome) : Acc RunLess (some (.ofProcess process)) := by
  induction process with
  | ended outcome => exact acc_returned outcome
  | look isRead next ih =>
    refine ⟨_, fun run h => ?_⟩
    generalize hrunning : Running.ofProcess (.look isRead next) = running at h
    cases h with
    | noticed => cases hrunning
    | ended => exact acc_done
    | settled => cases hrunning
    | looked platform =>
      cases hrunning
      exact ih platform

instance : WellFoundedRelation (Option Running) where
  rel := RunLess
  wf := by
    refine ⟨fun run => ?_⟩
    rcases run with _ | ⟨isReading, look⟩ | outcome | state | _
    · exact acc_none
    · exact acc_ofProcess (.look isReading look)
    · exact acc_returned outcome
    · exact acc_publishing state
    · exact acc_done

/-- How much of its life a worker has left. -/
def lifeLeft : Phase → Nat
  | .waiting => 3
  | .live => 2
  | .leaving => 1
  | .ended => 0

/-- What a worker has left to do, most significant first: to live, to take triggers, to run again
and to go on with its computation. -/
def left (worker : Worker) : Nat × Nat × Nat × Option Running :=
  (lifeLeft worker.phase, worker.queued, worker.rerun.toNat, worker.running)

/-- One worker has less left to do than another. -/
def LessLeft (next worker : Worker) : Prop :=
  WellFoundedRelation.rel next.left worker.left

/-- Living on counts most. -/
theorem lessLeft_of_phase {next worker : Worker}
    (h : lifeLeft next.phase < lifeLeft worker.phase) : LessLeft next worker :=
  Prod.Lex.left _ _ h

/-- Next come the triggers in the queue. -/
theorem lessLeft_of_queued {next worker : Worker} (phase : next.phase = worker.phase)
    (h : next.queued < worker.queued) : LessLeft next worker := by
  unfold LessLeft left
  rw [phase]
  exact Prod.Lex.right _ (Prod.Lex.left _ _ h)

/-- Next comes the marked run. -/
theorem lessLeft_of_rerun {next worker : Worker} (phase : next.phase = worker.phase)
    (queued : next.queued = worker.queued) (h : next.rerun.toNat < worker.rerun.toNat) :
    LessLeft next worker := by
  unfold LessLeft left
  rw [phase, queued]
  exact Prod.Lex.right _ (Prod.Lex.right _ (Prod.Lex.left _ _ h))

/-- Last comes the computation itself. -/
theorem lessLeft_of_running {next worker : Worker} (phase : next.phase = worker.phase)
    (queued : next.queued = worker.queued) (rerun : next.rerun = worker.rerun)
    (h : RunLess next.running worker.running) : LessLeft next worker := by
  unfold LessLeft left
  rw [phase, queued, rerun]
  exact Prod.Lex.right _ (Prod.Lex.right _ (Prod.Lex.right _ h))

/-- A computation that has not ended comes closer to its end when it goes on. -/
theorem lessLeft_proceed {worker : Worker} (platform : Platform)
    (busy : worker.running.any (·.isBusy)) : LessLeft (worker.proceed platform) worker := by
  unfold proceed
  split
  · next isReading look hrunning =>
    refine lessLeft_of_running rfl rfl rfl ?_
    rw [hrunning]
    exact .looked platform
  · next outcome hrunning =>
    cases outcome with
    | error =>
      refine lessLeft_of_running rfl rfl rfl ?_
      rw [hrunning]
      exact .ended rfl
    | ok state =>
      refine lessLeft_of_running rfl rfl rfl ?_
      rw [hrunning]
      show RunLess (some (ite _ _ _)) _
      split
      · exact .ended rfl
      · exact .settled _ state
  · next state hrunning =>
    refine lessLeft_of_running rfl rfl rfl ?_
    rw [hrunning]
    exact .ended rfl
  · next hlooking hreturned hpublishing =>
    -- there is no computation, or it has ended: then it is not busy
    rcases hrunning : worker.running with _ | ⟨isReading, look⟩ | outcome | state | _
    · rw [hrunning] at busy
      cases busy
    · exact absurd hrunning (hlooking isReading look)
    · exact absurd hrunning (hreturned outcome)
    · exact absurd hrunning (hpublishing state)
    · rw [hrunning] at busy
      cases busy

/-- Every move that is possible leaves less to do. -/
theorem lessLeft_make {worker : Worker} {move : Move} (platform : Platform) (now : Millis)
    (possible : worker.can move) : LessLeft (worker.make platform now move) worker := by
  cases move with
  | boot =>
    have hwaiting : worker.phase = .waiting := of_decide_eq_true possible
    refine lessLeft_of_phase ?_
    rw [hwaiting]
    exact Nat.lt_succ_self 2
  | takeTriggers =>
    obtain ⟨-, hqueued⟩ := Bool.and_eq_true_iff.1 possible
    show LessLeft (worker.takeTriggers now) worker
    unfold takeTriggers
    split <;> exact lessLeft_of_queued rfl (of_decide_eq_true hqueued)
  | noticeEnd =>
    obtain ⟨-, hdone⟩ := Bool.and_eq_true_iff.1 possible
    show LessLeft (worker.noticeEnd now) worker
    unfold noticeEnd
    split
    · next hrerun =>
      refine lessLeft_of_rerun rfl rfl ?_
      rw [hrerun]
      exact Nat.zero_lt_one
    · refine lessLeft_of_running rfl rfl rfl ?_
      rw [Running.eq_done hdone]
      exact .noticed
  | leave =>
    obtain ⟨hlive, -⟩ := Bool.and_eq_true_iff.1 possible
    refine lessLeft_of_phase ?_
    rw [of_decide_eq_true hlive]
    exact Nat.lt_succ_self 1
  | join =>
    obtain ⟨hleaving, -⟩ := Bool.and_eq_true_iff.1 possible
    refine lessLeft_of_phase ?_
    rw [of_decide_eq_true hleaving]
    exact Nat.lt_succ_self 0
  | proceed => exact lessLeft_proceed platform possible
  | abandon =>
    obtain ⟨-, hlooking⟩ := Bool.and_eq_true_iff.1 possible
    obtain ⟨isReading, look, hrunning⟩ := Running.exists_looking hlooking
    refine lessLeft_of_running rfl rfl rfl ?_
    rw [hrunning]
    exact .ended rfl

end Worker

end PermissionUsage
