import PermissionUsage.Proofs.Live.Journal
/-!
# One computation at a time, and none for nothing

What a journal says of computations, whatever happens to the worker and in whatever order:

* `Serialized`: at most one computation is under way; triggers that are handled until its end is
  noticed give one follow-up, which starts when the end is noticed, and without such triggers there
  is none; there are no more computations than triggers, but for the first.
* `Worker.exists_endsAt_of_started`: in an endless run whose computations go on to be polled, a
  computation that was started ends, unless its worker is told to end.
* `Worker.serialized` puts these together.
-/

namespace PermissionUsage

/-! ## Consequences of the protocol -/

namespace Stage

variable {stage next last : Stage} {note : Note} {notes : List Note}

/-- A protocol is followed note by note. -/
theorem follow_cons_eq_some_iff : stage.follow (note :: notes) = some last ↔
    ∃ next, stage.after? note = some next ∧ next.follow notes = some last :=
  Option.bind_eq_some_iff

theorem follow_append_eq_some_iff {first second : List Note} :
    stage.follow (first ++ second) = some last ↔
      ∃ next, stage.follow first = some next ∧ next.follow second = some last := by
  rw [follow_append]
  exact Option.bind_eq_some_iff

theorem countP_cons_toNat (p : Note → Bool) (note : Note) (notes : List Note) :
    (note :: notes).countP p = (p note).toNat + notes.countP p := by
  rw [List.countP_cons, Nat.add_comm]
  cases p note <;> rfl

/-! ### How many -/

/-- A computation starts where none is, and an end belongs to one. -/
theorem isBusy_of_after? (h : stage.after? note = some next) :
    note.isStart.toNat + stage.isBusy.toNat = note.isEnd.toNat + next.isBusy.toNat := by
  unfold after? at h
  split at h <;> cases h <;> rfl

/-- A computation is under way from its start to its end. -/
theorem countP_of_follow (h : stage.follow notes = some last) :
    notes.countP Note.isStart + stage.isBusy.toNat =
      notes.countP Note.isEnd + last.isBusy.toNat := by
  induction notes generalizing stage with
  | nil =>
    obtain rfl := Option.some.inj h
    rfl
  | cons note rest ih =>
    obtain ⟨next, hnext, hrest⟩ := follow_cons_eq_some_iff.1 h
    have hnote := isBusy_of_after? hnext
    have hrest := ih hrest
    rw [countP_cons_toNat, countP_cons_toNat]
    omega

/-- The number of computations that may start before further triggers are handled. -/
def credit : Stage → Nat
  | new => 1
  | idle => 0
  | asked => 1
  | busy marked => marked.toNat
  | done marked => marked.toNat
  | due => 1

/-- A start uses up a handling of triggers. -/
theorem credit_of_after? (h : stage.after? note = some next) :
    note.isStart.toNat + next.credit ≤ note.isHandled.toNat + stage.credit := by
  unfold after? at h
  split at h <;> cases h <;> simp [Note.isStart, Note.isHandled, credit]

/-- Every handling of triggers gives credit for one computation. -/
theorem credit_of_follow (h : stage.follow notes = some last) :
    notes.countP Note.isStart + last.credit ≤ notes.countP Note.isHandled + stage.credit := by
  induction notes generalizing stage with
  | nil =>
    obtain rfl := Option.some.inj h
    exact Nat.le_refl _
  | cons note rest ih =>
    obtain ⟨next, hnext, hrest⟩ := follow_cons_eq_some_iff.1 h
    have hnote := credit_of_after? hnext
    have hrest := ih hrest
    rw [countP_cons_toNat, countP_cons_toNat]
    omega

/-! ### From a start to the notice of its end -/

/-- From its start until its end is noticed, a computation may be marked. -/
def mark? : Stage → Option Bool
  | busy marked => some marked
  | done marked => some marked
  | _ => none

/-- Until its end is noticed, a computation is marked by triggers and nothing else starts. -/
theorem mark?_of_after? {marked : Bool} (hmark : stage.mark? = some marked)
    (h : stage.after? note = some next) (unnoticed : note ≠ .noticed) :
    note.isStart = false ∧ next.mark? = some (marked || note.isHandled) := by
  unfold after? at h
  split at h <;> cases h <;> simp_all [mark?, Note.isStart, Note.isHandled]

/-- Until the end of a computation is noticed no other starts, and it is marked once triggers are
handled. -/
theorem mark?_of_follow {marked : Bool} (hmark : stage.mark? = some marked)
    (h : stage.follow notes = some last) (unnoticed : .noticed ∉ notes) :
    (∀ note ∈ notes, note.isStart = false) ∧
      last.mark? = some (marked || notes.any Note.isHandled) := by
  induction notes generalizing stage marked with
  | nil =>
    obtain rfl := Option.some.inj h
    exact ⟨nofun, by rw [hmark, List.any_nil, Bool.or_false]⟩
  | cons note rest ih =>
    obtain ⟨next, hnext, hrest⟩ := follow_cons_eq_some_iff.1 h
    have hne : note ≠ .noticed := fun heq => unnoticed (heq ▸ List.mem_cons_self)
    obtain ⟨hstart, hmark⟩ := mark?_of_after? hmark hnext hne
    obtain ⟨hstarts, hlast⟩ :=
      ih hmark hrest fun hmem => unnoticed (List.mem_cons_of_mem note hmem)
    refine ⟨List.forall_mem_cons.2 ⟨hstart, hstarts⟩, ?_⟩
    rw [hlast, List.any_cons, Bool.or_assoc]

/-- A worker that is idle stays so until triggers are handled. -/
theorem idle_of_follow (h : idle.follow notes = some last) (unhandled : .handled ∉ notes) :
    last = idle := by
  induction notes with
  | nil => exact (Option.some.inj h).symm
  | cons note rest ih =>
    obtain ⟨next, hnext, hrest⟩ := follow_cons_eq_some_iff.1 h
    have hstay : next = idle := by
      cases note with
      | sent => exact (Option.some.inj hnext).symm
      | cancelled => exact (Option.some.inj hnext).symm
      | handled => exact absurd List.mem_cons_self unhandled
      | started | ended | abandoned | noticed => cases hnext
    exact ih (hstay ▸ hrest) fun hmem => unhandled (List.mem_cons_of_mem note hmem)

end Stage

/-- What a journal says of computations. -/
structure Serialized (notes : List Note) : Prop where
  /-- At every moment at most one computation was started and has not ended. -/
  oneAtATime : ∀ before after : List Note, notes = before ++ after →
    before.countP Note.isEnd ≤ before.countP Note.isStart ∧
      before.countP Note.isStart ≤ before.countP Note.isEnd + 1
  /-- A computation is given up only after the worker is told to end. -/
  undisturbed : ∀ before after : List Note,
    notes = before ++ .abandoned :: after → .cancelled ∈ before
  /-- After one computation, the next starts only when the end of the first was noticed. -/
  apart : ∀ before between after : List Note,
    notes = before ++ .started :: (between ++ .started :: after) → .noticed ∈ between
  /-- What is noticed is the end of the computation that was started last. -/
  noticedEnd : ∀ before between after : List Note,
    notes = before ++ .started :: (between ++ .noticed :: after) → .noticed ∉ between →
      between.countP Note.isEnd = 1
  /-- Triggers that were handled until the end is noticed give one follow-up, at once. -/
  followUp : ∀ before between after : List Note,
    notes = before ++ .started :: (between ++ .noticed :: after) → .noticed ∉ between →
      .handled ∈ between → ∃ rest, after = .started :: rest
  /-- Without such triggers there is no follow-up: the next computation starts for later ones. -/
  noFollowUp : ∀ before between after : List Note,
    notes = before ++ .started :: (between ++ .noticed :: after) → .noticed ∉ between →
      .handled ∉ between → ∀ mid rest : List Note, after = mid ++ .started :: rest → .handled ∈ mid
  /-- But for the first computation there are no more than triggers were sent. -/
  few : notes.countP Note.isStart ≤ 1 + notes.countP Note.isSent

namespace Records

variable {notes : List Note} {worker : Worker}

/-- Of a journal in which a computation is started and its end is not noticed for a while: the stage
of the worker at the end of that while, and how it goes on from there. -/
theorem exists_stage (records : Records notes worker) {before between after : List Note}
    (h : notes = before ++ .started :: (between ++ after)) (unnoticed : .noticed ∉ between) :
    ∃ stage last : Stage, stage.mark? = some (between.any Note.isHandled) ∧
      between.countP Note.isEnd + stage.isBusy.toNat = 1 ∧
      stage.follow after = some last ∧ last.Fits worker := by
  obtain ⟨last, hfollow, hfits⟩ := records.stage
  rw [h] at hfollow
  obtain ⟨first, -, hfollow⟩ := Stage.follow_append_eq_some_iff.1 hfollow
  obtain ⟨started, hstarted, hfollow⟩ := Stage.follow_cons_eq_some_iff.1 hfollow
  obtain ⟨stage, hbetween, hafter⟩ := Stage.follow_append_eq_some_iff.1 hfollow
  -- wherever a computation may start, it starts without a mark
  have hbusy : started = .busy false := by
    cases first <;> cases hstarted <;> rfl
  subst hbusy
  obtain ⟨hstarts, hmark⟩ := Stage.mark?_of_follow rfl hbetween unnoticed
  have hcount := Stage.countP_of_follow hbetween
  have hnone : between.countP Note.isStart = 0 :=
    List.countP_eq_zero.2 fun note hnote => by simp [hstarts note hnote]
  refine ⟨stage, last, hmark, ?_, hafter, hfits⟩
  rw [← hcount, hnone]
  rfl

/-- Where the end of a computation is noticed, it has ended, and the worker goes on from a stage
that depends on the mark. -/
theorem exists_stage_of_noticed (records : Records notes worker)
    {before between after : List Note}
    (h : notes = before ++ .started :: (between ++ .noticed :: after))
    (unnoticed : .noticed ∉ between) :
    ∃ last : Stage, last.Fits worker ∧ between.countP Note.isEnd = 1 ∧
      (if between.any Note.isHandled then Stage.due else Stage.idle).follow after = some last := by
  obtain ⟨stage, last, hmark, hcount, hfollow, hfits⟩ := records.exists_stage h unnoticed
  obtain ⟨next, hnext, hafter⟩ := Stage.follow_cons_eq_some_iff.1 hfollow
  -- only the end of a computation that is done is noticed
  cases stage with
  | done marked =>
    obtain rfl := Option.some.inj hmark
    have hdue : next = if between.any Note.isHandled then Stage.due else Stage.idle := by
      cases hany : between.any Note.isHandled <;> rw [hany] at hnext <;> cases hnext <;> rfl
    exact ⟨last, hfits, hcount, hdue ▸ hafter⟩
  | new | idle | asked | due | busy => cases hnext

/-- The notes tell whether a computation is under way. -/
theorem underWay (records : Records notes worker) : notes.countP Note.isStart =
    notes.countP Note.isEnd + (worker.running.any (·.isBusy)).toNat := by
  obtain ⟨last, hfollow, hfits⟩ := records.stage
  rw [← hfits.isBusy_eq]
  exact Stage.countP_of_follow hfollow

/-- What is recorded of a run makes its journal serialized. -/
theorem toSerialized (records : Records notes worker) : Serialized notes where
  oneAtATime before after h := by
    obtain ⟨last, hfollow, -⟩ := records.stage
    rw [h] at hfollow
    obtain ⟨stage, hbefore, -⟩ := Stage.follow_append_eq_some_iff.1 hfollow
    have hcount : before.countP Note.isStart + 0 =
        before.countP Note.isEnd + stage.isBusy.toNat := Stage.countP_of_follow hbefore
    have hbusy := stage.isBusy.toNat_le
    omega
  undisturbed := records.abandoned
  apart before between after h := by
    by_contra unnoticed
    obtain ⟨stage, last, hmark, -, hfollow, -⟩ := records.exists_stage h unnoticed
    obtain ⟨next, hnext, -⟩ := Stage.follow_cons_eq_some_iff.1 hfollow
    -- no computation starts before the end of another one is noticed
    cases stage with
    | busy | done => cases hnext
    | new | idle | asked | due => cases hmark
  noticedEnd before between after h unnoticed := by
    obtain ⟨-, -, hend, -⟩ := records.exists_stage_of_noticed h unnoticed
    exact hend
  followUp before between after h unnoticed hhandled := by
    obtain ⟨last, hfits, -, hafter⟩ := records.exists_stage_of_noticed h unnoticed
    rw [if_pos (List.any_eq_true.2 ⟨_, hhandled, rfl⟩)] at hafter
    -- no run ends where a computation starts at once
    cases after with
    | nil =>
      obtain rfl := Option.some.inj hafter
      exact absurd rfl hfits.settled.2
    | cons note rest =>
      obtain ⟨next, hnext, -⟩ := Stage.follow_cons_eq_some_iff.1 hafter
      cases note with
      | started => exact ⟨rest, rfl⟩
      | sent | cancelled | handled | ended | abandoned | noticed => cases hnext
  noFollowUp before between after h unnoticed hhandled mid rest heq := by
    by_contra unhandled
    obtain ⟨last, -, -, hafter⟩ := records.exists_stage_of_noticed h unnoticed
    have hany : ¬between.any Note.isHandled := by
      rw [List.any_eq_true]
      rintro ⟨note, hnote, hisHandled⟩
      cases note with
      | handled => exact hhandled hnote
      | sent | cancelled | started | ended | abandoned | noticed => cases hisHandled
    rw [if_neg hany, heq] at hafter
    obtain ⟨stage, hmid, hrest⟩ := Stage.follow_append_eq_some_iff.1 hafter
    obtain ⟨next, hnext, -⟩ := Stage.follow_cons_eq_some_iff.1 hrest
    rw [Stage.idle_of_follow hmid unhandled] at hnext
    cases hnext
  few := by
    obtain ⟨last, hfollow, -⟩ := records.stage
    have hcredit : notes.countP Note.isStart + last.credit ≤ notes.countP Note.isHandled + 1 :=
      Stage.credit_of_follow hfollow
    have hhandled := records.handled
    omega

end Records

/-! ## Computations end -/

namespace Worker

variable {worker : Worker} {moment : Moment}

/-- A computation is under way, and nobody told the worker to end. -/
structure Computes (worker : Worker) (running : Running) : Prop where
  found : worker.running = some running
  busy : running.isBusy
  live : worker.phase = .live
  active : worker.cancelled = false

/-- No computation starts or ends in the moment. -/
def IsQuiet (worker : Worker) (moment : Moment) : Prop :=
  ∀ note ∈ worker.notes moment, note.isStart = false ∧ note.isEnd = false

/-- Nothing but its own next step has an effect on a computation of a worker that is not told to
end. -/
theorem Computes.of_meets {running : Running} (computes : worker.Computes running)
    {notes : List Note} {next : Worker} (h : worker.Meets moment notes next)
    (hproceed : moment.deed ≠ .move .proceed) (hcancel : moment.deed ≠ .cancel) :
    next.Computes running ∧ ∀ note ∈ notes, note.isStart = false ∧ note.isEnd = false := by
  obtain ⟨found, busy, live, active⟩ := computes
  have hdone : worker.running ≠ some .done := by
    intro hdone
    obtain rfl := Option.some.inj (hdone.symm.trans found)
    cases busy
  cases h with
  | trigger => exact ⟨⟨found, busy, live, active⟩, by simp [Note.isStart, Note.isEnd]⟩
  | see | nothing => exact ⟨⟨found, busy, live, active⟩, nofun⟩
  | mark => exact ⟨⟨found, busy, live, active⟩, by simp [Note.isStart, Note.isEnd]⟩
  -- the others need another phase, the order to end, or no computation under way
  | cancel deed => exact absurd deed hcancel
  | look deed | fail deed | pass deed | publish deed => exact absurd deed hproceed
  | abandon _ _ _ cancelled => cases cancelled.symm.trans active
  | leave _ cancelled => cases cancelled.symm.trans active
  | join leaving => cases leaving.symm.trans live
  | rest _ done => exact absurd done hdone
  | start starts =>
    cases starts with
    | boot waiting => cases waiting.symm.trans live
    | takeTriggers _ _ free => cases free.symm.trans found
    | noticeEnd _ done => exact absurd done hdone

/-- The next step of a computation leaves less of it, or ends it; and if it ends well, its result is
published. -/
theorem Computes.proceed {running : Running} (computes : worker.Computes running)
    (hproceed : moment.deed = .move .proceed) :
    (∃ next, (worker.meet moment).Computes next ∧ RunLess (some next) (some running) ∧
        worker.IsQuiet moment) ∨
      ∃ outcome, .ended outcome ∈ worker.notes moment ∧
        ∀ state, outcome = .ok state → (worker.meet moment).published = state := by
  obtain ⟨found, busy, live, active⟩ := computes
  have possible : worker.can .proceed := by
    rw [can, found]
    exact busy
  have hnotes : worker.notes moment = worker.proceedNotes := by
    rw [notes, hproceed]
    exact if_pos possible
  have hmeet : worker.meet moment = worker.proceed moment.platform := by
    rw [meet, hproceed]
    exact if_pos possible
  unfold IsQuiet
  rw [hnotes, hmeet, proceedNotes, Worker.proceed, found]
  cases running with
  | looking isReading look =>
    exact .inl ⟨.ofProcess (look moment.platform),
      ⟨rfl, Running.isBusy_ofProcess _, live, active⟩, .looked _, nofun⟩
  | returned outcome =>
    cases outcome with
    | error error => exact .inr ⟨_, List.mem_singleton_self _, nofun⟩
    | ok state =>
      -- nobody told the worker to end, so the check is passed
      have hsettle : worker.settle (.ok state) =
          { worker with running := some (.publishing state) } := by
        rw [settle, active]
        rfl
      refine .inl ⟨.publishing state, ?_, .settled _ state, ?_⟩
      · show (worker.settle (.ok state)).Computes (.publishing state)
        rw [hsettle]
        exact ⟨rfl, rfl, live, active⟩
      · simp [active]
  | publishing state =>
    refine .inr ⟨.ok state, List.mem_singleton_self _, fun published hpublished => ?_⟩
    exact Except.ok.inj hpublished
  | done => cases busy

/-! ### Endless runs -/

/-- The worker after the first `n` moments of an endless run. -/
def along (worker : Worker) (moments : ℕ → Moment) : ℕ → Worker
  | 0 => worker
  | n + 1 => (worker.along moments n).meet (moments n)

end Worker

/-- An endless run in which the worker is never told to end, and in which a computation is polled
again and again. -/
structure Polls (moments : ℕ → Moment) : Prop where
  active : ∀ n, (moments n).deed ≠ .cancel
  proceeds : ∀ n, ∃ m, n ≤ m ∧ (moments m).deed = .move .proceed

namespace Worker

variable {worker : Worker} {moment : Moment} {moments : ℕ → Moment}

/-- A computation waits until it goes on, and nothing else happens to it. -/
theorem exists_proceed (active : ∀ n, (moments n).deed ≠ .cancel) {n wait : ℕ}
    (hproceed : (moments (n + wait)).deed = .move .proceed) {running : Running}
    (computes : (worker.along moments n).Computes running) :
    ∃ m, n ≤ m ∧ (moments m).deed = .move .proceed ∧
      (worker.along moments m).Computes running ∧
      ∀ k, n ≤ k → k < m → (worker.along moments k).IsQuiet (moments k) := by
  induction wait generalizing n with
  | zero => exact ⟨n, Nat.le_refl n, hproceed, computes, fun k hn hk => absurd hk (Nat.not_lt.2 hn)⟩
  | succ wait ih =>
    by_cases hnow : (moments n).deed = .move .proceed
    · exact ⟨n, Nat.le_refl n, hnow, computes, fun k hn hk => absurd hk (Nat.not_lt.2 hn)⟩
    · obtain ⟨hnext, hquiet⟩ := computes.of_meets (meets _ (moments n)) hnow (active n)
      rw [← Nat.add_assoc, Nat.add_right_comm] at hproceed
      obtain ⟨m, hm, hproceed, hcomputes, hquiets⟩ := @ih (n + 1) hproceed hnext
      refine ⟨m, Nat.le_of_succ_le hm, hproceed, hcomputes, fun k hn hk => ?_⟩
      rcases Nat.eq_or_lt_of_le hn with rfl | hlt
      · exact hquiet
      · exact hquiets k hlt hk

/-- A computation ends by itself in a moment of a run, and its result is published. -/
def EndsAt (worker : Worker) (moments : ℕ → Moment) (n : ℕ) : Prop :=
  ∃ outcome, .ended outcome ∈ (worker.along moments n).notes (moments n) ∧
    ∀ state, outcome = .ok state → (worker.along moments (n + 1)).published = state

/-- A computation that is under way ends, and nothing starts or ends before. The induction is on
what is left of it, however the platform changes meanwhile. -/
theorem exists_endsAt_of_computes (polls : Polls moments) (run : Option Running) :
    ∀ n running, run = some running → (worker.along moments n).Computes running →
      ∃ m, n ≤ m ∧ (∀ k, n ≤ k → k < m → (worker.along moments k).IsQuiet (moments k)) ∧
        worker.EndsAt moments m := by
  have wf : WellFounded RunLess := (inferInstance : WellFoundedRelation (Option Running)).wf
  induction run using wf.induction with
  | _ run ih =>
    rintro n running rfl computes
    obtain ⟨limit, hlimit, hproceed⟩ := polls.proceeds n
    obtain ⟨wait, rfl⟩ := Nat.exists_eq_add_of_le hlimit
    obtain ⟨m, hm, hproceed, hcomputes, hquiet⟩ := exists_proceed polls.active hproceed computes
    -- the step leaves less of the computation, or ends it
    rcases hcomputes.proceed hproceed with ⟨next, hnext, hless, hstep⟩ | hend
    · obtain ⟨last, hlast, hquiets, hend⟩ := ih _ hless (m + 1) next rfl hnext
      refine ⟨last, by omega, fun k hk hkl => ?_, hend⟩
      rcases Nat.lt_trichotomy k m with hlt | rfl | hgt
      · exact hquiet k hk hlt
      · exact hstep
      · exact hquiets k hgt hkl
    · exact ⟨m, hm, hquiet, hend⟩

/-! ### From the start on -/

/-- A computation starts in one way only. -/
theorem Meets.exists_starts {notes : List Note} {next : Worker}
    (h : worker.Meets moment notes next) (hmem : .started ∈ notes) :
    ∃ lead before, worker.Starts lead before ∧ next = before.startRun moment.now := by
  cases h with
  | start starts => exact ⟨_, _, starts, rfl⟩
  | trigger | cancel | see | nothing | mark | look | fail | pass | publish | abandon | rest
  | leave | join => simp at hmem

/-- A computation that ends well publishes its result in the moment in which it ends. -/
theorem Meets.published_of_ended {notes : List Note} {next : Worker}
    (h : worker.Meets moment notes next) {state : UsageState}
    (hmem : .ended (.ok state) ∈ notes) : next.published = state := by
  cases h with
  | publish =>
    obtain ⟨rfl⟩ := List.mem_singleton.1 hmem
    rfl
  | start starts => rcases starts.of_mem_notes hmem with h | h | h <;> cases h
  | trigger | cancel | see | nothing | mark | look | fail | pass | abandon | rest | leave | join =>
    simp at hmem

/-- A worker that is never told to end goes on. -/
theorem active_along (polls : Polls moments) (useCase : UseCase) (n : ℕ) :
    ((ofUseCase useCase).along moments n).cancelled = false := by
  induction n with
  | zero => rfl
  | succ n ih =>
    have hmeets := ((ofUseCase useCase).along moments n).meets (moments n)
    rcases hmeets.cancelled with ⟨hdeed, -⟩ | ⟨-, hcancelled⟩
    · exact absurd hdeed (polls.active n)
    · exact hcancelled.trans ih

/-- A computation that is started ends, and no other one starts or ends before. -/
theorem exists_endsAt_of_started (polls : Polls moments) {n : ℕ}
    (active : (worker.along moments n).cancelled = false)
    (h : .started ∈ (worker.along moments n).notes (moments n)) :
    ∃ m, n ≤ m ∧ (∀ k, n < k → k < m → (worker.along moments k).IsQuiet (moments k)) ∧
      worker.EndsAt moments m := by
  obtain ⟨lead, before, starts, hmeet⟩ := (meets _ (moments n)).exists_starts h
  have hcomputes : (worker.along moments (n + 1)).Computes
      (.ofProcess (before.useCase.process (moments n).now)) := by
    rw [along, hmeet]
    exact ⟨rfl, Running.isBusy_ofProcess _, starts.live, starts.cancelled.trans active⟩
  obtain ⟨m, hm, hquiet, hend⟩ := exists_endsAt_of_computes polls _ (n + 1) _ rfl hcomputes
  exact ⟨m, Nat.le_of_succ_le hm, hquiet, hend⟩

/-- **One computation at a time, and none for nothing.** In every run of a worker the journal is
serialized, and it tells whether a computation is under way; the result of a computation is
published when it ends, unless the worker was told to end. In every endless run in which it is not
told to end and computations go on to be polled, a computation that is started ends by itself,
whatever else happens, and no other one starts or ends before. -/
theorem serialized (useCase : UseCase) :
    (∀ moments, Serialized ((ofUseCase useCase).journal moments) ∧
      ((ofUseCase useCase).journal moments).countP Note.isStart =
        ((ofUseCase useCase).journal moments).countP Note.isEnd +
          (((ofUseCase useCase).meetAll moments).running.any (·.isBusy)).toNat) ∧
    (∀ moments moment state, .cancelled ∉ (ofUseCase useCase).journal moments →
      .ended (.ok state) ∈ ((ofUseCase useCase).meetAll moments).notes moment →
      (((ofUseCase useCase).meetAll moments).meet moment).published = state) ∧
    ∀ moments : ℕ → Moment, Polls moments →
      ∀ n, .started ∈ ((ofUseCase useCase).along moments n).notes (moments n) →
        ∃ m, n ≤ m ∧
          (∀ k, n < k → k < m → ((ofUseCase useCase).along moments k).IsQuiet (moments k)) ∧
          (ofUseCase useCase).EndsAt moments m := by
  have hrecords : ∀ moments, Records ((ofUseCase useCase).journal moments)
      ((ofUseCase useCase).meetAll moments) := fun moments =>
    (Records.ofUseCase useCase).meetAll moments
  exact ⟨fun moments => ⟨(hrecords moments).toSerialized, (hrecords moments).underWay⟩,
    fun moments moment state _ h => (meets _ moment).published_of_ended h,
    fun moments polls n h => exists_endsAt_of_started polls (active_along polls useCase n) h⟩

/-! ### Triggers without end

Before every step of the computation a trigger is sent and handled. The computation ends
nevertheless, and one follow-up starts for all the triggers.
-/

namespace SteadyTriggers

def owner : PackageUser := ⟨"com.example.camera", 0⟩

/-- The app has used the camera. -/
def platform : Platform :=
  (Platform.fresh.install owner [Permission.camera] false).addAccesses owner
    [{ op := Op.camera, time := 600000, duration := -1 }]

def board : UseCase := .dashboard { features := {} }

/-- What happens again and again. -/
def turn : ℕ → Deed
  | 0 => .trigger
  | 1 => .move .takeTriggers
  | 2 => .move .proceed
  | _ => .move .noticeEnd

def deed : ℕ → Deed
  | 0 => .move .boot
  | n + 1 => turn (n % 4)

def steady (n : ℕ) : Moment := ⟨platform, 660000, deed n⟩

def shown : UsageState :=
  .dashboard (.success [{ owner, group := .camera, last := 600000, isSensitive := true }])

/-- In a steady run every possible move comes round. -/
theorem polls : Polls steady where
  active n := by
    cases n with
    | zero => exact fun h => Deed.noConfusion h
    | succ n =>
      show turn (n % 4) ≠ .cancel
      unfold turn
      split <;> exact fun h => Deed.noConfusion h
  proceeds n := by
    have hturn : (4 * n + 2) % 4 = 2 := by omega
    refine ⟨4 * n + 2 + 1, by omega, ?_⟩
    show turn ((4 * n + 2) % 4) = _
    rw [hturn]
    rfl

/-- The moments before the first computation ends. -/
def before : List Moment := (List.range 87).map steady

/-- What is noted until then, after the computation has started. -/
def meanwhile : List Note := (List.replicate 22 [Note.sent, Note.handled]).flatten

/-- The computation is started, and triggers are handled meanwhile. -/
theorem journal_before : (ofUseCase board).journal before = .started :: meanwhile := by
  decide +kernel

/-- It ends with its result. -/
theorem notes_end :
    ((ofUseCase board).meetAll before).notes (steady 87) = [.ended (.ok shown)] := by
  decide +kernel

theorem journal_followUp : (ofUseCase board).journal (before ++ [steady 87, steady 88]) =
    .started :: ((meanwhile ++ [.ended (.ok shown)]) ++ [.noticed, .started]) := by
  decide +kernel

end SteadyTriggers

open SteadyTriggers in
/-- Triggers that keep coming during the computation of a dashboard. -/
theorem serialized_of_steadyTriggers :
    Serialized (.started :: ((meanwhile ++ [.ended (.ok shown)]) ++ [.noticed, .started])) ∧
      (((ofUseCase board).meetAll before).meet (steady 87)).published = shown ∧
      ∃ m, (∀ k, 0 < k → k < m → ((ofUseCase board).along steady k).IsQuiet (steady k)) ∧
        (ofUseCase board).EndsAt steady m := by
  obtain ⟨hserialized, hpublished, hends⟩ := serialized board
  have huncancelled : .cancelled ∉ (ofUseCase board).journal before := by
    rw [journal_before]
    decide
  have hend : .ended (.ok shown) ∈ ((ofUseCase board).meetAll before).notes (steady 87) := by
    rw [notes_end]
    exact List.mem_singleton_self _
  have hstart : .started ∈ ((ofUseCase board).along steady 0).notes (steady 0) := by
    decide +kernel
  obtain ⟨m, -, hquiet, hm⟩ := hends steady polls 0 hstart
  exact ⟨journal_followUp ▸ (hserialized _).1,
    hpublished before (steady 87) shown huncancelled hend, m, hquiet, hm⟩

end Worker

end PermissionUsage
