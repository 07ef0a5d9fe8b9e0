import PermissionUsage.Proofs.Codec.Lawful
import PermissionUsage.Settings.Place
/-!
# Settings in memory and in the file

A store is *in step* with its file if a store that is opened on the file now has the same settings.

* `SettingsStore.Outcome`: all that a call can come to.
* `SettingsStore.reopen_after`: as long as writes succeed, every call leaves the store in step.
* `SettingsRun.inStep_of_ok`: where writes may fail, the store is in step after an answer without
  an error if the call wrote or read the file, or if no write failed since that was last done.
* `SettingsRun.not_inStep_of_sameChange`: the condition is needed. Memory is changed before the file
  is written and stays changed if that fails, so the same change once more has nothing to write.
-/

namespace PermissionUsage

/-- A store opened on the file now has the same settings. -/
def SettingsStore.InStep (store : SettingsStore) : Prop :=
  (SettingsStore.ofFile store.file).map (·.settings) = .ok store.settings

instance (store : SettingsStore) : Decidable store.InStep := inferInstanceAs (Decidable (_ = _))

/-! ## Calls -/

/-- A call of an open store. -/
inductive SettingsCall where
  | setShowSystem (value : Bool)
  | setShowSevenDays (value : Bool)
  | setFeatures (features : Features)
  | reload
  deriving DecidableEq, Repr

/-- Calls a store. The answer tells whether the file was written or read. -/
def SettingsCall.run (store : SettingsStore) :
    SettingsCall → Except SettingsError Bool × SettingsStore
  | .setShowSystem value => store.setShowSystem value
  | .setShowSevenDays value => store.setShowSevenDays value
  | .setFeatures features =>
    let (answer, store) := store.setFeatures features
    (answer.map fun _ => true, store)
  | .reload =>
    let (answer, store) := store.reload
    (answer.map fun _ => true, store)

/-- All that a call can come to. -/
inductive SettingsStore.Outcome (store : SettingsStore) :
    Except SettingsError Bool × SettingsStore → Prop where
  | unchanged : store.Outcome (.ok false, store)
  /-- The file was written or read. -/
  | agreed {next : SettingsStore} (h : next.InStep)
      (hfile : next.file.writeFault = store.file.writeFault) : store.Outcome (.ok true, next)
  /-- The change was made in memory only. -/
  | notWritten {cause : SystemError} {next : SettingsStore}
      (h : store.file.writeFault = some cause) (hfile : next.file = store.file) :
      store.Outcome (.error (.writing store.file.path cause), next)
  | notRead {error : SettingsError} (h : ∀ path cause, error ≠ .writing path cause) :
      store.Outcome (.error error, store)

namespace SettingsStore

variable {store : SettingsStore}

/-- What was just written is what a new store reads. -/
theorem inStep_of_written (h : store.file.content = .text store.settings.toFileText) :
    store.InStep := by
  unfold InStep ofFile
  rw [h]
  simp only [FileContent.read, Settings.ofFileText?_toFileText, Option.getD_some]
  rfl

/-- An update that changes nothing does nothing. One that changes something changes memory first,
and then writes the file, unless the file cannot be written. -/
theorem outcome_of_update {settings : Settings} {changed : Bool}
    (hsame : changed = false → settings = store.settings) :
    store.Outcome (store.update settings changed) := by
  cases changed with
  | false =>
    have hupdate : store.update settings false = (.ok false, store) := by
      rw [hsame rfl]
      rfl
    rw [hupdate]
    exact .unchanged
  | true =>
    cases hfault : store.file.writeFault with
    | none =>
      have hupdate : store.update settings true = (.ok true,
          { settings, file := { store.file with content := .text settings.toFileText } }) := by
        simp only [update, persist, hfault, if_true]
        rfl
      rw [hupdate]
      exact .agreed (inStep_of_written rfl) rfl
    | some cause =>
      have hupdate : store.update settings true =
          (.error (.writing store.file.path cause), { store with settings }) := by
        simp only [update, persist, hfault, if_true]
        rfl
      rw [hupdate]
      exact .notWritten hfault rfl

/-- Reading the settings again leaves the file alone. -/
theorem outcome_of_reload : store.Outcome (SettingsCall.reload.run store) := by
  cases hread : store.file.content.read with
  | error cause =>
    have hreload : SettingsCall.reload.run store = (.error (.reloading cause), store) := by
      simp only [SettingsCall.run, reload, hread]
      rfl
    rw [hreload]
    exact .notRead nofun
  | ok text =>
    cases hsettings : Settings.ofFileText? text with
    | none =>
      have hreload : SettingsCall.reload.run store = (.error .malformed, store) := by
        simp only [SettingsCall.run, reload, hread, hsettings]
        rfl
      rw [hreload]
      exact .notRead nofun
    | some settings =>
      have hreload : SettingsCall.reload.run store = (.ok true, { store with settings }) := by
        simp only [SettingsCall.run, reload, hread, hsettings]
        rfl
      have hagreed : InStep { store with settings } := by
        show (ofFile store.file).map _ = _
        simp only [ofFile, hread, hsettings, Option.getD_some]
        rfl
      rw [hreload]
      exact .agreed hagreed rfl

end SettingsStore

/-- Every call is an update or a reload. -/
theorem SettingsCall.outcome (call : SettingsCall) (store : SettingsStore) :
    store.Outcome (call.run store) := by
  cases call with
  | setShowSystem value =>
    refine SettingsStore.outcome_of_update fun hsame => ?_
    have hvalue : store.settings.toggles.showSystem = value := by simpa using hsame
    rw [← hvalue]
  | setShowSevenDays value =>
    refine SettingsStore.outcome_of_update fun hsame => ?_
    have hvalue : store.settings.toggles.showSevenDays = value := by simpa using hsame
    rw [← hvalue]
  | setFeatures features =>
    have hupdate : store.Outcome (store.update { store.settings with features } true) :=
      SettingsStore.outcome_of_update nofun
    -- features are written even if they are the same
    have hanswer : (SettingsCall.setFeatures features).run store =
        store.update { store.settings with features } true := by
      simp only [run, SettingsStore.setFeatures, SettingsStore.update, if_true]
      cases
          (SettingsStore.persist { store with settings := { store.settings with features } }).1 <;>
        rfl
    rw [hanswer]
    exact hupdate
  | reload => exact SettingsStore.outcome_of_reload

/-! ## While writes succeed -/

namespace SettingsStore

/-- The store after calls. -/
def after (store : SettingsStore) (calls : List SettingsCall) : SettingsStore :=
  calls.foldl (fun store call => (call.run store).2) store

/-- A call keeps a store in step whose file can be written. -/
theorem Outcome.inStep {store : SettingsStore} {result : Except SettingsError Bool × SettingsStore}
    (h : store.Outcome result) (hwrites : store.file.writeFault = none) (hstep : store.InStep) :
    result.2.file.writeFault = none ∧ result.2.InStep := by
  cases h with
  | unchanged => exact ⟨hwrites, hstep⟩
  | agreed hagreed hfile => exact ⟨hfile.trans hwrites, hagreed⟩
  | notWritten hfault =>
    rw [hwrites] at hfault
    cases hfault
  | notRead => exact ⟨hwrites, hstep⟩

/-- Without a write fault every call leaves memory and file in step. -/
theorem inStep_after {store : SettingsStore} (hwrites : store.file.writeFault = none)
    (hstep : store.InStep) (calls : List SettingsCall) : (store.after calls).InStep := by
  induction calls generalizing store with
  | nil => exact hstep
  | cons call rest ih =>
    obtain ⟨hnextWrites, hnext⟩ := (call.outcome store).inStep hwrites hstep
    exact ih hnextWrites hnext

theorem file_of_ofFile {file : SettingsFile} {store : SettingsStore}
    (h : ofFile file = .ok store) : store.file = file := by
  unfold ofFile at h
  split at h <;> cases h <;> rfl

/-- A store that was just opened is in step. -/
theorem inStep_of_ofFile {file : SettingsFile} {store : SettingsStore}
    (h : ofFile file = .ok store) : store.InStep := by
  rw [InStep, file_of_ofFile h, h]
  rfl

/-- A store can be opened on a missing file and on every text. -/
theorem exists_ofFile {file : SettingsFile}
    (h : file.content = .absent ∨ ∃ text, file.content = .text text) :
    ∃ store, ofFile file = .ok store := by
  unfold ofFile
  obtain h | ⟨text, h⟩ := h <;> rw [h] <;> exact ⟨_, rfl⟩

/-- A store can be opened on a missing file and on every text, and while writes succeed another
store that is opened after any calls has the settings of this one. Whatever settings are written,
they are what the next store is opened with. -/
theorem reopen_after {file : SettingsFile}
    (hcontent : file.content = .absent ∨ ∃ text, file.content = .text text)
    (hwrites : file.writeFault = none) :
    (∃ store, ofFile file = .ok store ∧
      ∀ calls, (ofFile (store.after calls).file).map (·.settings) =
        .ok (store.after calls).settings) ∧
    ∀ settings : Settings, (ofFile { file with content := .text settings.toFileText }).map
      (·.settings) = .ok settings := by
  refine ⟨?_, fun settings => ?_⟩
  · obtain ⟨store, hopen⟩ := exists_ofFile hcontent
    have hfile : store.file.writeFault = none := by rw [file_of_ofFile hopen, hwrites]
    exact ⟨store, hopen, inStep_after hfile (inStep_of_ofFile hopen)⟩
  · let written : SettingsStore :=
      { settings, file := { file with content := .text settings.toFileText } }
    have hwritten : written.InStep := inStep_of_written rfl
    exact hwritten

/-- A file that was cut off in the middle. -/
theorem reopen_after_of_cutOff :
    ∃ store, ofFile { path := "settings.json", content := .text "\x7b\"toggles\": " } = .ok store ∧
      ∀ calls, (ofFile (store.after calls).file).map (·.settings) =
        .ok (store.after calls).settings :=
  (reopen_after (.inr ⟨_, rfl⟩) rfl).1

end SettingsStore

/-! ## Where writes may fail -/

/-- A call as the file system lets it happen. -/
structure SettingsMove where
  call : SettingsCall
  /-- Why the file cannot be written meanwhile, if it cannot. -/
  writeFault : Option SystemError := none
  /-- What a failed write leaves behind. -/
  remains : FileContent := .absent
  deriving DecidableEq, Repr

def SettingsMove.run (store : SettingsStore) (move : SettingsMove) :
    Except SettingsError Bool × SettingsStore :=
  let (answer, store) :=
    move.call.run { store with file := { store.file with writeFault := move.writeFault } }
  match answer with
  | .error (.writing _ _) =>
    (answer, { store with file := { store.file with content := move.remains } })
  | _ => (answer, store)

/-- A store in the course of its calls. -/
structure SettingsRun where
  store : SettingsStore
  /-- No write failed since the file was last written or read. -/
  settled : Bool := true
  deriving DecidableEq, Repr

def SettingsRun.next (run : SettingsRun) (move : SettingsMove) : SettingsRun :=
  let (answer, store) := move.run run.store
  match answer with
  | .ok true => { store, settled := true }
  | .error (.writing _ _) => { store, settled := false }
  | _ => { store, settled := run.settled }

/-- Whether the file can be written has nothing to do with what is in it. -/
theorem SettingsStore.InStep.withFault {store : SettingsStore} (h : store.InStep)
    (writeFault : Option SystemError) :
    InStep { store with file := { store.file with writeFault } } := by
  unfold InStep ofFile at h ⊢
  cases hread : store.file.content.read with
  | ok text =>
    simp only [hread] at h ⊢
    exact h
  | error cause =>
    simp only [hread] at h ⊢
    cases cause <;> exact h

namespace SettingsRun

/-- One call keeps a settled run in step, and settles a run if it brings memory and file
together. -/
theorem inStep_next {run : SettingsRun} (h : run.settled = true → run.store.InStep)
    (move : SettingsMove) : (run.next move).settled = true → (run.next move).store.InStep := by
  have houtcome := move.call.outcome
    { run.store with file := { run.store.file with writeFault := move.writeFault } }
  unfold next SettingsMove.run
  generalize move.call.run _ = result at houtcome ⊢
  -- only a write that fails leaves memory and file apart, and then the run is not settled
  cases houtcome with
  | unchanged => exact fun hsettled => (h hsettled).withFault _
  | agreed hagreed => exact fun _ => hagreed
  | notWritten => exact nofun
  | @notRead error hother =>
    cases error with
    | writing path cause => exact absurd rfl (hother path cause)
    | _ => exact fun hsettled => (h hsettled).withFault _

/-- A run that ends settled has memory and file in step. -/
theorem inStep_run {run : SettingsRun} (h : run.settled = true → run.store.InStep)
    (moves : List SettingsMove) :
    (moves.foldl next run).settled = true → (moves.foldl next run).store.InStep := by
  induction moves generalizing run with
  | nil => exact h
  | cons move rest ih => exact ih (inStep_next h move)

/-- A call that succeeds settles the run if it wrote or read the file. -/
theorem next_of_ok {run : SettingsRun} {move : SettingsMove} {touched : Bool}
    (hok : (move.run run.store).1 = .ok touched) :
    run.next move =
      { store := (move.run run.store).2, settled := touched || run.settled } := by
  unfold next
  generalize move.run run.store = result at hok ⊢
  obtain ⟨answer, store⟩ := result
  obtain rfl : answer = .ok touched := hok
  cases touched <;> rfl

/-- After an answer without an error a store is in step with its file if the call wrote or read the
file, or if no write failed since that was last done. -/
theorem inStep_of_ok {file : SettingsFile} {store : SettingsStore}
    (hopen : SettingsStore.ofFile file = .ok store) (moves : List SettingsMove)
    (move : SettingsMove) {touched : Bool}
    (hok : (move.run (moves.foldl next { store }).store).1 = .ok touched)
    (hsettled : touched = true ∨ (moves.foldl next { store }).settled = true) :
    (move.run (moves.foldl next { store }).store).2.InStep := by
  have hopened : (SettingsRun.mk store true).settled = true → store.InStep :=
    fun _ => SettingsStore.inStep_of_ofFile hopen
  have hlast := inStep_next (inStep_run hopened moves) move
  rw [next_of_ok hok] at hlast
  exact hlast (Bool.or_eq_true _ _ ▸ hsettled)

/-- A store in a directory that is made only after the first call. -/
theorem inStep_of_ok_of_lateDirectory :
    let store : SettingsStore := { settings := {}, file := { path := "settings.json" } }
    let refused : SettingsMove := { call := .setShowSystem true, writeFault := some .notFound }
    let change : SettingsMove := { call := .setShowSystem false }
    (refused.run store).1 = .error (.writing "settings.json" .notFound) ∧
      (change.run (refused.run store).2).1 = .ok true ∧
      (change.run (refused.run store).2).2.InStep := by
  intro store refused change
  have hopen : SettingsStore.ofFile { path := "settings.json" } = .ok store := rfl
  exact ⟨rfl, rfl, inStep_of_ok hopen [refused] change rfl (.inl rfl)⟩

/-- A switch that could not be written is switched the same way once more: there is no error, and
yet a store that is opened then does not have it. -/
theorem not_inStep_of_sameChange :
    let file := SettingsDirectory.fileAt { path := "directory" } .missingDirectory
    let store : SettingsStore := { settings := {}, file }
    let switch : SettingsMove := { call := .setShowSystem true, writeFault := file.writeFault }
    SettingsStore.ofFile file = .ok store ∧
      (switch.run (switch.run store).2).1 = .ok false ∧
      ¬(switch.run (switch.run store).2).2.InStep :=
  ⟨rfl, rfl, by decide⟩

end SettingsRun

end PermissionUsage
