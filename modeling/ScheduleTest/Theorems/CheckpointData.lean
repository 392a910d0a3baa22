import ScheduleTest.CheckpointData
import ScheduleTest.Lib.Execution

/-!
# Checkpoint data is read where it was not set

Each job of a simulation that started from a checkpoint has its data, for a job without the fields is refused. In another simulation no
job has any. But the paths of a resubmission ask for checkpointing and progress only, so they read it for the first job with a delay
or with instructions that is killed after it has done something.
-/

namespace ScheduleTest

open Execution CheckpointState

/-- A message that reads no checkpoint data: no job that batsched holds, under an id that can be taken apart, was killed with
checkpointing, with some progress and with one of the two kinds of profiles. -/
def ReadsNoData (s : CheckpointState) : CheckpointEvent → Prop
  | .jobSubmitted _ _ => True
  | .jobKilled jobId progress => ∀ job, s.workload jobId = some job → BatschedTools.separateId jobId ≠ none →
    job.readsCheckpointData s.options progress = false

namespace CheckpointDataAux

variable {s s' : CheckpointState} {jobId : String} {object : JobObject} {job : HeldJob} {progress : ℚ} {event : CheckpointEvent}

/-- A job has its data exactly when the simulation started from a checkpoint. -/
def DataAsStarted (s : CheckpointState) : Prop :=
  ∀ jobId job, s.workload jobId = some job → job.checkpointJobData.isSome = s.startedFromCheckpoint

/-- A required field is there, and what is done with it goes through. -/
theorem requireField_bind {α β : Type} {field : String} {value : Option α} {f : α → Except CheckpointAbort β} {b : β}
    (h : requireField jobId field value >>= f = .ok b) : ∃ a, value = some a ∧ f a = .ok b := by
  cases value with
  | none => cases h
  | some a => exact ⟨a, rfl, h⟩

/-- Or a field is missing. -/
theorem requireField_bind_error {α β : Type} {field : String} {value : Option α} {f : α → Except CheckpointAbort β}
    {e : CheckpointAbort} (h : requireField jobId field value >>= f = .error e) :
    e = .missingField jobId field ∨ ∃ a, f a = .error e := by
  cases value with
  | none => exact .inl (Except.error.inj h).symm
  | some a => exact .inr ⟨a, h⟩

/-- What is read of the checkpoint data of a job. -/
theorem readCheckpointJobData_ok {started : Bool} {data : Option CheckpointJobData}
    (h : readCheckpointJobData started jobId object = .ok data) : data.isSome = started := by
  unfold readCheckpointJobData at h
  split at h
  · rename_i hstarted
    obtain ⟨allocation, _, h⟩ := requireField_bind h
    obtain ⟨progress, _, h⟩ := requireField_bind h
    obtain ⟨state, _, h⟩ := requireField_bind h
    obtain ⟨jitter, _, h⟩ := requireField_bind h
    obtain ⟨runtime, _, h⟩ := requireField_bind h
    rw [← Except.ok.inj h, hstarted]
    rfl
  · rename_i hstarted
    rw [← Except.ok.inj h, Bool.eq_false_iff.2 hstarted]
    rfl

/-- Data that cannot be read lacks a field. -/
theorem readCheckpointJobData_error {started : Bool} {e : CheckpointAbort}
    (h : readCheckpointJobData started jobId object = .error e) : ∃ field, e = .missingField jobId field := by
  unfold readCheckpointJobData at h
  split at h
  · rcases requireField_bind_error h with he | ⟨allocation, h⟩
    · exact ⟨_, he⟩
    rcases requireField_bind_error h with he | ⟨progress, h⟩
    · exact ⟨_, he⟩
    rcases requireField_bind_error h with he | ⟨state, h⟩
    · exact ⟨_, he⟩
    rcases requireField_bind_error h with he | ⟨jitter, h⟩
    · exact ⟨_, he⟩
    rcases requireField_bind_error h with he | ⟨runtime, h⟩
    · exact ⟨_, he⟩
    cases h
  · cases h

/-- What is read of a job that is submitted. -/
theorem jobFromJsonObject_ok {started : Bool} (h : jobFromJsonObject started jobId object = .ok job) :
    job.checkpointJobData.isSome = started := by
  obtain ⟨data, hdata, h⟩ := bind_eq_ok.1 h
  split at h
  · rw [← Except.ok.inj h]
    exact readCheckpointJobData_ok hdata
  · cases h

/-- A job that cannot be read lacks a field, or its profile does. -/
theorem jobFromJsonObject_error {started : Bool} {e : CheckpointAbort} (h : jobFromJsonObject started jobId object = .error e) :
    (∃ field, e = .missingField jobId field) ∨ e = .noRealCpu jobId := by
  rcases bind_eq_error.1 h with h | ⟨data, _, h⟩
  · exact .inl (readCheckpointJobData_error h)
  · split at h
    · cases h
    · exact .inr (Except.error.inj h).symm

/-- A job that is submitted has its data exactly when the simulation started from a checkpoint. -/
theorem DataAsStarted.addJob (h : DataAsStarted s) (hx : s.addJob jobId object = .ok s') :
    DataAsStarted s' ∧ s'.startedFromCheckpoint = s.startedFromCheckpoint := by
  unfold CheckpointState.addJob at hx
  cases hread : jobFromJsonObject s.startedFromCheckpoint jobId object with
  | error e =>
    rw [hread] at hx
    cases hx
  | ok job =>
    rw [hread] at hx
    dsimp only [Except.bind] at hx
    split at hx
    · cases hx
    · cases hx
      refine ⟨fun id held hheld => ?_, rfl⟩
      dsimp only at hheld
      rcases eq_or_ne id jobId with rfl | hne
      · rw [Function.update_self] at hheld
        rw [← Option.some.inj hheld]
        exact jobFromJsonObject_ok hread
      · rw [Function.update_of_ne hne] at hheld
        exact h id held hheld

theorem DataAsStarted.step (h : DataAsStarted s) (hx : CheckpointState.step s event = .ok s') :
    DataAsStarted s' ∧ s'.startedFromCheckpoint = s.startedFromCheckpoint := by
  cases event with
  | jobSubmitted jobId object => exact h.addJob hx
  | jobKilled jobId progress =>
    unfold CheckpointState.step CheckpointState.resubmit at hx
    dsimp only at hx
    split at hx
    · obtain ⟨next, _, rfl⟩ := map_eq_ok.1 hx
      exact ⟨h, rfl⟩
    · cases hx
    · cases hx

/-- A resubmission reads a pointer that was not set exactly when it reads data that the job has not. -/
theorem handleResubmission_error {o : ResubmissionOptions} {e : CheckpointAbort} :
    job.handleResubmission o jobId progress = .error e ↔
      job.readsCheckpointData o progress = true ∧ job.checkpointJobData = none ∧ e = .pointerNotSet jobId := by
  have hreads : SubmittedJob.handleResubmission o { job.job with runtime := job.checkpointJobData.map (·.runtime) } progress =
      .error .noCheckpointJobData ↔ _ := SubmittedJob.handleResubmission_error
  rw [Option.map_eq_none_iff] at hreads
  unfold HeldJob.handleResubmission
  split
  · rename_i next hnext
    rw [hnext] at hreads
    constructor
    · intro h
      cases h
    · rintro ⟨hread, hnone, _⟩
      have hno := hreads.2 ⟨by simpa [HeldJob.readsCheckpointData, and_assoc] using hread, hnone⟩
      cases hno
  · rename_i hnone
    obtain ⟨hread, hdata⟩ := hreads.1 hnone
    have hread : job.readsCheckpointData o progress = true := by simpa [HeldJob.readsCheckpointData, and_assoc] using hread
    exact ⟨fun h => ⟨hread, hdata, (Except.error.inj h).symm⟩, fun h => by rw [h.2.2]⟩

/-- What a message aborts with is no read, unless it reads data in a simulation that did not start from a checkpoint. -/
theorem step_error {id : String} (h : DataAsStarted s) (hx : CheckpointState.step s event = .error (.pointerNotSet id)) :
    s.startedFromCheckpoint = false ∧ ¬ ReadsNoData s event := by
  cases event with
  | jobSubmitted jobId object =>
    unfold CheckpointState.step CheckpointState.addJob at hx
    dsimp only at hx
    cases hread : jobFromJsonObject s.startedFromCheckpoint jobId object with
    | error e =>
      rw [hread] at hx
      rcases jobFromJsonObject_error hread with ⟨field, rfl⟩ | rfl <;> cases hx
    | ok job =>
      rw [hread] at hx
      dsimp only [Except.bind] at hx
      split at hx <;> cases hx
  | jobKilled jobId progress =>
    unfold CheckpointState.step CheckpointState.resubmit at hx
    dsimp only at hx
    split at hx
    · rename_i job separation hjob hid
      obtain ⟨hreads, hnone, _⟩ := handleResubmission_error.1 (map_eq_error.1 hx)
      have hdata := h jobId job hjob
      rw [hnone, Option.isSome_none] at hdata
      refine ⟨hdata.symm, fun hno => ?_⟩
      have hnot := hno job hjob (by rw [hid]; exact Option.some_ne_none separation)
      rw [hreads] at hnot
      cases hnot
    · cases hx
    · cases hx

/-- A message that reads data in a simulation that did not start from a checkpoint reads a pointer that was not set. -/
theorem step_reads (h : DataAsStarted s) (hstarted : s.startedFromCheckpoint = false) (hreads : ¬ ReadsNoData s event) :
    ∃ id, CheckpointState.step s event = .error (.pointerNotSet id) := by
  cases event with
  | jobSubmitted jobId object => exact absurd trivial hreads
  | jobKilled jobId progress =>
    unfold ReadsNoData at hreads
    push Not at hreads
    obtain ⟨job, hjob, hid, hreads⟩ := hreads
    obtain ⟨separation, hseparation⟩ := Option.ne_none_iff_exists'.1 hid
    have hnone : job.checkpointJobData = none := by
      have hdata := h jobId job hjob
      rw [hstarted] at hdata
      simpa using hdata
    have herror : job.handleResubmission s.options jobId progress = .error (.pointerNotSet jobId) :=
      handleResubmission_error.2 ⟨by simpa using hreads, hnone, rfl⟩
    refine ⟨jobId, ?_⟩
    unfold CheckpointState.step CheckpointState.resubmit
    dsimp only
    rw [hjob, hseparation]
    dsimp only
    rw [herror]
    rfl

end CheckpointDataAux

open CheckpointDataAux in
/-- A run never reads checkpoint data that was not created exactly when the simulation started from a checkpoint, or none of its
messages reads any. -/
theorem checkpoint_data_read_iff (o : ResubmissionOptions) (startedFromCheckpoint : Bool) (events : List CheckpointEvent) :
    (∀ id, runFrom CheckpointState.step (simulationBegins o startedFromCheckpoint) events ≠ .error (.pointerNotSet id)) ↔
      startedFromCheckpoint = true ∨
        AllSteps CheckpointState.step ReadsNoData (simulationBegins o startedFromCheckpoint) events := by
  have hbegins : DataAsStarted (simulationBegins o startedFromCheckpoint) := fun jobId job hjob => by cases hjob
  constructor
  · intro h
    cases startedFromCheckpoint with
    | true => exact .inl rfl
    | false =>
      refine .inr (allSteps_of_no_abort (I := fun s => DataAsStarted s ∧ s.startedFromCheckpoint = false)
        (P := fun e => ∃ id, e = .pointerNotSet id) (fun s event s' hs _ hx => ?_) (fun s event hs hreads => ?_) ⟨hbegins, rfl⟩
        fun e he hid => ?_)
      · obtain ⟨hdata, hstarted⟩ := hs.1.step hx
        exact ⟨hdata, hstarted.trans hs.2⟩
      · obtain ⟨id, herror⟩ := step_reads hs.1 hs.2 hreads
        exact ⟨_, herror, id, rfl⟩
      · obtain ⟨id, rfl⟩ := hid
        exact h id he
  · intro h id herror
    rcases h with hstarted | hall
    · refine runFrom_error (I := fun s => DataAsStarted s ∧ s.startedFromCheckpoint = true) (C := fun _ _ => True)
        (P := fun e => ∀ id, e ≠ .pointerNotSet id) (fun s event s' hs _ hx => ?_) (fun s event e hs _ hx id he => ?_)
        ⟨hbegins, hstarted⟩ (allSteps_of_forall fun _ _ => trivial) herror id rfl
      · obtain ⟨hdata, hstarted⟩ := hs.1.step hx
        exact ⟨hdata, hstarted.trans hs.2⟩
      · rw [he] at hx
        have hnot := (step_error hs.1 hx).1
        rw [hs.2] at hnot
        cases hnot
    · refine runFrom_error (I := DataAsStarted) (C := ReadsNoData) (P := fun e => ∀ id, e ≠ .pointerNotSet id)
        (fun s event s' hs _ hx => (hs.step hx).1) (fun s event e hs hno hx id he => ?_) hbegins hall herror id rfl
      rw [he] at hx
      exact (step_error hs hx).2 hno

namespace CheckpointDataWitness

/-- A job with a delay is submitted, and killed when half of it is done. -/
def events : List CheckpointEvent :=
  [.jobSubmitted "w!1" { job := { profile := { type := .delay, amount := 10 }, times := {} }, realCpu := some 10 },
    .jobKilled "w!1" (1 / 2)]

end CheckpointDataWitness

open CheckpointDataWitness in
/-- With checkpointing, the job has no data to read. -/
theorem checkpoint_data_read_false :
    ¬ ∀ (o : ResubmissionOptions) (startedFromCheckpoint : Bool) (events : List CheckpointEvent) (id : String),
      runFrom CheckpointState.step (simulationBegins o startedFromCheckpoint) events ≠ .error (.pointerNotSet id) := by
  intro h
  have hread : abortOf (runFrom CheckpointState.step (simulationBegins {} false) events) = some (.pointerNotSet "w!1") := by
    decide +kernel
  exact h {} false events "w!1" (abortOf_eq_some.1 hread)

end ScheduleTest
