import ScheduleTest.Lib.Text
import ScheduleTest.Loading

/-!
# How a killed job is submitted again

`handle_resubmission` (`decision.cpp`) takes the descriptions of a job that was killed and of its profile, and submits the job again
under the next name. With checkpointing the profile gets shorter by what the checkpoints have saved, and the metadata of the job
notes how many there were. Once for `DELAY`, where the amount of the profile is a time, and once for `PARALLEL_HOMOGENEOUS`, where it
is a number of instructions.
-/

namespace ScheduleTest

/-- What is read of the metadata of a job. -/
structure Metadata where
  checkpointed : Option Bool := none
  numDumps : Option ℤ := none
  workProgress : Option ℚ := none
  deriving DecidableEq

/-- What batsched is told at the start, and what becomes of doubles. -/
structure ResubmissionOptions where
  checkpointingOn : Bool := true
  subtractProgressFromWalltime : Bool := false
  hostSpeed : ℚ := 1
  rjmsDelay : ℚ := 0
  /-- What an operation on doubles makes of its exact result. -/
  round : ℚ → ℚ := Double.nearest
  /-- What is read of a double in the description of a job that is submitted: Batsim prints it with six decimals. -/
  told : ℚ → ℚ := fun x => Double.nearest (Text.fixedValue 6 x)
  /-- What is read of a double in the metadata of a job, which are a text. -/
  noted : ℚ → ℚ := id

/-- The options with exact arithmetic. -/
def ResubmissionOptions.exact (o : ResubmissionOptions) : ResubmissionOptions := { o with
  round := id
  told := id
  noted := id }

/-- Why nothing is submitted again. -/
inductive ResubmissionAbort where
  /-- `checkpoint_job_data` is read, and has not been set. -/
  | noCheckpointJobData
  deriving DecidableEq

/-- A job that has been submitted, with the description of its profile. -/
structure SubmittedJob where
  profile : ProfileDescription
  times : CheckpointTimes
  /-- The fields `walltime` and `original_walltime` of the description. -/
  walltime : Option ℚ := none
  originalWalltime : Option ℚ := none
  /-- The runtime in `checkpoint_job_data`, which is set only where the simulation was started from a checkpoint. -/
  runtime : Option ℚ := none
  metadata : Option Metadata := none
  deriving DecidableEq

namespace SubmittedJob

variable (o : ResubmissionOptions)

/-- A job that Batsim has read, with its profile, as it is submitted. -/
def ofLoaded (p : Profile) (t : CheckpointTimes) (walltime runtime : Option ℚ) : SubmittedJob where
  profile := { p.description with
    amount := o.told p.description.amount
    original := p.description.original.map o.told }
  times := {
    checkpointInterval := o.told t.checkpointInterval
    dumpTime := o.told t.dumpTime
    readTime := o.told t.readTime }
  walltime := walltime.map o.told
  runtime := runtime

/-- `Job::walltime`, to which the delay of the resource manager has been added: a `Rational`. -/
def jobWalltime (job : SubmittedJob) : ℚ := job.walltime.getD (-1) + o.rjmsDelay

/-- How long it takes from one checkpoint to the next. -/
def period (job : SubmittedJob) : ℚ := o.round (job.times.checkpointInterval + job.times.dumpTime)

/-- Whether the job has made a checkpoint before this run. -/
def hasCheckpointed (job : SubmittedJob) : Bool := (job.metadata.bind (·.checkpointed)).getD false

/-- The time of a run in which some part of the job was done, with the time it ran before the simulation was started. -/
def progressTime (job : SubmittedJob) (runtime progress : ℚ) : ℚ :=
  match job.profile.type with
  | .parallelHomogeneous => o.round (o.round (o.round (progress * job.profile.amount) / o.hostSpeed) + runtime)
  | _ => o.round (o.round (progress * job.profile.amount) + runtime)

/-- How many times as long as from one checkpoint to the next a run has lasted: one that goes on from a checkpoint reads it first. -/
def periods (job : SubmittedJob) (runtime progress : ℚ) : ℚ :=
  if job.hasCheckpointed then o.round (o.round (job.progressTime o runtime progress - job.times.readTime) / job.period o)
  else o.round (job.progressTime o runtime progress / job.period o)

/-- The checkpoints completed in a run. -/
def numCheckpointsCompleted (job : SubmittedJob) (runtime progress : ℚ) : ℤ := ⌊job.periods o runtime progress⌋

/-- The time up to the last of some checkpoints of a run. -/
def savedTime (job : SubmittedJob) (n : ℤ) : ℚ :=
  if job.hasCheckpointed then o.round (o.round (n * job.period o) + job.times.readTime) else o.round (n * job.period o)

/-- The metadata after some checkpoints in a run. The work is noted in the unit of the profile; `AddMember` does not replace what is
there. -/
def noteCheckpoints (job : SubmittedJob) (inUnit : ℚ → ℚ) (n : ℤ) : Option Metadata :=
  let saved := o.round (n * job.times.checkpointInterval)
  if job.hasCheckpointed then job.metadata.map fun m => { m with
    workProgress := match m.workProgress with
      | some work => some (o.noted (inUnit (if 0 < n then o.round (work + saved) else work)))
      | none => if 0 < n then some (o.noted (inUnit saved)) else none
    numDumps := match m.numDumps with
      | some dumps => some (if 0 < n then dumps + n else dumps)
      | none => if 0 < n then some n else none }
  else if 0 < n then
    let m := job.metadata.getD {}
    some {
      checkpointed := m.checkpointed <|> some true
      numDumps := m.numDumps <|> some n
      workProgress := some (o.noted (m.workProgress.getD (inUnit saved))) }
  else job.metadata

/-- The walltime in the description, less what the checkpoints of a run have saved if it is to be subtracted. -/
def reducedWalltime (job : SubmittedJob) (n : ℤ) (walltime : Option ℚ) : Option ℚ :=
  if 0 < n ∧ 0 < job.jobWalltime o ∧ o.subtractProgressFromWalltime then
    walltime.map fun _ => o.told (o.round (o.round (job.jobWalltime o) - o.round (o.round (n * job.period o) - job.times.readTime)))
  else walltime

/-- A delay after some checkpoints of a run, with the time to read the last one. -/
def delayAfter (job : SubmittedJob) (n : ℤ) (delay : ℚ) : ℚ := o.round (o.round (delay - job.savedTime o n) + job.times.readTime)

/-- What `get_meta_data_from_delay` makes of a job that has completed some checkpoints. -/
def afterDelay (job : SubmittedJob) (n : ℤ) : SubmittedJob := { job with
  metadata := job.noteCheckpoints o id n
  walltime := job.reducedWalltime o n job.walltime
  profile := { job.profile with
    amount := if 0 < n then o.told (job.delayAfter o n job.profile.amount) else job.profile.amount } }

/-- The field `cpu` of a profile that has an `original_cpu`. -/
def originalAmount (job : SubmittedJob) : ℚ :=
  if job.profile.original.getD (-1) ≠ -1 then job.profile.original.getD (-1) else job.profile.amount

/-- The field `walltime` of a job that has an `original_walltime`. A field that is not there is not set. -/
def walltimeBefore (job : SubmittedJob) : Option ℚ :=
  if job.originalWalltime.getD (-1) ≠ -1 then job.walltime.map fun _ => job.originalWalltime.getD (-1) else job.walltime

/-- What `get_meta_data_from_parallel_homogeneous` makes of a job that has completed some checkpoints. -/
def afterParallelHomogeneous (job : SubmittedJob) (n : ℤ) : SubmittedJob :=
  let oneSecond := o.hostSpeed
  { job with
    metadata := job.noteCheckpoints o (fun work => o.round (work * oneSecond)) n
    walltime := job.reducedWalltime o n job.walltimeBefore
    profile := { job.profile with
      amount :=
        if 0 < n then o.told (o.round (job.delayAfter o n (o.round (job.originalAmount / oneSecond)) * oneSecond))
        else job.originalAmount } }

/-- The runtime in the record, where there is one. -/
def recordedRuntime (job : SubmittedJob) : Except ResubmissionAbort ℚ :=
  match job.runtime with
  | some runtime => .ok runtime
  | none => .error .noCheckpointJobData

/-- `get_meta_data_from_delay`, for a job that was killed when some part of it was done. -/
def getMetaDataFromDelay (job : SubmittedJob) (progress : ℚ) : Except ResubmissionAbort SubmittedJob :=
  if o.checkpointingOn then
    if 0 < progress then
      job.recordedRuntime.map fun runtime => job.afterDelay o (job.numCheckpointsCompleted o runtime progress)
    else .ok job
  else .ok job

/-- `get_meta_data_from_parallel_homogeneous`, for a job that was killed when some part of it was done. -/
def getMetaDataFromParallelHomogeneous (job : SubmittedJob) (progress : ℚ) : Except ResubmissionAbort SubmittedJob :=
  if o.checkpointingOn then
    if 0 < progress then
      job.recordedRuntime.map fun runtime => job.afterParallelHomogeneous o (job.numCheckpointsCompleted o runtime progress)
    else .ok job
  else .ok { job with
    walltime := job.walltimeBefore
    profile := { job.profile with amount := job.originalAmount } }

/-- `handle_resubmission`, for one job: what is submitted again. Batsim changes neither the profile nor the times of a job that is
submitted again (`Profile.edit`, `checkpointTimes`). -/
def handleResubmission (job : SubmittedJob) (progress : ℚ) : Except ResubmissionAbort SubmittedJob :=
  match job.profile.type with
  | .delay => job.getMetaDataFromDelay o progress
  | .parallelHomogeneous => job.getMetaDataFromParallelHomogeneous o progress
  | .other => .ok job

/-- A job that is killed and submitted again, time after time. -/
def resubmitted (job : SubmittedJob) (progresses : List ℚ) : Except ResubmissionAbort SubmittedJob :=
  Execution.runFrom (handleResubmission o) job progresses

theorem recordedRuntime_eq_ok {job : SubmittedJob} {runtime : ℚ} : job.recordedRuntime = .ok runtime ↔ job.runtime = some runtime := by
  unfold recordedRuntime
  cases job.runtime with
  | none => exact ⟨fun h => (nomatch h), fun h => nomatch h⟩
  | some runtime' => exact ⟨fun h => congrArg some (Except.ok.inj h), fun h => congrArg Except.ok (Option.some.inj h)⟩

/-- A kill of a delay goes through if a record is there to be read; what comes out is a delay. -/
theorem handleResubmission_delay {o : ResubmissionOptions} {job next : SubmittedJob} {progress : ℚ} (htype : job.profile.type = .delay) :
    job.handleResubmission o progress = .ok next ↔
      if o.checkpointingOn = true ∧ 0 < progress then
        ∃ runtime ∈ job.runtime, job.afterDelay o (job.numCheckpointsCompleted o runtime progress) = next
      else job = next := by
  unfold handleResubmission
  rw [htype]
  dsimp only
  unfold getMetaDataFromDelay
  by_cases hon : o.checkpointingOn = true
  · by_cases hpos : 0 < progress
    · rw [if_pos hon, if_pos hpos, if_pos ⟨hon, hpos⟩, Execution.map_eq_ok]
      simp only [recordedRuntime_eq_ok, Option.mem_def]
    · rw [if_pos hon, if_neg hpos, if_neg fun h => hpos h.2]
      exact ⟨Except.ok.inj, congrArg Except.ok⟩
  · rw [if_neg hon, if_neg fun h => hon h.1]
    exact ⟨Except.ok.inj, congrArg Except.ok⟩

/-- A kill of a job in instructions. -/
theorem handleResubmission_parallelHomogeneous {o : ResubmissionOptions} {job next : SubmittedJob} {progress : ℚ}
    (htype : job.profile.type = .parallelHomogeneous) :
    job.handleResubmission o progress = .ok next ↔
      if o.checkpointingOn = true then
        if 0 < progress then
          ∃ runtime ∈ job.runtime, job.afterParallelHomogeneous o (job.numCheckpointsCompleted o runtime progress) = next
        else job = next
      else { job with walltime := job.walltimeBefore, profile := { job.profile with amount := job.originalAmount } } = next := by
  unfold handleResubmission
  rw [htype]
  dsimp only
  unfold getMetaDataFromParallelHomogeneous
  split
  · split
    · rw [Execution.map_eq_ok]
      simp only [recordedRuntime_eq_ok, Option.mem_def]
    · exact ⟨Except.ok.inj, congrArg Except.ok⟩
  · exact ⟨Except.ok.inj, congrArg Except.ok⟩

/-- A kill aborts exactly where the record is read and has not been set. -/
theorem handleResubmission_error {o : ResubmissionOptions} {job : SubmittedJob} {progress : ℚ} :
    job.handleResubmission o progress = .error .noCheckpointJobData ↔
      ((job.profile.type = .delay ∨ job.profile.type = .parallelHomogeneous) ∧ o.checkpointingOn = true ∧ 0 < progress) ∧
        job.runtime = none := by
  have hread : ∀ f : ℚ → SubmittedJob, job.recordedRuntime.map f = .error .noCheckpointJobData ↔ job.runtime = none := by
    intro f
    unfold recordedRuntime
    cases job.runtime with
    | none => exact ⟨fun _ => rfl, fun _ => rfl⟩
    | some runtime => exact ⟨fun h => (nomatch h), fun h => nomatch h⟩
  unfold handleResubmission
  cases htype : job.profile.type with
  | delay =>
    dsimp only
    unfold getMetaDataFromDelay
    split
    · rename_i hon
      split
      · rename_i hpos
        simp [hread, hon, hpos]
      · rename_i hpos
        simp [hpos]
    · rename_i hon
      simp [hon]
  | parallelHomogeneous =>
    dsimp only
    unfold getMetaDataFromParallelHomogeneous
    split
    · rename_i hon
      split
      · rename_i hpos
        simp [hread, hon, hpos]
      · rename_i hpos
        simp [hpos]
    · rename_i hon
      simp [hon]
  | other => simp

/-- Whether a run completes a checkpoint: it has lasted as long as an interval and a dump. -/
def CompletesCheckpoint (job : SubmittedJob) (runtime progress : ℚ) : Prop := 1 ≤ job.periods o runtime progress

/-- A run completes a checkpoint if and only if the code counts one. -/
theorem completesCheckpoint_iff {o : ResubmissionOptions} {job : SubmittedJob} {runtime progress : ℚ} :
    job.CompletesCheckpoint o runtime progress ↔ 0 < job.numCheckpointsCompleted o runtime progress := by
  unfold CompletesCheckpoint numCheckpointsCompleted
  rw [Int.lt_iff_add_one_le, zero_add, Int.le_floor, Int.cast_one]

end SubmittedJob

end ScheduleTest
