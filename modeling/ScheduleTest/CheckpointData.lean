import ScheduleTest.JobParts
import ScheduleTest.Resubmission

/-!
# The checkpoint data of the jobs

Where a job is read from a message (`Workload::job_from_json_object`), and where it is killed and submitted again
(`SchedulingDecision::handle_resubmission`). In a simulation that started from a checkpoint a job has data on what it did before. In
another one the pointer to this data is not set: the constructor of a job leaves it as it finds it. The `real_cpu` of the profile is
read of each job, whether the profile has one or not.
-/

namespace ScheduleTest

/-- `batsched_tools::checkpoint_job_data`. -/
structure CheckpointJobData where
  allocation : String := "null"
  progress : ℚ := -1
  state : ℤ := -1
  jitter : String := "null"
  runtime : ℚ := 0
  deriving DecidableEq

/-- A job in a message, with the `real_cpu` of its profile and the fields about what it did before a checkpoint of the simulation. -/
structure JobObject where
  job : SubmittedJob
  realCpu : Option ℚ
  allocation : Option String := none
  progress : Option ℚ := none
  state : Option ℤ := none
  jitter : Option String := none
  runtime : Option ℚ := none

/-- A job that batsched holds. The data is `none` where the pointer to it was not set. -/
structure HeldJob where
  job : SubmittedJob
  duration : ℚ
  checkpointJobData : Option CheckpointJobData

/-- Why batsched stops. -/
inductive CheckpointAbort where
  | missingField (jobId field : String)
  /-- A member that the profile does not have is read. -/
  | noRealCpu (jobId : String)
  | alreadyInWorkload (jobId : String)
  | unknownJob (jobId : String)
  | invalidId (jobId : String)
  /-- A pointer that was not set is read. -/
  | pointerNotSet (jobId : String)
  deriving DecidableEq

/-- A field that a job must have in a simulation that started from a checkpoint. -/
def requireField {α : Type} (jobId field : String) : Option α → Except CheckpointAbort α
  | some value => .ok value
  | none => .error (.missingField jobId field)

/-- The checkpoint data, where the simulation started from a checkpoint. -/
def readCheckpointJobData (startedFromCheckpoint : Bool) (jobId : String) (object : JobObject) :
    Except CheckpointAbort (Option CheckpointJobData) :=
  if startedFromCheckpoint then do
    let allocation ← requireField jobId "allocation" object.allocation
    let progress ← requireField jobId "progress" object.progress
    let state ← requireField jobId "state" object.state
    let jitter ← requireField jobId "jitter" object.jitter
    let runtime ← requireField jobId "runtime" object.runtime
    .ok (some { allocation := allocation, progress := progress, state := state, jitter := jitter, runtime := runtime })
  else .ok none

/-- `Workload::job_from_json_object`. -/
def jobFromJsonObject (startedFromCheckpoint : Bool) (jobId : String) (object : JobObject) : Except CheckpointAbort HeldJob := do
  let data ← readCheckpointJobData startedFromCheckpoint jobId object
  match object.realCpu with
  | some realCpu => .ok { job := object.job, duration := realCpu, checkpointJobData := data }
  | none => .error (.noRealCpu jobId)

namespace HeldJob

/-- Whether `handle_resubmission` comes to a read of the checkpoint data: the paths of `DELAY` and `PARALLEL_HOMOGENEOUS` read it, with
checkpointing and some progress. -/
def readsCheckpointData (o : ResubmissionOptions) (job : HeldJob) (progress : ℚ) : Bool :=
  (job.job.profile.type = .delay || job.job.profile.type = .parallelHomogeneous) && o.checkpointingOn && 0 < progress

/-- What is submitted again for a job, with the runtime of its checkpoint data. -/
def handleResubmission (o : ResubmissionOptions) (jobId : String) (job : HeldJob) (progress : ℚ) :
    Except CheckpointAbort SubmittedJob :=
  match SubmittedJob.handleResubmission o { job.job with runtime := job.checkpointJobData.map (·.runtime) } progress with
  | .ok next => .ok next
  | .error .noCheckpointJobData => .error (.pointerNotSet jobId)

end HeldJob

/-- What batsched holds: whether the simulation started from a checkpoint, its jobs, and the jobs it has submitted again, with their
ids. -/
structure CheckpointState where
  options : ResubmissionOptions
  startedFromCheckpoint : Bool
  workload : String → Option HeldJob := fun _ => none
  resubmissions : List (String × SubmittedJob) := []

/-- A job is submitted, at first or again, or it was killed, which is a turn of the loop in `handle_resubmission`. -/
inductive CheckpointEvent where
  | jobSubmitted (jobId : String) (object : JobObject)
  | jobKilled (jobId : String) (progress : ℚ)

namespace CheckpointState

/-- `SIMULATION_BEGINS`. -/
def simulationBegins (o : ResubmissionOptions) (startedFromCheckpoint : Bool) : CheckpointState where
  options := o
  startedFromCheckpoint := startedFromCheckpoint

/-- `Workload::add_job_from_json_object`. -/
def addJob (s : CheckpointState) (jobId : String) (object : JobObject) : Except CheckpointAbort CheckpointState :=
  (jobFromJsonObject s.startedFromCheckpoint jobId object).bind fun job =>
    match s.workload jobId with
    | some _ => .error (.alreadyInWorkload jobId)
    | none => .ok { s with workload := Function.update s.workload jobId (some job) }

/-- A job that was killed is submitted again under its next name. -/
def resubmit (s : CheckpointState) (jobId : String) (progress : ℚ) : Except CheckpointAbort CheckpointState :=
  match s.workload jobId, BatschedTools.separateId jobId with
  | some job, some separation => (job.handleResubmission s.options jobId progress).map fun next =>
      { s with resubmissions := s.resubmissions ++ [(separation.nextResubmitString, next)] }
  | none, _ => .error (.unknownJob jobId)
  | some _, none => .error (.invalidId jobId)

/-- What batsched does on a message. -/
def step (s : CheckpointState) : CheckpointEvent → Except CheckpointAbort CheckpointState
  | .jobSubmitted jobId object => s.addJob jobId object
  | .jobKilled jobId progress => s.resubmit jobId progress

end CheckpointState

end ScheduleTest
