import ScheduleTest.Job
import ScheduleTest.Lib.Double
import ScheduleTest.Lib.Execution
import Mathlib.Algebra.Order.Floor.Ring
import Mathlib.Data.Rat.Floor

/-!
# How a workload is loaded

`Job::from_json` (`jobs.cpp`) reads a job, and changes the profile that the job refers to: the performance factor multiplies its
delay, and with checkpointing the time of the dumps is added. The profiles are those of the workload, which jobs share. The options
that alter a workload (`workload.cpp`) read its jobs again, from the descriptions that the jobs keep, and make copies of jobs that
have profiles of their own.
-/

namespace ScheduleTest

structure LoadOptions where
  performanceFactor : ℚ := 1
  checkpointingOn : Bool := false
  computeCheckpointing : Bool := false
  computeCheckpointingError : ℚ := 1
  globalCheckpointingInterval : ℚ := -1
  MTBF : ℚ := -1
  SMTBF : ℚ := -1
  numMachines : ℕ := 1
  /-- How much of `cpu` takes one second. -/
  speed : ℚ := 1
  /-- The square root of the standard library. -/
  sqrt : ℚ → ℚ := id
  /-- What an operation on doubles makes of its exact result. -/
  round : ℚ → ℚ := Double.nearest

/-- The options with exact arithmetic. -/
def LoadOptions.exact (o : LoadOptions) : LoadOptions := { o with round := id }

inductive LoadAbort where
  | noSuchProfile (profile : String)
  | noMTBF
  | checkpointIntervalNegative (job : String)
  | duplicatedJob (job : String)
  | noSuchJob (job : String)
  | profileExists (profile : String)
  | badAmount (profile : String)
  deriving DecidableEq

/-- The description of a job, as far as its checkpoints go. -/
structure JobDescription where
  id : String
  profile : String
  res : ℕ := 1
  purpose : String := "job"
  checkpointInterval : Option ℚ := none
  dumptime : Option ℚ := none
  readtime : Option ℚ := none
  deriving DecidableEq

/-- A job that was submitted again has a `#` in its name. -/
def JobDescription.isResubmission (d : JobDescription) : Bool := d.id.toList.contains '#'

structure CheckpointTimes where
  checkpointInterval : ℚ := -1
  dumpTime : ℚ := -1
  readTime : ℚ := -1
  deriving DecidableEq

/-- A job, with the description it keeps. -/
structure LoadedJob where
  description : JobDescription
  times : CheckpointTimes := {}
  deriving DecidableEq

inductive ProfileType where
  | delay | parallelHomogeneous | other
  deriving DecidableEq

/-- The description of a profile. The amount is the field `delay` or `cpu`, of which there may be two more, named `real_` and
`original_`. -/
structure ProfileDescription where
  type : ProfileType
  amount : ℚ
  real : Option ℚ := none
  original : Option ℚ := none
  deriving DecidableEq

/-- A profile, with the description it keeps. -/
structure Profile where
  description : ProfileDescription
  amount : ℚ
  realAmount : ℚ
  originalAmount : ℚ
  deriving DecidableEq

namespace Profile

/-- A profile with the fields of a description. -/
def ofDescription (d : ProfileDescription) : Profile where
  description := d
  amount := d.amount
  realAmount := d.real.getD 0
  originalAmount := d.original.getD (-1)

/-- `Profile::from_json`. -/
def fromJson (name : String) (d : ProfileDescription) : Except LoadAbort Profile :=
  if d.type = .delay ∧ d.amount ≤ 0 ∨ d.type = .parallelHomogeneous ∧ d.amount < 0 then .error (.badAmount name)
  else .ok (ofDescription d)

end Profile

/-! ## `Job::from_json` -/

section

variable (o : LoadOptions)

/-- The performance factor times an amount or a time. -/
def scaled (x : ℚ) : ℚ := if o.performanceFactor ≠ 1 then o.round (o.performanceFactor * x) else x

/-- The optimal interval between checkpoints. -/
def computedInterval (d : JobDescription) (dumpTime : ℚ) : Except LoadAbort ℚ :=
  if o.MTBF = -1 ∧ o.SMTBF = -1 then .error .noMTBF
  else
    let between := if o.SMTBF ≠ -1 then o.round (o.round (o.numMachines * o.SMTBF) / d.res) else o.MTBF
    let interval := o.round (o.round (o.computeCheckpointingError * o.sqrt (o.round (o.round (dumpTime * 2) * between))) - dumpTime)
    if interval ≤ 0 then .error (.checkpointIntervalNegative d.id) else .ok interval

/-- The times in a description. -/
def timesInFile (d : JobDescription) : CheckpointTimes where
  checkpointInterval := d.checkpointInterval.getD (-1)
  dumpTime := d.dumptime.getD (-1)
  readTime := d.readtime.getD (-1)

/-- The times of a job, with checkpointing. Those of a resubmission are not changed. -/
def checkpointTimes (d : JobDescription) : Except LoadAbort CheckpointTimes :=
  if d.isResubmission then .ok (timesInFile d)
  else
    let dumpTime := scaled o (timesInFile d).dumpTime
    let readTime := scaled o (timesInFile d).readTime
    match if o.computeCheckpointing then computedInterval o d dumpTime else .ok (timesInFile d).checkpointInterval with
    | .error e => .error e
    | .ok interval => .ok {
        checkpointInterval :=
          if o.globalCheckpointingInterval ≠ -1 then o.round (o.globalCheckpointingInterval - dumpTime) else interval
        dumpTime := dumpTime
        readTime := readTime }

/-- How many checkpoints a job makes in a delay that has so many intervals: none at its very end (`fmod` is exact). -/
def nbCheckpoints (checkpointInterval delay intervals : ℚ) : ℤ :=
  ⌊intervals⌋ - if ⌊delay / checkpointInterval⌋ * checkpointInterval = delay then 1 else 0

/-- A delay that has so many intervals, with the time of the dumps in it. -/
def withDumps (t : CheckpointTimes) (delay intervals : ℚ) : ℚ :=
  if 0 < ⌊intervals⌋ then o.round (o.round (o.round (nbCheckpoints t.checkpointInterval delay intervals) * t.dumpTime) + delay)
  else delay

/-- A second has ten intervals of a tenth, as the doubles are divided: less than ten of them fit, for a tenth is rounded up. -/
example : ⌊Double.nearest (1 / Double.nearest (1 / 10))⌋ = 10 ∧ ⌊1 / Double.nearest (1 / 10)⌋ = 9 := by decide +kernel

/-- The time that the amount of a profile takes. -/
def timeOf : ProfileType → ℚ → ℚ
  | .parallelHomogeneous, cpu => o.round (cpu / o.speed)
  | _, delay => delay

/-- The amount of a profile that takes some time. -/
def amountOf : ProfileType → ℚ → ℚ
  | .parallelHomogeneous, delay => o.round (delay * o.speed)
  | _, delay => delay

namespace Profile

/-- The performance factor. -/
def scale (p : Profile) : Profile :=
  if o.performanceFactor ≠ 1 then { p with
    amount := scaled o p.amount
    description := { p.description with amount := scaled o p.amount } }
  else p

/-- The dumps are added, and what there was before is kept: in the description, where `AddMember` does not replace a field. -/
def addDumps (type : ProfileType) (t : CheckpointTimes) (p : Profile) : Profile :=
  if p.originalAmount = -1 then
    let delay := timeOf o type p.amount
    let amount := amountOf o type (withDumps o t delay (o.round (delay / t.checkpointInterval)))
    { p with
      amount := amount
      realAmount := p.amount
      description := { p.description with
        amount := amount
        original := p.description.original <|> some p.amount } }
  else p

/-- What reading a job does to its profile: nothing, for a resubmission. -/
def edit (type : ProfileType) (d : JobDescription) (t : CheckpointTimes) (p : Profile) : Profile :=
  if d.isResubmission then p
  else if o.checkpointingOn then (p.scale o).addDumps o type t
  else p.scale o

/-- The part of `Job::from_json` for `DELAY`. -/
def editDelay (d : JobDescription) (t : CheckpointTimes) (p : Profile) : Profile := p.edit o .delay d t

/-- The part of `Job::from_json` for `PARALLEL_HOMOGENEOUS`. -/
def editParallelHomogeneous (d : JobDescription) (t : CheckpointTimes) (p : Profile) : Profile := p.edit o .parallelHomogeneous d t

end Profile

/-- The description that a job keeps. -/
def keptDescription (d : JobDescription) (t : CheckpointTimes) : JobDescription :=
  if o.checkpointingOn then { d with
    checkpointInterval := if d.isResubmission then d.checkpointInterval else some t.checkpointInterval
    dumptime := d.dumptime.map fun _ => t.dumpTime
    readtime := d.readtime.map fun _ => t.readTime }
  else d

/-- The times that a job with a profile of some type gets. -/
def timesOf (type : ProfileType) (d : JobDescription) : Except LoadAbort CheckpointTimes :=
  if o.checkpointingOn ∧ type ≠ .other then checkpointTimes o d else .ok {}

/-- `Job::from_json`: the job, and its profile as it is then. -/
def fromJson (profiles : String → Option Profile) (d : JobDescription) : Except LoadAbort (Profile × LoadedJob) :=
  match profiles d.profile with
  | none => .error (.noSuchProfile d.profile)
  | some p =>
    (timesOf o p.description.type d).map fun t =>
      match p.description.type with
      | .delay => (p.editDelay o d t, { description := keptDescription o d t, times := t })
      | .parallelHomogeneous => (p.editParallelHomogeneous o d t, { description := keptDescription o d t, times := t })
      | .other => (p, { description := d })

end

/-! ## Loading and altering a workload -/

/-- The vectors of jobs: those of the workload, and those that `alter_workload` works on. -/
inductive JobVector where
  | jobs | oldJobs | newJobs
  deriving DecidableEq

structure LoadedWorkload where
  profiles : String → Option Profile
  jobs : JobVector → String → Option LoadedJob := fun _ _ => none

inductive LoadEvent where
  /-- `Jobs::load_from_json`, for a job of the file. -/
  | load (d : JobDescription)
  /-- `get_jobs_as_copied_vector`, for a job: into another vector than the one it is read from. -/
  | readAgain (id : String) (source target : JobVector) (ne : source ≠ target)
  /-- `set_jobs`, for a job. -/
  | setJob (id : String) (source : JobVector)
  /-- `copyComponents` and `extend`, for a job that has been read again. -/
  | extend (id newId : String)

namespace LoadedWorkload

variable (o : LoadOptions)

/-- A job is read into a vector. -/
def read (w : LoadedWorkload) (target : JobVector) (d : JobDescription) : Except LoadAbort LoadedWorkload :=
  (fromJson o w.profiles d).map fun result => {
    profiles := Function.update w.profiles d.profile (some result.1)
    jobs := Function.update w.jobs target (Function.update (w.jobs target) d.id (some result.2)) }

/-- A job that has been read again becomes another one, with the profile that the description of its profile describes. -/
def extend (w : LoadedWorkload) (id : String) (job : LoadedJob) (newId : String) : Except LoadAbort LoadedWorkload :=
  match w.profiles job.description.profile with
  | none => .error (.noSuchProfile job.description.profile)
  | some p =>
    match Profile.fromJson newId p.description with
    | .error e => .error e
    | .ok p' =>
      if (w.jobs .jobs newId).isSome then .error (.duplicatedJob newId)
      else if (w.profiles newId).isSome then .error (.profileExists newId)
      else .ok {
        profiles := Function.update w.profiles newId (some p')
        jobs := Function.update (Function.update w.jobs .newJobs (Function.update (w.jobs .newJobs) id none)) .jobs
          (Function.update (w.jobs .jobs) newId
            (some { job with description := { job.description with id := newId, profile := newId } })) }

def step (w : LoadedWorkload) : LoadEvent → Except LoadAbort LoadedWorkload
  | .load d => if (w.jobs .jobs d.id).isSome then .error (.duplicatedJob d.id) else w.read o .jobs d
  | .readAgain id source target _ =>
    match w.jobs source id with
    | none => .error (.noSuchJob id)
    | some job => if job.description.purpose = "reservation" then .ok w else w.read o target job.description
  | .setJob id source =>
    match w.jobs source id with
    | none => .error (.noSuchJob id)
    | some job => .ok { w with jobs := Function.update w.jobs .jobs (Function.update (w.jobs .jobs) id (some job)) }
  | .extend id newId =>
    match w.jobs .newJobs id with
    | none => .error (.noSuchJob id)
    | some job => w.extend id job newId

end LoadedWorkload

end ScheduleTest
