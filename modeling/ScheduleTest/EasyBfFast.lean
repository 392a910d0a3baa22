import ScheduleTest.EasyBf3

/-!
# EASY backfilling, without failures

What `easy_bf_fast.cpp` does. The first job that does not fit is the priority job. The date at which enough machines are free for it
is computed once, from the dates at which the running jobs end by, and kept in its completion time. Another job is executed before it
if it ends by that date.
-/

namespace ScheduleTest

/-- A date at which machines become free (`FinishedHorizonPoint`). The id stands for the iterator that the allocation keeps. -/
structure FinishedHorizonPoint where
  date : ℚ
  nbReleasedMachines : ℕ
  id : String
  deriving DecidableEq

/-- The state of the scheduler. The priority job comes with the date computed for it. -/
structure EasyBFFastState where
  availableMachines : IntervalSet
  nbAvailableMachines : ℤ
  pendingJobs : List Job := []
  currentAllocations : KeyedMap (fun id : String => id) IntervalSet := KeyedMap.empty
  horizons : List FinishedHorizonPoint := []
  priorityJob : Option (Job × ℚ) := none
  workload : String → Option Job := fun _ => none
  jobsReleasedRecently : List Job := []
  jobsEndedRecently : List String := []
  decision : SchedulingDecision := {}

namespace EasyBFFast

/-- `on_simulation_start`. -/
def new (nbMachines : ℕ) : EasyBFFastState where
  availableMachines := Finset.range nbMachines
  nbAvailableMachines := nbMachines

/-- `insert_horizon_point`: behind the points that are not later. -/
def insertHorizonPoint (point : FinishedHorizonPoint) : List FinishedHorizonPoint → List FinishedHorizonPoint
  | [] => [point]
  | p :: rest => if point.date < p.date then point :: p :: rest else p :: insertHorizonPoint point rest

/-- The loop of `compute_priority_job_expected_earliest_starting_time`. -/
def expectedEarliestStart (job : Job) (nbAvailable : ℤ) : List FinishedHorizonPoint → Except Abort ℚ
  | [] => .error (.neverExecutable job.id)
  | p :: rest =>
    let nbAvailable := nbAvailable + p.nbReleasedMachines
    if job.nbRequestedResources ≤ nbAvailable then .ok p.date else expectedEarliestStart job nbAvailable rest

/-- A job becomes the priority job. -/
def setPriorityJob (s : EasyBFFastState) (job : Job) : Except Abort EasyBFFastState :=
  (expectedEarliestStart job s.nbAvailableMachines s.horizons).map fun date => { s with priorityJob := some (job, date) }

/-- A job that fits takes the leftmost machines. -/
def execute (date : ℚ) (s : EasyBFFastState) (job : Job) : EasyBFFastState :=
  let machines := s.availableMachines.leftmost job.nbRequestedResources
  { s with
    decision := s.decision.add (.executeJob job.id machines)
    horizons := insertHorizonPoint
      { date := date + job.walltime, nbReleasedMachines := job.nbRequestedResources, id := job.id } s.horizons
    availableMachines := s.availableMachines \ machines
    nbAvailableMachines := s.nbAvailableMachines - job.nbRequestedResources
    currentAllocations := s.currentAllocations.insert job.id machines }

/-- A job has ended, and gives its machines back. -/
def finishJob (s : EasyBFFastState) (id : String) : Except Abort EasyBFFastState :=
  match s.workload id, s.currentAllocations.find? id with
  | some job, some machines => .ok { s with
      availableMachines := s.availableMachines ∪ machines
      nbAvailableMachines := s.nbAvailableMachines + job.nbRequestedResources
      horizons := s.horizons.filter (·.id ≠ id)
      currentAllocations := s.currentAllocations.erase id }
  | some _, none => .error .nullPointer
  | none, _ => .error (.unknownJob id)

/-- The pending jobs are executed from the front, up to the first that does not fit, which becomes the priority job. -/
def executePending (date : ℚ) (s : EasyBFFastState) : List Job → Except Abort EasyBFFastState
  | [] => .ok { s with pendingJobs := [] }
  | job :: rest =>
    if job.nbRequestedResources ≤ s.nbAvailableMachines then executePending date (execute date s job) rest
    else setPriorityJob { s with pendingJobs := rest } job

/-- The backfill loop over the pending jobs, with those before (nearest first). It stops when no machine is available. -/
def backfill (date : ℚ) (s : EasyBFFastState) (before : List Job) : List Job → Except Abort EasyBFFastState
  | [] => .ok { s with pendingJobs := before.reverse }
  | job :: rest =>
    if job.nbRequestedResources ≤ s.nbAvailableMachines then
      match s.priorityJob with
      | none => .error .nullPointer
      | some (_, completionTime) =>
        if date + job.walltime ≤ completionTime then
          let s := execute date s job
          if s.nbAvailableMachines ≤ 0 then .ok { s with pendingJobs := before.reverse ++ rest }
          else backfill date s before rest
        else backfill date s (job :: before) rest
    else backfill date s (job :: before) rest

/-- The priority job and the pending jobs are executed from the front, if it fits. -/
def executeFront (date : ℚ) (s : EasyBFFastState) (job : Job) : Except Abort EasyBFFastState :=
  if job.nbRequestedResources ≤ s.nbAvailableMachines then
    executePending date { execute date s job with priorityJob := none } s.pendingJobs
  else .ok s

/-- What follows when jobs have ended: jobs are executed from the front, and others are backfilled where machines are left. -/
def executeJobs (date : ℚ) (s : EasyBFFastState) : Except Abort EasyBFFastState :=
  match s.priorityJob with
  | none => .ok s
  | some (job, _) => executeFront date s job >>= fun s' =>
    if 0 < s'.nbAvailableMachines then backfill date s' [] s'.pendingJobs else .ok s'

/-- Whether a job that is executed now does not hinder the priority job. -/
def mayPrecede (date : ℚ) (s : EasyBFFastState) (job : Job) : Bool :=
  match s.priorityJob with
  | none => true
  | some (_, completionTime) => date + job.walltime ≤ completionTime

/-- A job has been released. -/
def releaseJob (nbMachines : ℕ) (date : ℚ) (s : EasyBFFastState) (job : Job) : Except Abort EasyBFFastState :=
  if job.nbRequestedResources ≤ s.nbAvailableMachines then
    if mayPrecede date s job then .ok (execute date s job) else .ok { s with pendingJobs := s.pendingJobs ++ [job] }
  else if nbMachines < job.nbRequestedResources then .ok { s with decision := s.decision.add (.rejectJob job.id) }
  else match s.priorityJob with
    | none => setPriorityJob s job
    | some _ => .ok { s with pendingJobs := s.pendingJobs ++ [job] }

/-- `make_decisions`. -/
def makeDecisions (nbMachines : ℕ) (s : EasyBFFastState) (date : ℚ) : Except Abort EasyBFFastState :=
  Execution.runFrom finishJob s s.jobsEndedRecently >>= fun s₁ =>
    (if s₁.jobsEndedRecently.isEmpty then .ok s₁ else executeJobs date s₁) >>= fun s₂ =>
      Execution.runFrom (releaseJob nbMachines date) s₂ s₂.jobsReleasedRecently

/-- What the scheduler does on a message. -/
def step (nbMachines : ℕ) (s : EasyBFFastState) : EasyBf3Event → Except Abort EasyBFFastState
  | .jobSubmitted job =>
    match s.workload job.id with
    | some _ => .error (.alreadyInWorkload job.id)
    | none => .ok { s with
        workload := Function.update s.workload job.id (some job)
        jobsReleasedRecently := s.jobsReleasedRecently ++ [job] }
  | .jobCompleted id =>
    match s.workload id with
    | some _ => .ok { s with jobsEndedRecently := s.jobsEndedRecently ++ [id] }
    | none => .error (.unknownJob id)
  | .makeDecisions date _ =>
    (makeDecisions nbMachines { s with decision := s.decision.clear } date).map fun s' => { s' with
      jobsReleasedRecently := []
      jobsEndedRecently := [] }

/-- The scheduler as far as its jobs go. -/
def scheduler (nbMachines : ℕ) : JobScheduler EasyBFFastState EasyBf3Event where
  step := step nbMachines
  decisions := (·.decision.decisions)
  notice
    | .jobSubmitted job => .submitted job
    | .jobCompleted id => .completed id
    | .makeDecisions date _ => .decided date

end EasyBFFast

end ScheduleTest
