import ScheduleTest.FastScheduler
import ScheduleTest.Lib.Execution

/-!
# EASY backfilling

`easy_bf_fast2.cpp`. The first job that does not fit is the priority job: the date at which it can start at the latest is computed
from the list of the dates at which the running jobs end by, and other jobs are executed before it only if they end by that date.
Most handlers are those of `fcfs_fast2.cpp`.
-/

namespace ScheduleTest

/-- A date at which machines become free (`FinishedHorizonPoint`). The job stands for the iterator kept in its allocation. -/
structure HorizonPoint where
  date : ℚ
  nbReleasedMachines : ℕ
  machines : IntervalSet
  id : String

/-- The state of the scheduler. The priority job comes with the date computed for it (`completion_time`). -/
structure EasyState extends FastState where
  priorityJob : Option (Job × ℚ) := none
  horizons : List HorizonPoint := []

namespace EasyBFFast2

/-- `insert_horizon_point`: behind the points that are not later. -/
def insertHorizonPoint (point : HorizonPoint) : List HorizonPoint → List HorizonPoint
  | [] => [point]
  | p :: rest => if point.date < p.date then point :: p :: rest else p :: insertHorizonPoint point rest

/-- The loop of `compute_priority_job_expected_earliest_starting_time` over the points, with the machines available by then. A
machine that is shared becomes available with the last of its cores. -/
def earliestStart (c : FastConfig) (job : Job) (core : IntervalSet) (cores : ℕ → ℤ) (nbAvailable : ℤ) :
    List HorizonPoint → Except Abort ℚ
  | [] => .error (.neverExecutable job.id)
  | p :: rest =>
    if c.sharePacking ∧ p.nbReleasedMachines = 1 then
      if job.nbRequestedResources = 1 then .ok p.date
      else match firstMachine? p.machines with
        | none => .error .emptyIntervalSet
        | some machine =>
          if machine ∈ core then
            let freed := cores machine + 1
            let nbAvailable' := if freed = c.coreLimit machine then nbAvailable + 1 else nbAvailable
            if (job.nbRequestedResources : ℤ) ≤ nbAvailable' then .ok p.date
            else earliestStart c job core (Function.update cores machine freed) nbAvailable' rest
          else .error .nullPointer
    else
      let nbAvailable' := nbAvailable + p.nbReleasedMachines
      if (job.nbRequestedResources : ℤ) ≤ nbAvailable' then .ok p.date
      else earliestStart c job core cores nbAvailable' rest

/-- A job becomes the priority job. -/
def setPriorityJob (c : FastConfig) (s : EasyState) (job : Job) : Except Abort EasyState :=
  (earliestStart c job s.availableCoreMachines s.coresAvailable s.nbAvailableMachines s.horizons).map
    fun date => { s with priorityJob := some (job, date) }

/-- Execute a job if it fits, and note when it ends by. -/
def tryExecute (c : FastConfig) (s : EasyState) (job : Job) (date : ℚ) : Except Abort (Option EasyState) :=
  match s.toFastState.tryExecute c job with
  | .ok (some t) => .ok (some { s with
      toFastState := t
      horizons := insertHorizonPoint
        { date := date + job.walltime
          nbReleasedMachines := job.nbRequestedResources
          machines := (t.currentAllocations.find? job).getD ∅
          id := job.id } s.horizons })
  | .ok none => .ok none
  | .error e => .error e

/-- A job has ended (`handle_newly_finished_jobs`). A job with machines of its own gives all of them back. -/
def finishJob (c : FastConfig) (s : EasyState) (job : Job) : Except Abort EasyState :=
  match s.currentAllocations.find? job with
  | none => .error .nullPointer
  | some machines =>
    let horizons := s.horizons.filter (·.id ≠ job.id)
    if c.shares job then (s.toFastState.finishOnCore c job).map fun t => { s with toFastState := t, horizons := horizons }
    else .ok { s with
      availableMachines := s.availableMachines ∪ machines
      nbAvailableMachines := s.nbAvailableMachines + job.nbRequestedResources
      currentAllocations := s.currentAllocations.erase job
      runningJobs := s.runningJobs.erase job.id
      myKillJobs := s.myKillJobs.erase job.id
      horizons := horizons }

/-- The priority job is executed if it fits. Only a job that shares a machine is added to the running jobs. -/
def executePriorityJob (c : FastConfig) (s : EasyState) (job : Job) (date : ℚ) : Except Abort (Option EasyState) :=
  (tryExecute c s job date).map fun executed => executed.map fun s' => { s' with
    runningJobs := if c.shares job then s'.runningJobs else s.runningJobs
    priorityJob := none }

/-- After the priority job has been executed, the pending jobs are executed from the front, up to the first that does not fit,
which becomes the priority job. -/
def executePending (c : FastConfig) (date : ℚ) (s : EasyState) : List Job → Except Abort EasyState
  | [] => .ok s
  | job :: rest =>
    match tryExecute c s job date with
    | .ok (some s') => executePending c date { s' with pendingJobs := rest } rest
    | .ok none => setPriorityJob c { s with pendingJobs := rest } job
    | .error e => .error e

/-- Whether a job may be executed now without delaying the priority job. -/
def mayPrecede (s : EasyState) (job : Job) (date : ℚ) : Bool :=
  match s.priorityJob with
  | some (_, completionTime) => date + job.walltime ≤ completionTime
  | none => true

/-- The backfill loop over the pending jobs, from an iterator with the jobs before it (nearest first) and those from it on. -/
def backfill (c : FastConfig) (date : ℚ) (s : EasyState) (before : List Job) : List Job → Except Abort EasyState
  | [] => .ok s
  | job :: rest =>
    if mayPrecede s job date then
      match tryExecute c s job date with
      | .ok (some s') => backfill c date { s' with pendingJobs := before.reverse ++ rest } before rest
      | .ok none => backfill c date s (job :: before) rest
      | .error e => .error e
    else backfill c date s (job :: before) rest

/-- `handle_ended_job_execution`. -/
def handleEndedJobExecution (c : FastConfig) (s : EasyState) (jobEnded : Bool) (date : ℚ) : Except Abort EasyState :=
  match (if jobEnded then s.priorityJob else none) with
  | none => .ok s
  | some (job, _) =>
    match executePriorityJob c s job date with
    | .ok (some s') =>
      match executePending c date s' s'.pendingJobs with
      | .ok s'' => backfill c date s'' [] s''.pendingJobs
      | .error e => .error e
    | .ok none => backfill c date s [] s.pendingJobs
    | .error e => .error e

/-- A released job that is not executed waits: as the priority job, at the front where it was killed before, or at the end. -/
def enqueue (c : FastConfig) (s : EasyState) (job : Job) : Except Abort EasyState :=
  match s.priorityJob with
  | none => setPriorityJob c s job
  | some _ =>
    if '#' ∈ job.id.toList then .ok { s with pendingJobs := job :: s.pendingJobs }
    else .ok { s with pendingJobs := s.pendingJobs ++ [job] }

/-- A job has been submitted (`handle_newly_released_jobs`). -/
def releaseJob (c : FastConfig) (date : ℚ) (s : EasyState) (job : Job) : Except Abort EasyState :=
  if c.nbMachines < job.nbRequestedResources then .ok { s with decision := s.decision.add (.rejectJob job.id) }
  else if mayPrecede s job date then
    match tryExecute c s job date with
    | .ok (some s') => .ok s'
    | .ok none => enqueue c s job
    | .error e => .error e
  else enqueue c s job

/-- `make_decisions` up to the loop over the released jobs. -/
def endAndExecute (c : FastConfig) (s : EasyState) (date : ℚ) : Except Abort EasyState :=
  match Execution.runFrom (finishJob c) s s.jobsEndedRecently with
  | .ok s' =>
    let killed := s'.toFastState.handleNewJobsToKill
    handleEndedJobExecution c
      { s' with toFastState := { killed with decision := killed.decision.handleResubmission killed.jobsKilledRecently } }
      (!s.jobsEndedRecently.isEmpty) date
  | .error e => .error e

/-- `make_decisions`. -/
def makeDecisions (c : FastConfig) (s : EasyState) (date : ℚ) : Except Abort EasyState :=
  match endAndExecute c s date with
  | .ok s' => (Execution.runFrom (releaseJob c date) s' s'.jobsReleasedRecently).map
      fun t => { t with toFastState := t.toFastState.sendFinishedSubmittingJobs date }
  | .error e => .error e

/-- What the scheduler does on a message. -/
def step (c : FastConfig) (s : EasyState) (event : FastEvent) : Except Abort EasyState :=
  match event with
  | .makeDecisions date => (makeDecisions c { s with decision := s.decision.clear } date).map
      fun t => { t with toFastState := t.toFastState.clearRecentDataStructures }
  | event => (s.toFastState.step c (fun t _ => .ok t) event).map fun t => { s with toFastState := t }

/-- The state at the start of a simulation. -/
def new (c : FastConfig) (date failure : ℚ) : EasyState := { toFastState := FastState.new c date failure }

/-- The scheduler as far as its jobs go. -/
def scheduler (c : FastConfig) : JobScheduler EasyState FastEvent where
  step := step c
  decisions := fun s => s.decision.decisions
  notice := FastEvent.notice

end EasyBFFast2

end ScheduleTest
