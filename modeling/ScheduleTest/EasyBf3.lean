import ScheduleTest.Lib.HeapSort
import ScheduleTest.Lib.Execution
import ScheduleTest.Queue
import ScheduleTest.Platform

/-!
# EASY backfilling over a list of running jobs

What `easy_bf3.cpp` does. The scheduled jobs are kept in the order of their estimated ends. The first job of the queue that does
not fit is the priority job: it is to start at its shadow time, when enough scheduled jobs have ended. Jobs behind it are
backfilled if they end by then, or if they fit into what the priority job leaves at that time.
-/

namespace ScheduleTest

/-- The constants of a run. -/
structure EasyBf3Config where
  nbMachines : ℕ
  order : SortableJobOrder := FCFSOrder

/-- A job that runs (`Scheduled_Job`). -/
structure ScheduledJob where
  id : String
  requestedResources : ℕ
  wallTime : ℚ
  startTime : ℚ
  estFinishTime : ℚ
  allocatedMachines : IntervalSet
  deriving DecidableEq

/-- The priority job (`Priority_Job`). -/
structure PriorityJob where
  id : String := ""
  requestedResources : ℕ := 0
  extraResources : ℤ := 0
  shadowTime : ℚ := 0
  estFinishTime : ℚ := 0
  /-- A record that the source does not keep: how many machines the jobs backfilled past the shadow time take, since the extra
  resources were computed. No decision depends on it. -/
  extraUsed : ℕ := 0
  deriving DecidableEq

structure EasyBf3State where
  availableMachines : IntervalSet
  nbAvailableMachines : ℤ
  scheduledJobs : List ScheduledJob := []
  priorityJob : PriorityJob := {}
  queue : Queue := []
  workload : String → Option Job := fun _ => none
  jobsReleasedRecently : List Job := []
  jobsEndedRecently : List String := []
  backfillCounter : ℕ := 0
  decision : SchedulingDecision := {}

/-- A message of the simulator. The decisions are made at the date of the message, and the queue knows the date of its last
event. -/
inductive EasyBf3Event where
  | jobSubmitted (job : Job)
  | jobCompleted (id : String)
  | makeDecisions (date currentDate : ℚ)

namespace EasyBf3

/-- The state at the start of a simulation. -/
def new (c : EasyBf3Config) : EasyBf3State where
  availableMachines := Finset.range c.nbMachines
  nbAvailableMachines := c.nbMachines

/-- `sort_max_heap`. -/
def sortMaxHeap (jobs : List ScheduledJob) : List ScheduledJob := HeapSort.sortList (·.estFinishTime) jobs

/-- `handle_scheduled_job`: the job takes the leftmost machines. -/
def handleScheduledJob (s : EasyBf3State) (job : Job) (date : ℚ) : EasyBf3State × ScheduledJob :=
  let scheduled : ScheduledJob :=
    { id := job.id
      requestedResources := job.nbRequestedResources
      wallTime := job.walltime
      startTime := date
      estFinishTime := date + job.walltime
      allocatedMachines := s.availableMachines.leftmost job.nbRequestedResources }
  ({ s with
    scheduledJobs := s.scheduledJobs ++ [scheduled]
    availableMachines := s.availableMachines \ scheduled.allocatedMachines
    nbAvailableMachines := s.nbAvailableMachines - job.nbRequestedResources }, scheduled)

/-- `handle_finished_job`: a job that is not scheduled changes nothing. -/
def handleFinishedJob (s : EasyBf3State) (id : String) : EasyBf3State :=
  match s.scheduledJobs.find? (·.id = id) with
  | some scheduled => { s with
      availableMachines := s.availableMachines ∪ scheduled.allocatedMachines
      nbAvailableMachines := s.nbAvailableMachines + scheduled.requestedResources
      scheduledJobs := s.scheduledJobs.eraseP (·.id = id) }
  | none => s

/-- The first scheduled job at whose end the requested machines are free, and how many are free then. -/
def findShadow (requested : ℕ) (machineCount : ℤ) : List ScheduledJob → Option (ScheduledJob × ℤ)
  | [] => none
  | scheduled :: rest =>
    let machineCount := machineCount + scheduled.requestedResources
    if requested ≤ machineCount then some (scheduled, machineCount) else findShadow requested machineCount rest

/-- The job, with its request, becomes the priority job if it is another. -/
def PriorityJob.update (p : PriorityJob) (job : Job) : PriorityJob :=
  if p.id ≠ job.id then { p with id := job.id, requestedResources := job.nbRequestedResources } else p

/-- `check_priority_job`: schedule the job if it can run, and else compute when it will. -/
def checkPriorityJob (s : EasyBf3State) (job : Job) (date : ℚ) : EasyBf3State × Option ScheduledJob :=
  let p := PriorityJob.update s.priorityJob job
  let s := { s with priorityJob := p }
  if (p.requestedResources : ℤ) ≤ s.nbAvailableMachines then
    let (s, scheduled) := handleScheduledJob s job date
    ({ s with scheduledJobs := sortMaxHeap s.scheduledJobs }, some scheduled)
  else
    match findShadow p.requestedResources s.nbAvailableMachines s.scheduledJobs with
    | some (scheduled, machineCount) =>
      ({ s with priorityJob := { p with
          shadowTime := scheduled.estFinishTime
          estFinishTime := scheduled.estFinishTime + job.walltime
          extraResources := machineCount - job.nbRequestedResources
          extraUsed := 0 } }, none)
    | none => (s, none)

/-- Whether a job that starts now ends by the shadow time. -/
def endsByShadow (s : EasyBf3State) (job : Job) (date : ℚ) : Bool := date + job.walltime ≤ s.priorityJob.shadowTime

/-- Whether a job can be backfilled. -/
def canRunNext (s : EasyBf3State) (job : Job) (date : ℚ) : Bool :=
  if endsByShadow s job date then job.nbRequestedResources ≤ s.nbAvailableMachines
  else job.nbRequestedResources ≤ min s.nbAvailableMachines s.priorityJob.extraResources

/-- `check_next_job`: schedule the job if it can be backfilled. -/
def checkNextJob (s : EasyBf3State) (job : Job) (date : ℚ) : EasyBf3State × Option ScheduledJob :=
  if canRunNext s job date then
    let used := if endsByShadow s job date then 0 else job.nbRequestedResources
    let (s, scheduled) := handleScheduledJob s job date
    ({ s with
      scheduledJobs := sortMaxHeap s.scheduledJobs
      backfillCounter := s.backfillCounter + 1
      priorityJob := { s.priorityJob with extraUsed := s.priorityJob.extraUsed + used } }, some scheduled)
  else (s, none)

/-- Send the decision about a job that can run, and take it out of the queue. -/
def executeJob (s : EasyBf3State) (job : Job) (scheduled : ScheduledJob) : Except Abort EasyBf3State :=
  (s.queue.removeJob job).map fun queue => { s with
    queue := queue
    decision := s.decision.add (.executeJob job.id scheduled.allocatedMachines) }

/-- Whether a job is rejected: it requests more machines than there are, or has no walltime. -/
def isRejected (c : EasyBf3Config) (job : Job) : Bool := c.nbMachines < job.nbRequestedResources || !job.hasWalltime

/-- A job released waits unless it is rejected. -/
def releaseJob (c : EasyBf3Config) (currentDate : ℚ) (s : EasyBf3State) (job : Job) : EasyBf3State :=
  if isRejected c job then { s with decision := s.decision.add (.rejectJob job.id) }
  else { s with queue := s.queue.appendJob job currentDate }

/-- The loop that executes the first job of the queue as long as it can run. -/
def executePriorityJobs (date : ℚ) (s : EasyBf3State) : List Job → Except Abort EasyBf3State
  | [] => .ok s
  | job :: rest =>
    match checkPriorityJob s job date with
    | (s', some scheduled) =>
      match executeJob s' job scheduled with
      | .ok s'' => executePriorityJobs date s'' rest
      | .error e => .error e
    | (s', none) => .ok s'

/-- `sort_queue_while_handling_priority_job`. -/
def sortQueueWhileHandlingPriorityJob (c : EasyBf3Config) (s : EasyBf3State) (priorityJobBefore : Option Job)
    (currentDate : ℚ) : Except Abort EasyBf3State :=
  let queue := s.queue.sortQueue c.order currentDate
  if queue.firstJob? ≠ priorityJobBefore then executePriorityJobs currentDate { s with queue := queue } queue.jobs
  else .ok { s with queue := queue }

/-- The jobs that ended give their machines back, and the jobs released are queued. -/
def handleJobs (c : EasyBf3Config) (s : EasyBf3State) (currentDate : ℚ) : EasyBf3State :=
  s.jobsReleasedRecently.foldl (releaseJob c currentDate) (s.jobsEndedRecently.foldl handleFinishedJob s)

/-- `make_decisions` up to the backfilling. -/
def prepare (c : EasyBf3Config) (s : EasyBf3State) (currentDate : ℚ) : Except Abort EasyBf3State :=
  sortQueueWhileHandlingPriorityJob c (handleJobs c s currentDate) s.queue.firstJob? currentDate

/-- Try to backfill a job that was just released, if machines are available and it waits behind the priority job. -/
def backfillReleased (date : ℚ) (priorityJobAfter : Option Job) (s : EasyBf3State) (job : Job) : Except Abort EasyBf3State :=
  if 0 < s.nbAvailableMachines ∧ s.queue.containsJob job ∧ some job ≠ priorityJobAfter then
    match checkNextJob s job date with
    | (s', some scheduled) => executeJob s' job scheduled
    | (s', none) => .ok s'
  else .ok s

/-- Try to execute a job of the queue, if machines are available: as the priority job, or by backfilling. The priority job is
part of the state of the loop. -/
def traverseJob (date : ℚ) (t : EasyBf3State × Option Job) (job : Job) : Except Abort (EasyBf3State × Option Job) :=
  let (s, priorityJobAfter) := t
  if 0 < s.nbAvailableMachines then
    match if some job = priorityJobAfter then checkPriorityJob s job date else checkNextJob s job date with
    | (s', some scheduled) => (executeJob s' job scheduled).map fun s'' =>
      (s'', if some job = priorityJobAfter then s''.queue.firstJob? else priorityJobAfter)
    | (s', none) => .ok (s', priorityJobAfter)
  else .ok t

/-- The jobs released in this step that wait. -/
def recentlyQueuedJobs (c : EasyBf3Config) (s : EasyBf3State) : List Job :=
  s.jobsReleasedRecently.filter (!isRejected c ·)

/-- `make_decisions`: if no job has ended, only the jobs just released are tried, and else the whole queue. -/
def makeDecisions (c : EasyBf3Config) (s : EasyBf3State) (date currentDate : ℚ) : Except Abort EasyBf3State :=
  match prepare c s currentDate with
  | .ok s' =>
    if s.jobsEndedRecently.isEmpty then
      Execution.runFrom (backfillReleased date s'.queue.firstJob?) s' (recentlyQueuedJobs c s)
    else (Execution.runFrom (traverseJob date) (s', s'.queue.firstJob?) s'.queue.jobs).map (·.1)
  | .error e => .error e

/-- What the scheduler does on a message. -/
def step (c : EasyBf3Config) (s : EasyBf3State) : EasyBf3Event → Except Abort EasyBf3State
  | .jobSubmitted job =>
    match s.workload job.id with
    | some _ => .error (.alreadyInWorkload job.id)
    | none => .ok { s with
        workload := Function.update s.workload job.id (some job)
        jobsReleasedRecently := s.jobsReleasedRecently ++ [job] }
  | .jobCompleted id =>
    match s.workload id with
    | some _ => .ok { s with jobsEndedRecently := s.jobsEndedRecently ++ [id] }
    | none => .error (.unknownJob id)
  | .makeDecisions date currentDate =>
    (makeDecisions c { s with decision := s.decision.clear } date currentDate).map fun s' =>
      { s' with jobsReleasedRecently := [], jobsEndedRecently := [] }

/-- What an event tells about the jobs. -/
def notice : EasyBf3Event → Notice
  | .jobSubmitted job => .submitted job
  | .jobCompleted id => .completed id
  | .makeDecisions date _ => .decided date

/-- The scheduler as far as its jobs go. -/
def scheduler (c : EasyBf3Config) : JobScheduler EasyBf3State EasyBf3Event where
  step := step c
  decisions := (·.decision.decisions)
  notice := notice

end EasyBf3

end ScheduleTest
