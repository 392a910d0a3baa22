import ScheduleTest.EasyBf3
import ScheduleTest.Schedule

/-!
# EASY backfilling on a schedule

`easy_bf.cpp`. The schedule holds the jobs that run and the first job of the queue, placed where it fits first. A job behind it is
backfilled by placing it as well, and taking it out again unless it starts at once. The messages are those of `easy_bf3.cpp`.
-/

namespace ScheduleTest

structure EasyBfConfig where
  nbMachines : ℕ
  order : SortableJobOrder := FCFSOrder

structure EasyBfState where
  schedule : Schedule
  queue : Queue := []
  workload : String → Option Job := fun _ => none
  jobsReleasedRecently : List Job := []
  jobsEndedRecently : List Job := []
  decision : SchedulingDecision := {}

namespace EasyBf

/-- `on_simulation_start`. -/
def new (c : EasyBfConfig) (date : ℚ) : EasyBfState where
  schedule := Schedule.new c.nbMachines date

/-- A job that has been placed in a schedule where it starts at once is executed, and leaves the queue. -/
def executeJob (s : EasyBfState) (schedule : Schedule) (job : Job) (alloc : JobAlloc) : Except Abort EasyBfState :=
  (s.queue.removeJob job).map fun queue => { s with
    schedule := schedule
    queue := queue
    decision := s.decision.add (.executeJob job.id alloc.usedMachines) }

/-- Whether a job is rejected: it requests more machines than there are, or has no walltime. -/
def isRejected (c : EasyBfConfig) (job : Job) : Bool := c.nbMachines < job.nbRequestedResources || !job.hasWalltime

/-- A job released waits unless it is rejected. -/
def releaseJob (c : EasyBfConfig) (currentDate : ℚ) (s : EasyBfState) (job : Job) : EasyBfState :=
  if isRejected c job then { s with decision := s.decision.add (.rejectJob job.id) }
  else { s with queue := s.queue.appendJob job currentDate }

/-- The loop that executes the first job of the queue as long as it can start at once. One that cannot stays in the schedule. -/
def executePriorityJobs (s : EasyBfState) : List Job → Except Abort EasyBfState
  | [] => .ok s
  | job :: rest =>
    match s.schedule.addJobFirstFit job with
    | .ok (schedule, alloc) =>
      if alloc.startedInFirstSlice then
        match executeJob s schedule job alloc with
        | .ok s' => executePriorityJobs s' rest
        | .error e => .error e
      else .ok { s with schedule := schedule }
    | .error e => .error e

/-- `remove_job_if_exists`, for a job there may be. -/
def removeBefore (schedule : Schedule) : Option Job → Except Abort Schedule
  | none => .ok schedule
  | some job => (schedule.removeJobIfExists job).map (·.1)

/-- `sort_queue_while_handling_priority_job`. -/
def sortQueueWhileHandlingPriorityJob (c : EasyBfConfig) (s : EasyBfState) (priorityJobBefore : Option Job) (currentDate : ℚ) :
    Except Abort EasyBfState :=
  let queue := s.queue.sortQueue c.order currentDate
  if queue.firstJob? ≠ priorityJobBefore then
    match removeBefore s.schedule priorityJobBefore with
    | .ok schedule => executePriorityJobs { s with schedule := schedule, queue := queue } queue.jobs
    | .error e => .error e
  else .ok { s with queue := queue }

/-- The jobs that ended leave the schedule, and the jobs released are queued. -/
def handleJobs (c : EasyBfConfig) (s : EasyBfState) (currentDate : ℚ) : Except Abort EasyBfState :=
  (Execution.runFrom Schedule.removeJob s.schedule s.jobsEndedRecently).map fun schedule =>
    s.jobsReleasedRecently.foldl (releaseJob c currentDate) { s with schedule := schedule }

/-- `make_decisions` up to the backfilling. -/
def prepare (c : EasyBfConfig) (s : EasyBfState) (date currentDate : ℚ) : Except Abort EasyBfState :=
  match handleJobs c s currentDate with
  | .ok t =>
    match t.schedule.updateFirstSlice date with
    | .ok schedule => sortQueueWhileHandlingPriorityJob c { t with schedule := schedule } s.queue.firstJob? currentDate
    | .error e => .error e
  | .error e => .error e

/-- How many machines are available now. -/
def nbAvailableMachines (s : EasyBfState) : ℤ := ((s.schedule.profile.head?.map TimeSlice.availableMachines).getD ∅).card

/-- Try to backfill a job that was just released, if enough machines are available and it waits behind the priority job. Beside the
state is how many machines are available. -/
def backfillReleased (priorityJobAfter : Option Job) (t : EasyBfState × ℤ) (job : Job) : Except Abort (EasyBfState × ℤ) :=
  let (s, nbAvailable) := t
  if 0 < nbAvailable ∧ s.queue.containsJob job ∧ some job ≠ priorityJobAfter ∧ (job.nbRequestedResources : ℤ) ≤ nbAvailable then
    match s.schedule.addJobFirstFit job with
    | .ok (schedule, alloc) =>
      if alloc.startedInFirstSlice then
        (executeJob s schedule job alloc).map fun s' => (s', nbAvailable - job.nbRequestedResources)
      else (schedule.removeJob job).map fun schedule => ({ s with schedule := schedule }, nbAvailable)
    | .error e => .error e
  else .ok t

/-- Try to execute a job of the queue: one that does not start at once only stays in the schedule if it is the priority job, which
is beside the state. -/
def traverseJob (t : EasyBfState × Option Job) (job : Job) : Except Abort (EasyBfState × Option Job) :=
  let (s, priorityJobAfter) := t
  match if s.schedule.containsJob job then s.schedule.removeJob job else .ok s.schedule with
  | .ok without =>
    match without.addJobFirstFit job with
    | .ok (schedule, alloc) =>
      if alloc.startedInFirstSlice then
        (executeJob s schedule job alloc).map fun s' =>
          (s', if some job = priorityJobAfter then s'.queue.firstJob? else priorityJobAfter)
      else if some job = priorityJobAfter then .ok ({ s with schedule := schedule }, priorityJobAfter)
      else (schedule.removeJob job).map fun schedule => ({ s with schedule := schedule }, priorityJobAfter)
    | .error e => .error e
  | .error e => .error e

/-- The jobs released in this step that wait. -/
def recentlyQueuedJobs (c : EasyBfConfig) (s : EasyBfState) : List Job := s.jobsReleasedRecently.filter (!isRejected c ·)

/-- `make_decisions`: if no job has ended, only the jobs just released are tried, and else, where machines are available, the whole
queue. -/
def makeDecisions (c : EasyBfConfig) (s : EasyBfState) (date currentDate : ℚ) : Except Abort EasyBfState :=
  match prepare c s date currentDate with
  | .ok s' =>
    if s.jobsEndedRecently.isEmpty then
      (Execution.runFrom (backfillReleased s'.queue.firstJob?) (s', nbAvailableMachines s') (recentlyQueuedJobs c s)).map (·.1)
    else if 0 < nbAvailableMachines s' then
      (Execution.runFrom traverseJob (s', s'.queue.firstJob?) s'.queue.jobs).map (·.1)
    else .ok s'
  | .error e => .error e

/-- What the scheduler does on a message. -/
def step (c : EasyBfConfig) (s : EasyBfState) : EasyBf3Event → Except Abort EasyBfState
  | .jobSubmitted job =>
    match s.workload job.id with
    | some _ => .error (.alreadyInWorkload job.id)
    | none => .ok { s with
        workload := Function.update s.workload job.id (some job)
        jobsReleasedRecently := s.jobsReleasedRecently ++ [job] }
  | .jobCompleted id =>
    match s.workload id with
    | some job => .ok { s with jobsEndedRecently := s.jobsEndedRecently ++ [job] }
    | none => .error (.unknownJob id)
  | .makeDecisions date currentDate =>
    (makeDecisions c { s with decision := s.decision.clear } date currentDate).map fun s' =>
      { s' with jobsReleasedRecently := [], jobsEndedRecently := [] }

/-- The scheduler as far as its jobs go. -/
def scheduler (c : EasyBfConfig) : JobScheduler EasyBfState EasyBf3Event where
  step := step c
  decisions := (·.decision.decisions)
  notice := EasyBf3.notice

end EasyBf

end ScheduleTest
