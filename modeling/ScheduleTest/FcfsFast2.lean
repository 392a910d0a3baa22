import ScheduleTest.FastScheduler
import ScheduleTest.Lib.Execution

/-!
# First come, first served

`FCFSFast2::make_decisions` (`fcfs_fast2.cpp`). The jobs wait in one queue and are executed from its front as long as they fit.
A job that would share a machine and finds none is passed over; the first other job that does not fit stops the queue.
-/

namespace ScheduleTest.FCFSFast2

/-- A job has ended. A job with machines of its own gives back those that are not unavailable. -/
def finishJob (c : FastConfig) (s : FastState) (job : Job) : Except Abort FastState :=
  if c.shares job then s.finishOnCore c job
  else
    let machinesToAdd := (s.currentAllocations.find? job).getD ∅ \ s.unavailableMachines
    .ok { s with
      availableMachines := (s.availableMachines ∪ machinesToAdd) \ s.unavailableMachines
      nbAvailableMachines := s.nbAvailableMachines + machinesToAdd.card
      currentAllocations := s.currentAllocations.erase job
      runningJobs := s.runningJobs.erase job.id
      myKillJobs := s.myKillJobs.erase job.id }

/-- The loop over the pending jobs, from an iterator with the jobs before it (nearest first) and those from it on. -/
def executePending (c : FastConfig) (s : FastState) (before : List Job) : List Job → Except Abort FastState
  | [] => .ok s
  | job :: rest =>
    match s.tryExecute c job with
    | .ok (some s') => executePending c { s' with pendingJobs := before.reverse ++ rest } before rest
    | .ok none => if c.shares job then executePending c s (job :: before) rest else .ok s
    | .error e => .error e

/-- A job has been submitted. It is executed at once only where no job waits; a job that was killed and is submitted again
waits at the front. -/
def releaseJob (c : FastConfig) (s : FastState) (job : Job) : Except Abort FastState :=
  if c.nbMachines < job.nbRequestedResources then .ok { s with decision := s.decision.add (.rejectJob job.id) }
  else if s.pendingJobs.isEmpty then
    match s.tryExecute c job with
    | .ok (some s') => .ok s'
    | .ok none => .ok { s with pendingJobs := [job] }
    | .error e => .error e
  else if '#' ∈ job.id.toList then .ok { s with pendingJobs := job :: s.pendingJobs }
  else .ok { s with pendingJobs := s.pendingJobs ++ [job] }

/-- The pending jobs are gone through where machines have become available, and again where jobs have ended. -/
def executeWaiting (c : FastConfig) (jobEnded : Bool) (s : FastState) : Except Abort FastState :=
  match (if s.machinesThatBecameAvailableRecently.Nonempty ∧ ¬ s.pendingJobs.isEmpty then
      executePending c s [] s.pendingJobs else .ok s) with
  | .ok s' => if jobEnded then executePending c s' [] s'.pendingJobs else .ok s'
  | .error e => .error e

/-- `make_decisions` up to the loop over the released jobs. -/
def endAndExecute (c : FastConfig) (s : FastState) : Except Abort FastState :=
  match Execution.runFrom (finishJob c) s s.jobsEndedRecently with
  | .ok s' =>
    let killed := s'.handleNewJobsToKill
    executeWaiting c (!s.jobsEndedRecently.isEmpty)
      { killed with decision := killed.decision.handleResubmission killed.jobsKilledRecently }
  | .error e => .error e

/-- `make_decisions`. -/
def makeDecisions (c : FastConfig) (s : FastState) (date : ℚ) : Except Abort FastState :=
  match endAndExecute c s with
  | .ok s' => (Execution.runFrom (releaseJob c) s' s'.jobsReleasedRecently).map (·.sendFinishedSubmittingJobs date)
  | .error e => .error e

/-- What the scheduler does on a message. -/
def step (c : FastConfig) : FastState → FastEvent → Except Abort FastState := FastState.step c (makeDecisions c)

end ScheduleTest.FCFSFast2
