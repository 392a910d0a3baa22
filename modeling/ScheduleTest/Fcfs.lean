import ScheduleTest.FcfsFast
import ScheduleTest.FirstFit

/-!
# First come, first served, with a selector

What `fcfs.cpp` does. It keeps what `fcfs_fast.cpp` keeps, and differs from it in one place: a job that waits is executed on the
machines that the selector takes for it. A job that is executed when it is released takes the leftmost machines, whatever the
selector.
-/

namespace ScheduleTest

/-- The members of `FCFS` are those of `FCFSFast`. -/
abbrev FCFSState := FCFSFastState

namespace FCFS

/-- A job that waits is executed on the machines that fit. -/
def executeOn (s : FCFSState) (job : Job) (machines : IntervalSet) : FCFSState :=
  { s with
    decision := s.decision.add (.executeJob job.id machines)
    availableMachines := s.availableMachines \ machines
    nbAvailableMachines := s.nbAvailableMachines - job.nbRequestedResources
    currentAllocations := s.currentAllocations.insert job.id machines }

/-- The jobs that wait are executed as long as they fit. -/
def executePending (selector : ResourceSelector) (s : FCFSState) : List Job → FCFSState
  | [] => { s with pendingJobs := [] }
  | job :: rest =>
    match selector.fit job s.availableMachines with
    | some machines => executePending selector (executeOn s job machines) rest
    | none => { s with pendingJobs := job :: rest }

/-- `make_decisions`. -/
def makeDecisions (selector : ResourceSelector) (nbMachines : ℕ) (s : FCFSState) : Except Abort FCFSState :=
  (Execution.runFrom FCFSFast.finishJob s s.jobsEndedRecently).map fun s₁ =>
    let s₂ := if s₁.jobsEndedRecently.isEmpty then s₁ else executePending selector s₁ s₁.pendingJobs
    s₂.jobsReleasedRecently.foldl (FCFSFast.releaseJob nbMachines) s₂

/-- What the scheduler does on a message. -/
def step (selector : ResourceSelector) (nbMachines : ℕ) (s : FCFSState) : EasyBf3Event → Except Abort FCFSState
  | .jobSubmitted job =>
    match s.workload job.id with
    | some _ => .error (.alreadyInWorkload job.id)
    | none => .ok { s with
        workload := Function.update s.workload job.id (some job)
        jobsReleasedRecently := s.jobsReleasedRecently ++ [job] }
  | .jobCompleted id =>
    match s.workload id with
    | some _ => .ok { s with jobsEndedRecently := s.jobsEndedRecently ++ [id] }
    | none => .error (.unknownJob id)
  | .makeDecisions _ _ =>
    (makeDecisions selector nbMachines { s with decision := s.decision.clear }).map fun s' => { s' with
      jobsReleasedRecently := []
      jobsEndedRecently := [] }

/-- The scheduler as far as its jobs go. -/
def scheduler (selector : ResourceSelector) (nbMachines : ℕ) : JobScheduler FCFSState EasyBf3Event where
  step := step selector nbMachines
  decisions := (·.decision.decisions)
  notice
    | .jobSubmitted job => .submitted job
    | .jobCompleted id => .completed id
    | .makeDecisions date _ => .decided date

end FCFS

end ScheduleTest
