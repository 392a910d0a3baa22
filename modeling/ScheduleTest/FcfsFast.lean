import ScheduleTest.EasyBf3

/-!
# First come, first served, without failures

What `fcfs_fast.cpp` does. Jobs wait in the order of their release, and are executed from the front as long as they fit: when jobs
have ended, and at once where none waits.
-/

namespace ScheduleTest

structure FCFSFastState where
  availableMachines : IntervalSet
  nbAvailableMachines : ℤ
  pendingJobs : List Job := []
  currentAllocations : KeyedMap (fun id : String => id) IntervalSet := KeyedMap.empty
  workload : String → Option Job := fun _ => none
  jobsReleasedRecently : List Job := []
  jobsEndedRecently : List String := []
  decision : SchedulingDecision := {}

namespace FCFSFast

/-- `on_simulation_start`. -/
def new (nbMachines : ℕ) : FCFSFastState where
  availableMachines := Finset.range nbMachines
  nbAvailableMachines := nbMachines

/-- A job that fits takes the leftmost machines. -/
def execute (s : FCFSFastState) (job : Job) : FCFSFastState :=
  let machines := s.availableMachines.leftmost job.nbRequestedResources
  { s with
    decision := s.decision.add (.executeJob job.id machines)
    availableMachines := s.availableMachines \ machines
    nbAvailableMachines := s.nbAvailableMachines - job.nbRequestedResources
    currentAllocations := s.currentAllocations.insert job.id machines }

/-- A job has ended, and gives its machines back. -/
def finishJob (s : FCFSFastState) (id : String) : Except Abort FCFSFastState :=
  match s.workload id with
  | some job => .ok { s with
      availableMachines := s.availableMachines ∪ (s.currentAllocations.find? id).getD ∅
      nbAvailableMachines := s.nbAvailableMachines + job.nbRequestedResources
      currentAllocations := s.currentAllocations.erase id }
  | none => .error (.unknownJob id)

/-- The jobs that wait are executed as long as they fit. -/
def executePending (s : FCFSFastState) : List Job → FCFSFastState
  | [] => { s with pendingJobs := [] }
  | job :: rest =>
    if job.nbRequestedResources ≤ s.nbAvailableMachines then executePending (execute s job) rest
    else { s with pendingJobs := job :: rest }

/-- A job has been released. -/
def releaseJob (nbMachines : ℕ) (s : FCFSFastState) (job : Job) : FCFSFastState :=
  if nbMachines < job.nbRequestedResources then { s with decision := s.decision.add (.rejectJob job.id) }
  else if !s.pendingJobs.isEmpty then { s with pendingJobs := s.pendingJobs ++ [job] }
  else if job.nbRequestedResources ≤ s.nbAvailableMachines then execute s job
  else { s with pendingJobs := s.pendingJobs ++ [job] }

/-- `make_decisions`. -/
def makeDecisions (nbMachines : ℕ) (s : FCFSFastState) : Except Abort FCFSFastState :=
  (Execution.runFrom finishJob s s.jobsEndedRecently).map fun s₁ =>
    let s₂ := if s₁.jobsEndedRecently.isEmpty then s₁ else executePending s₁ s₁.pendingJobs
    s₂.jobsReleasedRecently.foldl (releaseJob nbMachines) s₂

/-- What the scheduler does on a message. -/
def step (nbMachines : ℕ) (s : FCFSFastState) : EasyBf3Event → Except Abort FCFSFastState
  | .jobSubmitted job =>
    match s.workload job.id with
    | some _ => .error (.alreadyInWorkload job.id)
    | none => .ok { s with
        workload := Function.update s.workload job.id (some job)
        jobsReleasedRecently := s.jobsReleasedRecently ++ [job] }
  | .jobCompleted id =>
    match s.workload id with
    | some _ => .ok { s with jobsEndedRecently := s.jobsEndedRecently ++ [id] }
    | none => .error (.unknownJob id)
  | .makeDecisions _ _ =>
    (makeDecisions nbMachines { s with decision := s.decision.clear }).map fun s' => { s' with
      jobsReleasedRecently := []
      jobsEndedRecently := [] }

/-- The scheduler as far as its jobs go. -/
def scheduler (nbMachines : ℕ) : JobScheduler FCFSFastState EasyBf3Event where
  step := step nbMachines
  decisions := (·.decision.decisions)
  notice
    | .jobSubmitted job => .submitted job
    | .jobCompleted id => .completed id
    | .makeDecisions date _ => .decided date

end FCFSFast

end ScheduleTest
