import ScheduleTest.EasyBfFast2

/-!
# EASY backfilling with machines held back

`easy_bf_fast2_holdback.cpp`. The first machines of the platform are held back for the jobs that share a machine: such a job is
executed on a core of one of them where there is one, whatever the priority job, and only then as `easy_bf_fast2` does.
-/

namespace ScheduleTest

/-- The constants of a run, with the number of machines that are held back. -/
structure HoldbackConfig extends FastConfig where
  sharePackingHoldback : ℤ := 0

/-- The state of the scheduler, with the machines that are held back. -/
structure HoldbackState extends EasyState where
  heldbackMachines : IntervalSet := ∅

namespace EasyBFFast2Holdback

/-- The first machine that is held back and has a free core. -/
def heldbackMachine? (s : HoldbackState) : Option ℕ :=
  s.heldbackMachines.sort.find? (fun machine => 1 ≤ s.coresAvailable machine)

/-- Execute a job on a core of a machine that is held back. No backfilling takes place there, so that no date is noted. -/
def tryHeldback (c : FastConfig) (s : HoldbackState) (job : Job) : Option HoldbackState :=
  if c.shares job then
    (heldbackMachine? s).map fun machine => { s with toFastState := s.toFastState.executeOnCore job machine }
  else none

/-- Execute a job if it fits: on a machine that is held back, and otherwise on another one if it may use it. -/
def tryExecute (c : FastConfig) (s : HoldbackState) (job : Job) (date : ℚ) (ordinary : Bool) :
    Except Abort (Option HoldbackState) :=
  match tryHeldback c s job with
  | some s' => .ok (some s')
  | none =>
    if ordinary then
      (EasyBFFast2.tryExecute c s.toEasyState job date).map fun executed => executed.map fun t => { s with toEasyState := t }
    else .ok none

/-- A job becomes the priority job. Only the machines that are not held back count. -/
def setPriorityJob (c : FastConfig) (s : HoldbackState) (job : Job) : Except Abort HoldbackState :=
  (EasyBFFast2.setPriorityJob c s.toEasyState job).map fun t => { s with toEasyState := t }

/-- A job has ended (`handle_newly_finished_jobs`). A machine that is held back only gets its core back. -/
def finishJob (c : FastConfig) (s : HoldbackState) (job : Job) : Except Abort HoldbackState :=
  match s.currentAllocations.find? job with
  | none => .error .nullPointer
  | some machines =>
    if c.shares job ∧ (s.heldbackMachines ∩ machines).Nonempty then
      match firstMachine? machines with
      | none => .error .emptyIntervalSet
      | some machine => .ok { s with
          coresAvailable := Function.update s.coresAvailable machine (s.coresAvailable machine + 1)
          currentAllocations := s.currentAllocations.erase job
          runningJobs := s.runningJobs.erase job.id
          horizons := s.horizons.filter (·.id ≠ job.id) }
    else (EasyBFFast2.finishJob c s.toEasyState job).map fun t => { s with toEasyState := t }

/-- The priority job is executed if it fits. Only a job that shares a machine is added to the running jobs. -/
def executePriorityJob (c : FastConfig) (s : HoldbackState) (job : Job) (date : ℚ) : Except Abort (Option HoldbackState) :=
  (tryExecute c s job date true).map fun executed => executed.map fun s' => { s' with
    runningJobs := if c.shares job then s'.runningJobs else s.runningJobs
    priorityJob := none }

/-- After the priority job has been executed, the pending jobs are executed from the front, up to the first that does not fit,
which becomes the priority job. -/
def executePending (c : FastConfig) (date : ℚ) (s : HoldbackState) : List Job → Except Abort HoldbackState
  | [] => .ok s
  | job :: rest =>
    match tryExecute c s job date true with
    | .ok (some s') => executePending c date { s' with pendingJobs := rest } rest
    | .ok none => setPriorityJob c { s with pendingJobs := rest } job
    | .error e => .error e

/-- The backfill loop over the pending jobs, from an iterator with the jobs before it (nearest first) and those from it on. -/
def backfill (c : FastConfig) (date : ℚ) (s : HoldbackState) (before : List Job) : List Job → Except Abort HoldbackState
  | [] => .ok s
  | job :: rest =>
    match tryExecute c s job date (EasyBFFast2.mayPrecede s.toEasyState job date) with
    | .ok (some s') => backfill c date { s' with pendingJobs := before.reverse ++ rest } before rest
    | .ok none => backfill c date s (job :: before) rest
    | .error e => .error e

/-- `handle_ended_job_execution`. -/
def handleEndedJobExecution (c : FastConfig) (s : HoldbackState) (jobEnded : Bool) (date : ℚ) : Except Abort HoldbackState :=
  match (if jobEnded then s.priorityJob else none) with
  | none => .ok s
  | some (job, _) =>
    match executePriorityJob c s job date with
    | .ok (some s') =>
      match executePending c date s' s'.pendingJobs with
      | .ok s'' => backfill c date s'' [] s''.pendingJobs
      | .error e => .error e
    | .ok none => backfill c date s [] s.pendingJobs
    | .error e => .error e

/-- A job has been submitted (`handle_newly_released_jobs`). -/
def releaseJob (c : HoldbackConfig) (date : ℚ) (s : HoldbackState) (job : Job) : Except Abort HoldbackState :=
  if c.nbMachines - c.sharePackingHoldback < job.nbRequestedResources then
    .ok { s with decision := s.decision.add (.rejectJob job.id) }
  else
    match tryExecute c.toFastConfig s job date (EasyBFFast2.mayPrecede s.toEasyState job date) with
    | .ok (some s') => .ok s'
    | .ok none => (EasyBFFast2.enqueue c.toFastConfig s.toEasyState job).map fun t => { s with toEasyState := t }
    | .error e => .error e

/-- `make_decisions` up to the loop over the released jobs. -/
def endAndExecute (c : FastConfig) (s : HoldbackState) (date : ℚ) : Except Abort HoldbackState :=
  match Execution.runFrom (finishJob c) s s.jobsEndedRecently with
  | .ok s' =>
    let killed := s'.toFastState.handleNewJobsToKill
    handleEndedJobExecution c
      { s' with toFastState := { killed with decision := killed.decision.handleResubmission killed.jobsKilledRecently } }
      (!s.jobsEndedRecently.isEmpty) date
  | .error e => .error e

/-- `make_decisions`. -/
def makeDecisions (c : HoldbackConfig) (s : HoldbackState) (date : ℚ) : Except Abort HoldbackState :=
  match endAndExecute c.toFastConfig s date with
  | .ok s' => (Execution.runFrom (releaseJob c date) s' s'.jobsReleasedRecently).map
      fun t => { t with toFastState := t.toFastState.sendFinishedSubmittingJobs date }
  | .error e => .error e

/-- What the scheduler does on a message. The handlers are those of `easy_bf_fast2.cpp`: none of them tells a machine that is held
back from another. -/
def step (c : HoldbackConfig) (s : HoldbackState) (event : FastEvent) : Except Abort HoldbackState :=
  match event with
  | .makeDecisions date => (makeDecisions c { s with decision := s.decision.clear } date).map
      fun t => { t with toFastState := t.toFastState.clearRecentDataStructures }
  | event => (EasyBFFast2.step c.toFastConfig s.toEasyState event).map fun t => { s with toEasyState := t }

/-- `on_simulation_start`: the first machines are held back and the others are available. -/
def new (c : HoldbackConfig) (date failure : ℚ) : HoldbackState :=
  let start := EasyBFFast2.new c.toFastConfig date failure
  let heldback := start.availableMachines.leftmost c.sharePackingHoldback.toNat
  if 0 < c.sharePackingHoldback then
    { start with
      nbAvailableMachines := start.nbAvailableMachines - c.sharePackingHoldback
      heldbackMachines := heldback
      availableMachines := start.availableMachines \ heldback
      unavailableMachines := start.unavailableMachines ∪ heldback }
  else { start with }

end EasyBFFast2Holdback

end ScheduleTest
