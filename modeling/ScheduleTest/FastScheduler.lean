import Mathlib.Data.Finset.Sort
import ScheduleTest.Platform

/-!
# The state of the fast schedulers

What `fcfs_fast2.cpp` and `easy_bf_fast2.cpp` have in common: the machines that are available, under repair or shared by
one-resource jobs, the jobs that run and wait, and the handlers of the simulator's messages other than `make_decisions`. Every
handler that draws a random number takes the number drawn as an argument.
-/

namespace ScheduleTest

/-- The constants of a run. A duration of `-1` is a duration that is not set. -/
structure FastConfig where
  nbMachines : ℕ
  sharePacking : Bool := false
  corePercent : ℚ := 1
  coreCount : ℕ → ℤ := fun _ => 1
  fixedFailures : ℚ := -1
  smtbf : ℚ := -1
  mtbf : ℚ := -1
  mttr : ℚ := -1
  repairTime : ℚ := -1

/-- `int(core_count * _core_percent)`: how many jobs may share a machine. -/
def FastConfig.coreLimit (c : FastConfig) (machine : ℕ) : ℤ :=
  (c.coreCount machine * c.corePercent).num.tdiv (c.coreCount machine * c.corePercent).den

/-- Whether a job is put on one core of a machine that it shares. -/
def FastConfig.shares (c : FastConfig) (job : Job) : Bool := c.sharePacking && job.nbRequestedResources == 1

/-- `ISchedulingAlgorithm::set_generators`: the first failure is asked for. -/
def FastConfig.setGenerators (c : FastConfig) (date failure : ℚ) : SchedulingDecision :=
  let fixed := if c.fixedFailures ≠ -1 then
    ({} : SchedulingDecision).addCallMeLater .fixedFailure 1 (c.fixedFailures + date) else {}
  if c.smtbf ≠ -1 then fixed.addCallMeLater .smtbf 1 (failure + date)
  else if c.mtbf ≠ -1 then fixed.addCallMeLater .mtbf 1 (failure + date)
  else fixed

/-- The machines and who runs on them. -/
structure FastMachines where
  availableMachines : IntervalSet
  unavailableMachines : IntervalSet := ∅
  repairMachines : IntervalSet := ∅
  availableCoreMachines : IntervalSet := ∅
  nbAvailableMachines : ℤ
  /-- `machines_by_int[machine]->cores_available`. -/
  coresAvailable : ℕ → ℤ
  currentAllocations : KeyedMap Job.id IntervalSet := KeyedMap.empty

/-- The machines, the jobs and the messages not yet dealt with. -/
structure FastState extends FastMachines where
  pendingJobs : List Job := []
  runningJobs : Finset String := ∅
  myKillJobs : Finset String := ∅
  workload : String → Option Job := fun _ => none
  jobsReleasedRecently : List Job := []
  jobsEndedRecently : List Job := []
  jobsKilledRecently : List String := []
  machinesThatBecameAvailableRecently : IntervalSet := ∅
  noMoreStaticJobToSubmitReceived : Bool := false
  needToSendFinishedSubmittingJobs : Bool := true
  decision : SchedulingDecision := {}

/-- The numbers a handler may draw: a machine, the time to the next failure, a time to repair, and the job at the front of the
unordered set of the running jobs. -/
structure Draws where
  number : ℕ
  failure : ℚ
  repair : ℚ
  victim : String

/-- `IntervalSet::operator[](0)`: the first machine of a set. -/
def firstMachine? (machines : IntervalSet) : Option ℕ := machines.sort.head?

namespace FastState

/-- `on_simulation_start`: every machine is available, and the first failure is asked for. -/
def new (c : FastConfig) (date failure : ℚ) : FastState where
  availableMachines := Finset.range c.nbMachines
  nbAvailableMachines := c.nbMachines
  coresAvailable := c.coreLimit
  decision := c.setGenerators date failure

/-- Whether there is still something to do that a failure could hit. -/
def stillWorking (s : FastState) : Bool :=
  s.runningJobs.Nonempty || !s.pendingJobs.isEmpty || !s.noMoreStaticJobToSubmitReceived

/-- The jobs that hold one of the machines. -/
def jobsOn (s : FastState) (machines : IntervalSet) : Finset String :=
  ((s.currentAllocations.entries.filter (fun entry => (entry.2 ∩ machines).Nonempty)).map (fun entry => entry.1.id)).toFinset

/-- `on_machine_instant_down_up`: the jobs on the machine are to be killed. -/
def onMachineInstantDownUp (s : FastState) (number : ℕ) : FastState :=
  if s.runningJobs.Nonempty then { s with myKillJobs := s.myKillJobs ∪ s.jobsOn {number} } else s

/-- The time a repair takes: drawn where a mean time to repair is given, the global one otherwise. -/
def repairTimeOf (c : FastConfig) (repair : ℚ) : ℚ := if c.mttr ≠ -1 then repair else c.repairTime

/-- `on_machine_down_for_repair`: a machine that is not yet under repair is taken out of service, a call is asked for when it is
repaired, and the jobs on it are to be killed. -/
def onMachineDownForRepair (c : FastConfig) (s : FastState) (date : ℚ) (number : ℕ) (repair : ℚ) : FastState :=
  if number ∈ s.repairMachines then s
  else
    let available := s.availableMachines \ {number}
    { s with
      availableMachines := available
      unavailableMachines := s.unavailableMachines ∪ {number}
      repairMachines := s.repairMachines ∪ {number}
      nbAvailableMachines := available.card
      decision := s.decision.addCallMeLater .repairDone number (date + repairTimeOf c repair)
      myKillJobs := if s.runningJobs.Nonempty then s.myKillJobs ∪ s.jobsOn {number} else s.myKillJobs }

/-- A failure: the machine goes down for repair, or down and up at once where a repair takes no time. -/
def onFailure (c : FastConfig) (s : FastState) (date : ℚ) (draws : Draws) : FastState :=
  if c.repairTime = 0 then s.onMachineInstantDownUp draws.number
  else s.onMachineDownForRepair c date draws.number draws.repair

/-- `on_myKillJob_notify_event`: a running job is to be killed. -/
def onMyKillJobNotifyEvent (s : FastState) (victim : String) : FastState :=
  if victim ∈ s.runningJobs then { s with myKillJobs := insert victim s.myKillJobs } else s

/-- Ask for the next call of a kind. -/
def askAgain (s : FastState) (forWhat : CallMeLaterType) (time : ℚ) : FastState :=
  { s with decision := s.decision.addCallMeLater forWhat 1 time }

/-- A repair is done: the machine is available again. -/
def onRepairDone (s : FastState) (id : ℕ) : FastState :=
  let available := s.availableMachines ∪ {id}
  { s with
    availableMachines := available
    unavailableMachines := s.unavailableMachines \ {id}
    repairMachines := s.repairMachines \ {id}
    nbAvailableMachines := available.card
    machinesThatBecameAvailableRecently := s.machinesThatBecameAvailableRecently ∪ {id} }

/-- `on_requested_call`. -/
def onRequestedCall (c : FastConfig) (s : FastState) (date : ℚ) (id : ℕ) (draws : Draws) : CallMeLaterType → FastState
  | .smtbf => if s.stillWorking then (s.onFailure c date draws).askAgain .smtbf (draws.failure + date) else s
  | .mtbf =>
    if s.stillWorking then (s.onMyKillJobNotifyEvent draws.victim).askAgain .mtbf (draws.failure + date) else s
  | .fixedFailure =>
    if s.stillWorking then (s.onFailure c date draws).askAgain .fixedFailure (c.fixedFailures + date) else s
  | .repairDone => s.onRepairDone id
  | .reservationStart => s
  | .checkpointBatsched => s
  | .recoverFromCheckpoint => s

/-- `on_machine_available_notify_event`. -/
def onMachineAvailableNotifyEvent (s : FastState) (machines : IntervalSet) : FastState :=
  { s with
    unavailableMachines := s.unavailableMachines \ machines
    availableMachines := s.availableMachines ∪ machines
    nbAvailableMachines := s.nbAvailableMachines + machines.card
    machinesThatBecameAvailableRecently := s.machinesThatBecameAvailableRecently ∪ machines }

/-- `JOB_SUBMITTED`: a job of a new id is added to the workload and released. -/
def onJobSubmitted (s : FastState) (job : Job) : Except Abort FastState :=
  match s.workload job.id with
  | some _ => .error (.alreadyInWorkload job.id)
  | none => .ok { s with
      workload := Function.update s.workload job.id (some job)
      jobsReleasedRecently := s.jobsReleasedRecently ++ [job] }

/-- `JOB_COMPLETED`, for a job that ended by itself or was killed. -/
def onJobCompleted (s : FastState) (id : String) : Except Abort FastState :=
  match s.workload id with
  | some job => .ok { s with jobsEndedRecently := s.jobsEndedRecently ++ [job] }
  | none => .error (.unknownJob id)

/-- `clear_recent_data_structures`. -/
def clearRecentDataStructures (s : FastState) : FastState :=
  { s with
    jobsReleasedRecently := []
    jobsEndedRecently := []
    jobsKilledRecently := []
    machinesThatBecameAvailableRecently := ∅ }

/-- The first shared machine with a free core. -/
def freeCoreMachine? (s : FastState) : Option ℕ :=
  s.availableCoreMachines.sort.find? (fun machine => 1 ≤ s.coresAvailable machine)

/-- A job is executed on machines. -/
def execute (s : FastState) (job : Job) (machines : IntervalSet) : FastState :=
  { s with
    decision := s.decision.add (.executeJob job.id machines)
    currentAllocations := s.currentAllocations.insert job machines }

/-- A job is executed on a core of a shared machine. -/
def executeOnCore (s : FastState) (job : Job) (machine : ℕ) : FastState :=
  { s.execute job {machine} with
    coresAvailable := Function.update s.coresAvailable machine (s.coresAvailable machine - 1)
    runningJobs := insert job.id s.runningJobs }

/-- A job is executed on the first available machine, which becomes a shared one. -/
def executeOnNewCoreMachine (s : FastState) (job : Job) : Except Abort FastState :=
  let machines := s.availableMachines.leftmost 1
  match firstMachine? machines with
  | some machine => .ok { s.execute job machines with
      coresAvailable := Function.update s.coresAvailable machine (s.coresAvailable machine - 1)
      availableCoreMachines := s.availableCoreMachines ∪ machines
      availableMachines := s.availableMachines \ machines
      nbAvailableMachines := s.nbAvailableMachines - 1
      runningJobs := insert job.id s.runningJobs }
  | none => .error .emptyIntervalSet

/-- A job is executed on the first available machines, as many as it requests. -/
def executeOnMachines (s : FastState) (job : Job) : FastState :=
  let machines := s.availableMachines.leftmost job.nbRequestedResources
  { s.execute job machines with
    availableMachines := s.availableMachines \ machines
    nbAvailableMachines := s.nbAvailableMachines - job.nbRequestedResources
    runningJobs := insert job.id s.runningJobs }

/-- Execute a job if it fits: on a core of a shared machine, or of a new one, where jobs share; on machines of its own otherwise.
`none` where it does not fit. -/
def tryExecute (c : FastConfig) (s : FastState) (job : Job) : Except Abort (Option FastState) :=
  if c.shares job then
    match s.freeCoreMachine? with
    | some machine => .ok (some (s.executeOnCore job machine))
    | none => if 0 < s.nbAvailableMachines then (s.executeOnNewCoreMachine job).map some else .ok none
  else if (job.nbRequestedResources : ℤ) ≤ s.nbAvailableMachines then .ok (some (s.executeOnMachines job))
  else .ok none

/-- A job that shared a machine has ended: its core is free, and with the last of them the machine is available again. -/
def finishOnCore (c : FastConfig) (s : FastState) (job : Job) : Except Abort FastState :=
  let machines := (s.currentAllocations.find? job).getD ∅
  match firstMachine? machines with
  | some machine =>
    let cores := s.coresAvailable machine + 1
    let last := cores = c.coreLimit machine
    .ok { s with
      coresAvailable := Function.update s.coresAvailable machine cores
      availableCoreMachines := if last then s.availableCoreMachines \ machines else s.availableCoreMachines
      availableMachines := if last then s.availableMachines ∪ machines else s.availableMachines
      nbAvailableMachines := if last then s.nbAvailableMachines + 1 else s.nbAvailableMachines
      currentAllocations := s.currentAllocations.erase job
      runningJobs := s.runningJobs.erase job.id }
  | none => .error .emptyIntervalSet

/-- The jobs to be killed are sent. -/
def handleNewJobsToKill (s : FastState) : FastState :=
  if s.myKillJobs.Nonempty then { s with decision := s.decision.add (.killJobs s.myKillJobs), myKillJobs := ∅ } else s

/-- The end of `make_decisions`: the simulator is told once that no more jobs will be submitted. -/
def sendFinishedSubmittingJobs (s : FastState) (date : ℚ) : FastState :=
  if s.jobsKilledRecently.isEmpty ∧ s.pendingJobs.isEmpty ∧ ¬ s.runningJobs.Nonempty ∧ s.needToSendFinishedSubmittingJobs ∧
      s.noMoreStaticJobToSubmitReceived ∧ date ≠ 0 then
    { s with decision := s.decision.add .finishedSubmittingJobs, needToSendFinishedSubmittingJobs := false }
  else s

end FastState

/-- A message of the simulator, with the numbers its handler draws, or the point where the messages received are dealt with. -/
inductive FastEvent where
  | jobSubmitted (job : Job)
  | jobCompleted (id : String)
  | jobsKilled (ids : List String)
  | requestedCall (date : ℚ) (id : ℕ) (forWhat : CallMeLaterType) (draws : Draws)
  | machinesAvailable (machines : IntervalSet)
  | myKillJob (victim : String)
  | noMoreStaticJobToSubmit
  | makeDecisions (date : ℚ)

/-- What a message tells about the jobs. -/
def FastEvent.notice : FastEvent → Notice
  | .jobSubmitted job => .submitted job
  | .jobCompleted id => .completed id
  | .makeDecisions date => .decided date
  | _ => .other

/-- The machine a handler draws is one of the machines. -/
def FastEvent.DrawsMachine (c : FastConfig) : FastEvent → Prop
  | .requestedCall _ _ _ draws => draws.number < c.nbMachines
  | _ => True

/-- What a scheduler does on a message, given its `make_decisions`. The messages of the step before have been sent. -/
def FastState.step (c : FastConfig) (makeDecisions : FastState → ℚ → Except Abort FastState) (s₀ : FastState) :
    FastEvent → Except Abort FastState :=
  let s := { s₀ with decision := s₀.decision.clear }
  fun
  | .jobSubmitted job => s.onJobSubmitted job
  | .jobCompleted id => s.onJobCompleted id
  | .jobsKilled ids => .ok { s with jobsKilledRecently := s.jobsKilledRecently ++ ids }
  | .requestedCall date id forWhat draws => .ok (s.onRequestedCall c date id draws forWhat)
  | .machinesAvailable machines => .ok (s.onMachineAvailableNotifyEvent machines)
  | .myKillJob victim => .ok (s.onMyKillJobNotifyEvent victim)
  | .noMoreStaticJobToSubmit => .ok { s with noMoreStaticJobToSubmitReceived := true }
  | .makeDecisions date => (makeDecisions s date).map clearRecentDataStructures

end ScheduleTest
