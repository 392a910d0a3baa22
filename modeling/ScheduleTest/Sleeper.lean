import ScheduleTest.Protocol
import ScheduleTest.Queue

/-!
# The sleeper

What `sleeper.cpp` does. One job is executed at a time, the first of the queue. Machines that are not used are put to sleep, and
machines are woken up for a job that has not enough of them.
-/

namespace ScheduleTest

/-- What the sleeper is made with. -/
structure SleeperOptions where
  nbMachines : ℕ
  computePstate : ℕ
  sleepPstate : ℕ
  order : SortableJobOrder := FCFSOrder
  isInt : Text.IsInt computePstate ∧ Text.IsInt sleepPstate := by decide

/-- Why the sleeper aborts. -/
inductive SleeperAbort where
  | invalidOptions (message : String)
  /-- `_jobs_ended_recently.size() == 0 || _jobs_ended_recently.size() == 1`. -/
  | severalJobsEnded
  /-- `job_being_computed == ended_job_id`. -/
  | notBeingComputed (id : String)
  /-- `finished_job->nb_requested_resources == (int) computing_machines.size()`. -/
  | wrongNbMachines (id : String)
  /-- `new_pstate == compute_pstate || new_pstate == sleep_pstate`. -/
  | unknownPstate (pstate : ℤ)
  /-- Machines have got a power state that they were not being switched to. -/
  | notBeingSwitched (pstate : ℤ)
  /-- `computing_machines.size() == 0`. -/
  | machinesAreComputing
  | job (reason : Abort)
  deriving DecidableEq

structure SleeperState where
  availableMachines : IntervalSet
  computingMachines : IntervalSet := ∅
  sleepingMachines : IntervalSet := ∅
  machinesBeingSwitchedOn : IntervalSet := ∅
  machinesBeingSwitchedOff : IntervalSet := ∅
  jobBeingComputed : String := ""
  simulationFinished : Bool := false
  queue : Queue := []
  workload : String → Option Job := fun _ => none
  jobsReleasedRecently : List Job := []
  jobsEndedRecently : List String := []
  machinesWhosePstateChangedRecently : KeyedMap (fun pstate : ℤ => pstate) IntervalSet := KeyedMap.empty
  decision : List ProtocolEvent := []

/-- What the simulator tells the sleeper. -/
inductive SleeperEvent where
  | simulationEnds
  | jobSubmitted (job : Job)
  | jobCompleted (id : String)
  | resourceStateChanged (machines : IntervalSet) (newState : ℤ)
  /-- A notification of which the sleeper makes nothing. -/
  | notify

namespace Sleeper

/-- A power state that the options name. -/
def readPstate (key : String) (variantOptions : JsonValue) : Except SleeperAbort {pstate : ℕ // Text.IsInt pstate} :=
  match variantOptions.member? key with
  | none => .error (.invalidOptions ("Invalid options JSON object: Member '" ++ key ++ "' cannot be found"))
  | some (.int z) =>
    if isInt : Text.IsInt z.val then
      if nonneg : 0 ≤ z.val then .ok ⟨z.val.toNat, by rw [Int.toNat_of_nonneg nonneg]; exact isInt⟩
      else .error (.invalidOptions ("Invalid options JSON object: Member '" ++ key ++ "' value must be positive (got " ++
        toString z.val ++ ")"))
    else .error (.invalidOptions ("Invalid options JSON object: Member '" ++ key ++ "' must be integral"))
  | some _ => .error (.invalidOptions ("Invalid options JSON object: Member '" ++ key ++ "' must be integral"))

/-- The constructor. -/
def readOptions (nbMachines : ℕ) (order : SortableJobOrder) (variantOptions : JsonValue) : Except SleeperAbort SleeperOptions := do
  let computePstate ← readPstate "pstate_compute" variantOptions
  let sleepPstate ← readPstate "pstate_sleep" variantOptions
  .ok { nbMachines, order, computePstate := computePstate.1, sleepPstate := sleepPstate.1, isInt := ⟨computePstate.2, sleepPstate.2⟩ }

/-- `on_simulation_start`. -/
def new (o : SleeperOptions) : SleeperState where
  availableMachines := Finset.range o.nbMachines

variable (o : SleeperOptions)

/-- A job may have ended, and gives its machines back. -/
def finishJob (s : SleeperState) : Except SleeperAbort SleeperState :=
  match s.jobsEndedRecently with
  | [] => .ok s
  | [id] =>
    match s.workload id with
    | none => .error (.job (.unknownJob id))
    | some job =>
      if s.jobBeingComputed ≠ id then .error (.notBeingComputed id)
      else if job.nbRequestedResources ≠ s.computingMachines.card then .error (.wrongNbMachines id)
      else .ok { s with
        jobBeingComputed := ""
        availableMachines := s.availableMachines ∪ s.computingMachines
        computingMachines := ∅ }
  | _ => .error .severalJobsEnded

/-- A job has been released. -/
def releaseJob (currentDate : ℚ) (s : SleeperState) (job : Job) : SleeperState :=
  if o.nbMachines < job.nbRequestedResources then { s with decision := s.decision ++ [.rejectJob job.id] }
  else { s with queue := s.queue.appendJob job currentDate }

/-- Machines have been switched to a power state. -/
def changePstate (s : SleeperState) (change : ℤ × IntervalSet) : Except SleeperAbort SleeperState :=
  if change.1 = o.computePstate then
    if change.2 ⊆ s.machinesBeingSwitchedOn then .ok { s with
      machinesBeingSwitchedOn := s.machinesBeingSwitchedOn \ change.2
      availableMachines := s.availableMachines ∪ change.2 }
    else .error (.notBeingSwitched change.1)
  else if change.1 = o.sleepPstate then
    if change.2 ⊆ s.machinesBeingSwitchedOff then .ok { s with
      machinesBeingSwitchedOff := s.machinesBeingSwitchedOff \ change.2
      sleepingMachines := s.sleepingMachines ∪ change.2 }
    else .error (.notBeingSwitched change.1)
  else .error (.unknownPstate change.1)

/-- `add_set_resource_state`. -/
def setResourceState (s : SleeperState) (machines : IntervalSet) (pstate : ℕ) : SleeperState :=
  { s with decision := s.decision ++ [.setResourceState machines (toString (pstate : ℤ))] }

/-- The machines that are not used are put to sleep. -/
def sleepUnused (s : SleeperState) : SleeperState :=
  if 0 < s.availableMachines.card then { setResourceState s s.availableMachines o.sleepPstate with
    machinesBeingSwitchedOff := s.machinesBeingSwitchedOff ∪ s.availableMachines
    availableMachines := ∅ }
  else s

/-- The job is executed on available machines, and leaves the queue. -/
def executeFirst (s : SleeperState) (job : Job) : Except SleeperAbort SleeperState :=
  let alloc := s.availableMachines.leftmost job.nbRequestedResources
  let s' := sleepUnused o { s with
    decision := s.decision ++ [.executeJob job.id alloc []]
    availableMachines := s.availableMachines \ alloc
    computingMachines := s.computingMachines ∪ alloc }
  match s'.queue.removeJob job with
  | .ok queue => .ok { s' with jobBeingComputed := job.id, queue := queue }
  | .error reason => .error (.job reason)

/-- Machines are woken up for the job, unless enough of them are already. -/
def wakeUp (s : SleeperState) (job : Job) : SleeperState :=
  let futureNbAvail := s.availableMachines.card + s.machinesBeingSwitchedOn.card
  if futureNbAvail < job.nbRequestedResources then
    let nbMachinesToOrderToWakeUp := min s.sleepingMachines.card (job.nbRequestedResources - futureNbAvail)
    if 0 < nbMachinesToOrderToWakeUp then
      let machines := s.sleepingMachines.leftmost nbMachinesToOrderToWakeUp
      { setResourceState s machines o.computePstate with
        sleepingMachines := s.sleepingMachines \ machines
        machinesBeingSwitchedOn := s.machinesBeingSwitchedOn ∪ machines }
    else s
  else s

/-- `make_decisions`, once the queue is sorted: about the first job, or the machines without one. -/
def decideFirst (s : SleeperState) : Except SleeperAbort SleeperState :=
  match s.queue.firstJob? with
  | some job =>
    if s.jobBeingComputed = "" then
      if s.computingMachines.card ≠ 0 then .error .machinesAreComputing
      else if job.nbRequestedResources ≤ s.availableMachines.card then executeFirst o s job
      else .ok (wakeUp o s job)
    else .ok (sleepUnused o s)
  | none => .ok (if s.simulationFinished then s else sleepUnused o s)

/-- `make_decisions` until the queue is sorted. -/
def prepare (currentDate : ℚ) (s : SleeperState) : Except SleeperAbort SleeperState := do
  let s₁ ← finishJob s
  let s₂ := s₁.jobsReleasedRecently.foldl (releaseJob o currentDate) s₁
  let s₃ ← Execution.runFrom (changePstate o) s₂ s₂.machinesWhosePstateChangedRecently.entries
  .ok { s₃ with queue := s₃.queue.sortQueue o.order currentDate }

/-- `clear_recent_data_structures`. -/
def clearRecentDataStructures (s : SleeperState) : SleeperState :=
  { s with
    jobsReleasedRecently := []
    jobsEndedRecently := []
    machinesWhosePstateChangedRecently := KeyedMap.empty }

/-- An event of a message. -/
def receive (s : SleeperState) : SleeperEvent → Except SleeperAbort SleeperState
  | .simulationEnds => .ok { s with simulationFinished := true }
  | .jobSubmitted job =>
    match s.workload job.id with
    | some _ => .error (.job (.alreadyInWorkload job.id))
    | none => .ok { s with
        workload := Function.update s.workload job.id (some job)
        jobsReleasedRecently := s.jobsReleasedRecently ++ [job] }
  | .jobCompleted id =>
    match s.workload id with
    | some _ => .ok { s with jobsEndedRecently := s.jobsEndedRecently ++ [id] }
    | none => .error (.job (.unknownJob id))
  | .resourceStateChanged machines newState => .ok { s with
      machinesWhosePstateChangedRecently := s.machinesWhosePstateChangedRecently.insert newState
        ((s.machinesWhosePstateChangedRecently.find? newState).getD ∅ ∪ machines) }
  | .notify => .ok s

/-- What the sleeper does on a message. -/
def onMessage (currentDate : ℚ) (s : SleeperState) (events : List SleeperEvent) : Except SleeperAbort SleeperState := do
  let received ← Execution.runFrom receive { s with decision := [] } events
  let prepared ← prepare o currentDate received
  let decided ← decideFirst o prepared
  .ok (clearRecentDataStructures decided)

end Sleeper

end ScheduleTest
