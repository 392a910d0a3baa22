import ScheduleTest.Job
import ScheduleTest.Lib.Execution
import Mathlib.Data.Finset.Sort

/-!
# The machines of the simulator

What `machines.cpp` keeps of the states of the machines, and what changes it: the server (`server.cpp`), the processes of the jobs
and the killer (`jobs_execution.cpp`), and the processes that switch machines on and off (`pstate.cpp`). A process that the server
creates runs until it waits before the server takes another message, so what it does before is part of the server's step.
-/

namespace ScheduleTest

inductive MachineState where
  | sleeping | idle | computing
  | transitingFromSleepingToComputing | transitingFromComputingToSleeping
  | unavailable
  deriving DecidableEq

inductive Permissions where
  | master | computeNode | storage
  deriving DecidableEq

inductive PStateType where
  | computationPstate | sleepPstate | transitionVirtualPstate
  deriving DecidableEq

inductive JobState where
  | notSubmitted | submitted | running
  | completedSuccessfully | completedFailed | completedWalltimeReached | completedKilled
  | rejected
  deriving DecidableEq

/-- What the simulator aborts with. -/
inductive SimAbort where
  | severalMasters
  | noMaster
  | badMachineLimit (limit : ℤ)
  | notEnoughMachines (limit : ℤ) (nbMachines : ℕ)
  | noSuchMachine (id : ℕ)
  | timeHasDecreased (machine : ℕ)
  | noJobIsComputed (machine : ℕ) (job : String)
  | couldNotEraseJob (machine : ℕ) (job : String)
  | notSubmitted (job : String)
  | sharingDisabled (job : String) (machine : ℕ)
  | cannotComputeNow (job : String) (machine : ℕ)
  | notInComputationPstate (job : String) (machine : ℕ)
  | energyNotUsed
  | switchedOnToNoComputationPstate (machine pstate : ℕ)
  | noSuchPstate (machine pstate : ℕ)
  | jobsAreRunning (machine : ℕ)
  | alreadyUnavailable (machine : ℕ)
  | notUnavailable (machine : ℕ)
  | notRunning (job : String)
  | badKill (job : String)
  | notSwitching (machine : ℕ)
  deriving DecidableEq

/-- The virtual power states that a machine passes through on its way out of a sleep power state and into it. -/
structure SleepPState where
  switchOnVirtualPstate : ℕ
  switchOffVirtualPstate : ℕ

/-- A host of the platform, its role and power states read from its properties: the states between a sleep power state and the
others are virtual ones. Without energy there are no power states. -/
structure Host where
  permissions : Permissions := .computeNode
  pstates : ℕ → Option PStateType := fun _ => none
  sleepPstates : ℕ → Option SleepPState := fun _ => none
  /-- The power state that the host is in. -/
  pstate : ℕ := 0
  virtualPstates : ∀ ps sleep, sleepPstates ps = some sleep →
    pstates sleep.switchOnVirtualPstate = some .transitionVirtualPstate ∧
      pstates sleep.switchOffVirtualPstate = some .transitionVirtualPstate := by simp

structure Machine extends Host where
  id : ℕ
  state : MachineState := .idle
  jobsBeingComputed : Finset String := ∅
  lastStateChangeDate : ℚ := 0
  timeSpentInEachState : MachineState → ℚ := fun _ => 0

/-- The machines by number, and the counters of `_nb_machines_in_each_state`. -/
structure Machines where
  machines : List Machine
  nbMachinesInEachState : MachineState → ℤ

namespace Machine

/-- The machine with another state, once the time spent in the one it leaves is counted. -/
def changeState (date : ℚ) (newState : MachineState) (machine : Machine) : Machine := { machine with
  timeSpentInEachState := Function.update machine.timeSpentInEachState machine.state
    (machine.timeSpentInEachState machine.state + (date - machine.lastStateChangeDate))
  state := newState
  lastStateChangeDate := date }

/-- A job begins on the machine. -/
def insertJob (job : String) (machine : Machine) : Machine :=
  { machine with jobsBeingComputed := insert job machine.jobsBeingComputed }

/-- A job ends on the machine. -/
def eraseJob (job : String) (machine : Machine) : Machine :=
  { machine with jobsBeingComputed := machine.jobsBeingComputed.erase job }

/-- `set_pstate` of the machine's host. -/
def setPstate (ps : ℕ) (machine : Machine) : Machine := { machine with pstate := ps }

end Machine

namespace Machines

/-- The compute machines that are left when their number is limited. -/
def limitMachines (computeNodes : List Host) (limitMachineCount : ℤ) : Except SimAbort (List Host) :=
  if 0 < limitMachineCount then
    if limitMachineCount ≤ computeNodes.length then .ok (computeNodes.take limitMachineCount.toNat)
    else .error (.notEnoughMachines limitMachineCount computeNodes.length)
  else .ok computeNodes

/-- `create_machines`. The compute machines come first, in the order of the hosts: what `sort_machines_by_ascending_name` sorts is
a copy. -/
def createMachines (hosts : List Host) (limitMachineCount : ℤ) : Except SimAbort Machines :=
  if ¬(limitMachineCount = -1 ∨ 0 < limitMachineCount) then .error (.badMachineLimit limitMachineCount)
  else if 1 < hosts.countP (·.permissions = .master) then .error .severalMasters
  else
    match limitMachines (hosts.filter (·.permissions = .computeNode)) limitMachineCount with
    | .error e => .error e
    | .ok computeNodes =>
      if hosts.countP (·.permissions = .master) = 0 then .error .noMaster
      else .ok {
        machines := (computeNodes ++ hosts.filter (·.permissions = .storage)).mapIdx fun id host => { toHost := host, id := id }
        nbMachinesInEachState := Function.update (fun _ => 0) .idle (computeNodes.length : ℤ) }

/-- `update_nb_machines_in_each_state`. -/
def updateNbMachinesInEachState (counters : MachineState → ℤ) (oldState newState : MachineState) : MachineState → ℤ :=
  let fewer := Function.update counters oldState (counters oldState - 1)
  Function.update fewer newState (fewer newState + 1)

/-- `Machine::update_machine_state`. -/
def updateMachineState (ms : Machines) (date : ℚ) (id : ℕ) (newState : MachineState) : Except SimAbort Machines :=
  match ms.machines[id]? with
  | none => .error (.noSuchMachine id)
  | some machine =>
    if date < machine.lastStateChangeDate then .error (.timeHasDecreased id)
    else .ok {
      machines := ms.machines.modify id (Machine.changeState date newState)
      nbMachinesInEachState := updateNbMachinesInEachState ms.nbMachinesInEachState machine.state newState }

/-- A change of one machine that is not one of its state. -/
def modify (ms : Machines) (id : ℕ) (f : Machine → Machine) : Machines := { ms with machines := ms.machines.modify id f }

/-- The loop of `update_machines_on_job_run`. -/
def runOnMachine (date : ℚ) (job : String) (ms : Machines) (id : ℕ) : Except SimAbort Machines :=
  (ms.updateMachineState date id .computing).map (·.modify id (Machine.insertJob job))

/-- The loop of `update_machines_on_job_end`. -/
def endOnMachine (date : ℚ) (job : String) (ms : Machines) (id : ℕ) : Except SimAbort Machines :=
  match ms.machines[id]? with
  | none => .error (.noSuchMachine id)
  | some machine =>
    if machine.jobsBeingComputed = ∅ then .error (.noJobIsComputed id job)
    else if job ∉ machine.jobsBeingComputed then .error (.couldNotEraseJob id job)
    else
      let erased := ms.modify id (Machine.eraseJob job)
      if machine.jobsBeingComputed.erase job = ∅ ∧ machine.state ≠ .unavailable then erased.updateMachineState date id .idle
      else .ok erased

/-- `update_machines_on_job_run`. -/
def updateMachinesOnJobRun (ms : Machines) (date : ℚ) (job : String) (usedMachines : IntervalSet) : Except SimAbort Machines :=
  Execution.runFrom (runOnMachine date job) ms usedMachines.sort

/-- `update_machines_on_job_end`. -/
def updateMachinesOnJobEnd (ms : Machines) (date : ℚ) (job : String) (usedMachines : IntervalSet) : Except SimAbort Machines :=
  Execution.runFrom (endOnMachine date job) ms usedMachines.sort

end Machines

/-! ## What changes the machines -/

structure SimConfig where
  allowComputeSharing : Bool := false
  allowStorageSharing : Bool := false
  energyUsed : Bool := false

/-- A machine that a process switches on or off, and the power state that it is switched to. -/
structure Switching where
  machine : ℕ
  newPstate : ℕ
  isOn : Bool
  deriving DecidableEq

/-- The machines, what the server and the jobs' processes keep of the jobs, and the processes that switch machines. -/
structure MachinesState where
  machines : Machines
  jobState : String → JobState := fun _ => .notSubmitted
  allocation : String → IntervalSet := fun _ => ∅
  switching : List Switching := []

/-- What happens to machines in a simulation, at some date. -/
inductive MachinesEvent where
  | submitJob (job : String)
  | executeJob (job : String) (machines : IntervalSet)
  /-- `execute_task` returns in the process of the job. -/
  | returned (job : String) (returnCode : ℤ)
  /-- The killer comes to the job, and cancels the parallel task that it runs, if it runs one. -/
  | kill (job : String) (runsParallelTask : Bool)
  | pstateModification (machines : IntervalSet) (newPstate : ℕ)
  /-- A process has switched its machine on or off. -/
  | switched (switching : Switching)
  | machineUnavailable (machines : IntervalSet)
  | machineAvailable (machines : IntervalSet)

namespace MachinesState

variable (c : SimConfig)

/-- What the server checks of a machine that a job is to be executed on. -/
def checkMachine (job : String) (s : MachinesState) (id : ℕ) : Except SimAbort MachinesState :=
  match s.machines.machines[id]? with
  | none => .error (.noSuchMachine id)
  | some machine =>
    if machine.permissions = .computeNode ∧ !c.allowComputeSharing ∧ machine.jobsBeingComputed ≠ ∅ then
      .error (.sharingDisabled job id)
    else if machine.permissions = .storage ∧ !c.allowStorageSharing ∧ machine.jobsBeingComputed ≠ ∅ then
      .error (.sharingDisabled job id)
    else if machine.state ≠ .computing ∧ machine.state ≠ .idle then .error (.cannotComputeNow job id)
    else if c.energyUsed ∧ machine.pstates machine.pstate ≠ some .computationPstate then
      .error (.notInComputationPstate job id)
    else .ok s

/-- `server_on_execute_job`, and `execute_job_process` until the job's task begins. -/
def executeJob (s : MachinesState) (date : ℚ) (job : String) (machines : IntervalSet) : Except SimAbort MachinesState :=
  if s.jobState job ≠ .submitted then .error (.notSubmitted job)
  else
    match Execution.runFrom (checkMachine c job) s machines.sort with
    | .error e => .error e
    | .ok s => (s.machines.updateMachinesOnJobRun date job machines).map fun ms => { s with
        machines := ms
        jobState := Function.update s.jobState job .running
        allocation := Function.update s.allocation job machines }

/-- The state of a job whose task has returned. -/
def stateOfReturnCode (returnCode : ℤ) : JobState :=
  if returnCode = 0 then .completedSuccessfully
  else if 0 < returnCode then .completedFailed
  else if returnCode = -1 then .completedWalltimeReached
  else .completedKilled

/-- A running job ends. -/
def endJob (s : MachinesState) (date : ℚ) (job : String) (state : JobState) : Except SimAbort MachinesState :=
  (s.machines.updateMachinesOnJobEnd date job (s.allocation job)).map fun ms => { s with
    machines := ms
    jobState := Function.update s.jobState job state }

/-- The rest of `execute_job_process`, which only runs while the job does. -/
def onReturned (s : MachinesState) (date : ℚ) (job : String) (returnCode : ℤ) : Except SimAbort MachinesState :=
  if s.jobState job = .running then s.endJob date job (stateOfReturnCode returnCode) else .error (.notRunning job)

/-- `killer_process`, for one of its jobs. A job whose parallel task is cancelled ends by itself. -/
def onKill (s : MachinesState) (date : ℚ) (job : String) (runsParallelTask : Bool) : Except SimAbort MachinesState :=
  if s.jobState job = .rejected ∨ s.jobState job = .submitted ∨ s.jobState job = .notSubmitted then .error (.badKill job)
  else if s.jobState job = .running ∧ !runsParallelTask then s.endJob date job .completedKilled
  else .ok s

/-- `switch_off_machine_process` and `switch_on_machine_process` until the switch begins, on the machine that the server has put
in transition. -/
def startSwitching (s : MachinesState) (ms : Machines) (machine : Machine) (switching : Switching) (virtual? : Option ℕ) :
    Except SimAbort MachinesState :=
  match virtual? with
  | none => .error (.noSuchPstate switching.machine switching.newPstate)
  | some virtualPstate =>
    if machine.jobsBeingComputed ≠ ∅ then .error (.jobsAreRunning switching.machine)
    else .ok { s with
      machines := ms.modify switching.machine (Machine.setPstate virtualPstate)
      switching := switching :: s.switching }

/-- `set_pstate`, which aborts on a power state that the host does not have. -/
def setPstate (s : MachinesState) (machine : Machine) (id ps : ℕ) : Except SimAbort Machines :=
  if machine.pstates ps = none then .error (.noSuchPstate id ps) else .ok (s.machines.modify id (Machine.setPstate ps))

/-- The loop of `server_on_pstate_modification`. A power state that is not in the map is taken for a computation one, which is what
`operator[]` puts there. -/
def modifyPstate (date : ℚ) (newPstate : ℕ) (s : MachinesState) (id : ℕ) : Except SimAbort MachinesState :=
  match s.machines.machines[id]? with
  | none => .error (.noSuchMachine id)
  | some machine =>
    match (machine.pstates machine.pstate).getD .computationPstate, (machine.pstates newPstate).getD .computationPstate with
    | .computationPstate, .computationPstate =>
      (s.setPstate machine id newPstate).map fun ms => { s with machines := ms }
    | .computationPstate, .sleepPstate =>
      match s.machines.updateMachineState date id .transitingFromComputingToSleeping with
      | .error e => .error e
      | .ok ms => startSwitching s ms machine { machine := id, newPstate := newPstate, isOn := false }
          ((machine.sleepPstates newPstate).map (·.switchOffVirtualPstate))
    | .sleepPstate, .computationPstate =>
      match s.machines.updateMachineState date id .transitingFromSleepingToComputing with
      | .error e => .error e
      | .ok ms => startSwitching s ms machine { machine := id, newPstate := newPstate, isOn := true }
          ((machine.sleepPstates machine.pstate).map (·.switchOnVirtualPstate))
    | .sleepPstate, _ => .error (.switchedOnToNoComputationPstate id newPstate)
    -- the server only reports that a power state is not valid
    | .computationPstate, .transitionVirtualPstate => .ok s
    | .transitionVirtualPstate, _ => .ok s

/-- `server_on_pstate_modification`. -/
def onPstateModification (s : MachinesState) (date : ℚ) (machines : IntervalSet) (newPstate : ℕ) : Except SimAbort MachinesState :=
  if c.energyUsed then Execution.runFrom (modifyPstate date newPstate) s machines.sort else .error .energyNotUsed

/-- The end of `switch_off_machine_process` and `switch_on_machine_process`. -/
def onSwitched (s : MachinesState) (date : ℚ) (switching : Switching) : Except SimAbort MachinesState :=
  if switching ∈ s.switching then
    match s.machines.machines[switching.machine]? with
    | none => .error (.noSuchMachine switching.machine)
    | some machine =>
      match s.setPstate machine switching.machine switching.newPstate with
      | .error e => .error e
      | .ok ms =>
        (ms.updateMachineState date switching.machine (if switching.isOn then .idle else .sleeping)).map fun ms => { s with
          machines := ms
          switching := s.switching.erase switching }
  else .error (.notSwitching switching.machine)

/-- The loop of `server_on_event_machine_unavailable`. -/
def makeUnavailable (date : ℚ) (ms : Machines) (id : ℕ) : Except SimAbort Machines :=
  match ms.machines[id]? with
  | none => .error (.noSuchMachine id)
  | some machine =>
    if machine.state = .unavailable then .error (.alreadyUnavailable id) else ms.updateMachineState date id .unavailable

/-- The loop of `server_on_event_machine_available`. -/
def makeAvailable (date : ℚ) (ms : Machines) (id : ℕ) : Except SimAbort Machines :=
  match ms.machines[id]? with
  | none => .error (.noSuchMachine id)
  | some machine =>
    if machine.state ≠ .unavailable then .error (.notUnavailable id)
    else if machine.jobsBeingComputed = ∅ then ms.updateMachineState date id .idle
    else ms.updateMachineState date id .computing

def step (s : MachinesState) : ℚ × MachinesEvent → Except SimAbort MachinesState
  | (_, .submitJob job) =>
    if s.jobState job = .notSubmitted then .ok { s with jobState := Function.update s.jobState job .submitted } else .ok s
  | (date, .executeJob job machines) => s.executeJob c date job machines
  | (date, .returned job returnCode) => s.onReturned date job returnCode
  | (date, .kill job runsParallelTask) => s.onKill date job runsParallelTask
  | (date, .pstateModification machines newPstate) => s.onPstateModification c date machines newPstate
  | (date, .switched switching) => s.onSwitched date switching
  | (date, .machineUnavailable machines) =>
    (Execution.runFrom (makeUnavailable date) s.machines machines.sort).map fun ms => { s with machines := ms }
  | (date, .machineAvailable machines) =>
    (Execution.runFrom (makeAvailable date) s.machines machines.sort).map fun ms => { s with machines := ms }

end MachinesState

end ScheduleTest
