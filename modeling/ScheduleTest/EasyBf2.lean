import ScheduleTest.EasyBf
import ScheduleTest.ConservativeBf

/-!
# EASY backfilling with failures

`easy_bf2.cpp`: what `easy_bf.cpp` does, and between the jobs released and the queue the failures noted since the last step. A job
that runs on a machine that fails is killed, and leaves the schedule at once. The messages are those of `conservative_bf.cpp`.
-/

namespace ScheduleTest

structure EasyBf2Config extends BackfillConfig where
  order : SortableJobOrder := FCFSOrder

/-- What `easy_bf.cpp` knows of the constants. -/
def EasyBf2Config.toEasyBfConfig (c : EasyBf2Config) : EasyBfConfig where
  nbMachines := c.nbMachines
  order := c.order

structure EasyBf2State extends EasyBfState where
  noMoreStaticJobToSubmitReceived : Bool := false
  /-- How many failures are to take a machine down and up at once, and down for repair. -/
  onMachineInstantDownUps : ℕ := 0
  onMachineDownForRepairs : ℕ := 0

namespace EasyBf2

open Execution (runFrom)

/-- `on_simulation_start`. -/
def new (c : EasyBf2Config) (date failure : ℚ) : EasyBf2State where
  toEasyBfState := { EasyBf.new c.toEasyBfConfig date with decision := c.setGenerators date failure }

/-! ## Failures -/

/-- The jobs that run on a machine are killed, and leave the schedule. -/
def killRunning (s : EasyBfState) (killed : List Job) : Except Abort EasyBfState :=
  (s.schedule.removeJobs killed).map fun schedule => { s with
    schedule := schedule
    decision := s.decision.add (.killJobs (killed.map Job.id).toFinset) }

/-- `on_machine_instant_down_up`. -/
def onMachineInstantDownUp (s : EasyBfState) (number : ℕ) : Except Abort EasyBfState :=
  match s.schedule.profile with
  | [] => .error .pastTheEnd
  | first :: _ =>
    if 0 < s.schedule.numberOfRunningJobs then
      let killed := Schedule.jobsRunningOnMachines first {number}
      if killed.isEmpty then .ok s else killRunning s killed
    else .ok s

/-- A machine goes under repair: a call is asked for when it is repaired. The jobs that run on it are killed, as they are where the
machine recovers at once. -/
def startRepair (c : EasyBf2Config) (s : EasyBfState) (date : ℚ) (draws : Draws) : Except Abort EasyBfState :=
  onMachineInstantDownUp { s with
    schedule := (s.schedule.addRepairMachine {draws.number}).1
    decision := s.decision.addCallMeLater .repairDone draws.number
      (date + BackfillState.repairTimeOf c.toBackfillConfig draws.number draws.repair) } draws.number

/-- `on_machine_down_for_repair`: nothing happens where a reservation runs on the machine or it is under repair already. -/
def onMachineDownForRepair (c : EasyBf2Config) (date : ℚ) (s : EasyBfState) (draws : Draws) : Except Abort EasyBfState :=
  match s.schedule.profile with
  | [] => .error .pastTheEnd
  | first :: _ =>
    if (Schedule.reservationsRunningOnMachines first {draws.number}).isEmpty ∧ draws.number ∉ s.schedule.repairMachines then
      startRepair c s date draws
    else .ok s

/-- The failures noted since the last step are dealt with: those that a machine recovers from at once, then the others. -/
def handleFailures (c : EasyBf2Config) (s : EasyBfState) (date : ℚ) (instantDowns : List ℕ) (downs : List Draws) :
    Except Abort EasyBfState :=
  match runFrom onMachineInstantDownUp s instantDowns with
  | .ok s' => runFrom (onMachineDownForRepair c date) s' downs
  | .error e => .error e

/-- The machines drawn for the failures that a machine recovers from at once. -/
def instantDowns (s : EasyBf2State) (draws : ℕ → Draws) : List ℕ :=
  (List.range s.onMachineInstantDownUps).map fun k => (draws k).number

/-- What is drawn for the failures that take a machine down for repair. -/
def downs (s : EasyBf2State) (draws : ℕ → Draws) : List Draws := (List.range s.onMachineDownForRepairs).map draws

/-! ## Decisions -/

/-- `make_decisions` up to the backfilling. -/
def prepare (c : EasyBf2Config) (s : EasyBfState) (date currentDate : ℚ) (instantDowns : List ℕ) (downs : List Draws) :
    Except Abort EasyBfState :=
  match EasyBf.handleJobs c.toEasyBfConfig s currentDate with
  | .ok s₁ => match s₁.schedule.updateFirstSlice date with
    | .ok schedule => match handleFailures c { s₁ with schedule := schedule } date instantDowns downs with
      | .ok s₂ => EasyBf.sortQueueWhileHandlingPriorityJob c.toEasyBfConfig s₂ s.queue.firstJob? currentDate
      | .error e => .error e
    | .error e => .error e
  | .error e => .error e

/-- `make_decisions`. -/
def makeDecisions (c : EasyBf2Config) (s : EasyBfState) (date currentDate : ℚ) (instantDowns : List ℕ) (downs : List Draws) :
    Except Abort EasyBfState :=
  match prepare c s date currentDate instantDowns downs with
  | .ok s' =>
    if s.jobsEndedRecently.isEmpty then
      (runFrom (EasyBf.backfillReleased s'.queue.firstJob?) (s', EasyBf.nbAvailableMachines s')
        (EasyBf.recentlyQueuedJobs c.toEasyBfConfig s)).map (·.1)
    else if 0 < EasyBf.nbAvailableMachines s' then
      (runFrom EasyBf.traverseJob (s', s'.queue.firstJob?) s'.queue.jobs).map (·.1)
    else .ok s'
  | .error e => .error e

/-! ## Messages -/

/-- Whether there is work left that a failure could hit. -/
def stillWorking (s : EasyBf2State) : Bool :=
  0 < s.schedule.numberOfRunningJobs || !s.queue.isEmpty || !s.noMoreStaticJobToSubmitReceived

/-- A failure is noted, and the next one is asked for. -/
def noteFailure (c : EasyBf2Config) (s : EasyBf2State) (forWhat : CallMeLaterType) (time : ℚ) : EasyBf2State :=
  if stillWorking s then
    let instant := c.repairTime = 0 ∧ c.mttr = -1
    { s with
      onMachineInstantDownUps := if instant then s.onMachineInstantDownUps + 1 else s.onMachineInstantDownUps
      onMachineDownForRepairs := if instant then s.onMachineDownForRepairs else s.onMachineDownForRepairs + 1
      decision := s.decision.addCallMeLater forWhat 1 time }
  else s

/-- `on_requested_call`. That a reservation is to start is noted in a flag that nothing reads. -/
def onRequestedCall (c : EasyBf2Config) (s : EasyBf2State) (date : ℚ) (id : ℕ) (draws : Draws) : CallMeLaterType → EasyBf2State
  | .smtbf => noteFailure c s .smtbf (draws.failure + date)
  | .fixedFailure => noteFailure c s .fixedFailure (c.fixedFailures + date)
  | .repairDone => { s with schedule := (s.schedule.removeRepairMachines {id}).1 }
  | .reservationStart => s
  | .mtbf => s
  | .checkpointBatsched => s
  | .recoverFromCheckpoint => s

/-- What the scheduler does on a message. It does not look at the jobs reported killed. -/
def step (c : EasyBf2Config) (s : EasyBf2State) : ConservativeEvent → Except Abort EasyBf2State
  | .jobSubmitted job =>
    (EasyBf.step c.toEasyBfConfig s.toEasyBfState (.jobSubmitted job)).map fun t => { s with toEasyBfState := t }
  | .jobCompleted id =>
    (EasyBf.step c.toEasyBfConfig s.toEasyBfState (.jobCompleted id)).map fun t => { s with toEasyBfState := t }
  | .jobsKilled _ => .ok s
  | .requestedCall date id forWhat draws => .ok (onRequestedCall c s date id draws forWhat)
  | .noMoreStaticJobToSubmit => .ok { s with noMoreStaticJobToSubmitReceived := true }
  | .makeDecisions date currentDate instantDraws downDraws =>
    (makeDecisions c { s.toEasyBfState with decision := s.decision.clear } date currentDate (instantDowns s instantDraws)
      (downs s downDraws)).map fun t => { s with
        toEasyBfState := { t with jobsReleasedRecently := [], jobsEndedRecently := [] }
        onMachineInstantDownUps := 0
        onMachineDownForRepairs := 0 }

/-- The scheduler as far as its jobs go. -/
def scheduler (c : EasyBf2Config) : JobScheduler EasyBf2State ConservativeEvent where
  step := step c
  decisions := (·.decision.decisions)
  notice := ConservativeBf.notice

end EasyBf2

end ScheduleTest
