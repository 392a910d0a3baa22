import ScheduleTest.BackfillRepair
import ScheduleTest.FcfsFast2
import ScheduleTest.EasyBfFast2

/-!
# A scheduler and the simulator

The simulator keeps a waiter for every call-me-later it receives (`server_on_call_me_later`, `waiter_process`), and answers it at
the target time or later, with the id and the purpose it received (`server_on_waiting_done`). Several answers may be outstanding,
and messages of other kinds come in between in any order.

What the simulation records beside the messages is which machine failed when a call was asked for, and until when that machine's
repair takes.
-/

namespace ScheduleTest

/-- A call the simulator has yet to answer, and the machine drawn when it was asked for. -/
structure PendingCall where
  forWhat : CallMeLaterType
  id : ℕ
  targetTime : ℚ
  machine : ℕ
  deriving DecidableEq

/-- What makes a scheduler act: the answer to a call, or something else. -/
inductive Cause (ε : Type) where
  | call (forWhat : CallMeLaterType)
  | message (event : ε)

/-- A scheduler as far as its repairs go. -/
structure RepairScheduler where
  State : Type
  Event : Type
  decision : State → SchedulingDecision
  repairMachines : State → IntervalSet
  onRequestedCall : State → ℚ → ℕ → CallMeLaterType → Draws → Except Abort State
  handle : State → Event → ℚ → Draws → Except Abort State
  /-- The machine that the scheduler is about to put under repair, and until when. -/
  goesDown : State → Cause Event → ℚ → Draws → Option (ℕ × ℚ)

/-- A scheduler, the date, the calls that are not answered yet, and until when the last repair of each machine takes. -/
structure Simulation (r : RepairScheduler) where
  scheduler : r.State
  now : ℚ
  pendingCalls : List PendingCall
  repairedAt : ℕ → Option ℚ

/-- A step of the simulation: a message, the answer to one of the pending calls, or one of the calls that the simulator asks
itself for, to make a checkpoint or recover from one. -/
inductive SimulationEvent (ε : Type) where
  | message (event : ε) (date : ℚ) (draws : Draws)
  | requestedCall (index : ℕ) (date : ℚ) (draws : Draws)
  | ownCall (recovers : Bool) (date : ℚ) (draws : Draws)

/-- The calls asked for in the messages of a step. -/
def callsAsked (machine : ℕ) (decisions : List Decision) : List PendingCall :=
  decisions.filterMap fun
    | .callMeLater forWhat id targetTime => some { forWhat := forWhat, id := id, targetTime := targetTime, machine := machine }
    | _ => none

/-- The repairs among some calls. -/
def repairsAmong (calls : List PendingCall) : List PendingCall := calls.filter (·.forWhat = .repairDone)

namespace Simulation

variable {r : RepairScheduler}

/-- The simulation after a step of the scheduler: the calls it asks for are now pending. -/
def after (S : Simulation r) (s' : r.State) (date : ℚ) (draws : Draws) (pending : List PendingCall) : Simulation r :=
  let asked := callsAsked draws.number (r.decision s').decisions
  { scheduler := s'
    now := date
    pendingCalls := pending ++ asked
    repairedAt := fun m =>
      match (repairsAmong asked).find? (·.machine = m) with
      | some call => some call.targetTime
      | none => S.repairedAt m }

/-- A step of the simulation. -/
def step (S : Simulation r) : SimulationEvent r.Event → Except Abort (Simulation r)
  | .message event date draws =>
    if S.now ≤ date then (r.handle S.scheduler event date draws).map fun s' => S.after s' date draws S.pendingCalls
    else .error .impossibleMessage
  | .requestedCall index date draws =>
    match S.pendingCalls[index]? with
    | some call =>
      if S.now ≤ date ∧ call.targetTime ≤ date then
        (r.onRequestedCall S.scheduler date call.id call.forWhat draws).map fun s' =>
          S.after s' date draws (S.pendingCalls.eraseIdx index)
      else .error .impossibleMessage
    | none => .error .impossibleMessage
  | .ownCall recovers date draws =>
    if S.now ≤ date then
      (r.onRequestedCall S.scheduler date 1 (if recovers then .recoverFromCheckpoint else .checkpointBatsched) draws).map
        fun s' => S.after s' date draws S.pendingCalls
    else .error .impossibleMessage

/-- The simulation at its start: the calls that the scheduler asks for at once are pending. -/
def new (s : r.State) (date : ℚ) : Simulation r where
  scheduler := s
  now := date
  pendingCalls := callsAsked 0 (r.decision s).decisions
  repairedAt := fun _ => none

end Simulation

/-- Whether a requested call makes a fast scheduler take a machine down, which it draws. -/
def FastState.goesDown (c : FastConfig) (s : FastState) (cause : Cause FastEvent) (date : ℚ) (draws : Draws) : Option (ℕ × ℚ) :=
  match cause with
  | .call .smtbf | .call .fixedFailure =>
    if s.stillWorking ∧ c.repairTime ≠ 0 ∧ draws.number ∉ s.repairMachines then
      some (draws.number, date + FastState.repairTimeOf c draws.repair)
    else none
  | _ => none

/-- A fast scheduler. A requested call comes from the simulator's waiters only. -/
def fastScheduler (State : Type) (toFastState : State → FastState) (step : State → FastEvent → Except Abort State)
    (c : FastConfig) : RepairScheduler where
  State := State
  Event := FastEvent
  decision := fun s => (toFastState s).decision
  repairMachines := fun s => (toFastState s).repairMachines
  onRequestedCall := fun s date id forWhat draws => step s (.requestedCall date id forWhat draws)
  handle := fun s event _ _ =>
    match event with
    | .requestedCall _ _ _ _ => .error .impossibleMessage
    | event => step s event
  goesDown := fun s => (toFastState s).goesDown c

/-- Whether a noted failure takes a machine down: one on which no reservation runs and that is not under repair. -/
def BackfillState.goesDown (c : BackfillConfig) (s : BackfillState) (cause : Cause BackfillEvent) (date : ℚ) (draws : Draws) :
    Option (ℕ × ℚ) :=
  match cause, s.schedule.profile with
  | .message .onMachineDownForRepair, first :: _ =>
    if (Schedule.reservationsRunningOnMachines first {draws.number}).isEmpty ∧ draws.number ∉ s.schedule.repairMachines then
      some (draws.number, date + BackfillState.repairTimeOf c draws.number draws.repair)
    else none
  | _, _ => none

/-- A backfilling scheduler. The messages of the step before have been sent. -/
def backfillScheduler (c : BackfillConfig) (sorter : Sorter LargestFirst) (forgetsCalls : Bool) : RepairScheduler where
  State := BackfillState
  Event := BackfillEvent
  decision := (·.decision)
  repairMachines := (·.schedule.repairMachines)
  onRequestedCall := fun s date id forWhat draws =>
    BackfillState.onRequestedCall c forgetsCalls { s with decision := s.decision.clear } date id draws forWhat
  handle := fun s event date draws => BackfillState.handle c sorter { s with decision := s.decision.clear } date draws event
  goesDown := BackfillState.goesDown c

/-- The schedulers that repair machines. -/
inductive RepairAlgorithm where
  | conservativeBf
  | easyBf2
  | fcfsFast2
  | easyBfFast2

namespace RepairAlgorithm

/-- The scheduler of a name. -/
def scheduler (c : BackfillConfig) (sorter : Sorter LargestFirst) : RepairAlgorithm → RepairScheduler
  | conservativeBf => backfillScheduler c sorter true
  | easyBf2 => backfillScheduler c sorter false
  | fcfsFast2 => fastScheduler FastState id (FCFSFast2.step c.toFastConfig) c.toFastConfig
  | easyBfFast2 => fastScheduler EasyState (·.toFastState) (EasyBFFast2.step c.toFastConfig) c.toFastConfig

/-- Its state at the start of a simulation. -/
def initial (c : BackfillConfig) (sorter : Sorter LargestFirst) (date failure : ℚ) :
    (a : RepairAlgorithm) → (a.scheduler c sorter).State
  | conservativeBf => BackfillState.new c date failure
  | easyBf2 => BackfillState.new c date failure
  | fcfsFast2 => FastState.new c.toFastConfig date failure
  | easyBfFast2 => EasyBFFast2.new c.toFastConfig date failure

end RepairAlgorithm

end ScheduleTest
