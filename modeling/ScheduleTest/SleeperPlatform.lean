import ScheduleTest.Sleeper
import Mathlib.Data.Multiset.AddSub

/-!
# The sleeper and what it is told

What follows from the messages between a simulator and the sleeper alone: which machines are idle, asleep, being switched or used, and
which jobs wait. The simulator tells only what can have happened: new jobs, the end of the job that runs, and machines that have got the
power state that they were being switched to. A decision is refused if the machines or the jobs do not allow it.
-/

namespace ScheduleTest

namespace SleeperOptions

variable (o : SleeperOptions)

/-- The power state that machines are switched to, on or off. -/
def pstate : Bool → ℕ
  | true => o.computePstate
  | false => o.sleepPstate

/-- Whether machines are on that have got a power state. -/
def isOn? (pstate : ℤ) : Option Bool := [true, false].find? fun on => pstate = o.pstate on

end SleeperOptions

/-- What stops the messages between a simulator and the sleeper. -/
inductive SleeperRunAbort where
  /-- The simulator tells what cannot have happened. -/
  | impossibleMessage
  /-- A job requests no machine. The simulator lets it through, but executes no job on no machine. -/
  | noMachineRequested
  /-- A decision that cannot be carried out. -/
  | refusedDecision
  | sleeper (reason : SleeperAbort)
  deriving DecidableEq

/-- The machines and the jobs, as far as messages tell. -/
structure SleeperPlatform where
  idle : Multiset ℕ
  asleep : Multiset ℕ := 0
  switching : Bool → Multiset ℕ := fun _ => 0
  submitted : List String := []
  /-- The jobs that have neither been executed nor rejected. -/
  waiting : List Job := []
  /-- The job that runs, and its machines. -/
  running : Option (Job × Multiset ℕ) := none

namespace SleeperPlatform

variable (o : SleeperOptions)

/-- The machines that may be switched on or off. -/
def resting (p : SleeperPlatform) : Bool → Multiset ℕ
  | true => p.asleep
  | false => p.idle

/-- Machines have been switched on or off. -/
def switched (p : SleeperPlatform) (on : Bool) (machines : Multiset ℕ) : SleeperPlatform :=
  { p with
    idle := p.idle + if on then machines else 0
    asleep := p.asleep + if on then 0 else machines
    switching := Function.update p.switching on (p.switching on - machines) }

/-- Machines begin to be switched on or off. -/
def order (p : SleeperPlatform) (on : Bool) (machines : Multiset ℕ) : SleeperPlatform :=
  { p with
    idle := p.idle - if on then 0 else machines
    asleep := p.asleep - if on then machines else 0
    switching := Function.update p.switching on (p.switching on + machines) }

/-- What the simulator tells has happened, if it can have. -/
def receive (p : SleeperPlatform) : SleeperEvent → Except SleeperRunAbort SleeperPlatform
  | .simulationEnds => .ok p
  | .notify => .ok p
  | .jobSubmitted job =>
    if job.id ∈ p.submitted ∨ job.id = "" then .error .impossibleMessage
    else if job.nbRequestedResources = 0 then .error .noMachineRequested
    else .ok { p with submitted := p.submitted ++ [job.id], waiting := p.waiting ++ [job] }
  | .jobCompleted id =>
    match p.running with
    | some (job, machines) =>
      if job.id = id then .ok { p with idle := p.idle + machines, running := none } else .error .impossibleMessage
    | none => .error .impossibleMessage
  | .resourceStateChanged machines newState =>
    match o.isOn? newState with
    | some on => if machines.val ≤ p.switching on then .ok (p.switched on machines.val) else .error .impossibleMessage
    | none => .error .impossibleMessage

/-- A decision is carried out, if it can be. Only a job that requests more machines than there are is rejected. -/
def send (p : SleeperPlatform) : ProtocolEvent → Except SleeperRunAbort SleeperPlatform
  | .rejectJob id =>
    match p.waiting.find? (·.id = id) with
    | some job => if o.nbMachines < job.nbRequestedResources then .ok { p with waiting := p.waiting.erase job } else .error .refusedDecision
    | none => .error .refusedDecision
  | .executeJob id machines [] =>
    match p.waiting.find? (·.id = id) with
    | some job =>
      if p.running.isNone ∧ 0 < machines.card ∧ machines.card = job.nbRequestedResources ∧ machines.val ≤ p.idle then .ok { p with
        idle := p.idle - machines.val
        waiting := p.waiting.erase job
        running := some (job, machines.val) }
      else .error .refusedDecision
    | none => .error .refusedDecision
  | .setResourceState machines newState =>
    match (Text.stoi newState.toList).bind o.isOn? with
    | some on => if 0 < machines.card ∧ machines.val ≤ p.resting on then .ok (p.order on machines.val) else .error .refusedDecision
    | none => .error .refusedDecision
  | _ => .error .refusedDecision

/-- A message and the answer to it. -/
def step (s : SleeperPlatform × SleeperState) (message : ℚ × List SleeperEvent) :
    Except SleeperRunAbort (SleeperPlatform × SleeperState) :=
  match Execution.runFrom (receive o) s.1 message.2 with
  | .error reason => .error reason
  | .ok told =>
    match Sleeper.onMessage o message.1 s.2 message.2 with
    | .error reason => .error (.sleeper reason)
    | .ok sleeper => (Execution.runFrom (send o) told sleeper.decision).map fun p => (p, sleeper)

/-- The messages of a simulation and the answers to them. All machines are idle at the beginning. -/
def run (messages : List (ℚ × List SleeperEvent)) : Except SleeperRunAbort (SleeperPlatform × SleeperState) :=
  Execution.runFrom (step o) ({ idle := (Finset.range o.nbMachines).val }, Sleeper.new o) messages

end SleeperPlatform

end ScheduleTest
