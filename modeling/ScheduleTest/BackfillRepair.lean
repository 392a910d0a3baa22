import ScheduleTest.ScheduleCall
import ScheduleTest.FastScheduler

/-!
# Failures and repairs in the backfilling schedulers

How `conservative_bf.cpp` and `easy_bf2.cpp` deal with failures: a requested call notes a failure, which takes a machine down at
the end of the step; the call that reports a repair done brings a machine back. What else these schedulers do to their schedule is
a sequence of calls of its operations.
-/

namespace ScheduleTest

namespace Schedule

/-- `Schedule::get_reservations_running_on_machines`, in the first slice. -/
def reservationsRunningOnMachines (first : TimeSlice) (machines : IntervalSet) : List Job :=
  (first.allocatedJobs.entries.filter (fun entry => (entry.2 ∩ machines).Nonempty ∧ entry.1.isReservation)).map (·.1)

/-- `Schedule::get_jobs_running_on_machines`, in the first slice. -/
def jobsRunningOnMachines (first : TimeSlice) (machines : IntervalSet) : List Job :=
  (first.allocatedJobs.entries.filter (fun entry => (entry.2 ∩ machines).Nonempty ∧ !entry.1.isReservation)).map (·.1)

/-- `Schedule::incorrect_call_me_later`: the first slice ends later, and the second begins later. -/
def incorrectCallMeLater (s : Schedule) (difference : ℚ) : Except Abort Schedule :=
  match s.profile with
  | first :: slice :: rest => .ok { s with
      profile := { first with endDate := first.endDate + difference, length := first.length + difference } ::
        { slice with beginDate := slice.beginDate + difference, length := slice.length - difference } :: rest }
  | _ => .error .pastTheEnd

end Schedule

/-- The constants of a run. -/
structure BackfillConfig extends FastConfig where
  /-- The repair time of each machine, where no global one is set. -/
  machineRepairTime : ℕ → ℚ := fun _ => 0

/-- The part of a scheduler's state that decides about failures. -/
structure BackfillState where
  schedule : Schedule
  queueIsEmpty : Bool := true
  noMoreStaticJobToSubmitReceived : Bool := false
  /-- How many failures are to take a machine down for repair (`_on_machine_down_for_repairs`). -/
  onMachineDownForRepairs : ℕ := 0
  decision : SchedulingDecision := {}

/-- What happens to a scheduler other than a requested call: calls of its schedule's operations, messages that change whether
there is work left, calls it asks for, and the failures noted before. -/
inductive BackfillEvent where
  | schedule (call : ScheduleCall)
  | reservation (call : ReservationCall)
  | queueIsEmpty (isEmpty : Bool)
  | noMoreStaticJobToSubmit
  | callMeLater (forWhat : CallMeLaterType) (time : ℚ) (jobId : String)
  | onMachineDownForRepair

namespace BackfillState

/-- The state at the start of a simulation. -/
def new (c : BackfillConfig) (date failure : ℚ) : BackfillState where
  schedule := Schedule.new c.nbMachines date
  decision := c.setGenerators date failure

/-- The time a repair takes: drawn where a mean time to repair is given, else the global one, else that of the machine. -/
def repairTimeOf (c : BackfillConfig) (number : ℕ) (repair : ℚ) : ℚ :=
  if c.mttr ≠ -1 then repair else if c.repairTime ≠ -1 then c.repairTime else c.machineRepairTime number

/-- A machine that goes under repair: a call is asked for when it is repaired, and the jobs that run on it are killed. -/
def startRepair (c : BackfillConfig) (s : BackfillState) (first : TimeSlice) (date : ℚ) (number : ℕ) (repair : ℚ) :
    Except Abort BackfillState :=
  let decision := s.decision.addCallMeLater .repairDone number (date + repairTimeOf c number repair)
  let killed := Schedule.jobsRunningOnMachines first {number}
  let schedule := (s.schedule.addRepairMachine {number}).1
  if killed.isEmpty then .ok { s with schedule := schedule, decision := decision }
  else (schedule.removeJobs killed).map fun schedule => { s with
    schedule := schedule
    decision := decision.add (.killJobs (killed.map Job.id).toFinset) }

/-- `on_machine_down_for_repair`: nothing happens where a reservation runs on the machine or it is under repair already. What is
rescheduled when no job is killed is a sequence of calls of the schedule's operations. -/
def onMachineDownForRepair (c : BackfillConfig) (s : BackfillState) (date : ℚ) (draws : Draws) : Except Abort BackfillState :=
  match s.schedule.profile with
  | [] => .error .pastTheEnd
  | first :: _ =>
    if (Schedule.reservationsRunningOnMachines first {draws.number}).isEmpty ∧ draws.number ∉ s.schedule.repairMachines then
      startRepair c s first date draws.number draws.repair
    else .ok s

/-- `get_number_of_running_jobs() > 0 || !_queue->is_empty() || !_no_more_static_job_to_submit_received`. -/
def stillWorking (s : BackfillState) : Bool :=
  s.schedule.profile.head?.any (fun first => !first.allocatedJobs.entries.isEmpty) || !s.queueIsEmpty ||
    !s.noMoreStaticJobToSubmitReceived

/-- A failure is noted, to take a machine down where repairs take time, and the next one is asked for. -/
def noteFailure (c : BackfillConfig) (s : BackfillState) (forWhat : CallMeLaterType) (time : ℚ) : BackfillState :=
  if s.stillWorking then { s with
    onMachineDownForRepairs :=
      if c.repairTime = 0 ∧ c.mttr = -1 then s.onMachineDownForRepairs else s.onMachineDownForRepairs + 1
    decision := s.decision.addCallMeLater forWhat 1 time }
  else s

/-- The branches of `on_requested_call`. -/
def answerCall (c : BackfillConfig) (s : BackfillState) (date : ℚ) (id : ℕ) (draws : Draws) : CallMeLaterType → BackfillState
  | .smtbf => s.noteFailure c .smtbf (draws.failure + date)
  | .fixedFailure => s.noteFailure c .fixedFailure (c.fixedFailures + date)
  | .repairDone => { s with schedule := (s.schedule.removeRepairMachines {id}).1 }
  | .mtbf => s
  | .reservationStart => s
  | .checkpointBatsched => s
  | .recoverFromCheckpoint => s

/-- `on_requested_call`. `conservative_bf` forgets the call, and corrects the schedule if a reservation starts late; `easy_bf2`
does not. -/
def onRequestedCall (c : BackfillConfig) (forgetsCalls : Bool) (s : BackfillState) (date : ℚ) (id : ℕ) (draws : Draws)
    (forWhat : CallMeLaterType) : Except Abort BackfillState :=
  let answered := s.answerCall c date id draws forWhat
  if forgetsCalls then
    let (decision, difference) := answered.decision.removeCallMeLater id date
    if difference ≠ 0 ∧ forWhat = .reservationStart then
      (answered.schedule.incorrectCallMeLater difference).map fun schedule =>
        { answered with schedule := schedule, decision := decision }
    else .ok { answered with decision := decision }
  else .ok answered

/-- What the scheduler does on an event. Repairs start and end in the handlers of failures and calls only. -/
def handle (c : BackfillConfig) (sorter : Sorter LargestFirst) (s : BackfillState) (date : ℚ) (draws : Draws) :
    BackfillEvent → Except Abort BackfillState
  | .schedule (.addRepairMachine _) => .error .impossibleMessage
  | .schedule (.removeRepairMachines _) => .error .impossibleMessage
  | .schedule call => (call.run s.schedule).map fun schedule => { s with schedule := schedule }
  | .reservation call => (call.run sorter s.schedule).map fun schedule => { s with schedule := schedule }
  | .queueIsEmpty isEmpty => .ok { s with queueIsEmpty := isEmpty }
  | .noMoreStaticJobToSubmit => .ok { s with noMoreStaticJobToSubmitReceived := true }
  | .callMeLater .repairDone _ _ => .error .impossibleMessage
  | .callMeLater forWhat time jobId => .ok { s with decision := s.decision.addCallMeLater forWhat 1 time jobId }
  | .onMachineDownForRepair =>
    match s.onMachineDownForRepairs with
    | 0 => .error .impossibleMessage
    | k + 1 => onMachineDownForRepair c { s with onMachineDownForRepairs := k } date draws

end BackfillState

end ScheduleTest
