import ScheduleTest.Job

/-!
# Decisions sent to the simulator

What the schedulers write into the messages for Batsim (`decision.cpp`). A scheduler that wants to be called back at a date sends
a call-me-later; the simulator answers it with a requested call that carries the id and the purpose it received. The id sent is
not the one the scheduler passes but a counter of all the calls asked for so far.
-/

namespace ScheduleTest

/-- `batsched_tools::call_me_later_types`. -/
inductive CallMeLaterType where
  | fixedFailure
  | smtbf
  | mtbf
  | repairDone
  | reservationStart
  | checkpointBatsched
  | recoverFromCheckpoint
  deriving DecidableEq, Repr

/-- A message to the simulator. -/
inductive Decision where
  | executeJob (id : String) (machines : IntervalSet)
  | killJobs (ids : Finset String)
  | rejectJob (id : String)
  | callMeLater (forWhat : CallMeLaterType) (id : ℕ) (targetTime : ℚ)
  /-- The next resubmission of a killed job. -/
  | resubmitJob (killed : String)
  | finishedSubmittingJobs
  deriving DecidableEq

/-- A call asked for, as the scheduler remembers it (`CALL_ME_LATERS`). -/
structure CallMeLater where
  forWhat : CallMeLaterType
  jobId : String
  time : ℚ
  id : ℕ
  deriving DecidableEq

/-- `SchedulingDecision`: the messages of the step under way, and the calls asked for so far. -/
structure SchedulingDecision where
  decisions : List Decision := []
  nbCallMeLaters : ℕ := 0
  callMeLaters : ℕ → Option CallMeLater := fun _ => none

namespace SchedulingDecision

/-- Write a message. -/
def add (d : SchedulingDecision) (decision : Decision) : SchedulingDecision :=
  { d with decisions := d.decisions ++ [decision] }

/-- `SchedulingDecision::add_call_me_later`. The id that is passed is not used. -/
def addCallMeLater (d : SchedulingDecision) (forWhat : CallMeLaterType) (_id : ℕ) (futureDate : ℚ)
    (jobId : String := "null") : SchedulingDecision where
  decisions := d.decisions ++ [.callMeLater forWhat d.nbCallMeLaters futureDate]
  nbCallMeLaters := d.nbCallMeLaters + 1
  callMeLaters := Function.update d.callMeLaters d.nbCallMeLaters
    (some { forWhat := forWhat, jobId := jobId, time := futureDate, id := d.nbCallMeLaters })

/-- `SchedulingDecision::remove_call_me_later`: by how much the call is late. A call that is not remembered counts as on time. The
walltime of a reservation that starts late, which the source shortens here, belongs to the job. -/
def removeCallMeLater (d : SchedulingDecision) (id : ℕ) (date : ℚ) : SchedulingDecision × ℚ :=
  ({ d with callMeLaters := Function.update d.callMeLaters id none },
    match d.callMeLaters id with
    | some call => if call.time < date then date - call.time else 0
    | none => 0)

/-- `SchedulingDecision::handle_resubmission`: each killed job is submitted again. -/
def handleResubmission (d : SchedulingDecision) (killed : List String) : SchedulingDecision :=
  { d with decisions := d.decisions ++ killed.map .resubmitJob }

/-- `SchedulingDecision::clear`: the messages have been sent. -/
def clear (d : SchedulingDecision) : SchedulingDecision := { d with decisions := [] }

@[simp] theorem decisions_add (d : SchedulingDecision) (decision : Decision) :
    (d.add decision).decisions = d.decisions ++ [decision] := rfl

@[simp] theorem decisions_handleResubmission (d : SchedulingDecision) (killed : List String) :
    (d.handleResubmission killed).decisions = d.decisions ++ killed.map .resubmitJob := rfl

@[simp] theorem decisions_clear (d : SchedulingDecision) : d.clear.decisions = [] := rfl

end SchedulingDecision

end ScheduleTest
