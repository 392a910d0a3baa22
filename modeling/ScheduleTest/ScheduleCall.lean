import ScheduleTest.Reservation
import ScheduleTest.Lib.Execution

/-!
# Runs of calls on one schedule

The schedulers use a schedule through calls of its operations. A run is a list of calls from a new schedule on; it stops at the
first assertion that fails.
-/

namespace ScheduleTest

/-- A call of an operation of a schedule that works with jobs and machines under repair. -/
inductive ScheduleCall where
  | addJobFirstFit (job : Job) (assertInsertionSuccessful : Bool)
  | removeJob (job : Job)
  | removeJobIfExists (job : Job)
  | updateFirstSlice (currentTime : ℚ)
  | addRepairMachine (machine : IntervalSet)
  | removeRepairMachines (machines : IntervalSet)
  deriving DecidableEq

/-- The schedule after a call. -/
def ScheduleCall.run (s : Schedule) : ScheduleCall → Except Abort Schedule
  | .addJobFirstFit job assertInsertionSuccessful => (s.addJobFirstFit job assertInsertionSuccessful).map (·.1)
  | .removeJob job => s.removeJob job
  | .removeJobIfExists job => (s.removeJobIfExists job).map (·.1)
  | .updateFirstSlice currentTime => s.updateFirstSlice currentTime
  | .addRepairMachine machine => .ok (s.addRepairMachine machine).1
  | .removeRepairMachines machines => .ok (s.removeRepairMachines machines).1

/-- A call of an operation of a schedule that works with jobs and reservations. A reservation is added where the search for its
time slices, made for the same job just before, has succeeded. -/
inductive ReservationCall where
  | addReservation (job : Job)
  | addCurrentReservation (job : Job) (assertInsertionSuccessful : Bool)
  | removeReservationsIfReady
  | addJobFirstFit (job : Job) (assertInsertionSuccessful : Bool)
  | removeJob (job : Job)
  deriving DecidableEq

/-- The schedule after a call. -/
def ReservationCall.run (sorter : Sorter LargestFirst) (s : Schedule) : ReservationCall → Except Abort Schedule
  | .addReservation job =>
    match s.reserveTimeSlice sorter job with
    | .ok (s', reservation) => if reservation.success then s'.addReservation reservation else .ok s'
    | .error e => .error e
  | .addCurrentReservation job assertInsertionSuccessful =>
    (s.addCurrentReservation job assertInsertionSuccessful).map (·.1)
  | .removeReservationsIfReady => (s.removeReservationsIfReady []).map (·.1)
  | .addJobFirstFit job assertInsertionSuccessful => (s.addJobFirstFit job assertInsertionSuccessful).map (·.1)
  | .removeJob job => s.removeJob job

/-- The job a call is about, if it is about one. -/
def ScheduleCall.job : ScheduleCall → Option Job
  | .addJobFirstFit job _ => some job
  | .removeJob job => some job
  | .removeJobIfExists job => some job
  | _ => none

/-- The job a call adds, if it adds one. -/
def ScheduleCall.addedJob : ScheduleCall → Option Job
  | .addJobFirstFit job _ => some job
  | _ => none

end ScheduleTest
