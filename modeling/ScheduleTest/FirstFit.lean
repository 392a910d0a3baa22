import ScheduleTest.ScheduleCall
import ScheduleTest.Lib.Intervals

/-!
# First fit with any selector, and the estimate of waiting times

`add_job_first_fit` takes the selector of the machines as an argument (`locality.cpp`); the schedulers that are modelled give it
the basic one. `Schedule::query_wait` is a second search of the profile, written by itself in the source and here.
-/

namespace ScheduleTest

/-- `ContiguousResourceSelector::fit`: the leftmost machines of the first interval of available machines that is long enough. -/
def ContiguousResourceSelector.fit (job : Job) (available : IntervalSet) : Option IntervalSet :=
  available.intervals.findSome? (fun it =>
    if job.nbRequestedResources ≤ it.2 - it.1 + 1 then some ((Finset.Icc it.1 it.2).leftmost job.nbRequestedResources)
    else none)

/-- `LimitedRangeResourceSelector::fit`: the leftmost available machines of a range, where there are enough. -/
def LimitedRangeResourceSelector.fit (limitedRange : IntervalSet) (job : Job) (available : IntervalSet) : Option IntervalSet :=
  let limitedAvailable := available ∩ limitedRange
  if job.nbRequestedResources ≤ limitedAvailable.card then some (limitedAvailable.leftmost job.nbRequestedResources) else none

/-- The selectors of machines (`ResourceSelector`). -/
inductive ResourceSelector where
  | basic
  | contiguous
  | limitedRange (range : IntervalSet)
  deriving DecidableEq

/-- `ResourceSelector::fit`. -/
def ResourceSelector.fit : ResourceSelector → Job → IntervalSet → Option IntervalSet
  | .basic => BasicResourceSelector.fit
  | .contiguous => ContiguousResourceSelector.fit
  | .limitedRange range => LimitedRangeResourceSelector.fit range

namespace Schedule

/-- The anchor that `add_job_first_fit` finds with a selector. -/
def findAnchorWith (s : Schedule) (selector : ResourceSelector) (job : Job) : Option Anchor :=
  scanAnchor (·.availableMachines) (fun pit => (job.nbRequestedResources : ℤ) ≤ pit.nbAvailableMachines)
    (selector.fit job) job.nbRequestedResources (s.walltimeFrom job) [] s.profile

/-- The date at which a job placed at an anchor ends. -/
def endDateAt (s : Schedule) (job : Job) (a : Anchor) : ℚ := a.beginDate + s.walltimeFrom job (a.covered.head?.getD a.last)

/-- The allocation of a job placed at an anchor. The end date is set only where the job takes more than one slice. -/
def allocAt (s : Schedule) (job : Job) (a : Anchor) : JobAlloc where
  beginDate := a.beginDate
  endDate := if a.covered.isEmpty then 0 else s.endDateAt job a
  startedInFirstSlice := a.before.isEmpty
  job := some job
  usedMachines := a.usedMachines

/-- The schedule in which a job has been placed at an anchor. -/
def placedAt (s : Schedule) (job : Job) (a : Anchor) : Schedule :=
  { s.setAllocation job.id a.beginDate (s.allocAt job a) with
    profile := placeAt job a (s.endDateAt job a)
    size := s.size + 1
    nbJobsSize := s.nbJobsSize + 1 }

/-- `Schedule::add_job_first_fit` with a selector. -/
def addJobFirstFitWith (s : Schedule) (selector : ResourceSelector) (job : Job) (assertInsertionSuccessful : Bool) :
    Except Abort (Schedule × JobAlloc) :=
  if s.containsJob job then .error (.alreadyInSchedule job.id)
  else match s.findAnchorWith selector job with
  | some a => .ok (s.placedAt job a, s.allocAt job a)
  | none =>
    if assertInsertionSuccessful then .error (.couldNotAdd job.id)
    else .ok (s, { hasBeenInserted := false })

/-- With the basic selector this is `add_job_first_fit` as the schedulers call it. -/
theorem addJobFirstFitWith_basic (s : Schedule) (job : Job) (assertInsertionSuccessful : Bool) :
    s.addJobFirstFitWith .basic job assertInsertionSuccessful = s.addJobFirstFit job assertInsertionSuccessful := rfl

/-- The job that `query_wait` looks a place for. -/
def fakeJob (size : ℕ) (time : ℚ) : Job := { id := "fake", nbRequestedResources := size, walltime := time }

/-- The inner loop of `query_wait`, over the slices after one that is too short: whether the job fits. -/
def queryWaitEnd (fit : IntervalSet → Option IntervalSet) (size : ℕ) (time : ℚ) (availableMachines : IntervalSet) (totalTime : ℚ) :
    List TimeSlice → Bool
  | [] => false
  | pit2 :: rest =>
    if (size : ℤ) ≤ pit2.nbAvailableMachines then
      let availableMachines' := availableMachines ∩ pit2.availableMachines
      let totalTime' := totalTime + pit2.length
      if availableMachines'.card < size then false
      else if time ≤ totalTime' ∧ (fit availableMachines').isSome then true
      else queryWaitEnd fit size time availableMachines' totalTime' rest
    else false

/-- The outer loop of `query_wait`: the begin of the first slice from which the job fits, `-1` if there is none. -/
def queryWaitFrom (fit : IntervalSet → Option IntervalSet) (size : ℕ) (time : ℚ) : List TimeSlice → ℚ
  | [] => -1
  | pit :: rest =>
    if (size : ℤ) ≤ pit.nbAvailableMachines then
      if time ≤ pit.length then
        if (fit pit.availableMachines).isSome then pit.beginDate else queryWaitFrom fit size time rest
      else if queryWaitEnd fit size time pit.availableMachines pit.length rest then pit.beginDate
      else queryWaitFrom fit size time rest
    else queryWaitFrom fit size time rest

/-- `Schedule::query_wait`: what it answers to when a job of some size and time could be scheduled. -/
def queryWait (s : Schedule) (size : ℕ) (time : ℚ) (selector : ResourceSelector) : ℚ :=
  queryWaitFrom (selector.fit (fakeJob size time)) size time s.profile

end Schedule

/-- The schedule after a call in which jobs are added with a selector. -/
def ScheduleCall.runWith (s : Schedule) : ResourceSelector × ScheduleCall → Except Abort Schedule
  | (selector, .addJobFirstFit job assertInsertionSuccessful) =>
    (s.addJobFirstFitWith selector job assertInsertionSuccessful).map (·.1)
  | (_, call) => call.run s

/-- A call of an operation of a schedule, of those that work with jobs and repair or of those that work with reservations. -/
inductive MixedCall where
  | plain (selector : ResourceSelector) (call : ScheduleCall)
  | reserving (call : ReservationCall)
  deriving DecidableEq

/-- The schedule after a call. -/
def MixedCall.run (sorter : Sorter LargestFirst) (s : Schedule) : MixedCall → Except Abort Schedule
  | .plain selector call => ScheduleCall.runWith s (selector, call)
  | .reserving call => call.run sorter s

end ScheduleTest
