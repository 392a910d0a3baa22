import ScheduleTest.Schedule

/-!
# The jobs of a schedule

`jobs_allocations` (`schedule.cpp`) goes through the slices of a schedule and keeps the set of the jobs of the last one. A job
that is not in the next slice has ended, and its allocation is put down. The sets are ordered by the addresses of the jobs, so the order in
which allocations are put down is left open; they are put into a multimap by the ids of the jobs.
-/

namespace ScheduleTest

namespace JobsAllocations

/-- The local variables of the loop. -/
structure Sweep where
  res : Multiset (String × JobAlloc) := 0
  jobsStartingTimes : Job → ℚ := fun _ => 0
  jobsEndingTimes : Job → ℚ := fun _ => 0
  currentJobs : Finset Job := ∅

/-- The jobs of a slice. -/
def allocatedJobsOf (slice : TimeSlice) : Finset Job := slice.allocatedJobs.keys.toFinset

/-- A map in which some jobs have been given a date. -/
def setDates (dates : Job → ℚ) (jobs : Finset Job) (date : ℚ) : Job → ℚ := fun job => if job ∈ jobs then date else dates job

/-- The allocation of a job that has ended, with the machines that it has in a slice. -/
def allocationOf (s : Sweep) (firstSliceBegin : ℚ) (previous : TimeSlice) (job : Job) : JobAlloc where
  job := some job
  beginDate := s.jobsStartingTimes job
  endDate := s.jobsEndingTimes job
  startedInFirstSlice := s.jobsStartingTimes job = firstSliceBegin
  usedMachines := (previous.allocatedJobs.find? job).getD ∅

/-- The allocations of the jobs that have ended. None may have ended in the first slice, and all are in the slice before. -/
def putDown (s : Sweep) (firstSliceBegin : ℚ) (previous : Option TimeSlice) (finishedJobs : Finset Job) :
    Option (Multiset (String × JobAlloc)) :=
  match previous with
  | none => if finishedJobs = ∅ then some s.res else none
  | some previous =>
    if ∀ job ∈ finishedJobs, previous.containsJob job = true then
      some (s.res + finishedJobs.val.map fun job => (job.id, allocationOf s firstSliceBegin previous job))
    else none

/-- One round of the loop. -/
def sweepSlice (firstSliceBegin : ℚ) (previous : Option TimeSlice) (s : Sweep) (slice : TimeSlice) : Option Sweep :=
  let allocatedJobs := allocatedJobsOf slice
  let finishedJobs := s.currentJobs \ allocatedJobs
  let s := { s with jobsEndingTimes := setDates s.jobsEndingTimes finishedJobs slice.beginDate }
  let newJobs := allocatedJobs \ s.currentJobs
  (putDown s firstSliceBegin previous finishedJobs).map fun res => { s with
    res := res
    jobsStartingTimes := setDates s.jobsStartingTimes newJobs slice.beginDate
    currentJobs := (s.currentJobs \ finishedJobs) ∪ newJobs }

/-- The loop over the slices behind one. -/
def sweep (firstSliceBegin : ℚ) : Option TimeSlice → Sweep → List TimeSlice → Option Sweep
  | _, s, [] => some s
  | previous, s, slice :: rest =>
    (sweepSlice firstSliceBegin previous s slice).bind fun s => sweep firstSliceBegin (some slice) s rest

end JobsAllocations

open JobsAllocations in
/-- `Schedule::jobs_allocations`. -/
def Schedule.jobsAllocations (s : Schedule) : Option (Multiset (String × JobAlloc)) :=
  match s.profile with
  | [] => none
  | first :: rest =>
    let currentJobs := allocatedJobsOf first
    (sweep first.beginDate none
      { currentJobs := currentJobs, jobsStartingTimes := setDates (fun _ => 0) currentJobs first.beginDate }
      (first :: rest)).map (·.res)

end ScheduleTest
