import ScheduleTest.Job

/-!
# The schedule: a profile of time slices

The state and the operations of `schedule.cpp`. The profile is the list of the time slices in order of time. An iterator into
it that runs forward is the pair of the slices before it, nearest first, and the slices from it on. The `allocations` table of
the source is a field of each job, shared by every schedule; it is kept here beside the profile, by job id and date.

The source changes objects in place. Each operation here returns the schedule after it, and an assertion that fails is an
`Abort`. The lengths that `split_slice` asserts to be positive are, since it splits only strictly inside a slice.
-/

namespace ScheduleTest

/-- A time slice (`Schedule::TimeSlice`): what runs, and what is free, from one date to another. -/
structure TimeSlice where
  beginDate : ℚ
  endDate : ℚ
  length : ℚ
  hasReservation : Bool := false
  nbReservations : ℤ := 0
  availableMachines : IntervalSet
  allocatedMachines : IntervalSet
  nbAvailableMachines : ℤ
  allocatedJobs : KeyedMap Job.id IntervalSet
  deriving DecidableEq

/-- A schedule (`Schedule`), with the allocations recorded in the jobs. -/
structure Schedule where
  profile : List TimeSlice
  size : ℤ := 0
  nbJobsSize : ℤ := 0
  nbReservationsSize : ℤ := 0
  nbMachines : ℕ
  repairMachines : IntervalSet := ∅
  /-- `job->allocations[date]`. -/
  allocations : String → ℚ → Option JobAlloc := fun _ _ => none

/-- The end of the last slice of a new schedule. -/
def horizon : ℚ := 10000000000000000000

/-- The tolerance on dates: the double closest to `1e-4`, which the source converts to an exact fraction. -/
def epsilon : ℚ := 7378697629483821 / 73786976294838206464

/-- `Schedule::Schedule(nb_machines, initial_time)`: one slice in which every machine is available. -/
def Schedule.new (nbMachines : ℕ) (initialTime : ℚ) : Schedule where
  profile := [{
    beginDate := initialTime
    endDate := horizon
    length := horizon - initialTime
    availableMachines := Finset.range nbMachines
    allocatedMachines := ∅
    nbAvailableMachines := nbMachines
    allocatedJobs := KeyedMap.empty }]
  nbMachines := nbMachines

namespace TimeSlice

/-- `TimeSlice::contains_job`. -/
def containsJob (s : TimeSlice) (job : Job) : Bool := s.allocatedJobs.contains job

/-- The two parts of a slice cut at a date strictly inside it, or the slice alone (`Schedule::split_slice`). -/
def splitSlice (s : TimeSlice) (date : ℚ) : TimeSlice × Option TimeSlice :=
  if s.beginDate < date ∧ date < s.endDate then
    ({ s with endDate := date, length := date - s.beginDate },
      some { s with beginDate := date, length := s.endDate - date })
  else (s, none)

/-- Give machines of a slice to a job that is not a reservation. -/
def allocateJob (job : Job) (used : IntervalSet) (s : TimeSlice) : TimeSlice :=
  { s with
    availableMachines := s.availableMachines \ used
    allocatedMachines := s.allocatedMachines ∪ used
    nbAvailableMachines := s.nbAvailableMachines - job.nbRequestedResources
    allocatedJobs := s.allocatedJobs.insert job used }

/-- Take a job out of a slice that holds it, and give back the machines given. -/
def eraseJob (job : Job) (jobMachines : IntervalSet) (s : TimeSlice) : TimeSlice :=
  { s with
    availableMachines := s.availableMachines ∪ jobMachines
    allocatedMachines := s.allocatedMachines \ jobMachines
    nbAvailableMachines := s.nbAvailableMachines + jobMachines.card
    allocatedJobs := s.allocatedJobs.erase job
    nbReservations := if job.isReservation then s.nbReservations - 1 else s.nbReservations
    hasReservation := if job.isReservation ∧ s.nbReservations - 1 = 0 then false else s.hasReservation }

/-- The ids of the jobs of a slice, joined by commas. -/
def jobString (s : TimeSlice) : String := String.intercalate "," (s.allocatedJobs.keys.map Job.id)

/-- A slice that holds the same jobs as the one before it takes over its time; the source asserts that the same machines are
available in both. `none` where the jobs differ. -/
def mergeWithPrevious (previous pit : TimeSlice) : Except Abort (Option TimeSlice) :=
  if previous.allocatedJobs = pit.allocatedJobs ∨ previous.jobString = pit.jobString then
    if previous.availableMachines = pit.availableMachines then
      .ok (some { pit with beginDate := previous.beginDate, length := pit.endDate - previous.beginDate })
    else .error .mergeMismatch
  else .ok none

end TimeSlice

/-- A place the scan of the profile found for a job: the slices before it, nearest first; the slices it takes whole; the slice
it ends in; the slices after; and the machines it takes. It begins with the first slice it takes. -/
structure Anchor where
  before : List TimeSlice
  covered : List TimeSlice
  last : TimeSlice
  rest : List TimeSlice
  usedMachines : IntervalSet

/-- The date at which a job placed at the anchor begins. -/
def Anchor.beginDate (a : Anchor) : ℚ := (a.covered.head?.getD a.last).beginDate

/-- The scan over the slices after a candidate anchor that is too short for the job. `covered` are the slices passed so far,
`machines` the machines available in all of them, `total` their length. -/
def scanEnd (fit : IntervalSet → Option IntervalSet) (requested : ℕ) (walltime : ℚ) (before covered : List TimeSlice)
    (machines : IntervalSet) (total : ℚ) : List TimeSlice → Option Anchor
  | [] => none
  | pit2 :: rest =>
    if (requested : ℤ) ≤ pit2.nbAvailableMachines then
      let machines' := machines ∩ pit2.availableMachines
      let total' := total + pit2.length
      if machines'.card < requested then none
      else if walltime ≤ total' then
        match fit machines' with
        | some used => some ⟨before, covered, pit2, rest, used⟩
        | none => scanEnd fit requested walltime before (covered ++ [pit2]) machines' total' rest
      else scanEnd fit requested walltime before (covered ++ [pit2]) machines' total' rest
    else none

/-- The scan for an anchor: the first slice with enough machines from which the job fits. `machinesOf` are the machines of a
slice the job may take, `isAnchor` says where a job may begin, and `walltimeFrom` is the job's length if it begins there. -/
def scanAnchor (machinesOf : TimeSlice → IntervalSet) (isAnchor : TimeSlice → Bool) (fit : IntervalSet → Option IntervalSet)
    (requested : ℕ) (walltimeFrom : TimeSlice → ℚ) (before : List TimeSlice) : List TimeSlice → Option Anchor
  | [] => none
  | pit :: rest =>
    let found :=
      if isAnchor pit then
        if walltimeFrom pit ≤ pit.length then
          (fit (machinesOf pit)).map (fun used => ⟨before, [], pit, rest, used⟩)
        else scanEnd fit requested (walltimeFrom pit) before [pit] (machinesOf pit) pit.length rest
      else none
    match found with
    | some anchor => some anchor
    | none => scanAnchor machinesOf isAnchor fit requested walltimeFrom (pit :: before) rest

namespace Schedule

/-- `Schedule::infinite_horizon`: the end of the last slice. -/
def infiniteHorizon (s : Schedule) : ℚ := (s.profile.getLast?.map (·.endDate)).getD 0

/-- `Schedule::contains_job`. -/
def containsJob (s : Schedule) (job : Job) : Bool := s.profile.any (·.containsJob job)

/-- The length of a job that begins with a slice: its walltime, or all the time left where it has none. -/
def walltimeFrom (s : Schedule) (job : Job) (pit : TimeSlice) : ℚ :=
  if job.hasWalltime then job.walltime else s.infiniteHorizon - pit.beginDate

/-- Record an allocation in a job: `job->allocations[date] = alloc`. -/
def setAllocation (s : Schedule) (id : String) (date : ℚ) (alloc : JobAlloc) : Schedule :=
  { s with allocations := Function.update s.allocations id (Function.update (s.allocations id) date (some alloc)) }

/-- The anchor that `add_job_first_fit` finds, looking from the slice with the given index on. -/
def findAnchor (s : Schedule) (job : Job) (firstTimeSlice : ℕ) : Option Anchor :=
  scanAnchor (·.availableMachines) (fun pit => (job.nbRequestedResources : ℤ) ≤ pit.nbAvailableMachines)
    (BasicResourceSelector.fit job) job.nbRequestedResources (s.walltimeFrom job)
    (s.profile.take firstTimeSlice).reverse (s.profile.drop firstTimeSlice)

/-- The profile after a job has been placed at an anchor: its slices hold it, the last of them cut at its end. -/
def placeAt (job : Job) (a : Anchor) (endDate : ℚ) : List TimeSlice :=
  let split := a.last.splitSlice endDate
  a.before.reverse ++ a.covered.map (TimeSlice.allocateJob job a.usedMachines) ++
    split.1.allocateJob job a.usedMachines :: (split.2.toList ++ a.rest)

/-- `Schedule::add_job_first_fit_after_time_slice`. The end date of the allocation is set only where the job takes more than
one slice. -/
def addJobFirstFitAfterTimeSlice (s : Schedule) (job : Job) (firstTimeSlice : ℕ) (assertInsertionSuccessful : Bool) :
    Except Abort (Schedule × JobAlloc) :=
  match s.findAnchor job firstTimeSlice with
  | some a =>
    let endDate := a.beginDate + s.walltimeFrom job (a.covered.head?.getD a.last)
    let alloc : JobAlloc := {
      beginDate := a.beginDate
      endDate := if a.covered.isEmpty then 0 else endDate
      startedInFirstSlice := a.before.isEmpty
      job := some job
      usedMachines := a.usedMachines }
    .ok ({ s.setAllocation job.id a.beginDate alloc with
      profile := placeAt job a endDate
      size := s.size + 1
      nbJobsSize := s.nbJobsSize + 1 }, alloc)
  | none =>
    if assertInsertionSuccessful then .error (.couldNotAdd job.id)
    else .ok (s, { hasBeenInserted := false })

/-- `Schedule::add_job_first_fit`. -/
def addJobFirstFit (s : Schedule) (job : Job) (assertInsertionSuccessful : Bool := true) :
    Except Abort (Schedule × JobAlloc) :=
  if s.containsJob job then .error (.alreadyInSchedule job.id)
  else s.addJobFirstFitAfterTimeSlice job 0 assertInsertionSuccessful

end Schedule

/-- Put a slice behind the slices before it (nearest first), merging it with the nearest where they hold the same jobs. -/
def appendMerging : List TimeSlice → TimeSlice → Except Abort (List TimeSlice)
  | [], pit => .ok [pit]
  | previous :: before, pit =>
    match previous.mergeWithPrevious pit with
    | .ok (some merged) => .ok (merged :: before)
    | .ok none => .ok (pit :: previous :: before)
    | .error e => .error e

/-- The loop of `remove_job_internal`: erase the job from the consecutive slices that hold it, merging each with the slice
before it where they now hold the same jobs, and then try to merge the first slice without the job. -/
def removeFrom (job : Job) (jobMachines : IntervalSet) (before : List TimeSlice) : List TimeSlice → Except Abort (List TimeSlice)
  | [] => .ok before.reverse
  | pit :: rest =>
    if pit.containsJob job then
      match appendMerging before (pit.eraseJob job jobMachines) with
      | .ok before' => removeFrom job jobMachines before' rest
      | .error e => .error e
    else
      match appendMerging before pit with
      | .ok before' => .ok (before'.reverse ++ rest)
      | .error e => .error e

namespace Schedule

/-- `Schedule::remove_job_internal` at the removal point that splits the profile in two. The machines given back are those of
the job at the removal point that are not under repair. -/
def removeJobInternal (s : Schedule) (job : Job) (before : List TimeSlice) (removalPoint : TimeSlice) (rest : List TimeSlice) :
    Except Abort Schedule :=
  let jobMachines := (removalPoint.allocatedJobs.find? job).getD ∅ \ s.repairMachines
  match removeFrom job jobMachines before (removalPoint :: rest) with
  | .ok profile => .ok { s with
      profile := profile
      size := s.size - 1
      nbJobsSize := if job.isReservation then s.nbJobsSize else s.nbJobsSize - 1
      nbReservationsSize := if job.isReservation then s.nbReservationsSize - 1 else s.nbReservationsSize }
  | .error e => .error e

/-- `Schedule::remove_job_if_exists`: whether the job was there. -/
def removeJobIfExists (s : Schedule) (job : Job) : Except Abort (Schedule × Bool) :=
  match s.profile.span (fun pit => !pit.containsJob job) with
  | (_, []) => .ok (s, false)
  | (before, removalPoint :: rest) =>
    match s.removeJobInternal job before.reverse removalPoint rest with
    | .ok s' => .ok (s', true)
    | .error e => .error e

/-- `Schedule::remove_job`: removing a job that is not in the schedule is an error. -/
def removeJob (s : Schedule) (job : Job) : Except Abort Schedule :=
  match s.removeJobIfExists job with
  | .ok (s', true) => .ok s'
  | .ok (_, false) => .error (.notInSchedule job.id)
  | .error e => .error e

/-- Move the allocation a job has at one date to another date. -/
def moveAllocation (oldTime currentTime : ℚ) (allocations : String → ℚ → Option JobAlloc) (job : Job) :
    String → ℚ → Option JobAlloc :=
  match allocations job.id oldTime with
  | some alloc =>
    if oldTime = currentTime then allocations
    else Function.update allocations job.id
      (Function.update (Function.update (allocations job.id) currentTime (some alloc)) oldTime none)
  | none => allocations

/-- `Schedule::update_first_slice`: the first slice begins now, and so do the allocations of its jobs that began with it. -/
def updateFirstSlice (s : Schedule) (currentTime : ℚ) : Except Abort Schedule :=
  match s.profile with
  | [] => .error .pastTheEnd
  | slice :: rest =>
    if slice.beginDate ≤ currentTime + epsilon ∧ currentTime ≤ slice.endDate + epsilon then
      .ok { s with
        profile := { slice with beginDate := currentTime, length := slice.endDate - currentTime } :: rest
        allocations := slice.allocatedJobs.keys.foldl (moveAllocation slice.beginDate currentTime) s.allocations }
    else .error .outsideFirstSlice

/-- `Schedule::add_repair_machine`: the machines that were not under repair, which are taken from every slice. -/
def addRepairMachine (s : Schedule) (machine : IntervalSet) : Schedule × IntervalSet :=
  let added := machine \ s.repairMachines
  ({ s with
    repairMachines := s.repairMachines ∪ machine
    profile := s.profile.map (fun slice => { slice with
      nbAvailableMachines := slice.nbAvailableMachines - added.card
      availableMachines := slice.availableMachines \ added }) }, added)

/-- `Schedule::remove_repair_machines`: the machines that were under repair, given back to every slice that has not allocated
them. -/
def removeRepairMachines (s : Schedule) (machines : IntervalSet) : Schedule × IntervalSet :=
  let removed := s.repairMachines ∩ machines
  ({ s with
    repairMachines := s.repairMachines \ machines
    profile := s.profile.map (fun slice =>
      let removedAndAllocated := slice.allocatedMachines ∩ removed
      { slice with
        nbAvailableMachines := slice.nbAvailableMachines + (removed.card - removedAndAllocated.card)
        availableMachines := slice.availableMachines ∪ (removed \ removedAndAllocated) }) }, removed)

/-- `Schedule::which_machines_are_allocated_in_time_slice`. -/
def whichMachinesAreAllocatedInTimeSlice (slice : TimeSlice) (machines : IntervalSet) : IntervalSet :=
  slice.allocatedJobs.entries.foldl (fun allocated entry => allocated ∪ (entry.2 ∩ machines)) ∅

end Schedule

end ScheduleTest
