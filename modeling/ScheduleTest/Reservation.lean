import ScheduleTest.Schedule
import ScheduleTest.Lib.Sorter

/-!
# Reservations in a schedule

The operations of `schedule.cpp` on reservations: finding the slices and machines of a reservation in advance
(`reserve_time_slice`), putting it there (`add_reservation`), and moving the reservations that are due from the second slice to
the first (`remove_reservations_if_ready`, `add_current_reservation`). A `TimeSliceIterator` that is kept in a
`ReservedTimeSlice` is the index of the slice.
-/

namespace ScheduleTest

/-- The order in which running jobs are considered for being killed: the largest request first. -/
def LargestFirst (j1 j2 : Job) : Prop := j2.nbRequestedResources ≤ j1.nbRequestedResources

instance : DecidableRel LargestFirst := fun j1 j2 => Nat.decLe j2.nbRequestedResources j1.nbRequestedResources

instance : Std.Total LargestFirst := ⟨fun j1 j2 => Nat.le_total j2.nbRequestedResources j1.nbRequestedResources⟩

instance : IsTrans Job LargestFirst := ⟨fun _ _ _ h h' => Nat.le_trans h' h⟩

/-- `Schedule::ReservedTimeSlice`: where a reservation would go, and the jobs in its way. -/
structure ReservedTimeSlice where
  success : Bool := false
  jobsAffected : List Job := []
  jobsNeededToBeKilled : List Job := []
  jobsToReschedule : List Job := []
  sliceBegin : ℕ := 0
  sliceEnd : ℕ := 0
  alloc : JobAlloc := {}
  job : Option Job := none
  deriving DecidableEq

namespace Schedule

/-- Split the slice with the given index at a date: the profile after it, and the indices of the first and the second part
(`Schedule::split_slice`). -/
def splitSliceAt (profile : List TimeSlice) (i : ℕ) (date : ℚ) : List TimeSlice × ℕ × ℕ :=
  match profile[i]? with
  | none => (profile, i, i)
  | some slice =>
    match slice.splitSlice date with
    | (first, some second) => (profile.take i ++ first :: second :: profile.drop (i + 1), i, i + 1)
    | (_, none) => (profile, i, i)

/-- `Schedule::available_machines_during_period`: the machines available in every slice from the first one that begins at the
begin of the period or later, up to the end of the period. -/
def availableMachinesDuringPeriod (s : Schedule) (beginDate endDate : ℚ) : Except Abort IntervalSet :=
  match s.profile with
  | [] => .error .pastTheEnd
  | first :: _ =>
    if first.beginDate ≤ beginDate ∧ endDate ≤ s.infiniteHorizon then
      match s.profile.dropWhile (fun slice => slice.beginDate < beginDate) with
      | [] => .error .pastTheEnd
      | slice :: rest =>
        .ok (((slice :: rest).takeWhile (fun slice => slice.beginDate < endDate)).foldl
          (fun available slice => available ∩ slice.availableMachines) slice.availableMachines)
    else .error .pastTheEnd

/-- Add the machines of running jobs, one job after the other, until there are enough. -/
def addUntilEnough (machinesOf : Job → IntervalSet) (needed : ℕ) : IntervalSet → List Job → Option IntervalSet
  | _, [] => none
  | machines, job :: jobs =>
    let machines' := if job.isReservation then machines else machines ∪ machinesOf job
    if needed ≤ machines'.card then some machines' else addUntilEnough machinesOf needed machines' jobs

/-- `Schedule::find_least_impactful_fit` with the policy that `reserve_time_slice` gives it (`LEAST_KILLING_LARGEST_FIRST`):
machines available during the whole period if there are enough, else those that neither running jobs nor reservations hold,
else those of running jobs, the largest first. No machines where even these are not enough. -/
def findLeastImpactfulFit (sorter : Sorter LargestFirst) (s : Schedule) (job : Job) (sliceBegin sliceEnd : ℕ) :
    Except Abort IntervalSet :=
  match s.profile.head?, s.profile[sliceBegin]?, s.profile[sliceEnd]? with
  | some first, some beginSlice, some endSlice =>
    match s.availableMachinesDuringPeriod beginSlice.beginDate endSlice.endDate with
    | .error e => .error e
    | .ok amdp =>
      if job.nbRequestedResources ≤ amdp.card then .ok (amdp.leftmost job.nbRequestedResources)
      else
        let stillNeeded := job.nbRequestedResources - amdp.card
        let machinesOf := fun (j : Job) => (beginSlice.allocatedJobs.find? j).getD ∅
        let jobsRunning := beginSlice.allocatedJobs.keys.filter first.containsJob
        let runningMachines := jobsRunning.foldl (fun machines j => machines ∪ machinesOf j) ∅
        let period := (s.profile.drop sliceBegin).take (sliceEnd + 1 - sliceBegin)
        let reservationMachines := period.foldl (fun machines slice =>
          slice.allocatedJobs.entries.foldl
            (fun machines entry => if entry.1.isReservation then machines ∪ entry.2 else machines) machines) ∅
        let allMachines := ((Finset.range s.nbMachines \ amdp) \ runningMachines) \ reservationMachines
        if stillNeeded ≤ allMachines.card then .ok (allMachines.leftmost stillNeeded ∪ amdp)
        else
          match addUntilEnough machinesOf stillNeeded allMachines (sorter.sort jobsRunning) with
          | some machines => .ok (machines.leftmost stillNeeded ∪ amdp)
          | none => .ok ∅
  | _, _, _ => .error .pastTheEnd

/-- The jobs of the slices from one index to another that use some of the given machines, each once. -/
def jobsAffectedBetween (s : Schedule) (machines : IntervalSet) (sliceBegin sliceEnd : ℕ) : List Job :=
  ((s.profile.drop sliceBegin).take (sliceEnd + 1 - sliceBegin)).foldl (fun affected slice =>
    slice.allocatedJobs.entries.foldl (fun affected entry =>
      if entry.2 ∩ machines = ∅ ∨ entry.1 ∈ affected then affected else affected ++ [entry.1]) affected) []

/-- The jobs affected that run, to be killed, and those that do not, to be rescheduled; `none` where a reservation runs. A
running reservation is passed over where the first slice is empty and the walltime of the reservation is its end. -/
def sortAffectedJobs (firstSliceIsSuspect : Bool) (first : TimeSlice) : List Job → Option (List Job × List Job)
  | [] => some ([], [])
  | job :: jobs =>
    if first.containsJob job then
      if job.isReservation then
        if !firstSliceIsSuspect || job.walltime ≠ first.endDate then none
        else sortAffectedJobs firstSliceIsSuspect first jobs
      else (sortAffectedJobs firstSliceIsSuspect first jobs).map (fun (killed, moved) => (job :: killed, moved))
    else (sortAffectedJobs firstSliceIsSuspect first jobs).map (fun (killed, moved) => (killed, job :: moved))

/-- Whether the first slice is empty, in which case `reserve_time_slice` suspects it. -/
def firstSliceIsSuspect (s : Schedule) : Bool := s.profile.head?.any (fun first => first.beginDate = first.endDate)

/-- The first half of `reserve_time_slice`: the slice in which the reservation begins and the one in which it ends are cut at
its dates. The profile after the cuts, and the indices of the first and the last slice of the reservation. An iterator that
runs past the end of the profile is an abort. -/
def cutForReservation (s : Schedule) (job : Job) : Except Abort (List TimeSlice × ℕ × ℕ) :=
  let skip := if s.firstSliceIsSuspect then 1 else 0
  let i := skip + (s.profile.drop skip).findIdx (fun slice => slice.beginDate = job.start ∨ job.start < slice.endDate)
  if i < s.profile.length then
    let beginCut := splitSliceAt s.profile i job.start
    let endTime := job.start + job.walltime
    let k := beginCut.2.2 + (beginCut.1.drop beginCut.2.2).findIdx (fun slice => endTime ≤ slice.endDate)
    if k < beginCut.1.length then
      let endCut := splitSliceAt beginCut.1 k endTime
      .ok (endCut.1, beginCut.2.2, endCut.2.1)
    else .error .pastTheEnd
  else .error .pastTheEnd

/-- The machines of a reservation: those it names, or those of `find_least_impactful_fit` where it names none. -/
def machinesForReservation (sorter : Sorter LargestFirst) (s : Schedule) (job : Job) (sliceBegin sliceEnd : ℕ) :
    Except Abort IntervalSet :=
  if job.futureAllocations = ∅ then s.findLeastImpactfulFit sorter job sliceBegin sliceEnd else .ok job.futureAllocations

/-- `Schedule::reserve_time_slice`. The profile keeps the cuts made for the reservation, also where it does not succeed. -/
def reserveTimeSlice (sorter : Sorter LargestFirst) (s : Schedule) (job : Job) : Except Abort (Schedule × ReservedTimeSlice) :=
  match s.cutForReservation job with
  | .error e => .error e
  | .ok (profile, sliceBegin, sliceEnd) =>
    let s' := { s with profile := profile }
    match s'.profile.head?, s'.machinesForReservation sorter job sliceBegin sliceEnd with
    | none, _ => .error .pastTheEnd
    | some _, .error e => .error e
    | some first, .ok used =>
      let affected := s'.jobsAffectedBetween used sliceBegin sliceEnd
      match sortAffectedJobs s.firstSliceIsSuspect first affected with
      | none => .ok (s', {})
      | some (killed, moved) =>
        .ok (s', {
          success := used ≠ ∅
          jobsAffected := affected
          jobsNeededToBeKilled := killed
          jobsToReschedule := moved
          sliceBegin := sliceBegin
          sliceEnd := sliceEnd
          alloc := {
            beginDate := job.start
            endDate := job.start + job.walltime
            startedInFirstSlice := sliceBegin = 0
            job := some job
            usedMachines := used }
          job := some job })

end Schedule

/-- Put a reservation into a slice (`Schedule::add_reservation`). -/
def TimeSlice.reserve (job : Job) (used : IntervalSet) (slice : TimeSlice) : TimeSlice :=
  { slice.allocateJob job used with
    hasReservation := true
    nbReservations := slice.nbReservations + 1 }

namespace Schedule

/-- Change the slices from one index to another. -/
def updateSlices (profile : List TimeSlice) (sliceBegin sliceEnd : ℕ) (f : TimeSlice → TimeSlice) : List TimeSlice :=
  profile.take sliceBegin ++ (((profile.drop sliceBegin).take (sliceEnd + 1 - sliceBegin)).map f ++
    (profile.drop sliceBegin).drop (sliceEnd + 1 - sliceBegin))

/-- `Schedule::add_reservation`, for a reservation that has an allocation. -/
def addReservation (s : Schedule) (reservation : ReservedTimeSlice) : Except Abort Schedule :=
  match reservation.alloc.job with
  | none => .error .pastTheEnd
  | some job =>
    .ok { s with
      size := s.size + 1
      nbReservationsSize := s.nbReservationsSize + 1
      profile := updateSlices s.profile reservation.sliceBegin reservation.sliceEnd
        (TimeSlice.reserve job reservation.alloc.usedMachines) }

end Schedule

/-- Give a slice's machines to a reservation that starts now, subtracting the given number from the count and adding the given
number to the reservations of the slice. -/
def TimeSlice.allocateReservation (job : Job) (used : IntervalSet) (subtract : ℤ) (reservations : ℤ) (slice : TimeSlice) :
    TimeSlice :=
  { slice.allocateJob job used with
    nbAvailableMachines := slice.nbAvailableMachines - subtract
    nbReservations := slice.nbReservations + reservations
    hasReservation := if reservations ≠ 0 ∧ slice.nbReservations + reservations = 1 then true else slice.hasReservation }

namespace Schedule

/-- The anchor that `add_current_reservation` finds. A reservation may begin in a slice where the available machines and those
under repair are enough; the machines it takes are those it names. -/
def findReservationAnchor (s : Schedule) (job : Job) : Option Anchor :=
  scanAnchor (fun pit => pit.availableMachines ∪ s.repairMachines)
    (fun pit => job.nbRequestedResources ≤ (pit.availableMachines ∪ s.repairMachines).card)
    (BasicResourceSelector.fitReservation job) job.nbRequestedResources (s.walltimeFrom job) [] s.profile

/-- The profile after a reservation has been placed at an anchor. A slice that the reservation fits in alone loses as many
machines as it requests; where it takes more than one slice each loses those it had available, and the last one does not
count the reservation. -/
def placeReservationAt (job : Job) (a : Anchor) (endDate : ℚ) : List TimeSlice :=
  let split := a.last.splitSlice endDate
  let lost := fun (slice : TimeSlice) => ((slice.availableMachines ∩ a.usedMachines).card : ℤ)
  let last := if a.covered.isEmpty then split.1.allocateReservation job a.usedMachines job.nbRequestedResources 1
    else split.1.allocateReservation job a.usedMachines (lost split.1) 0
  a.before.reverse ++ a.covered.map (fun slice => slice.allocateReservation job a.usedMachines (lost slice) 1) ++
    last :: (split.2.toList ++ a.rest)

/-- `Schedule::add_current_reservation`. The size grows before a place is looked for, and stays so where none is found; the
number of reservations does not change. -/
def addCurrentReservation (s : Schedule) (job : Job) (assertInsertionSuccessful : Bool := true) :
    Except Abort (Schedule × JobAlloc) :=
  if s.containsJob job then .error (.alreadyInSchedule job.id)
  else if !job.isReservation then .error (.notAReservation job.id)
  else match s.findReservationAnchor job with
  | some a =>
    if a.usedMachines.card ≠ job.nbRequestedResources then .error (.wrongReservationSize job.id)
    else
      let endDate := a.beginDate + s.walltimeFrom job (a.covered.head?.getD a.last)
      let alloc : JobAlloc := {
        beginDate := a.beginDate
        endDate := endDate
        startedInFirstSlice := a.before.isEmpty
        job := some job
        usedMachines := a.usedMachines }
      .ok ({ s.setAllocation job.id a.beginDate alloc with
        profile := placeReservationAt job a endDate
        size := s.size + 1 }, alloc)
  | none =>
    if assertInsertionSuccessful then .error (.couldNotAdd job.id)
    else .ok ({ s with size := s.size + 1 }, { hasBeenInserted := false })

/-- The reservations of the second slice that do not run in the first are looked at in order: each whose machines are available
or under repair is taken off the second slice's count and collected; the first that is not stops the loop. -/
def collectReady (first : TimeSlice) (repair : IntervalSet) : List (Job × IntervalSet) → ℤ → List Job → ℤ × List Job × Bool
  | [], nb, jobsRemoved => (nb, jobsRemoved, true)
  | (job, machines) :: entries, nb, jobsRemoved =>
    if job.isReservation && !first.containsJob job then
      if machines ⊆ first.availableMachines ∪ repair then
        collectReady first repair entries (if 0 < nb then nb - 1 else nb) (jobsRemoved ++ [job])
      else (nb, jobsRemoved, false)
    else collectReady first repair entries nb jobsRemoved

/-- Remove several jobs, each if it exists. -/
def removeJobs (s : Schedule) : List Job → Except Abort Schedule
  | [] => .ok s
  | job :: jobs => match s.removeJobIfExists job with
    | .ok (s', _) => s'.removeJobs jobs
    | .error e => .error e

/-- Whether the second slice has reservations and begins with the first one, up to the tolerance. -/
def reservationsDue (s : Schedule) : Option (TimeSlice × TimeSlice) :=
  match s.profile with
  | first :: slice :: _ =>
    if slice.hasReservation ∧ |first.beginDate - slice.beginDate| ≤ epsilon then some (first, slice) else none
  | _ => none

/-- `Schedule::remove_reservations_if_ready`: the schedule, the jobs collected in `jobs_removed`, and whether they were
removed. -/
def removeReservationsIfReady (s : Schedule) (jobsRemoved : List Job) : Except Abort (Schedule × List Job × Bool) :=
  match s.reservationsDue with
  | none => .ok (s, jobsRemoved, false)
  | some (first, slice) =>
    let (nb, jobsRemoved', ready) :=
      collectReady first s.repairMachines slice.allocatedJobs.entries slice.nbReservations jobsRemoved
    let s' := { s with profile := first :: { slice with nbReservations := nb } :: s.profile.drop 2 }
    if ready then
      match s'.removeJobs jobsRemoved' with
      | .ok s'' => .ok (s'', jobsRemoved', true)
      | .error e => .error e
    else .ok (s', jobsRemoved', false)

end Schedule

end ScheduleTest
