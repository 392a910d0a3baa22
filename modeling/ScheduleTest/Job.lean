import Mathlib.Data.Rat.Defs
import Mathlib.Data.Finset.Card
import Mathlib.Algebra.Order.Ring.Rat
import Mathlib.Data.String.Basic
import Mathlib.Data.Set.Function
import ScheduleTest.Lib.Leftmost
import ScheduleTest.Lib.KeyedMap
import ScheduleTest.Lib.Join

/-!
# Jobs, allocations and the resource selector

The values the scheduler passes around (`json_workload.hpp`, `locality.cpp`). A `Rational` of the source is an exact fraction
and is a rational number here; an `IntervalSet` is the finite set of the machine numbers it covers. A job is compared by its
id (`JobComparator`), and a map whose keys are jobs is a `KeyedMap Job.id`.
-/

namespace ScheduleTest

/-- A set of machines (`IntervalSet`). -/
abbrev IntervalSet := Finset ℕ

/-- A job, with the fields the scheduling code reads. -/
structure Job where
  id : String
  nbRequestedResources : ℕ
  walltime : ℚ
  hasWalltime : Bool := true
  purpose : String := "job"
  /-- The machines a reservation asks for. -/
  futureAllocations : IntervalSet := ∅
  /-- The start date of a reservation. -/
  start : ℚ := -1
  deriving DecidableEq

/-- Whether the job is a reservation. -/
def Job.isReservation (job : Job) : Bool := job.purpose == "reservation"

/-- Jobs with different ids, among which the ids joined by `remove_job_internal` tell the jobs of a slice. -/
structure NamedJobs where
  jobs : Set Job
  id_injOn : Set.InjOn Job.id jobs
  join_inj : ∀ l l' : List Job, (∀ job ∈ l, job ∈ jobs) → (∀ job ∈ l', job ∈ jobs) →
    ",".intercalate (l.map Job.id) = ",".intercalate (l'.map Job.id) → l.map Job.id = l'.map Job.id

/-- The jobs a run is about. Batsim names every job of a workload `w` with number `k` by `w!k`, so ids are never empty; two jobs
have different ids, and no id holds the comma with which `remove_job_internal` joins them. -/
structure Workload where
  jobs : Set Job
  id_injOn : Set.InjOn Job.id jobs
  id_ne_empty : ∀ job ∈ jobs, job.id ≠ ""
  id_no_comma : ∀ job ∈ jobs, ',' ∉ job.id.toList

/-- Ids without commas can be told from the text they join to. -/
@[reducible] def Workload.toNamedJobs (W : Workload) : NamedJobs where
  jobs := W.jobs
  id_injOn := W.id_injOn
  join_inj := by
    intro l l' hl hl' h
    refine String.intercalate_inj (c := ',') rfl (fun id hid => ?_) (fun id hid => ?_) h
    · obtain ⟨job, hjob, rfl⟩ := List.mem_map.1 hid
      exact ⟨W.id_ne_empty _ (hl job hjob), W.id_no_comma _ (hl job hjob)⟩
    · obtain ⟨job, hjob, rfl⟩ := List.mem_map.1 hid
      exact ⟨W.id_ne_empty _ (hl' job hjob), W.id_no_comma _ (hl' job hjob)⟩

instance : Coe Workload NamedJobs := ⟨Workload.toNamedJobs⟩

/-- The workload of a list of jobs with different, non-empty ids without commas. -/
def Workload.ofList (l : List Job) (hnodup : (l.map Job.id).Nodup)
    (hid : ∀ job ∈ l, job.id ≠ "" ∧ ',' ∉ job.id.toList) : Workload where
  jobs := {job | job ∈ l}
  id_injOn := fun _ h _ h' heq => List.inj_on_of_nodup_map hnodup h h' heq
  id_ne_empty := fun job h => (hid job h).1
  id_no_comma := fun job h => (hid job h).2

/-- `JobIdentifier`: the name of a workload and that of a job, without the exclamation mark that is put between them. Batsim names
its workloads by letters and a number (`w0`, `wf0`, `wfc0`), so without commas; the names of the jobs are read from the input. -/
structure JobIdentifier where
  workloadName : String
  jobName : String
  workloadName_valid : '!' ∉ workloadName.toList ∧ ',' ∉ workloadName.toList
  jobName_valid : '!' ∉ jobName.toList

/-- The id of the job in the messages. -/
def JobIdentifier.representation (i : JobIdentifier) : String := i.workloadName ++ "!" ++ i.jobName

/-- The jobs that the scheduler has registered, by the ids that Batsim gives them. -/
def NamedJobs.registered (workload : String → Option Job) : NamedJobs where
  jobs := {job | workload job.id = some job ∧ ∃ i : JobIdentifier, job.id = i.representation}
  id_injOn := fun job h job' h' heq => Option.some.inj (h.1.symm.trans ((congrArg workload heq).trans h'.1))
  join_inj := by
    have marked : ∀ l : List Job, (∀ job ∈ l, workload job.id = some job ∧ ∃ i : JobIdentifier, job.id = i.representation) →
        ∀ id ∈ l.map Job.id, List.Marked ',' '!' id.toList := by
      intro l hl id hid
      obtain ⟨job, hjob, rfl⟩ := List.mem_map.1 hid
      obtain ⟨-, i, hi⟩ := hl job hjob
      refine ⟨i.workloadName.toList, i.jobName.toList, ?_, i.workloadName_valid.2, i.workloadName_valid.1, i.jobName_valid⟩
      simp [hi, JobIdentifier.representation]
    exact fun l l' hl hl' h => String.intercalate_inj_of_marked rfl (by decide) (marked l hl) (marked l' hl') h

/-- The allocation of a job. `endDate` is the default date where the source leaves it unset. -/
structure JobAlloc where
  beginDate : ℚ := 0
  endDate : ℚ := 0
  startedInFirstSlice : Bool := false
  hasBeenInserted : Bool := true
  job : Option Job := none
  usedMachines : IntervalSet := ∅
  deriving DecidableEq

/-- The assertions of the source that stop the scheduler. -/
inductive Abort where
  /-- A job that is in the schedule was to be added to it. -/
  | alreadyInSchedule (id : String)
  /-- No place was found for a job that had to be placed. -/
  | couldNotAdd (id : String)
  /-- A job that is not in the schedule was to be removed from it. -/
  | notInSchedule (id : String)
  /-- Two slices to be merged hold the same jobs on different machines. -/
  | mergeMismatch
  /-- The first slice was to be moved to a date outside it. -/
  | outsideFirstSlice
  /-- A job that is not a reservation was to be added as one. -/
  | notAReservation (id : String)
  /-- A reservation asks for another number of machines than it names. -/
  | wrongReservationSize (id : String)
  /-- An iterator was read past the end of the profile. -/
  | pastTheEnd
  /-- A job was submitted twice. -/
  | alreadyInWorkload (id : String)
  /-- A job that was never submitted was asked for. -/
  | unknownJob (id : String)
  /-- A job that does not wait was to be taken out of the queue. -/
  | notInQueue (id : String)
  /-- The first machine of an empty set was asked for. -/
  | emptyIntervalSet
  /-- A null pointer was followed. -/
  | nullPointer
  /-- A message that the simulator does not send: dated before the last one, or the answer to a call not asked for or not due. -/
  | impossibleMessage
  /-- No date was found at which the priority job could start. -/
  | neverExecutable (id : String)
  deriving DecidableEq, Repr

namespace BasicResourceSelector

/-- The leftmost machines, as many as the job requests, where there are enough. -/
def fit (job : Job) (available : IntervalSet) : Option IntervalSet :=
  if job.nbRequestedResources ≤ available.card then some (available.leftmost job.nbRequestedResources) else none

/-- A reservation takes the machines it names wherever enough are available, whichever they are. The source then asserts that
it names as many as it requests. -/
def fitReservation (job : Job) (available : IntervalSet) : Option IntervalSet :=
  if job.nbRequestedResources ≤ available.card then some job.futureAllocations else none

/-- A fit takes available machines, as many as requested. -/
theorem fit_eq_some {job : Job} {available used : IntervalSet} (h : fit job available = some used) :
    used ⊆ available ∧ used.card = job.nbRequestedResources := by
  rw [fit] at h
  split at h
  · rename_i hle
    cases h
    exact ⟨available.leftmost_subset _, Finset.card_leftmost_of_le hle⟩
  · nomatch h

/-- A job fits exactly where there are enough machines. -/
theorem fit_isSome {job : Job} {available : IntervalSet} :
    (fit job available).isSome ↔ job.nbRequestedResources ≤ available.card := by
  rw [fit]
  split <;> simp_all

end BasicResourceSelector

end ScheduleTest
