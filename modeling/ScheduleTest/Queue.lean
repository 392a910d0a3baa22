import Mathlib.Data.List.Sort
import ScheduleTest.Job

/-!
# The queue

Jobs that wait, in an order that may be recomputed at any date (`queue.cpp`).
-/

namespace ScheduleTest

/-- A job that waits, and since when. -/
structure SortableJob where
  job : Job
  releaseDate : ℚ
  deriving DecidableEq

/-- An order of the queue (`SortableJobOrder`): what is compared may depend on the date of the update. -/
structure SortableJobOrder where
  compare : ℚ → SortableJob → SortableJob → Bool

/-- First come, first served; jobs released at one date come in the order of their ids. -/
def FCFSOrder : SortableJobOrder where
  compare := fun _ j1 j2 =>
    if j1.releaseDate = j2.releaseDate then j1.job.id < j2.job.id else j1.releaseDate < j2.releaseDate

/-- The jobs that wait. -/
abbrev Queue := List SortableJob

namespace Queue

/-- `Queue::append_job`. -/
def appendJob (queue : Queue) (job : Job) (currentDate : ℚ) : Queue :=
  queue ++ [{ job := job, releaseDate := currentDate }]

/-- `Queue::remove_job`, which asserts that the job is in the queue. -/
def removeJob (queue : Queue) (job : Job) : Except Abort Queue :=
  if queue.any (·.job = job) then .ok (queue.eraseP (·.job = job)) else .error (.notInQueue job.id)

/-- `Queue::sort_queue`: the sort of a list is stable. -/
def sortQueue (queue : Queue) (order : SortableJobOrder) (currentDate : ℚ) : Queue :=
  queue.insertionSort fun j1 j2 => order.compare currentDate j2 j1 = false

/-- `Queue::first_job_or_nullptr`. -/
def firstJob? (queue : Queue) : Option Job := queue.head?.map (·.job)

/-- `Queue::contains_job`. -/
def containsJob (queue : Queue) (job : Job) : Bool := queue.any (·.job = job)

/-- The jobs of a queue. -/
def jobs (queue : Queue) : List Job := queue.map (·.job)

variable {queue queue' : Queue} {job : Job}

@[simp] theorem jobs_appendJob (currentDate : ℚ) : (queue.appendJob job currentDate).jobs = queue.jobs ++ [job] :=
  List.map_append

/-- Sorting keeps the jobs. -/
theorem jobs_sortQueue (queue : Queue) (order : SortableJobOrder) (currentDate : ℚ) :
    (queue.sortQueue order currentDate).jobs.Perm queue.jobs :=
  (List.perm_insertionSort _ queue).map _

theorem firstJob?_eq_head? : queue.firstJob? = queue.jobs.head? := by
  cases queue <;> rfl

theorem containsJob_iff : queue.containsJob job = true ↔ job ∈ queue.jobs := by
  simp [containsJob, jobs]

/-- Removing a job takes it out of the jobs. -/
theorem jobs_removeJob (h : queue.removeJob job = .ok queue') : job ∈ queue.jobs ∧ queue'.jobs = queue.jobs.erase job := by
  unfold removeJob at h
  split at h
  · rename_i hany
    cases h
    refine ⟨containsJob_iff.1 hany, ?_⟩
    clear hany
    induction queue with
    | nil => rfl
    | cons sjob queue ih =>
      by_cases hjob : sjob.job = job
      · simp [jobs, hjob]
      · rw [List.eraseP_cons_of_neg (by simpa using hjob)]
        simp only [jobs, List.map_cons] at ih ⊢
        rw [List.erase_cons_tail (by simpa using hjob), ih]
  · nomatch h

/-- A job of the queue can be removed. -/
theorem removeJob_of_mem (h : job ∈ queue.jobs) : ∃ queue', queue.removeJob job = .ok queue' := by
  unfold removeJob
  exact ⟨_, if_pos (containsJob_iff.2 h)⟩

end Queue

end ScheduleTest
