import ScheduleTest.EasyBf3

/-!
# The heap sort of the scheduled jobs

`max_heapify` and `sort_max_heap` of `easy_bf3.cpp`, with every access to the vector as an access that can be out of range. The
recursion is given a depth at which it is cut off, so that what does not end is what is cut off at every depth.
-/

namespace ScheduleTest

/-- Why the sort has no result. -/
inductive HeapAbort where
  /-- An element that the vector does not have. -/
  | outOfRange (index : ℕ)
  /-- The recursion is deeper than it was given. -/
  | tooDeep
  deriving DecidableEq

namespace MaxHeap

/-- `_scheduled_jobs[index]`. -/
def jobAt (jobs : Array ScheduledJob) (index : ℕ) : Except HeapAbort ScheduledJob :=
  match jobs[index]? with
  | some job => .ok job
  | none => .error (.outOfRange index)

/-- `swap(_scheduled_jobs[i], _scheduled_jobs[j])`. -/
def swapJobs (jobs : Array ScheduledJob) (i j : ℕ) : Except HeapAbort (Array ScheduledJob) :=
  if hi : i < jobs.size then
    if hj : j < jobs.size then .ok (jobs.swap i j hi hj) else .error (.outOfRange j)
  else .error (.outOfRange i)

/-- A child that is in the heap, where its job ends later than that of the largest node so far, else that node. -/
def laterOf (jobs : Array ScheduledJob) (size child max : ℕ) : Except HeapAbort ℕ :=
  if child < size then
    (jobAt jobs child).bind fun childJob => (jobAt jobs max).map fun maxJob =>
      if childJob.estFinishTime > maxJob.estFinishTime then child else max
  else .ok max

/-- `max_heapify`. -/
def maxHeapify : ℕ → Array ScheduledJob → ℕ → ℕ → Except HeapAbort (Array ScheduledJob)
  | 0, _, _, _ => .error .tooDeep
  | depth + 1, jobs, root, size =>
    let left := 2 * root + 1
    let right := left + 1
    (laterOf jobs size left root).bind fun max => (laterOf jobs size right max).bind fun max =>
      if max ≠ root then (swapJobs jobs root max).bind fun jobs => maxHeapify depth jobs max size else .ok jobs

/-- One round of the loop that sorts: the root goes to the end of the heap, which gets shorter. -/
def sortRound (depth : ℕ) (jobs : Array ScheduledJob) (j : ℕ) : Except HeapAbort (Array ScheduledJob) :=
  (swapJobs jobs 0 j).bind fun jobs => maxHeapify depth jobs 0 j

/-- `sort_max_heap`. The loops count down from `size / 2` to 0 and from `size - 1` to 1. -/
def sortMaxHeap (depth : ℕ) (jobs : Array ScheduledJob) (size : ℕ) : Except HeapAbort (Array ScheduledJob) :=
  if size < 2 then .ok jobs
  else (Execution.runFrom (fun jobs i => maxHeapify depth jobs i size) jobs (List.range (size / 2 + 1)).reverse).bind fun heap =>
    Execution.runFrom (sortRound depth) heap (List.range' 1 (size - 1)).reverse

end MaxHeap

end ScheduleTest
