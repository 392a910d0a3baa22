import ScheduleTest.MaxHeap
import ScheduleTest.Lemmas.EasyBf3

/-!
# The heap sort sorts

Where the root is in the heap and the heap in the vector, no access is out of range, and the recursion ends, since each call goes
to a node that is further down. What is computed is then the heap sort of the library, which sorts.
-/

namespace ScheduleTest

namespace MaxHeap

variable {n : ℕ}

@[simp] theorem jobAt_toArray (v : Vector ScheduledJob n) {i : ℕ} (h : i < n) : jobAt v.toArray i = .ok v[i] := by
  simp [jobAt, h]

@[simp] theorem swapJobs_toArray (v : Vector ScheduledJob n) {i j : ℕ} (hi : i < n) (hj : j < n) :
    swapJobs v.toArray i j = .ok (v.swap i j hi hj).toArray := by
  simp [swapJobs, hi, hj]

/-- Within the heap a child is compared with the largest node so far. -/
theorem laterOf_toArray (v : Vector ScheduledJob n) {size : ℕ} (child : ℕ) (max : { m : ℕ // m < size }) (hsize : size ≤ n) :
    laterOf v.toArray size child max.1 =
      .ok (if h : child < size then if v[max.1].estFinishTime < v[child].estFinishTime then ⟨child, h⟩ else max else max).1 := by
  unfold laterOf
  by_cases hchild : child < size
  · rw [if_pos hchild, dif_pos hchild, jobAt_toArray v (by omega), jobAt_toArray v (by omega)]
    change Except.ok (if _ then _ else _) = _
    split <;> rfl
  · rw [if_neg hchild, dif_neg hchild]

/-- The two comparisons find the largest of a node and its children. -/
theorem laterOf_largest (v : Vector ScheduledJob n) {root size : ℕ} (hroot : root < size) (hsize : size ≤ n) :
    ((laterOf v.toArray size (2 * root + 1) root).bind fun max => laterOf v.toArray size (2 * root + 2) max) =
      .ok (HeapSort.largest (·.estFinishTime) v root size hroot hsize).1 := by
  have hleft := laterOf_toArray v (2 * root + 1) ⟨root, hroot⟩ hsize
  rw [hleft]
  exact laterOf_toArray v (2 * root + 2) _ hsize

/-- A call, once its two comparisons are one result. -/
theorem maxHeapify_succ (depth : ℕ) (jobs : Array ScheduledJob) (root size : ℕ) :
    maxHeapify (depth + 1) jobs root size =
      ((laterOf jobs size (2 * root + 1) root).bind fun max => laterOf jobs size (2 * root + 2) max).bind fun max =>
        if max ≠ root then (swapJobs jobs root max).bind fun jobs => maxHeapify depth jobs max size else .ok jobs := by
  rw [maxHeapify]
  cases laterOf jobs size (2 * root + 1) root <;> rfl

/-- Sifting down a node ends, at a depth of the nodes below it, with no access out of range. -/
theorem maxHeapify_toArray (v : Vector ScheduledJob n) {root size depth : ℕ} (hroot : root < size) (hsize : size ≤ n)
    (hdepth : size ≤ root + depth) :
    maxHeapify depth v.toArray root size = .ok (HeapSort.maxHeapify (·.estFinishTime) v root size hroot hsize).toArray := by
  induction depth generalizing v root with
  | zero => omega
  | succ depth ih =>
    rw [HeapSort.maxHeapify, maxHeapify_succ, laterOf_largest v hroot hsize]
    have hor := HeapSort.largest_eq (·.estFinishTime) v hroot hsize
    have hlt := (HeapSort.largest (·.estFinishTime) v root size hroot hsize).2
    change (if _ then _ else _) = _
    by_cases hmax : (HeapSort.largest (·.estFinishTime) v root size hroot hsize).1 = root
    · rw [if_neg (not_not.2 hmax), dif_pos hmax]
    · -- the child is further down than the node
      have hchild := (hor.resolve_left hmax).lt
      rw [if_pos hmax, dif_neg hmax, swapJobs_toArray v (by omega) (by omega)]
      exact ih _ hlt (by omega)

/-- Sifting down the nodes from a position to the first. -/
theorem build_toArray (v : Vector ScheduledJob n) {size depth i : ℕ} (hsize : size ≤ n) (hdepth : size ≤ depth) (hi : i < size) :
    Execution.runFrom (fun jobs i => maxHeapify depth jobs i size) v.toArray (List.range (i + 1)).reverse =
      .ok (HeapSort.buildMaxHeap (·.estFinishTime) v size hsize i hi).toArray := by
  induction i generalizing v with
  | zero => exact Execution.runFrom_cons_ok (maxHeapify_toArray v hi hsize (by omega)) []
  | succ i ih =>
    rw [List.range_succ, List.reverse_append, List.reverse_singleton, List.singleton_append,
      Execution.runFrom_cons_ok (maxHeapify_toArray v hi hsize (by omega))]
    exact ih _ (by omega)

/-- Moving the roots to the end, one after the other. -/
theorem sortDown_toArray (v : Vector ScheduledJob n) {depth : ℕ} (hdepth : n ≤ depth) {j : ℕ} (hj : j < n) :
    Execution.runFrom (sortRound depth) v.toArray (List.range' 1 j).reverse =
      .ok (HeapSort.sortDown (·.estFinishTime) v j hj).toArray := by
  induction j generalizing v with
  | zero => rfl
  | succ j ih =>
    have hround : sortRound depth v.toArray (j + 1) =
        .ok (HeapSort.maxHeapify (·.estFinishTime) (v.swap 0 (j + 1) (by omega) hj) 0 (j + 1) (by omega) (by omega)).toArray := by
      rw [sortRound, swapJobs_toArray v (by omega) hj]
      exact maxHeapify_toArray _ (by omega) (by omega) (by omega)
    rw [List.range'_1_concat, List.reverse_append, List.reverse_singleton, List.singleton_append, Nat.add_comm 1 j,
      Execution.runFrom_cons_ok hround]
    exact ih _ (by omega)

/-- The sort of a whole vector is the one that the scheduler's model uses. -/
theorem sortMaxHeap_eq (jobs : Array ScheduledJob) {depth : ℕ} (hdepth : jobs.size ≤ depth) :
    sortMaxHeap depth jobs jobs.size = .ok (EasyBf3.sortMaxHeap jobs.toList).toArray := by
  change sortMaxHeap depth jobs.toVector.toArray jobs.size = .ok (HeapSort.sortMaxHeap (·.estFinishTime) jobs.toVector).toArray
  unfold sortMaxHeap HeapSort.sortMaxHeap
  by_cases hsize : jobs.size < 2
  · rw [if_pos hsize, dif_pos hsize]
  · rw [if_neg hsize, dif_neg hsize, build_toArray jobs.toVector le_rfl hdepth (by omega)]
    exact sortDown_toArray _ hdepth (by omega)

/-- For every vector, `sort_max_heap` ends without an access outside of it, and leaves the same jobs in the order of their estimated
ends. -/
theorem sort_max_heap_sorts (jobs : Array ScheduledJob) :
    ∃ sorted, (∀ depth, jobs.size ≤ depth → sortMaxHeap depth jobs jobs.size = .ok sorted) ∧ sorted.Perm jobs ∧
      sorted.toList.Pairwise fun job job' => job.estFinishTime ≤ job'.estFinishTime := by
  refine ⟨(EasyBf3.sortMaxHeap jobs.toList).toArray, fun depth hdepth => sortMaxHeap_eq jobs hdepth, ?_, ?_⟩
  · exact Array.perm_iff_toList_perm.2 (perm_sortMaxHeap jobs.toList)
  · exact inOrder_sortMaxHeap jobs.toList

end MaxHeap

end ScheduleTest
