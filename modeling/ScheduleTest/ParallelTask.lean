import ScheduleTest.Job
import Mathlib.Data.Finset.Sort
import Mathlib.Algebra.Group.Defs

/-!
# The amounts of a parallel task

`execute_parallel_task` (`task_execution.cpp`) hands a vector of computations and a matrix of communications to the simulator. The
vector has an amount for each machine of the allocation, in the order of the machines; the matrix one for each pair of them, and none
at all where nothing is communicated. Where an IO job comes with the job, its amounts are merged into those of the job, on the
machines of either. The hosts noted for the IO job are only counted.

Where the source reads or writes out of range, or an `int` overflows, the result is undefined. Amounts are added, and no more is asked
of them.
-/

namespace ScheduleTest

/-- The amounts of a task over the machines of an allocation. -/
structure TaskAmounts (R : Type*) where
  computation : List R
  communication : List R
  deriving DecidableEq

/-- `generate_parallel_homogeneous`. -/
def generateParallelHomogeneous (cpu com : ℚ) (nbRes : ℕ) : TaskAmounts ℚ where
  computation := (List.range nbRes).map fun _ => cpu
  communication := (List.range nbRes).flatMap fun y =>
    if 0 < com then (List.range nbRes).map fun x => if x = y then 0 else com else []

/-- The amounts of a merged task, and the machines that they are for. -/
structure MergedTask (R : Type*) where
  hostsToUse : List ℕ
  amounts : TaskAmounts R
  deriving DecidableEq

namespace ParallelTask

/-- `i++` for an `int`. -/
def increment (i : ℕ) : Option ℕ := if i + 1 < 2 ^ 31 then some (i + 1) else none

section

variable {R : Type*}

/-- `v[i++]`. -/
def readNext (v : List R) (i : ℕ) : Option (R × ℕ) := v[i]?.bind fun x => (increment i).map fun j => (x, j)

/-- `v[i] = x`. -/
def write (v : List R) (i : ℕ) (x : R) : Option (List R) := if i < v.length then some (v.set i x) else none

/-- The variables of the merge. -/
structure Merging (R : Type*) where
  newComputation : List R
  newCommunication : List R
  col : ℕ := 0
  k : ℕ := 0
  colJobHostIndex : ℕ := 0
  rowJobHostIndex : ℕ := 0
  colIoHostIndex : ℕ := 0
  rowIoHostIndex : ℕ := 0

/-- An amount read for the merge, and the places in the two tasks after it. -/
structure Taken (R : Type*) where
  amount : R
  job : ℕ
  io : ℕ

variable [AddZeroClass R]

section

variable (machineIds ioAllocation : IntervalSet) (job io : TaskAmounts R)

/-- The computation of a machine. -/
def colAmount (currMachine colJob colIo : ℕ) : Option (Taken R) :=
  if currMachine ∈ machineIds ∩ ioAllocation then
    (readNext job.computation colJob).bind fun x => (readNext io.computation colIo).map fun y => ⟨x.1 + y.1, x.2, y.2⟩
  else if currMachine ∈ machineIds \ ioAllocation then
    (readNext job.computation colJob).map fun x => ⟨x.1, x.2, colIo⟩
  else if currMachine ∈ ioAllocation \ machineIds then
    (readNext io.computation colIo).map fun y => ⟨y.1, colJob, y.2⟩
  else none

/-- The communication of a column with the machine of a row. -/
def rowAmount (colOnlyInJob colOnlyInIo : Bool) (rowMachine rowJob rowIo : ℕ) : Option (Taken R) :=
  if rowMachine ∈ machineIds ∩ ioAllocation then
    if colOnlyInJob then
      if job.communication.isEmpty = false then (readNext job.communication rowJob).map fun x => ⟨x.1, x.2, rowIo⟩
      else some ⟨0, rowJob, rowIo⟩
    else if colOnlyInIo then (readNext io.communication rowIo).map fun y => ⟨y.1, rowJob, y.2⟩
    else if job.communication.isEmpty = false then
      (readNext job.communication rowJob).bind fun x => (readNext io.communication rowIo).map fun y => ⟨x.1 + y.1, x.2, y.2⟩
    else (readNext io.communication rowIo).map fun y => ⟨y.1, rowJob, y.2⟩
  else if rowMachine ∈ machineIds \ ioAllocation then
    if colOnlyInIo ∨ job.communication.isEmpty then some ⟨0, rowJob, rowIo⟩
    else (readNext job.communication rowJob).map fun x => ⟨x.1, x.2, rowIo⟩
  else if rowMachine ∈ ioAllocation \ machineIds then
    if colOnlyInJob then some ⟨0, rowJob, rowIo⟩
    else (readNext io.communication rowIo).map fun y => ⟨y.1, rowJob, y.2⟩
  else none

/-- The loop body over the rows. -/
def fillRow (colOnlyInJob colOnlyInIo : Bool) (m : Merging R) (rowMachine : ℕ) : Option (Merging R) :=
  (rowAmount machineIds ioAllocation job io colOnlyInJob colOnlyInIo rowMachine m.rowJobHostIndex
      m.rowIoHostIndex).bind fun taken =>
    (write m.newCommunication m.k taken.amount).bind fun communication =>
      (increment m.k).map fun k => { m with
        newCommunication := communication
        k := k
        rowJobHostIndex := taken.job
        rowIoHostIndex := taken.io }

/-- The loop body over the columns. -/
def fillColumn (newAlloc : List ℕ) (m : Merging R) (currMachine : ℕ) : Option (Merging R) :=
  (colAmount machineIds ioAllocation job io currMachine m.colJobHostIndex m.colIoHostIndex).bind fun taken =>
    (write m.newComputation m.col taken.amount).bind fun computation =>
      let colOnlyInJob := decide (currMachine ∈ machineIds \ ioAllocation)
      let colOnlyInIo := decide (currMachine ∈ ioAllocation \ machineIds)
      (newAlloc.foldlM (fillRow machineIds ioAllocation job io colOnlyInJob colOnlyInIo)
        { m with newComputation := computation, colJobHostIndex := taken.job, colIoHostIndex := taken.io }).map fun m =>
          { m with col := m.col + 1 }

/-- The merge of an IO job into a job (`execute_parallel_task`). The vectors are filled with zeros first; the size of the matrix is
computed as an `unsigned int`. -/
def mergeIo : Option (MergedTask R) :=
  let newAlloc := (machineIds ∪ ioAllocation).sort
  let nbRes := newAlloc.length
  (newAlloc.foldlM (fillColumn machineIds ioAllocation job io newAlloc) {
    newComputation := List.replicate nbRes 0
    newCommunication := List.replicate (nbRes * nbRes % UInt32.size) 0 }).map fun m =>
      { hostsToUse := newAlloc, amounts := { computation := m.newComputation, communication := m.newCommunication } }

end

end

end ParallelTask

end ScheduleTest
