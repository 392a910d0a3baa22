import Mathlib.Data.List.Sort
import Mathlib.Data.String.Basic
import Mathlib.Order.Bounds.Basic
import Mathlib.Logic.Function.Basic
import ScheduleTest.Lib.Execution

/-!
# Workflows

A workflow of `workflow.cpp` is a graph of tasks, kept twice: each task lists its parents and its children. The process of
`job_submitter.cpp` submits a task as a job when as many of its parents have completed as it lists, and is told when a job has
completed.
-/

namespace ScheduleTest

/-- A workflow, with the ids of its tasks in the order of the map that holds them. -/
structure Workflow where
  tasks : List String
  parents : String → List String := fun _ => []
  children : String → List String := fun _ => []

/-- How the submitter aborts. -/
inductive SubmitterAbort where
  /-- `Profiles::add_profile`: the profile of a task is added a second time. -/
  | profileExists (task : String)
  /-- A job has completed that was not submitted, or had completed already. -/
  | notSubmitted (number : ℕ)
  deriving DecidableEq

/-- What the submitter keeps, and what the tasks count. -/
structure SubmitterState where
  nbParentCompleted : String → ℕ := fun _ => 0
  depth : String → ℕ := fun _ => 0
  readyTasks : List String := []
  /-- The jobs submitted that have not completed, by their numbers. -/
  submittedTasks : List (ℕ × String) := []
  currentNb : ℤ := 0
  taskIdCounter : ℕ := 0
  /-- The tasks for which the workload has a profile, in the order in which they were submitted. -/
  profiles : List String := []

namespace Workflow

open Execution (runFrom)

/-- `Workflow::add_edge`. The parent is looked for among its own children. -/
def addEdge (workflow : Workflow) (edge : String × String) : Workflow :=
  let (parent, child) := edge
  { workflow with
    parents := if parent ∈ workflow.parents child then workflow.parents
      else Function.update workflow.parents child (workflow.parents child ++ [parent])
    children := if parent ∈ workflow.children parent then workflow.children
      else Function.update workflow.children parent (workflow.children parent ++ [child]) }

/-- `Workflow::load_from_xml`: the tasks, then the edges one after the other. -/
def load (tasks : List String) (edges : List (String × String)) : Workflow :=
  edges.foldl addEdge { tasks := tasks.dedup.insertionSort (· ≤ ·) }

/-- `Workflow::get_source_tasks`. -/
def getSourceTasks (workflow : Workflow) : List String := workflow.tasks.filter (workflow.parents · = [])

end Workflow

namespace SubmitterState

/-- `submit_workflow_task_as_job`. -/
def submitTask (s : SubmitterState) (task : String) : Except SubmitterAbort SubmitterState :=
  if task ∈ s.profiles then .error (.profileExists task)
  else .ok { s with
    submittedTasks := s.submittedTasks ++ [(s.taskIdCounter, task)]
    currentNb := s.currentNb + 1
    taskIdCounter := s.taskIdCounter + 1
    profiles := s.profiles ++ [task] }

/-- The loop over the ready tasks, up to the limit. A limit of zero is none. -/
def submitReady (limit : ℕ) (s : SubmitterState) : List String → Except SubmitterAbort SubmitterState
  | [] => .ok { s with readyTasks := [] }
  | task :: rest =>
    if limit = 0 ∨ s.currentNb < limit then
      match s.submitTask task with
      | .ok s' => submitReady limit s' rest
      | .error e => .error e
    else .ok { s with readyTasks := task :: rest }

/-- `inc_child`. -/
def incChild (nbParentCompleted : String → ℕ) (child : String) : String → ℕ :=
  Function.update nbParentCompleted child (nbParentCompleted child + 1)

/-- `bottom_level_f`. -/
def bottomLevel (parent : String) (depth : String → ℕ) (child : String) : String → ℕ :=
  Function.update depth child (max (depth child) (depth parent + 1))

/-- A task has completed: its children count it, and those that have now counted all their parents are ready. -/
def complete (workflow : Workflow) (s : SubmitterState) (number : ℕ) (task : String) : SubmitterState :=
  let kids := workflow.children task
  let nbParentCompleted := kids.foldl incChild s.nbParentCompleted
  { s with
    nbParentCompleted := nbParentCompleted
    depth := kids.foldl (bottomLevel task) s.depth
    readyTasks := s.readyTasks ++ kids.filter fun kid => nbParentCompleted kid = (workflow.parents kid).length
    submittedTasks := s.submittedTasks.filter (·.1 ≠ number)
    currentNb := s.currentNb - 1 }

/-- The job with a number completes, and ready tasks are submitted. -/
def onJobCompletion (workflow : Workflow) (limit : ℕ) (s : SubmitterState) (number : ℕ) : Except SubmitterAbort SubmitterState :=
  match s.submittedTasks.find? (·.1 = number) with
  | some (_, task) =>
    let s' := complete workflow s number task
    submitReady limit s' s'.readyTasks
  | none => .error (.notSubmitted number)

end SubmitterState

namespace Workflow

open Execution (runFrom)

/-- `workflow_submitter_process`, with the numbers of the jobs in the order in which they complete. -/
def submitterProcess (workflow : Workflow) (limit : ℕ) (completions : List ℕ) : Except SubmitterAbort SubmitterState :=
  let s : SubmitterState := { readyTasks := workflow.getSourceTasks }
  match s.submitReady limit s.readyTasks with
  | .ok s => runFrom (SubmitterState.onJobCompletion workflow limit) s completions
  | .error e => .error e

end Workflow

/-- A path of some length from a source task to a task. -/
inductive PathTo (tasks : List String) (edges : List (String × String)) : String → ℕ → Prop where
  | source {task : String} : task ∈ tasks → (∀ parent, (parent, task) ∉ edges) → PathTo tasks edges task 0
  | step {parent task : String} {length : ℕ} : PathTo tasks edges parent length → (parent, task) ∈ edges →
      PathTo tasks edges task (length + 1)

/-- The edges join tasks, and go round in no circle. -/
structure IsDag (tasks : List String) (edges : List (String × String)) : Prop where
  parent_mem : ∀ edge ∈ edges, edge.1 ∈ tasks
  child_mem : ∀ edge ∈ edges, edge.2 ∈ tasks
  acyclic : ∀ task, ¬ Relation.TransGen (fun parent child => (parent, child) ∈ edges) task task

/-- A task has been submitted and has completed. -/
def SubmitterState.Completed (s : SubmitterState) (task : String) : Prop := task ∈ s.profiles ∧ ∀ job ∈ s.submittedTasks, job.2 ≠ task

/-- What is meant of the submitter when some jobs have completed. -/
structure SubmitterState.Respects (s : SubmitterState) (tasks : List String) (edges : List (String × String)) (limit nbCompleted : ℕ) :
    Prop where
  /-- No task is submitted twice. -/
  once : s.profiles.Nodup
  /-- No task is submitted before its parents have completed. -/
  parents : ∀ edge ∈ edges, edge.2 ∈ s.profiles → s.Completed edge.1
  limit : limit ≠ 0 → s.submittedTasks.length ≤ limit
  /-- There are not more completions to come than tasks. -/
  bounded : nbCompleted + s.submittedTasks.length ≤ tasks.dedup.length
  /-- When there is no job to wait for, all tasks have been submitted, and none is ready. -/
  all : s.submittedTasks = [] → s.readyTasks = [] ∧ ∀ task, task ∈ s.profiles ↔ task ∈ tasks
  depth : s.submittedTasks = [] → ∀ task ∈ tasks, IsGreatest {length | PathTo tasks edges task length} (s.depth task)

/-- A workflow is executed as it is meant to be, under every limit and in every order of the completions. -/
def Workflow.IsRespected (tasks : List String) (edges : List (String × String)) : Prop :=
  ∀ (limit : ℕ) (completions : List ℕ),
    (∀ task, (Workflow.load tasks edges).submitterProcess limit completions ≠ .error (.profileExists task)) ∧
    ∀ s, (Workflow.load tasks edges).submitterProcess limit completions = .ok s → s.Respects tasks edges limit completions.length

end ScheduleTest
