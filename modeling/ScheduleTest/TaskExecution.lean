import ScheduleTest.Progress

/-!
# The execution of a task

`execute_task` (`jobs_execution.cpp`) executes the tree of tasks of a job. The time that remains of the walltime is handed from one
task to the next, a `double`: what is subtracted from it is rounded. A sequence ends at the first of its tasks that does not
return 0: that has reached the walltime, or whose profile has another return code.
-/

namespace ScheduleTest

/-- How long SimGrid's `sleep_for` has been told to sleep, all in all, and what remains of the walltime: a negative number if
there is none. -/
structure ExecutionClock where
  slept : ℚ
  remainingTime : ℚ
  deriving DecidableEq

/-- What executing a task returns, and the clock after it. What is undefined has no result. -/
abbrev TaskRun := ExecutionClock → Option (ℤ × ExecutionClock)

namespace TaskExecution

/-- `do_delay_task`. `round` gives the double nearest to a number. -/
def doDelayTask (round : ℚ → ℚ) (sleeptime : ℚ) (clock : ExecutionClock) : ℤ × ExecutionClock :=
  if clock.remainingTime < 0 ∨ sleeptime < clock.remainingTime then
    (0, {
      slept := clock.slept + sleeptime
      remainingTime := if 0 < clock.remainingTime then round (clock.remainingTime - sleeptime) else clock.remainingTime })
  else (-1, { slept := clock.slept + clock.remainingTime, remainingTime := 0 })

/-- The values of `current_task_index` in the two loops over a sequence, before they are cut to an `unsigned int`. -/
def taskIndices (repeats size : ℕ) : List ℕ :=
  (List.range repeats).flatMap fun iteration => (List.range size).map (iteration * size + ·)

/-- The loops over a sequence, from some values of the index on. -/
def runSubTasks (subTasks : List TaskRun) : List ℕ → TaskRun
  | [], clock => some (0, clock)
  | index :: rest, clock =>
    match subTasks[index % UInt32.size]? with
    | none => none
    | some run => (run clock).bind fun result =>
      if result.1 ≠ 0 then some result else runSubTasks subTasks rest result.2

section

-- the nearest double, how the profiles of the other types are executed, and the return codes of the profiles
variable (round : ℚ → ℚ) (executeOther : TaskProfile → TaskRun) (returnCode : String → ℤ)

mutual

/-- `execute_task`. What it notes in the task for the progress is left out. -/
def executeTask : BatTask → TaskRun
  | ⟨profile, _, _, _, subTasks, _, _⟩ =>
    match profile with
    | .delay name delay => fun clock =>
      let result := doDelayTask round delay clock
      some (if result.1 = -1 then result else (returnCode name, result.2))
    | .sequence name repeats sequence => fun clock =>
      (runSubTasks (executeAll subTasks) (taskIndices repeats sequence.length) clock).map fun result =>
        if result.1 ≠ 0 then result else (returnCode name, result.2)
    | profile => executeOther profile

/-- The executions of some tasks. -/
def executeAll : List BatTask → List TaskRun
  | [] => []
  | task :: tasks => executeTask task :: executeAll tasks

end

/-- `execute_job_process`, as far as the task of a job goes: what is returned, and the clock at the end. -/
def executeJob (profile : TaskProfile) (walltime : ℚ) : Option (ℤ × ExecutionClock) :=
  executeTask round executeOther returnCode (initializeSequentialTasks profile) { slept := 0, remainingTime := walltime }

end

end TaskExecution

end ScheduleTest
