import ScheduleTest.Protocol

/-!
# The progress of a killed job

A job executes a tree of tasks. When it is killed, `killer_process` computes how far the task being executed is, the tree is written
into the JOB_KILLED message, and the scheduler reads the progress from it. What aborts, or is undefined, gives `none`. How the results
of operations on doubles are rounded is a parameter.
-/

namespace ScheduleTest

/-- A profile, as far as its execution goes. -/
inductive TaskProfile where
  | delay (name : String) (delay : ℚ)
  /-- One of the types of `is_parallel_task`. -/
  | parallel (name : String)
  | sequence (name : String) (repeats : ℕ) (sequence : List TaskProfile)
  /-- It executes one of three profiles, by what it receives. -/
  | schedulerRecv (name onSuccess onFailure onTimeout : String)
  /-- A type whose progress is not computed: `SCHEDULER_SEND`, `SMPI` or `USAGE_TRACE`. -/
  | other (name : String)

namespace TaskProfile

def name : TaskProfile → String
  | delay name _ => name
  | parallel name => name
  | sequence name _ _ => name
  | schedulerRecv name _ _ _ => name
  | other name => name

/-- Whether a job of the profile executes one task only, and its progress can be computed. -/
def IsFlat : TaskProfile → Prop
  | delay _ _ => True
  | parallel _ => True
  | _ => False

end TaskProfile

/-- `static_cast<unsigned int>(-1)`. -/
def noTaskIndex : ℕ := UInt32.size - 1

/-- A task of a job that runs (`BatTask`). -/
structure BatTask where
  profile : TaskProfile
  /-- How much of a parallel task that has been started remains, from 1 to 0. -/
  ptask : Option ℚ := none
  delayTaskStart : ℚ := -1
  delayTaskRequired : ℚ := -1
  subTasks : List BatTask := []
  currentTaskIndex : ℕ := noTaskIndex
  currentTaskProgressRatio : ℚ := 0

/-! ## Execution -/

mutual

/-- `initialize_sequential_tasks`. -/
def initializeSequentialTasks : TaskProfile → BatTask
  | .sequence name repeats sequence => {
      profile := .sequence name repeats sequence
      subTasks := (List.replicate repeats (initializeAll sequence)).flatten }
  | profile => { profile := profile }

/-- The tasks of some profiles. -/
def initializeAll : List TaskProfile → List BatTask
  | [] => []
  | profile :: profiles => initializeSequentialTasks profile :: initializeAll profiles

end

/-- A moment in the execution of a task at which a task without sub-tasks is being executed. -/
inductive Moment where
  | delay (start : ℚ)
  | parallel (remaining : ℚ)
  /-- The loop variables, and what has become of the other sub-tasks. -/
  | sequence (sequenceIteration profileIndexInSequence : ℕ) (subTasks : List BatTask) (current : Moment)
  /-- The profile that is executed, and that sub-task. -/
  | schedulerRecv (profileToExecute : String) (current : Moment)
  | other

/-- The task at a moment of `execute_task`. The profiles of the workload are known by their names. -/
def executeTask (profiles : String → Option TaskProfile) (now : ℚ) : Moment → BatTask → Option BatTask
  | .delay start, task =>
    match task.profile with
    | .delay _ delay => if 0 ≤ start ∧ start ≤ now then some { task with delayTaskStart := start, delayTaskRequired := delay } else none
    | _ => none
  | .parallel remaining, task =>
    match task.profile with
    | .parallel _ => some { task with ptask := some remaining }
    | _ => none
  | .sequence iteration i subTasks current, task =>
    match task.profile with
    | .sequence _ repeats sequence =>
      let index := (iteration * sequence.length + i) % UInt32.size
      if iteration < repeats ∧ i < sequence.length ∧ subTasks.length = task.subTasks.length then
        match task.subTasks[index]? with
        | some sub => (executeTask profiles now current sub).map fun sub' =>
            { task with currentTaskIndex := index, subTasks := subTasks.set index sub' }
        | none => none
      else none
    | _ => none
  | .schedulerRecv profileToExecute current, task =>
    match task.profile with
    | .schedulerRecv _ onSuccess onFailure onTimeout =>
      if profileToExecute ∈ [onSuccess, onFailure, onTimeout] ∧ profileToExecute ≠ "" then
        match profiles profileToExecute with
        | some profile => (executeTask profiles now current { profile := profile }).map fun sub =>
            { task with currentTaskIndex := 0, subTasks := task.subTasks ++ [sub] }
        | none => none
      else none
    | _ => none
  | .other, task =>
    match task.profile with
    | .other _ => some task
    | _ => none

variable (round : ℚ → ℚ)

/-- How far the task is that is being executed at a moment. -/
def progressAt (profiles : String → Option TaskProfile) (now : ℚ) : Moment → TaskProfile → Option ℚ
  | .delay start, .delay _ delay => some (if delay = 0 then 1 else round (round (now - start) / delay))
  | .parallel remaining, .parallel _ => some (round (1 - remaining))
  | .sequence _ i _ current, .sequence _ _ sequence => sequence[i]?.bind (progressAt profiles now current)
  | .schedulerRecv profileToExecute current, .schedulerRecv _ _ _ _ => (profiles profileToExecute).bind (progressAt profiles now current)
  | _, _ => none

/-! ## The progress -/

/-- `BatTask::compute_leaf_progress`. -/
def computeLeafProgress (now : ℚ) (task : BatTask) : Option BatTask :=
  if task.subTasks.isEmpty then
    match task.profile with
    | .parallel _ =>
      let ratio := match task.ptask with
        | some remaining => round (1 - remaining)
        | none => 0
      some { task with currentTaskProgressRatio := ratio }
    | .delay _ _ =>
      let ratio := if task.delayTaskRequired = 0 then 1 else round (round (now - task.delayTaskStart) / task.delayTaskRequired)
      if task.delayTaskStart ≠ -1 then some { task with currentTaskProgressRatio := ratio } else none
    | _ => some task
  else none

mutual

/-- `BatTask::compute_tasks_progress`. -/
def computeTasksProgress (now : ℚ) : BatTask → Option BatTask
  | ⟨profile, ptask, start, required, subTasks, index, ratio⟩ =>
    match profile with
    | .sequence _ _ _ => (computeSubTaskProgress now subTasks index).map fun subTasks =>
        ⟨profile, ptask, start, required, subTasks, index, ratio⟩
    | _ => computeLeafProgress round now ⟨profile, ptask, start, required, subTasks, index, ratio⟩

/-- The same for one of the sub-tasks. -/
def computeSubTaskProgress (now : ℚ) : List BatTask → ℕ → Option (List BatTask)
  | [], _ => none
  | sub :: rest, 0 => (computeTasksProgress now sub).map (· :: rest)
  | sub :: rest, i + 1 => (computeSubTaskProgress now rest i).map (sub :: ·)

end

/-! ## The message -/

mutual

/-- `generate_task_tree`. -/
def generateTaskTree : BatTask → Option JsonValue
  | ⟨profile, ptask, start, _, subTasks, index, ratio⟩ =>
    if ptask.isSome ∨ start ≠ -1 then
      some (.object [("profile_name", .string profile.name), ("progress", .double ratio)])
    else if index ≠ noTaskIndex then
      (generateSubTaskTree subTasks index).map fun tree => .object [("profile_name", .string profile.name),
        ("current_task_index", .ofInt (BitVec.ofNat 32 index).toInt), ("current_task", tree)]
    else some (.object [("profile_name", .string profile.name), ("current_task_index", .ofInt (-1))])

/-- The same for one of the sub-tasks. -/
def generateSubTaskTree : List BatTask → ℕ → Option JsonValue
  | [], _ => none
  | sub :: _, 0 => generateTaskTree sub
  | _ :: rest, i + 1 => generateSubTaskTree rest i

end

/-! ## The scheduler -/

variable (t : ProtocolTexts)

/-- `rapidjson::Document::Parse` on the values that the scheduler's writer has put into its buffer: a text that is not exactly one value
is an error, and leaves the document null. -/
def parseBuffer : List JsonValue → JsonValue
  | [value] => value.mapDoubles t.readBack
  | _ => .null

/-- The loop over `d` in the JOB_KILLED event, for a number of rounds. Its writer goes on appending to the buffer. -/
def readProgress : ℕ → List JsonValue → JsonValue → Option ℚ
  | 0, _, _ => none
  | rounds + 1, buffer, d =>
    match d with
    | .object _ =>
      match d.member? "progress" with
      | some (.double progress) => some progress
      | some (.int progress) => some (Double.nearest progress.val)
      | some _ => none
      | none =>
        match d.member? "current_task" with
        | some task => readProgress rounds (buffer ++ [task]) (parseBuffer t (buffer ++ [task]))
        | none => none
    -- members are asserted to be asked of objects only
    | _ => none

/-- The progress in a JOB_KILLED event whose message has a tree: the message is printed by the simulator, and the tree that is read is
what the scheduler's writer begins with. -/
def progressOfTree (rounds : ℕ) (tree : JsonValue) : Option ℚ :=
  readProgress t rounds [tree.mapDoubles t.seen] (parseBuffer t [tree.mapDoubles t.seen])

end ScheduleTest
