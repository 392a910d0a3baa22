import ScheduleTest.Progress

/-!
# The progress of a killed job reaches the scheduler

The tree in the message is a chain of current tasks that ends with the progress of the task being executed, however sequences are
nested and repeated (`tree_isChain`). The scheduler reads it where the job executes one task only and the six decimals of the message
are enough for it: with a current task to go to, the scheduler parses a buffer that holds two values (`progress_survives_iff`).
-/

namespace ScheduleTest

/-- A chain of current tasks that ends in a task with a progress. -/
inductive IsChain : JsonValue → ℚ → Prop where
  | leaf {tree : JsonValue} {progress : ℚ} (h : tree.member? "progress" = some (.double progress)) : IsChain tree progress
  | node {tree task : JsonValue} {progress : ℚ} (hnone : tree.member? "progress" = none)
      (htask : tree.member? "current_task" = some task) (h : IsChain task progress) : IsChain tree progress

/-- A profile of delays, parallel tasks and sequences, whose tasks are numbered without overflow. -/
inductive TaskProfile.IsSequential : TaskProfile → Prop where
  | delay (name : String) (delay : ℚ) : IsSequential (.delay name delay)
  | parallel (name : String) : IsSequential (.parallel name)
  | sequence (name : String) {repeats : ℕ} {sequence : List TaskProfile} (hfits : repeats * sequence.length < UInt32.size)
      (h : ∀ profile ∈ sequence, IsSequential profile) : IsSequential (.sequence name repeats sequence)

/-- The progress of a job killed at a moment is computed, written as a chain, and read. -/
def ProgressSurvives (round : ℚ → ℚ) (t : ProtocolTexts) (profiles : String → Option TaskProfile) (now : ℚ) (moment : Moment)
    (profile : TaskProfile) (task : BatTask) : Prop :=
  ∃ task' tree progress, computeTasksProgress round now task = some task' ∧ generateTaskTree task' = some tree ∧
    progressAt round profiles now moment profile = some progress ∧ IsChain tree progress ∧
    ∃ rounds, progressOfTree t rounds tree = some progress

/-- The six decimals that are printed of a progress are enough to read it. -/
def GivenBack (t : ProtocolTexts) (progress : ℚ) : Prop := t.readBack (t.seen progress) = progress

namespace ProgressAux

variable {round : ℚ → ℚ} {t : ProtocolTexts} {profiles : String → Option TaskProfile} {now progress : ℚ} {moment : Moment}
  {profile : TaskProfile} {task task' : BatTask}
  {tree : JsonValue} {i : ℕ}

/-! ## One task -/

/-- A task of a flat profile, at a moment of its execution: its progress is written beside its name. -/
theorem flat_written (round : ℚ → ℚ) (hflat : profile.IsFlat)
    (h : executeTask profiles now moment (initializeSequentialTasks profile) = some task) :
    ∃ task' progress, computeTasksProgress round now task = some task' ∧
      generateTaskTree task' = some (.object [("profile_name", .string profile.name), ("progress", .double progress)]) ∧
      progressAt round profiles now moment profile = some progress := by
  cases profile with
  | delay name delay =>
    cases moment with
    | delay start =>
      simp only [executeTask, initializeSequentialTasks] at h
      split at h
      · rename_i hstart
        cases h
        have hne : start ≠ -1 := by
          rintro rfl
          exact absurd hstart.1 (by decide)
        refine ⟨{
          profile := .delay name delay
          delayTaskStart := start
          delayTaskRequired := delay
          currentTaskProgressRatio := if delay = 0 then 1 else round (round (now - start) / delay) }, _, ?_, ?_, rfl⟩
        · simp [computeTasksProgress, computeLeafProgress, hne]
        · simp [generateTaskTree, hne, TaskProfile.name]
      · nomatch h
    | parallel remaining => nomatch h
    | sequence iteration i subTasks current => nomatch h
    | schedulerRecv profileToExecute current => nomatch h
    | other => nomatch h
  | parallel name =>
    cases moment with
    | parallel remaining =>
      cases h
      refine ⟨_, _, rfl, ?_, rfl⟩
      simp [generateTaskTree, initializeSequentialTasks, TaskProfile.name]
    | delay start => nomatch h
    | sequence iteration i subTasks current => nomatch h
    | schedulerRecv profileToExecute current => nomatch h
    | other => nomatch h
  | sequence name repeats sequence => exact hflat.elim
  | schedulerRecv name onSuccess onFailure onTimeout => exact hflat.elim
  | other name => exact hflat.elim

/-- A job of a flat profile. -/
theorem flat_survives_iff (hflat : profile.IsFlat)
    (h : executeTask profiles now moment (initializeSequentialTasks profile) = some task) :
    ProgressSurvives round t profiles now moment profile task ↔
      ∀ progress, progressAt round profiles now moment profile = some progress → GivenBack t progress := by
  obtain ⟨task', progress, hcompute, htree, hprogress⟩ := flat_written round hflat h
  have hread : ∀ rounds, progressOfTree t (rounds + 1)
      (.object [("profile_name", .string profile.name), ("progress", .double progress)]) = some (t.readBack (t.seen progress)) := by
    intro rounds
    simp [progressOfTree, readProgress, parseBuffer, JsonValue.mapDoubles, JsonValue.mapMembers]
  constructor
  · rintro ⟨other, tree, read, hother, htree', hread', -, rounds, hsurvives⟩ progress' hprogress'
    obtain rfl := Option.some.inj (hcompute.symm.trans hother)
    obtain rfl := Option.some.inj (htree.symm.trans htree')
    obtain rfl := Option.some.inj (hprogress.symm.trans hread')
    obtain rfl := Option.some.inj (hprogress.symm.trans hprogress')
    cases rounds with
    | zero => cases hsurvives
    | succ rounds => exact Option.some.inj ((hread rounds).symm.trans hsurvives)
  · intro hback
    refine ⟨task', _, progress, hcompute, htree, hprogress, .leaf (by simp), 1, ?_⟩
    rw [hread, hback progress hprogress]

/-! ## Nested tasks -/

/-- Where the tree has no progress at its root, the loop does not end with one. -/
theorem progressOfTree_eq_none (h : tree.member? "progress" = none) (rounds : ℕ) : progressOfTree t rounds tree = none := by
  have hroot : ((tree.mapDoubles t.seen).mapDoubles t.readBack).member? "progress" = none := by
    rw [JsonValue.member?_mapDoubles, JsonValue.member?_mapDoubles, h]
    rfl
  unfold progressOfTree
  cases rounds with
  | zero => rfl
  | succ rounds =>
    unfold readProgress
    split
    · simp only [parseBuffer, hroot]
      split
      · -- the buffer now holds two values, which is no document
        cases rounds <;> rfl
      · rfl
    · rfl

/-- The root of a task that is none itself has no progress. -/
theorem member?_progress (hptask : task.ptask = none) (hstart : task.delayTaskStart = -1) (h : generateTaskTree task = some tree) :
    tree.member? "progress" = none := by
  obtain ⟨profile, ptask, start, required, subTasks, index, ratio⟩ := task
  obtain rfl : ptask = none := hptask
  obtain rfl : start = -1 := hstart
  simp only [generateTaskTree, Option.isSome_none, Bool.false_eq_true, ne_eq, not_true_eq_false, or_self, if_false] at h
  split at h
  · obtain ⟨subtree, -, rfl⟩ := Option.map_eq_some_iff.1 h
    simp
  · cases h
    simp

/-- Computing the progress does not start a task. -/
theorem started_computeLeafProgress (h : computeLeafProgress round now task = some task') :
    task'.ptask = task.ptask ∧ task'.delayTaskStart = task.delayTaskStart := by
  unfold computeLeafProgress at h
  split at h
  · cases hprofile : task.profile with
    | delay name delay =>
      by_cases hstart : task.delayTaskStart = -1
      · simp [hprofile, hstart] at h
      · simp only [hprofile, ne_eq, hstart, not_false_eq_true, if_true, Option.some.injEq] at h
        exact h ▸ ⟨rfl, rfl⟩
    | _ =>
      simp only [hprofile, Option.some.injEq] at h
      exact h ▸ ⟨rfl, rfl⟩
  · nomatch h

theorem started_computeTasksProgress (h : computeTasksProgress round now task = some task') :
    task'.ptask = task.ptask ∧ task'.delayTaskStart = task.delayTaskStart := by
  obtain ⟨profile, ptask, start, required, subTasks, index, ratio⟩ := task
  cases profile with
  | sequence name repeats sequence =>
    rw [computeTasksProgress] at h
    obtain ⟨subTasks', -, rfl⟩ := Option.map_eq_some_iff.1 h
    exact ⟨rfl, rfl⟩
  | _ =>
    simp only [computeTasksProgress] at h
    exact started_computeLeafProgress h

/-- Only a flat profile starts the task itself. -/
theorem started_executeTask (hflat : ¬profile.IsFlat)
    (h : executeTask profiles now moment (initializeSequentialTasks profile) = some task) :
    task.ptask = none ∧ task.delayTaskStart = -1 := by
  have hprofile : (initializeSequentialTasks profile).profile = profile := by
    cases profile <;> rw [initializeSequentialTasks] <;> simp
  have hinitial : (initializeSequentialTasks profile).ptask = none ∧ (initializeSequentialTasks profile).delayTaskStart = -1 := by
    cases profile <;> rw [initializeSequentialTasks] <;> simp
  generalize initializeSequentialTasks profile = initial at h hprofile hinitial
  cases profile with
  | delay name delay => exact absurd trivial hflat
  | parallel name => exact absurd trivial hflat
  | sequence name repeats sequence =>
    cases moment with
    | sequence iteration i subTasks current =>
      simp only [executeTask, hprofile] at h
      split at h
      · split at h
        · obtain ⟨sub, -, rfl⟩ := Option.map_eq_some_iff.1 h
          exact hinitial
        · nomatch h
      · nomatch h
    | _ => simp [executeTask, hprofile] at h
  | schedulerRecv name onSuccess onFailure onTimeout =>
    cases moment with
    | schedulerRecv profileToExecute current =>
      simp only [executeTask, hprofile] at h
      split at h
      · split at h
        · obtain ⟨sub, -, rfl⟩ := Option.map_eq_some_iff.1 h
          exact hinitial
        · nomatch h
      · nomatch h
    | _ => simp [executeTask, hprofile] at h
  | other name =>
    cases moment with
    | other =>
      simp only [executeTask, hprofile] at h
      cases h
      exact hinitial
    | _ => simp [executeTask, hprofile] at h

/-- The progress of a job that is executed through sub-tasks is not read. -/
theorem nested_lost (hflat : ¬profile.IsFlat)
    (h : executeTask profiles now moment (initializeSequentialTasks profile) = some task) :
    ¬ProgressSurvives round t profiles now moment profile task := by
  rintro ⟨task', tree, progress, hcompute, htree, -, -, rounds, hread⟩
  obtain ⟨hptask, hstart⟩ := started_executeTask hflat h
  obtain ⟨hptask', hstart'⟩ := started_computeTasksProgress hcompute
  rw [progressOfTree_eq_none (member?_progress (hptask'.trans hptask) (hstart'.trans hstart) htree)] at hread
  nomatch hread

/-! ## Sequences -/

theorem initializeAll_eq_map (sequence : List TaskProfile) : initializeAll sequence = sequence.map initializeSequentialTasks := by
  induction sequence with
  | nil => simp [initializeAll]
  | cons profile sequence ih => simp [initializeAll, ih]

/-- The sub-task at the place of the loop variables is of the profile there. -/
theorem getElem?_subTasks {α : Type*} {l : List α} {repeats iteration : ℕ} (hiteration : iteration < repeats) (hi : i < l.length) :
    (List.replicate repeats l).flatten[iteration * l.length + i]? = l[i]? := by
  induction iteration generalizing repeats with
  | zero =>
    obtain ⟨repeats, rfl⟩ := Nat.exists_eq_succ_of_ne_zero (Nat.ne_of_gt hiteration)
    rw [List.replicate_succ, List.flatten_cons, Nat.zero_mul, Nat.zero_add, List.getElem?_append_left hi]
  | succ iteration ih =>
    obtain ⟨repeats, rfl⟩ := Nat.exists_eq_succ_of_ne_zero (Nat.ne_of_gt (Nat.zero_lt_of_lt hiteration))
    have hsplit : (iteration + 1) * l.length + i = l.length + (iteration * l.length + i) := by
      rw [Nat.add_mul]
      omega
    rw [List.replicate_succ, List.flatten_cons, hsplit, List.getElem?_append_right (Nat.le_add_right _ _), Nat.add_sub_cancel_left]
    exact ih (Nat.lt_of_succ_lt_succ hiteration)

theorem computeSubTaskProgress_set {subTasks : List BatTask} {sub sub' : BatTask} (hi : i < subTasks.length)
    (h : computeTasksProgress round now sub = some sub') :
    computeSubTaskProgress round now (subTasks.set i sub) i = some (subTasks.set i sub') := by
  induction subTasks generalizing i with
  | nil => nomatch hi
  | cons first rest ih =>
    cases i with
    | zero => simp [computeSubTaskProgress, h]
    | succ i => simp [computeSubTaskProgress, ih (Nat.lt_of_succ_lt_succ hi)]

theorem generateSubTaskTree_set {subTasks : List BatTask} {sub : BatTask} (hi : i < subTasks.length) :
    generateSubTaskTree (subTasks.set i sub) i = generateTaskTree sub := by
  induction subTasks generalizing i with
  | nil => nomatch hi
  | cons first rest ih =>
    cases i with
    | zero => simp [generateSubTaskTree]
    | succ i => simp [generateSubTaskTree, ih (Nat.lt_of_succ_lt_succ hi)]

end ProgressAux

open ProgressAux in
/-- However sequences are nested and repeated, at every moment of the execution the tree is a chain that ends with the progress of the
task being executed. -/
theorem tree_isChain (round : ℚ → ℚ) {profiles : String → Option TaskProfile} {now : ℚ} {moment : Moment} {profile : TaskProfile}
    {task : BatTask} (hsequential : profile.IsSequential) (h : executeTask profiles now moment (initializeSequentialTasks profile) = some task) :
    ∃ task' tree progress, computeTasksProgress round now task = some task' ∧ generateTaskTree task' = some tree ∧
      progressAt round profiles now moment profile = some progress ∧ IsChain tree progress := by
  induction moment generalizing profile task with
  | sequence iteration i subTasks current ih =>
    cases hsequential with
    | delay name delay => nomatch h
    | parallel name => nomatch h
    | sequence name hfits hall =>
      rename_i repeats sequence
      simp only [executeTask, initializeSequentialTasks, initializeAll_eq_map] at h
      split at h
      · rename_i hplace
        obtain ⟨hiteration, hi, hlength⟩ := hplace
        -- the number of the sub-task does not overflow, and is not the one that stands for none
        have hle : (iteration + 1) * sequence.length ≤ repeats * sequence.length := Nat.mul_le_mul_right _ hiteration
        rw [Nat.add_mul, Nat.one_mul] at hle
        have hmod : (iteration * sequence.length + i) % UInt32.size = iteration * sequence.length + i := Nat.mod_eq_of_lt (by omega)
        have hne : iteration * sequence.length + i ≠ noTaskIndex := by
          unfold noTaskIndex
          omega
        have hsub : (List.replicate repeats (sequence.map initializeSequentialTasks)).flatten[iteration * sequence.length + i]? =
            (sequence[i]?).map initializeSequentialTasks := by
          have hget := getElem?_subTasks (l := sequence.map initializeSequentialTasks) (i := i) hiteration (by simpa using hi)
          rwa [List.length_map, List.getElem?_map] at hget
        rw [List.getElem?_eq_getElem hi, Option.map_some] at hsub
        rw [hmod, hsub] at h
        dsimp only at h
        obtain ⟨sub, hexecuted, rfl⟩ := Option.map_eq_some_iff.1 h
        obtain ⟨sub', subtree, progress, hcompute, htree, hprogress, hchain⟩ := ih (hall _ (List.getElem_mem hi)) hexecuted
        have hindex : iteration * sequence.length + i < subTasks.length := by
          rw [hlength]
          exact (List.getElem?_eq_some_iff.1 hsub).1
        refine ⟨{
          profile := .sequence name repeats sequence
          subTasks := subTasks.set (iteration * sequence.length + i) sub'
          currentTaskIndex := iteration * sequence.length + i }, .object [("profile_name", .string name),
            ("current_task_index", .ofInt (BitVec.ofNat 32 (iteration * sequence.length + i)).toInt), ("current_task", subtree)],
          progress, ?_, ?_, ?_, ?_⟩
        · rw [computeTasksProgress, computeSubTaskProgress_set hindex hcompute]
          rfl
        · simp only [generateTaskTree, Option.isSome_none, Bool.false_eq_true, ne_eq, not_true_eq_false, or_self, if_false, hne,
            not_false_eq_true, if_true, generateSubTaskTree_set hindex, htree, Option.map_some, TaskProfile.name]
        · simp [progressAt, List.getElem?_eq_getElem hi, hprogress]
        · exact .node (by simp) (by simp) hchain
      · nomatch h
  | delay start =>
    cases hsequential with
    | delay name delay =>
      obtain ⟨task', progress, hcompute, htree, hprogress⟩ := flat_written round (by trivial) h
      exact ⟨task', _, progress, hcompute, htree, hprogress, .leaf (by simp)⟩
    | parallel name => nomatch h
    | sequence name hfits hall => nomatch h
  | parallel remaining =>
    cases hsequential with
    | parallel name =>
      obtain ⟨task', progress, hcompute, htree, hprogress⟩ := flat_written round (by trivial) h
      exact ⟨task', _, progress, hcompute, htree, hprogress, .leaf (by simp)⟩
    | delay name delay => nomatch h
    | sequence name hfits hall => nomatch h
  | schedulerRecv profileToExecute current ih =>
    cases hsequential with
    | delay name delay => nomatch h
    | parallel name => nomatch h
    | sequence name hfits hall => nomatch h
  | other =>
    cases hsequential with
    | delay name delay => nomatch h
    | parallel name => nomatch h
    | sequence name hfits hall => nomatch h

open ProgressAux in
/-- At every moment of a job's execution at which it can be killed, its progress is computed, written as a chain and read by the
scheduler, if and only if the job's profile is itself a delay or a parallel task and the progress is read from its six decimals. -/
theorem progress_survives_iff (round : ℚ → ℚ) (t : ProtocolTexts) (profiles : String → Option TaskProfile) (now : ℚ) (moment : Moment)
    (profile : TaskProfile) (task : BatTask) (h : executeTask profiles now moment (initializeSequentialTasks profile) = some task) :
    ProgressSurvives round t profiles now moment profile task ↔
      profile.IsFlat ∧ ∀ progress, progressAt round profiles now moment profile = some progress → GivenBack t progress := by
  by_cases hflat : profile.IsFlat
  · rw [flat_survives_iff hflat h]
    exact ⟨fun hback => ⟨hflat, hback⟩, fun hboth => hboth.2⟩
  · exact ⟨fun hsurvives => absurd hsurvives (nested_lost hflat h), fun hboth => absurd hboth.1 hflat⟩

namespace ProgressExample

/-- Doubles are read as the nearest ones, and the scheduler prints six decimals too. -/
def texts : ProtocolTexts where
  toDouble := Double.nearest
  print := Text.printFixed 6
  printed := Text.fixedValue 6
  reads := JsonValue.Reads.fixed (by decide)
  toStringHyphen _ := ""
  fromStringHyphen _ := none

/-- A delay that is being executed. -/
theorem executeTask_delay {start now delay : ℚ} (hstart : 0 ≤ start ∧ start ≤ now) :
    executeTask (fun _ => none) now (.delay start) (initializeSequentialTasks (.delay "delay" delay)) =
      some { profile := .delay "delay" delay, delayTaskStart := start, delayTaskRequired := delay } := by
  simp only [executeTask, initializeSequentialTasks]
  rw [if_pos hstart]

end ProgressExample

open ProgressExample

/-- A delay killed when half of it is over, and one killed when a third is: that is read as 0.333333. -/
theorem progress_survives_iff_witness :
    (∃ task, executeTask (fun _ => none) 50 (.delay 0) (initializeSequentialTasks (.delay "delay" 100)) = some task ∧
      progressAt Double.nearest (fun _ => none) 50 (.delay 0) (.delay "delay" 100) = some (1 / 2) ∧
      ProgressSurvives Double.nearest texts (fun _ => none) 50 (.delay 0) (.delay "delay" 100) task) ∧
    ∃ task, executeTask (fun _ => none) 10 (.delay 0) (initializeSequentialTasks (.delay "delay" 30)) = some task ∧
      ¬ProgressSurvives Double.nearest texts (fun _ => none) 10 (.delay 0) (.delay "delay" 30) task := by
  constructor
  · have hprogress : progressAt Double.nearest (fun _ => none) 50 (.delay 0) (.delay "delay" 100) = some (1 / 2) := by decide +kernel
    have hexecuted := @executeTask_delay 0 50 100 (by decide)
    refine ⟨_, hexecuted, hprogress, (progress_survives_iff _ _ _ _ _ _ _ hexecuted).2 ⟨trivial, fun progress h => ?_⟩⟩
    obtain rfl := Option.some.inj (hprogress.symm.trans h)
    unfold GivenBack
    decide +kernel
  · have hprogress : progressAt Double.nearest (fun _ => none) 10 (.delay 0) (.delay "delay" 30) =
        some (Double.nearest (1 / 3)) := by decide +kernel
    have hexecuted := @executeTask_delay 0 10 30 (by decide)
    refine ⟨_, hexecuted, fun hsurvives => ?_⟩
    have hback := ((progress_survives_iff _ _ _ _ _ _ _ hexecuted).1 hsurvives).2 _ hprogress
    revert hback
    unfold GivenBack
    decide +kernel

open ProgressAux in
/-- A sequence of two delays killed in the second: the scheduler finds two values in its buffer. -/
theorem progress_survives_false :
    ¬∀ (profiles : String → Option TaskProfile) (now : ℚ) (moment : Moment) (profile : TaskProfile) (task : BatTask),
      profile.IsSequential → executeTask profiles now moment (initializeSequentialTasks profile) = some task →
        ProgressSurvives Double.nearest texts profiles now moment profile task := by
  intro hall
  have hsequential : (TaskProfile.sequence "sequence" 1 [.delay "a" 10, .delay "b" 100]).IsSequential := by
    refine .sequence "sequence" (by decide) fun profile hprofile => ?_
    simp only [List.mem_cons, List.not_mem_nil, or_false] at hprofile
    rcases hprofile with rfl | rfl
    · exact .delay "a" 10
    · exact .delay "b" 100
  -- the first delay is over, the second one began at its end
  have hexecuted : ∃ task, executeTask (fun _ => none) 60
      (.sequence 0 1 [{ profile := .delay "a" 10, delayTaskStart := 0, delayTaskRequired := 10 }, { profile := .delay "b" 100 }]
        (.delay 10)) (initializeSequentialTasks (.sequence "sequence" 1 [.delay "a" 10, .delay "b" 100])) = some task := by
    have hdates : (0 : ℚ) ≤ 10 ∧ (10 : ℚ) ≤ 60 := by decide
    simp [executeTask, initializeSequentialTasks, initializeAll, hdates]
  obtain ⟨task, htask⟩ := hexecuted
  exact nested_lost (by rintro ⟨⟩) htask (hall _ _ _ _ task hsequential htask)

end ScheduleTest
