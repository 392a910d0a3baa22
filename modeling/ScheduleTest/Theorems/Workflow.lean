import Mathlib.Order.WellFoundedSet
import ScheduleTest.Workflow

/-!
# Workflows are executed along their graphs

A task is ready when the completions that it has counted are as many as the parents it lists. A parent is listed once, but a child
as often as its edge is given, and counts as often. So a workflow is executed as it is meant to be, under every limit and in every
order of the completions, exactly where no edge is given twice (`workflow_respected_iff`).
-/

namespace ScheduleTest

open Execution

namespace WorkflowAux

variable {tasks : List String} {edges : List (String × String)} {s s' : SubmitterState} {task parent : String} {number n limit : ℕ}

/-! ## The two copies of the edges -/

/-- The parents of a task, each as often as its edge is given. -/
def into (edges : List (String × String)) (task : String) : List String := (edges.filter (·.2 = task)).map (·.1)

/-- The children of a task, each as often as its edge is given. -/
def out (edges : List (String × String)) (task : String) : List String := (edges.filter (·.1 = task)).map (·.2)

theorem mem_into : parent ∈ into edges task ↔ (parent, task) ∈ edges := by
  simp [into]

theorem mem_out : task ∈ out edges parent ↔ (parent, task) ∈ edges := by
  simp [out]

/-- A child is among the children of a task as often as the task is among its parents. -/
theorem count_out (edges : List (String × String)) (parent task : String) :
    (out edges parent).count task = (into edges task).count parent := by
  induction edges with
  | nil => rfl
  | cons edge edges ih =>
    obtain ⟨p, c⟩ := edge
    unfold out into at ih ⊢
    by_cases hp : p = parent <;> by_cases hc : c = task <;> simp [hp, hc, ih]

/-- The edges into the tasks are given once where the edges are. -/
theorem nodup_iff : edges.Nodup ↔ ∀ task, (into edges task).Nodup := by
  simp only [List.nodup_iff_count_le_one]
  have hcount : ∀ parent task, edges.count (parent, task) = (into edges task).count parent := by
    intro parent task
    induction edges with
    | nil => rfl
    | cons edge edges ih =>
      obtain ⟨p, c⟩ := edge
      unfold into at ih ⊢
      by_cases hp : p = parent <;> by_cases hc : c = task <;> simp [hp, hc, ih]
  constructor
  · exact fun h task parent => (hcount parent task) ▸ h (parent, task)
  · rintro h ⟨parent, task⟩
    exact (hcount parent task).symm ▸ h task parent

theorem parents_load (tasks : List String) (edges : List (String × String)) (task : String) :
    ((Workflow.load tasks edges).parents task).Nodup ∧
      ∀ parent, parent ∈ (Workflow.load tasks edges).parents task ↔ (parent, task) ∈ edges := by
  unfold Workflow.load
  induction edges using List.reverseRecOn with
  | nil => simp
  | append_singleton edges edge ih =>
    obtain ⟨p, c⟩ := edge
    rw [List.foldl_append, List.foldl_cons, List.foldl_nil]
    generalize List.foldl Workflow.addEdge _ edges = workflow at ih
    obtain ⟨hnodup, hmem⟩ := ih
    simp only [Workflow.addEdge, List.mem_append, List.mem_singleton, Prod.mk.injEq]
    by_cases hc : task = c
    · subst hc
      split
      · rename_i hthere
        refine ⟨hnodup, fun parent => (hmem parent).trans ⟨.inl, ?_⟩⟩
        rintro (h | ⟨rfl, -⟩)
        · exact h
        · exact (hmem parent).1 hthere
      · rename_i hnew
        rw [Function.update_self]
        refine ⟨(List.perm_append_singleton _ _).nodup_iff.2 (List.nodup_cons.2 ⟨hnew, hnodup⟩), fun parent => ?_⟩
        simp [hmem parent]
    · have hsame : (if p ∈ workflow.parents c then workflow.parents
          else Function.update workflow.parents c (workflow.parents c ++ [p])) task = workflow.parents task := by
        split
        · rfl
        · exact Function.update_of_ne hc _ _
      rw [hsame]
      refine ⟨hnodup, fun parent => (hmem parent).trans ⟨.inl, ?_⟩⟩
      rintro (h | ⟨-, rfl⟩)
      · exact h
      · exact absurd rfl hc

/-- No edge is taken for one that is there: the parent is looked for among its own children. -/
theorem children_load (tasks : List String) (hself : ∀ edge ∈ edges, edge.1 ≠ edge.2) (task : String) :
    (Workflow.load tasks edges).children task = out edges task := by
  unfold Workflow.load
  induction edges using List.reverseRecOn generalizing task with
  | nil => rfl
  | append_singleton edges edge ih =>
    obtain ⟨p, c⟩ := edge
    have hih := ih fun edge he => hself edge (List.mem_append_left _ he)
    rw [List.foldl_append, List.foldl_cons, List.foldl_nil]
    generalize List.foldl Workflow.addEdge _ edges = workflow at hih
    have hnot : p ∉ workflow.children p := by
      rw [hih, mem_out]
      exact fun hbad => hself (p, p) (List.mem_append_left _ hbad) rfl
    simp only [Workflow.addEdge, if_neg hnot, out, List.filter_append, List.map_append]
    by_cases hp : task = p
    · subst hp
      rw [Function.update_self, hih]
      simp [out]
    · rw [Function.update_of_ne hp, hih]
      simp [out, Ne.symm hp]

theorem tasks_load (tasks : List String) (edges : List (String × String)) :
    (Workflow.load tasks edges).tasks = tasks.dedup.insertionSort (· ≤ ·) := by
  unfold Workflow.load
  induction edges using List.reverseRecOn with
  | nil => rfl
  | append_singleton edges edge ih => rw [List.foldl_append, List.foldl_cons, List.foldl_nil, Workflow.addEdge, ih]

/-- How many parents a task lists. -/
theorem length_parents (tasks : List String) (edges : List (String × String)) (task : String) :
    ((Workflow.load tasks edges).parents task).length = (into edges task).dedup.length := by
  obtain ⟨hnodup, hmem⟩ := parents_load tasks edges task
  refine ((List.perm_ext_iff_of_nodup hnodup (List.nodup_dedup _)).2 fun parent => ?_).length_eq
  rw [hmem, List.mem_dedup, mem_into]

/-- A task lists as many parents as there are edges into it exactly where none is given twice. -/
theorem length_parents_eq_iff : ((Workflow.load tasks edges).parents task).length = (into edges task).length ↔
    (into edges task).Nodup := by
  rw [length_parents]
  constructor
  · intro h
    have hsame := (List.dedup_sublist (into edges task)).eq_of_length h
    exact hsame ▸ List.nodup_dedup _
  · exact fun h => by rw [h.dedup]

/-! ## The counts -/

instance (s : SubmitterState) : DecidablePred s.Completed := fun task =>
  inferInstanceAs (Decidable (task ∈ s.profiles ∧ ∀ job ∈ s.submittedTasks, job.2 ≠ task))

/-- A child counts a completion as often as it is listed. -/
theorem foldl_incChild (kids : List String) (f : String → ℕ) (task : String) :
    kids.foldl SubmitterState.incChild f task = f task + kids.count task := by
  induction kids generalizing f with
  | nil => simp
  | cons kid kids ih =>
    rw [List.foldl_cons, ih, SubmitterState.incChild, List.count_cons]
    by_cases h : kid = task
    · subst h
      rw [Function.update_self]
      simp only [beq_self_eq_true, if_true]
      omega
    · rw [Function.update_of_ne (Ne.symm h)]
      simp [h]

/-- A child is at least one deeper than its parent, which is not among its own children. -/
theorem foldl_bottomLevel (kids : List String) (hparent : parent ∉ kids) (depth : String → ℕ) (task : String) :
    kids.foldl (SubmitterState.bottomLevel parent) depth task =
      if task ∈ kids then max (depth task) (depth parent + 1) else depth task := by
  induction kids generalizing depth with
  | nil => rfl
  | cons kid kids ih =>
    obtain ⟨hne, hparent⟩ := not_or.1 (fun h => hparent (List.mem_cons.2 h))
    rw [List.foldl_cons, ih hparent, SubmitterState.bottomLevel, Function.update_of_ne hne]
    by_cases h : task = kid
    · subst h
      simp
    · rw [Function.update_of_ne h]
      simp [h]

/-- What holds of the books of the submitter whatever the edges, when some jobs have completed. -/
structure Books (edges : List (String × String)) (s : SubmitterState) (nbCompleted : ℕ) : Prop where
  once : s.profiles.Nodup
  numbers : (s.submittedTasks.map (·.1)).Nodup
  fresh : ∀ job ∈ s.submittedTasks, job.1 < s.taskIdCounter
  outstanding : (s.submittedTasks.map (·.2)).Nodup
  submitted : ∀ job ∈ s.submittedTasks, job.2 ∈ s.profiles
  current : s.currentNb = s.submittedTasks.length
  length : s.profiles.length = nbCompleted + s.submittedTasks.length
  count : ∀ task, s.nbParentCompleted task = (into edges task).countP (s.Completed ·)

theorem Books.new (edges : List (String × String)) : Books edges {} 0 where
  once := .nil
  numbers := .nil
  fresh := nofun
  outstanding := .nil
  submitted := nofun
  current := rfl
  length := rfl
  count := by
    intro task
    simp [SubmitterState.Completed]

theorem submitTask_ok (h : s.submitTask task = .ok s') : task ∉ s.profiles ∧ s' = { s with
    submittedTasks := s.submittedTasks ++ [(s.taskIdCounter, task)]
    currentNb := s.currentNb + 1
    taskIdCounter := s.taskIdCounter + 1
    profiles := s.profiles ++ [task] } := by
  unfold SubmitterState.submitTask at h
  split at h
  · cases h
  · rename_i hnew
    cases h
    exact ⟨hnew, rfl⟩

/-- A task just submitted has not completed. -/
theorem completed_submitTask (h : s.submitTask task = .ok s') (other : String) : s'.Completed other ↔ s.Completed other := by
  obtain ⟨hnew, rfl⟩ := submitTask_ok h
  simp only [SubmitterState.Completed, List.mem_append, List.mem_singleton]
  constructor
  · rintro ⟨hmem, hdone⟩
    refine ⟨hmem.resolve_right fun heq => ?_, fun job hjob => hdone job (.inl hjob)⟩
    exact hdone (s.taskIdCounter, task) (.inr rfl) heq.symm
  · rintro ⟨hmem, hdone⟩
    refine ⟨.inl hmem, ?_⟩
    rintro job (hjob | rfl)
    · exact hdone job hjob
    · rintro rfl
      exact hnew hmem

/-- A task is submitted. -/
theorem Books.submit (h : Books edges s n) (hx : s.submitTask task = .ok s') : Books edges s' n := by
  have hcompleted := completed_submitTask hx
  obtain ⟨hnew, rfl⟩ := submitTask_ok hx
  refine ⟨?_, ?_, ?_, ?_, ?_, ?_, ?_, fun other => ?_⟩
  · exact (List.perm_append_singleton _ _).nodup_iff.2 (List.nodup_cons.2 ⟨hnew, h.once⟩)
  · dsimp only
    rw [List.map_append, List.map_singleton]
    refine (List.perm_append_singleton _ _).nodup_iff.2 (List.nodup_cons.2 ⟨fun hbad => ?_, h.numbers⟩)
    obtain ⟨job, hjob, heq⟩ := List.mem_map.1 hbad
    exact absurd (h.fresh job hjob) (heq ▸ lt_irrefl _)
  · intro job hjob
    rcases List.mem_append.1 hjob with hjob | hjob
    · exact Nat.lt_succ_of_lt (h.fresh job hjob)
    · obtain rfl := List.mem_singleton.1 hjob
      exact Nat.lt_succ_self _
  · dsimp only
    rw [List.map_append, List.map_singleton]
    refine (List.perm_append_singleton _ _).nodup_iff.2 (List.nodup_cons.2 ⟨fun hbad => ?_, h.outstanding⟩)
    obtain ⟨job, hjob, heq⟩ := List.mem_map.1 hbad
    have hmem := h.submitted job hjob
    rw [heq] at hmem
    exact hnew hmem
  · intro job hjob
    rcases List.mem_append.1 hjob with hjob | hjob
    · exact List.mem_append_left _ (h.submitted job hjob)
    · obtain rfl := List.mem_singleton.1 hjob
      exact List.mem_append_right _ List.mem_cons_self
  · simp [h.current]
  · have hlength := h.length
    simp only [List.length_append, List.length_singleton]
    omega
  · exact (h.count other).trans (List.countP_congr fun parent _ => by simp [hcompleted parent])

/-- The task of a job that completes has completed. -/
theorem completed_complete {workflow : Workflow} (h : Books edges s n) (hjob : (number, task) ∈ s.submittedTasks) (other : String) :
    (SubmitterState.complete workflow s number task).Completed other ↔ s.Completed other ∨ other = task := by
  simp only [SubmitterState.Completed, SubmitterState.complete, List.mem_filter, decide_eq_true_eq]
  constructor
  · rintro ⟨hmem, hdone⟩
    by_cases heq : other = task
    · exact .inr heq
    · refine .inl ⟨hmem, fun job hother heq' => hdone job ⟨hother, fun hnumber => heq ?_⟩ heq'⟩
      -- the job is the one that completes
      have hsame := List.inj_on_of_nodup_map h.numbers hother hjob hnumber
      exact heq'.symm.trans (congrArg Prod.snd hsame)
  · rintro (⟨hmem, hdone⟩ | rfl)
    · exact ⟨hmem, fun job hother => hdone job hother.1⟩
    · refine ⟨h.submitted _ hjob, fun job hother heq => hother.2 ?_⟩
      exact congrArg Prod.fst (List.inj_on_of_nodup_map h.outstanding hother.1 hjob heq)

/-- A job completes. -/
theorem Books.complete {workflow : Workflow} (h : Books edges s n) (hchildren : workflow.children task = out edges task)
    (hjob : (number, task) ∈ s.submittedTasks) : Books edges (SubmitterState.complete workflow s number task) (n + 1) := by
  have hlength : (s.submittedTasks.filter (·.1 ≠ number)).length + 1 = s.submittedTasks.length := by
    obtain ⟨before, after, hsplit⟩ := List.append_of_mem hjob
    have hnumbers := h.numbers
    rw [hsplit, List.map_append, List.map_cons, List.nodup_middle, List.nodup_cons] at hnumbers
    have hkept : ∀ l : List (ℕ × String), number ∉ l.map (·.1) → l.filter (·.1 ≠ number) = l := by
      intro l hl
      refine List.filter_eq_self.2 fun job hmem => ?_
      have hne : job.1 ≠ number := fun heq => hl (heq ▸ List.mem_map_of_mem hmem)
      simpa using hne
    rw [← List.map_append, List.map_append, List.mem_append, not_or] at hnumbers
    rw [hsplit, List.filter_append, List.filter_cons_of_neg (by simp), hkept before hnumbers.1.1, hkept after hnumbers.1.2]
    simp only [List.length_append, List.length_cons]
    omega
  have hsub : (s.submittedTasks.filter (·.1 ≠ number)).Sublist s.submittedTasks := List.filter_sublist
  have hnot : ¬ s.Completed task := fun hbad => hbad.2 _ hjob rfl
  refine ⟨h.once, h.numbers.sublist (hsub.map _), fun job hmem => h.fresh job (hsub.subset hmem), h.outstanding.sublist (hsub.map _),
    fun job hmem => h.submitted job (hsub.subset hmem), ?_, ?_, fun other => ?_⟩
  · have hcurrent := h.current
    change s.currentNb - 1 = ((s.submittedTasks.filter (·.1 ≠ number)).length : ℤ)
    omega
  · have hprofiles := h.length
    change s.profiles.length = n + 1 + (s.submittedTasks.filter (·.1 ≠ number)).length
    omega
  · change (workflow.children task).foldl SubmitterState.incChild s.nbParentCompleted other = _
    rw [foldl_incChild, hchildren, count_out, h.count other]
    -- the parents that have completed are those before, and the task
    induction into edges other with
    | nil => rfl
    | cons parent parents ih =>
      simp only [List.countP_cons, List.count_cons, completed_complete h hjob] at ih ⊢
      by_cases heq : parent = task
      · subst heq
        simp only [hnot, decide_false, Bool.false_eq_true, if_false, beq_self_eq_true, if_true, false_or, decide_true]
        omega
      · simp only [heq, or_false, beq_iff_eq, if_false]
        omega

/-- Submitting aborts only where a task is submitted a second time. -/
theorem submitReady_error {ready : List String} {e : SubmitterAbort} (h : SubmitterState.submitReady limit s ready = .error e) :
    ∃ task, e = .profileExists task := by
  induction ready generalizing s with
  | nil => cases h
  | cons task ready ih =>
    unfold SubmitterState.submitReady at h
    split at h
    · split at h
      · exact ih h
      · rename_i e' hx
        cases h
        unfold SubmitterState.submitTask at hx
        split at hx
        · cases hx
          exact ⟨task, rfl⟩
        · cases hx
    · cases h

/-- What submitting ready tasks changes: those from the front on are submitted, and the others stay ready. -/
theorem submitReady_ok {ready : List String} (h : Books edges s n) (hx : SubmitterState.submitReady limit s ready = .ok s') :
    Books edges s' n ∧ (∀ other, s'.Completed other ↔ s.Completed other) ∧ s'.depth = s.depth ∧
      (∃ submitted, submitted ++ s'.readyTasks = ready ∧ s'.profiles = s.profiles ++ submitted) ∧
      (limit ≠ 0 → s.currentNb ≤ limit → s'.currentNb ≤ limit) ∧
      (s'.readyTasks = [] ∨ limit ≠ 0 ∧ limit ≤ s'.currentNb) := by
  induction ready generalizing s with
  | nil =>
    cases hx
    exact ⟨⟨h.once, h.numbers, h.fresh, h.outstanding, h.submitted, h.current, h.length, h.count⟩, fun _ => Iff.rfl, rfl,
      ⟨[], rfl, (List.append_nil _).symm⟩, fun _ hle => hle, .inl rfl⟩
  | cons task ready ih =>
    unfold SubmitterState.submitReady at hx
    split at hx
    · rename_i hroom
      split at hx
      · rename_i s₁ hsubmitted
        obtain ⟨hbooks, hcompleted, hdepth, ⟨submitted, hready, hprofiles⟩, hlimit, hstopped⟩ := ih (h.submit hsubmitted) hx
        obtain ⟨-, rfl⟩ := submitTask_ok hsubmitted
        refine ⟨hbooks, fun other => (hcompleted other).trans (completed_submitTask hsubmitted other), hdepth,
          ⟨task :: submitted, by rw [← hready]; rfl, by rw [hprofiles]; simp⟩, fun hne hle => hlimit hne ?_, hstopped⟩
        have hless := hroom.resolve_left hne
        change s.currentNb + 1 ≤ limit
        omega
      · cases hx
    · rename_i hfull
      obtain ⟨hne, hle⟩ := not_or.1 hfull
      cases hx
      exact ⟨⟨h.once, h.numbers, h.fresh, h.outstanding, h.submitted, h.current, h.length, h.count⟩, fun _ => Iff.rfl, rfl,
        ⟨[], rfl, (List.append_nil _).symm⟩, fun _ hle => hle, .inr ⟨hne, not_lt.1 hle⟩⟩

/-! ## Where no edge is given twice -/

/-- What every step keeps where no edge is given twice. -/
structure Inv (tasks : List String) (edges : List (String × String)) (s : SubmitterState) (nbCompleted : ℕ) : Prop where
  books : Books edges s nbCompleted
  ready : (s.readyTasks ++ s.profiles).Nodup
  /-- A task is ready or submitted when all its parents have completed. -/
  elected : ∀ task, task ∈ s.readyTasks ++ s.profiles ↔ task ∈ tasks ∧ ∀ parent, (parent, task) ∈ edges → s.Completed parent
  deeper : ∀ edge ∈ edges, s.Completed edge.1 → s.depth edge.1 + 1 ≤ s.depth edge.2
  deepest : ∀ task, s.depth task = 0 ∨ ∃ parent, (parent, task) ∈ edges ∧ s.Completed parent ∧ s.depth task = s.depth parent + 1

/-- Tasks that have not been submitted can be. -/
theorem submitReady_success {ready : List String} (h : (ready ++ s.profiles).Nodup) :
    ∃ s', SubmitterState.submitReady limit s ready = .ok s' := by
  induction ready generalizing s with
  | nil => exact ⟨_, rfl⟩
  | cons task ready ih =>
    rw [List.cons_append, List.nodup_cons, List.mem_append, not_or] at h
    unfold SubmitterState.submitReady
    split
    · unfold SubmitterState.submitTask
      rw [if_neg h.1.2]
      refine ih ?_
      rw [← List.append_assoc]
      refine (List.perm_append_singleton _ _).nodup_iff.2 (List.nodup_cons.2 ⟨?_, h.2⟩)
      rw [List.mem_append, not_or]
      exact h.1
    · exact ⟨_, rfl⟩

/-- Ready tasks are submitted. -/
theorem Inv.submitReady (limit : ℕ) (h : Inv tasks edges s n) :
    ∃ s', SubmitterState.submitReady limit s s.readyTasks = .ok s' ∧ Inv tasks edges s' n ∧
      (limit ≠ 0 → s.currentNb ≤ limit → s'.currentNb ≤ limit) ∧ (s'.readyTasks = [] ∨ limit ≠ 0 ∧ limit ≤ s'.currentNb) := by
  have hsuccess : ∃ s', SubmitterState.submitReady limit s s.readyTasks = .ok s' := submitReady_success h.ready
  obtain ⟨s', hx⟩ := hsuccess
  obtain ⟨hbooks, hcompleted, hdepth, ⟨submitted, hready, hprofiles⟩, hlimit, hstopped⟩ := submitReady_ok h.books hx
  have hperm : (s'.readyTasks ++ s'.profiles).Perm (s.readyTasks ++ s.profiles) := by
    rw [hprofiles, ← hready]
    refine List.perm_append_comm.trans ?_
    rw [List.append_assoc]
    exact List.perm_append_comm
  refine ⟨s', hx, ⟨hbooks, hperm.nodup_iff.2 h.ready, fun task => ?_, ?_, ?_⟩, hlimit, hstopped⟩
  · rw [hperm.mem_iff, h.elected task]
    simp only [hcompleted]
  · simpa only [hcompleted, hdepth] using h.deeper
  · simpa only [hcompleted, hdepth] using h.deepest

theorem ne_self_of_isDag (h : IsDag tasks edges) : ∀ edge ∈ edges, edge.1 ≠ edge.2 := by
  rintro ⟨p, c⟩ hmem heq
  obtain rfl : p = c := heq
  exact h.acyclic p (.single hmem)

/-- A job completes, and its task's children may become ready. -/
theorem Inv.complete (hdag : IsDag tasks edges) (hnodup : edges.Nodup) (h : Inv tasks edges s n)
    (hjob : (number, task) ∈ s.submittedTasks) :
    Inv tasks edges (SubmitterState.complete (Workflow.load tasks edges) s number task) (n + 1) := by
  have hchildren := children_load tasks (ne_self_of_isDag hdag) task
  have hbooks := h.books.complete hchildren hjob
  have hcompleted : ∀ other, (SubmitterState.complete (Workflow.load tasks edges) s number task).Completed other ↔
      s.Completed other ∨ other = task := completed_complete h.books hjob
  have hnot : ¬ s.Completed task := fun hbad => hbad.2 _ hjob rfl
  have hself : task ∉ out edges task := fun hbad => ne_self_of_isDag hdag _ (mem_out.1 hbad) rfl
  have hsubmitted : task ∈ s.profiles := h.books.submitted _ hjob
  -- a child counts as many completions as it lists parents when they all have completed
  have hcount : ∀ kid, (SubmitterState.complete (Workflow.load tasks edges) s number task).nbParentCompleted kid =
      ((Workflow.load tasks edges).parents kid).length ↔
      ∀ parent, (parent, kid) ∈ edges → s.Completed parent ∨ parent = task := by
    intro kid
    rw [hbooks.count kid, length_parents_eq_iff.2 (nodup_iff.1 hnodup kid), List.countP_eq_length]
    simp only [mem_into, decide_eq_true_eq, hcompleted]
  have hkids : ∀ kid, kid ∈ (out edges task).filter (fun kid =>
      (SubmitterState.complete (Workflow.load tasks edges) s number task).nbParentCompleted kid =
        ((Workflow.load tasks edges).parents kid).length) ↔
      (task, kid) ∈ edges ∧ ∀ parent, (parent, kid) ∈ edges → s.Completed parent ∨ parent = task := by
    intro kid
    rw [List.mem_filter, mem_out, decide_eq_true_eq, hcount kid]
  have hready : (SubmitterState.complete (Workflow.load tasks edges) s number task).readyTasks =
      s.readyTasks ++ (out edges task).filter (fun kid =>
        (SubmitterState.complete (Workflow.load tasks edges) s number task).nbParentCompleted kid =
          ((Workflow.load tasks edges).parents kid).length) := by
    rw [← hchildren]
    rfl
  have hdepth : ∀ other, (SubmitterState.complete (Workflow.load tasks edges) s number task).depth other =
      if other ∈ out edges task then max (s.depth other) (s.depth task + 1) else s.depth other := by
    intro other
    rw [← foldl_bottomLevel (out edges task) hself, ← hchildren]
    rfl
  -- the depth of a task that has completed stays
  have hkept : ∀ other, s.Completed other ∨ other = task →
      (SubmitterState.complete (Workflow.load tasks edges) s number task).depth other = s.depth other := by
    intro other hdone
    rw [hdepth, if_neg]
    intro hkid
    have hother : other ∈ s.readyTasks ++ s.profiles := by
      refine List.mem_append_right _ ?_
      rcases hdone with hdone | rfl
      · exact hdone.1
      · exact hsubmitted
    exact hnot (((h.elected other).1 hother).2 task (mem_out.1 hkid))
  refine ⟨hbooks, ?_, fun other => ?_, ?_, fun other => ?_⟩
  · rw [hready]
    change (_ ++ s.profiles).Nodup
    have hout : (out edges task).Nodup := by
      refine List.nodup_iff_count_le_one.2 fun kid => ?_
      rw [count_out]
      exact List.nodup_iff_count_le_one.1 (nodup_iff.1 hnodup kid) task
    rw [List.append_assoc]
    refine (List.perm_append_comm_assoc _ _ _).nodup_iff.2 (List.nodup_append.2 ⟨hout.filter _, h.ready, ?_⟩)
    rintro kid hkid other hother rfl
    exact hnot (((h.elected kid).1 hother).2 task ((hkids kid).1 hkid).1)
  · rw [hready]
    change other ∈ _ ++ s.profiles ↔ _
    simp only [hcompleted]
    rw [List.append_assoc, (List.perm_append_comm_assoc _ _ _).mem_iff, List.mem_append, hkids other, h.elected other]
    constructor
    · rintro (⟨hedge, hall⟩ | ⟨hmem, hall⟩)
      · exact ⟨hdag.child_mem _ hedge, hall⟩
      · exact ⟨hmem, fun parent hedge => .inl (hall parent hedge)⟩
    · rintro ⟨hmem, hall⟩
      by_cases hedge : (task, other) ∈ edges
      · exact .inl ⟨hedge, hall⟩
      · refine .inr ⟨hmem, fun parent hparent => (hall parent hparent).resolve_right ?_⟩
        rintro rfl
        exact hedge hparent
  · rintro ⟨parent, kid⟩ hedge hdone
    rw [hcompleted] at hdone
    rw [hkept parent hdone, hdepth]
    rcases hdone with hdone | rfl
    · have hle := h.deeper _ hedge hdone
      split
      · exact hle.trans (le_max_left _ _)
      · exact hle
    · rw [if_pos (mem_out.2 hedge)]
      exact le_max_right _ _
  · have hold : s.depth other = 0 ∨ ∃ parent, (parent, other) ∈ edges ∧ (s.Completed parent ∨ parent = task) ∧
        s.depth other = s.depth parent + 1 := by
      refine (h.deepest other).imp_right ?_
      rintro ⟨parent, hedge, hdone, heq⟩
      exact ⟨parent, hedge, .inl hdone, heq⟩
    have hnew : other ∈ out edges task → ∃ parent, (parent, other) ∈ edges ∧ (s.Completed parent ∨ parent = task) ∧
        s.depth task + 1 = s.depth parent + 1 := fun hkid => ⟨task, mem_out.1 hkid, .inr rfl, rfl⟩
    have hcases : (SubmitterState.complete (Workflow.load tasks edges) s number task).depth other = 0 ∨
        ∃ parent, (parent, other) ∈ edges ∧ (s.Completed parent ∨ parent = task) ∧
          (SubmitterState.complete (Workflow.load tasks edges) s number task).depth other = s.depth parent + 1 := by
      rw [hdepth]
      split
      · rename_i hkid
        rcases max_choice (s.depth other) (s.depth task + 1) with hmax | hmax
        · rw [hmax]
          exact hold
        · rw [hmax]
          exact .inr (hnew hkid)
      · exact hold
    refine hcases.imp_right ?_
    rintro ⟨parent, hedge, hdone, heq⟩
    exact ⟨parent, hedge, (hcompleted parent).2 hdone, heq.trans (by rw [hkept parent hdone])⟩

/-- The state once the source tasks are ready. -/
theorem Inv.start (tasks : List String) (edges : List (String × String)) :
    Inv tasks edges { readyTasks := (Workflow.load tasks edges).getSourceTasks } 0 where
  books := by
    have hbooks := Books.new edges
    exact ⟨hbooks.once, hbooks.numbers, hbooks.fresh, hbooks.outstanding, hbooks.submitted, hbooks.current, hbooks.length, hbooks.count⟩
  ready := by
    rw [List.append_nil, Workflow.getSourceTasks, tasks_load]
    exact ((List.perm_insertionSort _ _).nodup_iff.2 (List.nodup_dedup _)).filter _
  elected := by
    intro task
    rw [List.append_nil, Workflow.getSourceTasks, tasks_load, List.mem_filter, (List.perm_insertionSort _ _).mem_iff, List.mem_dedup,
      decide_eq_true_eq, List.eq_nil_iff_forall_not_mem]
    refine and_congr_right fun _ => forall_congr' fun parent => ?_
    rw [(parents_load tasks edges task).2]
    simp [SubmitterState.Completed]
  deeper := by
    intro edge _ hdone
    exact absurd hdone.1 List.not_mem_nil
  deepest := fun _ => .inl rfl

/-- What holds between two completions. -/
structure Waits (tasks : List String) (edges : List (String × String)) (limit : ℕ) (s : SubmitterState) (nbCompleted : ℕ) : Prop where
  inv : Inv tasks edges s nbCompleted
  room : limit ≠ 0 → s.currentNb ≤ limit
  full : s.readyTasks = [] ∨ limit ≠ 0 ∧ limit ≤ s.currentNb

/-- Where a ready task is submitted again, nothing is ready that is not meant to be. -/
theorem Inv.waits (h : Inv tasks edges s n) (hroom : limit ≠ 0 → s.currentNb ≤ limit) :
    ∃ s', SubmitterState.submitReady limit s s.readyTasks = .ok s' ∧ Waits tasks edges limit s' n := by
  obtain ⟨s', hx, hinv, hlimit, hfull⟩ := h.submitReady limit
  exact ⟨s', hx, hinv, fun hne => hlimit hne (hroom hne), hfull⟩

/-- The completion of a job that has been submitted. -/
theorem Waits.step (hdag : IsDag tasks edges) (hnodup : edges.Nodup) (h : Waits tasks edges limit s n)
    (hjob : (number, task) ∈ s.submittedTasks) :
    ∃ s', SubmitterState.onJobCompletion (Workflow.load tasks edges) limit s number = .ok s' ∧ Waits tasks edges limit s' (n + 1) := by
  have hfind : s.submittedTasks.find? (·.1 = number) = some (number, task) := by
    cases hfound : s.submittedTasks.find? (·.1 = number) with
    | none => simpa using List.find?_eq_none.1 hfound _ hjob
    | some job =>
      have hnumber : job.1 = number := by simpa using List.find?_some hfound
      exact congrArg some (List.inj_on_of_nodup_map h.inv.books.numbers (List.mem_of_find?_eq_some hfound) hjob hnumber)
  unfold SubmitterState.onJobCompletion
  rw [hfind]
  refine (h.inv.complete hdag hnodup hjob).waits fun hne => ?_
  have hroom := h.room hne
  change s.currentNb - 1 ≤ limit
  omega

/-- Every run goes through as long as the jobs that complete have been submitted. -/
theorem run_waits (hdag : IsDag tasks edges) (hnodup : edges.Nodup) (limit : ℕ) (completions : List ℕ) :
    (∃ number, (Workflow.load tasks edges).submitterProcess limit completions = .error (.notSubmitted number)) ∨
      ∃ s, (Workflow.load tasks edges).submitterProcess limit completions = .ok s ∧ Waits tasks edges limit s completions.length := by
  obtain ⟨s₀, hx, hwaits⟩ := (Inv.start tasks edges).waits fun _ : limit ≠ 0 => Int.natCast_nonneg limit
  have hprocess : (Workflow.load tasks edges).submitterProcess limit completions =
      runFrom (SubmitterState.onJobCompletion (Workflow.load tasks edges) limit) s₀ completions := by
    unfold Workflow.submitterProcess
    dsimp only
    rw [hx]
  rw [hprocess]
  clear hx hprocess
  have hrun : ∀ (completions : List ℕ) (s : SubmitterState) (n : ℕ), Waits tasks edges limit s n →
      (∃ number, runFrom (SubmitterState.onJobCompletion (Workflow.load tasks edges) limit) s completions =
        .error (.notSubmitted number)) ∨
      ∃ s', runFrom (SubmitterState.onJobCompletion (Workflow.load tasks edges) limit) s completions = .ok s' ∧
        Waits tasks edges limit s' (n + completions.length) := by
    intro completions
    induction completions with
    | nil => exact fun s n h => .inr ⟨s, rfl, h⟩
    | cons number completions ih =>
      intro s n h
      by_cases hthere : ∃ task, (number, task) ∈ s.submittedTasks
      · obtain ⟨task, hjob⟩ := hthere
        obtain ⟨s', hstep, hwaits'⟩ := h.step hdag hnodup hjob
        rw [runFrom_cons_ok hstep]
        have hrest := ih s' (n + 1) hwaits'
        rw [List.length_cons]
        have heq : n + 1 + completions.length = n + (completions.length + 1) := by omega
        exact heq ▸ hrest
      · refine .inl ⟨number, ?_⟩
        have hnone : s.submittedTasks.find? (·.1 = number) = none := by
          refine List.find?_eq_none.2 fun job hjob => ?_
          have hne : job.1 ≠ number := fun heq => hthere ⟨job.2, heq ▸ hjob⟩
          simpa using hne
        rw [runFrom, SubmitterState.onJobCompletion, hnone]
  have hfinal := hrun completions s₀ 0 hwaits
  rwa [Nat.zero_add] at hfinal

/-! ## Graphs without circles -/

/-- The edges of a graph without circles go down. -/
theorem wellFounded_of_isDag (h : IsDag tasks edges) : WellFounded fun parent child => (parent, child) ∈ edges := by
  let path := Relation.TransGen fun parent child => (parent, child) ∈ edges
  have : IsStrictOrder String path := { irrefl := h.acyclic, trans := fun _ _ _ => Relation.TransGen.trans }
  have hfinite : {task | task ∈ tasks}.Finite := tasks.finite_toSet
  have hwf := Set.wellFoundedOn_iff.1 (hfinite.wellFoundedOn (r := path))
  refine Subrelation.wf (fun {parent child} hedge => ?_) hwf
  exact ⟨.single hedge, h.parent_mem _ hedge, h.child_mem _ hedge⟩

/-- When no job is waited for, every task has been submitted. -/
theorem Waits.all (hdag : IsDag tasks edges) (h : Waits tasks edges limit s n) (hnone : s.submittedTasks = []) :
    s.readyTasks = [] ∧ ∀ task, task ∈ s.profiles ↔ task ∈ tasks := by
  have hready : s.readyTasks = [] := by
    refine h.full.resolve_right ?_
    rintro ⟨hne, hle⟩
    have hcurrent := h.inv.books.current
    rw [hnone] at hcurrent
    simp only [List.length_nil] at hcurrent
    omega
  have helected := h.inv.elected
  rw [hready, List.nil_append] at helected
  refine ⟨hready, fun task => ⟨fun hmem => ((helected task).1 hmem).1, ?_⟩⟩
  induction task using (wellFounded_of_isDag hdag).induction with
  | _ task ih =>
    intro hmem
    refine (helected task).2 ⟨hmem, fun parent hedge => ⟨ih parent hedge (hdag.parent_mem _ hedge), ?_⟩⟩
    rw [hnone]
    nofun

/-- Depths that are as the edges ask are the lengths of the longest paths. -/
theorem isGreatest_depth (hdag : IsDag tasks edges) {depth : String → ℕ} (hdeeper : ∀ edge ∈ edges, depth edge.1 + 1 ≤ depth edge.2)
    (hdeepest : ∀ task, depth task = 0 ∨ ∃ parent, (parent, task) ∈ edges ∧ depth task = depth parent + 1) (hmem : task ∈ tasks) :
    IsGreatest {length | PathTo tasks edges task length} (depth task) := by
  constructor
  · induction task using (wellFounded_of_isDag hdag).induction with
    | _ task ih =>
      rcases hdeepest task with hzero | ⟨parent, hedge, heq⟩
      · change PathTo tasks edges task (depth task)
        rw [hzero]
        refine .source hmem fun parent hedge => ?_
        have hle := hdeeper _ hedge
        dsimp only at hle
        omega
      · change PathTo tasks edges task (depth task)
        rw [heq]
        exact .step (ih parent hedge (hdag.parent_mem _ hedge)) hedge
  · intro length hpath
    induction hpath with
    | source => exact Nat.zero_le _
    | step hparent hedge ih =>
      have hle := hdeeper _ hedge
      have hih := ih (hdag.parent_mem _ hedge)
      dsimp only at hle
      omega

/-- The submitter is as it is meant to be between two completions. -/
theorem Waits.respects (hdag : IsDag tasks edges) (h : Waits tasks edges limit s n) : s.Respects tasks edges limit n where
  once := h.inv.books.once
  parents := fun edge hedge hmem => ((h.inv.elected edge.2).1 (List.mem_append_right _ hmem)).2 edge.1 hedge
  limit := by
    intro hne
    have hroom := h.room hne
    have hcurrent := h.inv.books.current
    omega
  bounded := by
    rw [← h.inv.books.length]
    refine (h.inv.books.once.subperm fun task hmem => ?_).length_le
    exact List.mem_dedup.2 ((h.inv.elected task).1 (List.mem_append_right _ hmem)).1
  all := h.all hdag
  depth := by
    intro hnone task hmem
    have hall := (h.all hdag hnone).2
    have hdone : ∀ other, other ∈ tasks → s.Completed other := fun other ho => ⟨(hall other).2 ho, by rw [hnone]; nofun⟩
    refine isGreatest_depth hdag (fun edge hedge => h.inv.deeper edge hedge (hdone _ (hdag.parent_mem _ hedge))) (fun other => ?_) hmem
    refine (h.inv.deepest other).imp_right ?_
    rintro ⟨parent, hedge, -, heq⟩
    exact ⟨parent, hedge, heq⟩

theorem isRespected_of_nodup (hdag : IsDag tasks edges) (hnodup : edges.Nodup) : Workflow.IsRespected tasks edges := by
  intro limit completions
  rcases run_waits hdag hnodup limit completions with ⟨number, hx⟩ | ⟨s, hx, hwaits⟩
  · rw [hx]
    exact ⟨fun task => by simp, nofun⟩
  · rw [hx]
    refine ⟨nofun, fun s' heq => ?_⟩
    cases heq
    exact hwaits.respects hdag

/-! ## Where the submitter is as it is meant to be -/

/-- What holds of a submitter without a limit that is as it is meant to be: a task submitted has as many parents as edges. -/
structure Balanced (tasks : List String) (edges : List (String × String)) (s : SubmitterState) (nbCompleted : ℕ) : Prop where
  books : Books edges s nbCompleted
  nothing : s.readyTasks = []
  balanced : ∀ task ∈ s.profiles, ((Workflow.load tasks edges).parents task).length = (into edges task).length

/-- Tasks that are submitted when they have counted as many completions as they list parents, and whose parents have completed. -/
theorem Balanced.submit {ready : List String} (h : Books edges s n) (hold : ∀ task ∈ s.profiles,
      ((Workflow.load tasks edges).parents task).length = (into edges task).length)
    (hready : ∀ task ∈ ready, s.nbParentCompleted task = ((Workflow.load tasks edges).parents task).length)
    (hx : SubmitterState.submitReady 0 s ready = .ok s') (hrespects : s'.Respects tasks edges 0 n) : Balanced tasks edges s' n := by
  obtain ⟨hbooks, hcompleted, -, ⟨submitted, hsplit, hprofiles⟩, -, hstopped⟩ := submitReady_ok h hx
  have hnothing : s'.readyTasks = [] := hstopped.resolve_right fun hbad => hbad.1 rfl
  refine ⟨hbooks, hnothing, fun task hmem => ?_⟩
  rw [hnothing, List.append_nil] at hsplit
  have hmem' := hmem
  rw [hprofiles, hsplit, List.mem_append] at hmem'
  rcases hmem' with hmem' | hmem'
  · exact hold task hmem'
  · -- all edges come from tasks that have completed, and each has been counted
    rw [← hready task hmem', h.count task, List.countP_eq_length]
    intro parent hparent
    exact decide_eq_true ((hcompleted parent).1 (hrespects.parents _ (mem_into.1 hparent) hmem))

/-- One more completion. -/
theorem submitterProcess_append {workflow : Workflow} {completions : List ℕ} (h : workflow.submitterProcess limit completions = .ok s)
    (number : ℕ) : workflow.submitterProcess limit (completions ++ [number]) =
      SubmitterState.onJobCompletion workflow limit s number := by
  unfold Workflow.submitterProcess at h ⊢
  dsimp only at h ⊢
  split at h
  · rw [runFrom_append h]
    cases hstep : SubmitterState.onJobCompletion workflow limit s number with
    | ok s' => exact runFrom_cons_ok hstep []
    | error e => rw [runFrom, hstep]
  · cases h

/-- The source tasks are submitted. -/
theorem exists_start (h : Workflow.IsRespected tasks edges) :
    ∃ s, (Workflow.load tasks edges).submitterProcess 0 [] = .ok s ∧ Balanced tasks edges s 0 := by
  obtain ⟨honce, hrespects⟩ := h 0 []
  have hbooks := (Inv.start tasks edges).books
  unfold Workflow.submitterProcess at honce hrespects ⊢
  dsimp only at honce hrespects ⊢
  split at honce
  · rename_i s hx
    rw [hx] at hrespects
    refine ⟨s, rfl, Balanced.submit hbooks nofun (fun task hmem => ?_) hx (hrespects s rfl)⟩
    have hsource := (List.mem_filter.1 hmem).2
    rw [of_decide_eq_true hsource]
    rfl
  · rename_i e hx
    obtain ⟨task, rfl⟩ := submitReady_error hx
    exact absurd rfl (honce task)

/-- A job that is waited for completes. -/
theorem exists_step (hself : ∀ edge ∈ edges, edge.1 ≠ edge.2) (h : Workflow.IsRespected tasks edges) {completions : List ℕ}
    (hx : (Workflow.load tasks edges).submitterProcess 0 completions = .ok s) (hbalanced : Balanced tasks edges s completions.length)
    (hsome : s.submittedTasks ≠ []) :
    ∃ number s', (Workflow.load tasks edges).submitterProcess 0 (completions ++ [number]) = .ok s' ∧
      Balanced tasks edges s' (completions ++ [number]).length := by
  obtain ⟨⟨number, task⟩, rest, hsubmitted⟩ := List.exists_cons_of_ne_nil hsome
  have hjob : (number, task) ∈ s.submittedTasks := hsubmitted ▸ List.mem_cons_self
  have hfind : s.submittedTasks.find? (·.1 = number) = some (number, task) := by
    rw [hsubmitted]
    simp
  have hbooks := hbalanced.books.complete (children_load tasks hself task) hjob
  obtain ⟨honce, hrespects⟩ := h 0 (completions ++ [number])
  rw [submitterProcess_append hx] at honce hrespects
  refine ⟨number, ?_⟩
  rw [submitterProcess_append hx]
  unfold SubmitterState.onJobCompletion at honce hrespects ⊢
  rw [hfind] at honce hrespects ⊢
  dsimp only at honce hrespects ⊢
  rw [List.length_append, List.length_singleton] at hrespects ⊢
  cases hsubmit : SubmitterState.submitReady 0 (SubmitterState.complete (Workflow.load tasks edges) s number task)
      (SubmitterState.complete (Workflow.load tasks edges) s number task).readyTasks with
  | error e =>
    obtain ⟨other, rfl⟩ := submitReady_error hsubmit
    exact absurd hsubmit (honce other)
  | ok s' =>
    refine ⟨s', rfl, Balanced.submit hbooks hbalanced.balanced (fun kid hmem => ?_) hsubmit (hrespects s' hsubmit)⟩
    have hready : kid ∈ s.readyTasks ++ _ := hmem
    rw [hbalanced.nothing, List.nil_append] at hready
    exact of_decide_eq_true (List.mem_filter.1 hready).2

/-- A run in which all jobs complete, where the submitter is as it is meant to be. -/
theorem exists_complete_run (hself : ∀ edge ∈ edges, edge.1 ≠ edge.2) (h : Workflow.IsRespected tasks edges) :
    ∃ completions s, (Workflow.load tasks edges).submitterProcess 0 completions = .ok s ∧ s.submittedTasks = [] ∧
      Balanced tasks edges s completions.length := by
  -- there are not more completions than tasks
  have hlong : ∀ n, ∃ completions s, (Workflow.load tasks edges).submitterProcess 0 completions = .ok s ∧
      Balanced tasks edges s completions.length ∧ (s.submittedTasks = [] ∨ completions.length = n) := by
    intro n
    induction n with
    | zero =>
      obtain ⟨s, hx, hbalanced⟩ := exists_start h
      exact ⟨[], s, hx, hbalanced, .inr rfl⟩
    | succ n ih =>
      obtain ⟨completions, s, hx, hbalanced, hdone⟩ := ih
      by_cases hnone : s.submittedTasks = []
      · exact ⟨completions, s, hx, hbalanced, .inl hnone⟩
      · obtain ⟨number, s', hx', hbalanced'⟩ := exists_step hself h hx hbalanced hnone
        refine ⟨completions ++ [number], s', hx', hbalanced', .inr ?_⟩
        simpa using hdone.resolve_left hnone
  obtain ⟨completions, s, hx, hbalanced, hdone⟩ := hlong (tasks.dedup.length + 1)
  refine ⟨completions, s, hx, hdone.resolve_right fun hlength => ?_, hbalanced⟩
  have hbounded := ((h 0 completions).2 s hx).bounded
  omega

/-- Where a workflow is executed as it is meant to be, no edge is given twice. -/
theorem nodup_of_isRespected (hdag : IsDag tasks edges) (h : Workflow.IsRespected tasks edges) : edges.Nodup := by
  obtain ⟨completions, s, hx, hnone, hbalanced⟩ := exists_complete_run (ne_self_of_isDag hdag) h
  refine nodup_iff.2 fun task => ?_
  by_cases hmem : task ∈ tasks
  · refine length_parents_eq_iff.1 (hbalanced.balanced task ?_)
    exact ((((h 0 completions).2 s hx).all hnone).2 task).2 hmem
  · have hempty : into edges task = [] :=
      List.eq_nil_iff_forall_not_mem.2 fun parent hparent => hmem (hdag.child_mem _ (mem_into.1 hparent))
    rw [hempty]
    exact .nil

end WorkflowAux

open WorkflowAux in
/-- A workflow whose graph goes round in no circle is executed as it is meant to be, under every limit and in every order of the
completions, exactly where no edge is given twice. -/
theorem workflow_respected_iff (tasks : List String) (edges : List (String × String)) (hdag : IsDag tasks edges) :
    Workflow.IsRespected tasks edges ↔ edges.Nodup :=
  ⟨nodup_of_isRespected hdag, isRespected_of_nodup hdag⟩

namespace WorkflowAux

/-- A graph whose edges all go up goes round in no circle. -/
theorem isDag_of_rank (rank : String → ℕ) (hrank : ∀ edge ∈ edges, rank edge.1 < rank edge.2)
    (hmem : ∀ edge ∈ edges, edge.1 ∈ tasks ∧ edge.2 ∈ tasks) : IsDag tasks edges where
  parent_mem := fun edge hedge => (hmem edge hedge).1
  child_mem := fun edge hedge => (hmem edge hedge).2
  acyclic := by
    have hup : ∀ {task other}, Relation.TransGen (fun parent child => (parent, child) ∈ edges) task other → rank task < rank other := by
      intro task other hpath
      induction hpath with
      | single hedge => exact hrank _ hedge
      | tail _ hedge ih => exact ih.trans (hrank _ hedge)
    exact fun task hcircle => lt_irrefl _ (hup hcircle)

/-- Tasks in the order of their letters. -/
private def rank (task : String) : ℕ := if task = "c" then 1 else 0

end WorkflowAux

open WorkflowAux in
/-- A task with two parents. -/
theorem workflow_respected_iff_witness : Workflow.IsRespected ["a", "b", "c"] [("a", "c"), ("b", "c")] ∧
    (((Workflow.load ["a", "b", "c"] [("a", "c"), ("b", "c")]).submitterProcess 1 [0, 1, 2]).toOption.map fun s =>
      (s.profiles, s.submittedTasks, s.depth "c")) = some (["a", "b", "c"], [], 1) := by
  refine ⟨(workflow_respected_iff ["a", "b", "c"] [("a", "c"), ("b", "c")] ?_).2 (by decide), by decide +kernel⟩
  exact isDag_of_rank rank (by decide) (by decide)

open WorkflowAux in
/-- An edge that is given twice is counted twice, and the child is never ready: it waits for one parent and has counted two. -/
theorem workflow_respected_false :
    ¬ ∀ (tasks : List String) (edges : List (String × String)), IsDag tasks edges → Workflow.IsRespected tasks edges := by
  intro h
  have hdag : IsDag ["a", "c"] [("a", "c"), ("a", "c")] := isDag_of_rank rank (by decide) (by decide)
  have hok : (((Workflow.load ["a", "c"] [("a", "c"), ("a", "c")]).submitterProcess 0 [0]).toOption.map fun s =>
      (s.submittedTasks, s.profiles)) = some ([], ["a"]) := by
    decide +kernel
  obtain ⟨s, hs, hseen⟩ := toOption_map_eq_some.1 hok
  obtain ⟨hnone, hprofiles⟩ := Prod.mk.inj hseen
  have hall := (((h _ _ hdag) 0 [0]).2 s hs).all hnone
  have hmem := (hall.2 "c").2 (by decide)
  rw [hprofiles] at hmem
  exact absurd hmem (by decide)

end ScheduleTest
