import Mathlib.Algebra.BigOperators.Group.List.Basic
import ScheduleTest.EasyBf3

/-!
# The machines free at a date

How many machines are free at a date, by the estimates of the scheduled jobs, and what each operation of `easy_bf3` does to this
number and to the priority job. The machines free now and those of the scheduled jobs are all the machines, each once (`Split`).
-/

namespace ScheduleTest

/-- How many machines some jobs take. -/
def requestedBy (jobs : List ScheduledJob) : ℕ := (jobs.map (·.requestedResources)).sum

/-- How many machines are free at a date: those free now, and those of the jobs that should have ended by then. -/
def EasyBf3State.freeAt (s : EasyBf3State) (date : ℚ) : ℤ :=
  s.nbAvailableMachines + requestedBy (s.scheduledJobs.filter (·.estFinishTime ≤ date))

@[simp] theorem requestedBy_nil : requestedBy [] = 0 := rfl

@[simp] theorem requestedBy_cons (job : ScheduledJob) (jobs : List ScheduledJob) :
    requestedBy (job :: jobs) = job.requestedResources + requestedBy jobs := by
  simp [requestedBy]

@[simp] theorem requestedBy_append (jobs jobs' : List ScheduledJob) :
    requestedBy (jobs ++ jobs') = requestedBy jobs + requestedBy jobs' := by
  simp [requestedBy]

theorem requestedBy_perm {jobs jobs' : List ScheduledJob} (h : jobs.Perm jobs') : requestedBy jobs = requestedBy jobs' :=
  (h.map _).sum_eq

/-- In the order of the estimated ends. -/
def InOrder (jobs : List ScheduledJob) : Prop := jobs.Pairwise fun x y => x.estFinishTime ≤ y.estFinishTime

theorem inOrder_sortMaxHeap (jobs : List ScheduledJob) : InOrder (EasyBf3.sortMaxHeap jobs) :=
  HeapSort.sortList_sorted _ jobs

theorem perm_sortMaxHeap (jobs : List ScheduledJob) : (EasyBf3.sortMaxHeap jobs).Perm jobs :=
  HeapSort.sortList_perm _ jobs

/-- Nothing ends before the first job of a list in order. -/
theorem filter_eq_nil_of_lt {job : ScheduledJob} {jobs : List ScheduledJob} (h : InOrder (job :: jobs)) {date : ℚ}
    (hd : date < job.estFinishTime) : (job :: jobs).filter (·.estFinishTime ≤ date) = [] := by
  refine List.filter_eq_nil_iff.2 fun x hx => ?_
  rw [decide_eq_true_eq, not_le]
  rcases List.mem_cons.1 hx with rfl | hx
  · exact hd
  · exact hd.trans_le ((List.pairwise_cons.1 h).1 x hx)

/-- The shadow time is the end of a scheduled job by which the requested machines are free, and they are not free before. -/
theorem findShadow_some {requested : ℕ} {count total : ℤ} {jobs : List ScheduledJob} {job : ScheduledJob} (h : InOrder jobs)
    (hlt : count < requested) (hx : EasyBf3.findShadow requested count jobs = some (job, total)) :
    job ∈ jobs ∧ requested ≤ total ∧ total ≤ count + requestedBy (jobs.filter (·.estFinishTime ≤ job.estFinishTime)) ∧
      ∀ date, requested ≤ count + requestedBy (jobs.filter (·.estFinishTime ≤ date)) → job.estFinishTime ≤ date := by
  induction jobs generalizing count with
  | nil => nomatch hx
  | cons first rest ih =>
    -- before the first job ends nothing is freed
    have hfirst : ∀ date, requested ≤ count + requestedBy ((first :: rest).filter (·.estFinishTime ≤ date)) →
        first.estFinishTime ≤ date := by
      intro date hdate
      by_contra hnot
      rw [filter_eq_nil_of_lt h (not_le.1 hnot), requestedBy_nil] at hdate
      omega
    unfold EasyBf3.findShadow at hx
    dsimp only at hx
    split at hx
    · rename_i hle
      cases hx
      refine ⟨List.mem_cons_self, hle, ?_, hfirst⟩
      rw [List.filter_cons_of_pos (by simp), requestedBy_cons]
      omega
    · rename_i hnot
      obtain ⟨hmem, hle, htotal, hmin⟩ := ih (List.pairwise_cons.1 h).2 (not_le.1 hnot) hx
      have horder := (List.pairwise_cons.1 h).1 job hmem
      refine ⟨List.mem_cons_of_mem _ hmem, hle, ?_, fun date hdate => hmin date ?_⟩
      · rw [List.filter_cons_of_pos (by simpa using horder), requestedBy_cons]
        omega
      · have hle' := hfirst date hdate
        rw [List.filter_cons_of_pos (by simpa using hle'), requestedBy_cons] at hdate
        omega

/-- The scan adds up the machines of the jobs up to the one it stops at. -/
theorem findShadow_eq_append {requested : ℕ} {count total : ℤ} {jobs : List ScheduledJob} {job : ScheduledJob}
    (hx : EasyBf3.findShadow requested count jobs = some (job, total)) :
    ∃ before after, jobs = before ++ job :: after ∧ total = count + requestedBy before + job.requestedResources := by
  induction jobs generalizing count with
  | nil => cases hx
  | cons first rest ih =>
    unfold EasyBf3.findShadow at hx
    dsimp only at hx
    split at hx
    · cases hx
      exact ⟨[], rest, rfl, by simp⟩
    · obtain ⟨before, after, hrest, htotal⟩ := ih hx
      refine ⟨first :: before, after, by rw [hrest, List.cons_append], ?_⟩
      rw [requestedBy_cons, htotal]
      push_cast
      omega

/-- Where no other job ends with the one the scan stops at, the scan adds up all the jobs that end by then. -/
theorem findShadow_total {requested : ℕ} {count total : ℤ} {jobs : List ScheduledJob} {job : ScheduledJob} (h : InOrder jobs)
    (hx : EasyBf3.findShadow requested count jobs = some (job, total))
    (halone : jobs.Pairwise fun x y => x.estFinishTime = job.estFinishTime → y.estFinishTime ≠ job.estFinishTime) :
    total = count + requestedBy (jobs.filter (·.estFinishTime ≤ job.estFinishTime)) := by
  obtain ⟨before, after, rfl, htotal⟩ := findShadow_eq_append hx
  obtain ⟨_, hafter, hbefore⟩ := List.pairwise_append.1 h
  have hlater := (List.pairwise_cons.1 (List.pairwise_append.1 halone).2.1).1
  -- the jobs before end by the shadow time, those after do not
  have hall : before.filter (·.estFinishTime ≤ job.estFinishTime) = before :=
    List.filter_eq_self.2 fun x hx => by simpa using hbefore x hx job List.mem_cons_self
  have hnone : after.filter (·.estFinishTime ≤ job.estFinishTime) = [] := by
    refine List.filter_eq_nil_iff.2 fun x hx => ?_
    have hle := (List.pairwise_cons.1 hafter).1 x hx
    simpa using hle.lt_of_ne (Ne.symm (hlater x hx rfl))
  rw [List.filter_append, List.filter_cons_of_pos (by simp), hall, hnone, requestedBy_append, requestedBy_cons,
    requestedBy_nil, htotal]
  push_cast
  omega

/-- Where all the machines are enough, there is a shadow time. -/
theorem findShadow_none {requested : ℕ} {count : ℤ} {jobs : List ScheduledJob} (hlt : count < requested)
    (hx : EasyBf3.findShadow requested count jobs = none) : count + requestedBy jobs < requested := by
  induction jobs generalizing count with
  | nil =>
    rw [requestedBy_nil]
    omega
  | cons first rest ih =>
    unfold EasyBf3.findShadow at hx
    dsimp only at hx
    split at hx
    · nomatch hx
    · rename_i hnot
      have hrest := ih (not_le.1 hnot) hx
      rw [requestedBy_cons]
      omega

namespace EasyBf3

variable {c : EasyBf3Config} {s s' : EasyBf3State} {job : Job} {scheduled : ScheduledJob} {date : ℚ}

/-- The record of the priority job gets the request of the job that is checked: it is about no job yet, about another, or about
this one with its request. -/
theorem update_of_known (hrequested : s.priorityJob.id = "" ∨
      ∃ x, s.workload s.priorityJob.id = some x ∧ s.priorityJob.requestedResources = x.nbRequestedResources)
    (hknown : s.workload job.id = some job) (hne : job.id ≠ "") :
    (PriorityJob.update s.priorityJob job).id = job.id ∧
      (PriorityJob.update s.priorityJob job).requestedResources = job.nbRequestedResources := by
  unfold PriorityJob.update
  split
  · exact ⟨rfl, rfl⟩
  · rename_i heq
    have hid : s.priorityJob.id = job.id := not_not.1 heq
    refine ⟨hid, ?_⟩
    rcases hrequested with hempty | ⟨x, hx, hreq⟩
    · exact absurd (hid.symm.trans hempty) hne
    · rw [hid, hknown] at hx
      rw [hreq, Option.some.inj hx]

/-- What stays when jobs end: the queue, the priority job and the workload. Machines become free, at every date. -/
structure Frees (s s' : EasyBf3State) : Prop where
  queue : s'.queue = s.queue
  priorityJob : s'.priorityJob = s.priorityJob
  workload : s'.workload = s.workload
  inOrder : InOrder s.scheduledJobs → InOrder s'.scheduledJobs
  count : s'.nbAvailableMachines + requestedBy s'.scheduledJobs = s.nbAvailableMachines + requestedBy s.scheduledJobs
  freeAt : ∀ date, s.freeAt date ≤ s'.freeAt date

theorem Frees.refl (s : EasyBf3State) : Frees s s := ⟨rfl, rfl, rfl, id, rfl, fun _ => le_rfl⟩

theorem Frees.trans {s'' : EasyBf3State} (h : Frees s s') (h' : Frees s' s'') : Frees s s'' where
  queue := h'.queue.trans h.queue
  priorityJob := h'.priorityJob.trans h.priorityJob
  workload := h'.workload.trans h.workload
  inOrder := h'.inOrder ∘ h.inOrder
  count := h'.count.trans h.count
  freeAt := fun date => (h.freeAt date).trans (h'.freeAt date)

theorem handleFinishedJob_frees (s : EasyBf3State) (id : String) : Frees s (handleFinishedJob s id) := by
  unfold handleFinishedJob
  split
  · rename_i scheduled hfind
    obtain ⟨hid, before, after, hjobs, hbefore⟩ := List.find?_eq_some_iff_append.1 hfind
    have herase : s.scheduledJobs.eraseP (·.id = id) = before ++ after := by
      rw [hjobs, List.eraseP_append_right _ (by simpa using hbefore), List.eraseP_cons_of_pos (by exact hid)]
    refine ⟨rfl, rfl, rfl, fun h => ?_, ?_, fun date => ?_⟩
    · exact h.sublist (List.eraseP_sublist)
    · dsimp only
      rw [herase, hjobs, requestedBy_append, requestedBy_append, requestedBy_cons]
      push_cast
      omega
    · simp only [EasyBf3State.freeAt]
      rw [herase, hjobs, List.filter_append, List.filter_append, requestedBy_append, requestedBy_append]
      by_cases hd : scheduled.estFinishTime ≤ date
      · rw [List.filter_cons_of_pos (by simpa using hd), requestedBy_cons]
        push_cast
        omega
      · rw [List.filter_cons_of_neg (by simpa using hd)]
        push_cast
        omega
  · exact Frees.refl s

theorem handleFinishedJobs_frees (ids : List String) (s : EasyBf3State) : Frees s (ids.foldl handleFinishedJob s) := by
  induction ids generalizing s with
  | nil => exact Frees.refl s
  | cons id ids ih => exact (handleFinishedJob_frees s id).trans (ih _)

/-- A job that takes machines now, until the end of its walltime. -/
structure Takes (s s' : EasyBf3State) (job : Job) (date : ℚ) : Prop where
  queue : s'.queue = s.queue
  workload : s'.workload = s.workload
  inOrder : InOrder s'.scheduledJobs
  count : s'.nbAvailableMachines + requestedBy s'.scheduledJobs = s.nbAvailableMachines + requestedBy s.scheduledJobs
  freeAt : ∀ D, s'.freeAt D = s.freeAt D - if date + job.walltime ≤ D then 0 else job.nbRequestedResources

/-- Scheduling a job and sorting the scheduled jobs. -/
theorem handleScheduledJob_takes (p : PriorityJob) (nb : ℕ) (s : EasyBf3State) (job : Job) (date : ℚ) :
    Takes s { (handleScheduledJob s job date).1 with
      scheduledJobs := sortMaxHeap (handleScheduledJob s job date).1.scheduledJobs
      priorityJob := p
      backfillCounter := nb } job date where
  queue := rfl
  workload := rfl
  inOrder := inOrder_sortMaxHeap _
  count := by
    rw [requestedBy_perm (perm_sortMaxHeap _)]
    simp only [handleScheduledJob, requestedBy_append, requestedBy_cons, requestedBy_nil]
    push_cast
    omega
  freeAt := by
    intro D
    simp only [EasyBf3State.freeAt]
    rw [requestedBy_perm ((perm_sortMaxHeap _).filter _)]
    simp only [handleScheduledJob, List.filter_append, requestedBy_append]
    split
    · rename_i hle
      rw [List.filter_cons_of_pos (by simpa using hle)]
      simp only [List.filter_nil, requestedBy_cons, requestedBy_nil]
      push_cast
      omega
    · rename_i hnot
      rw [List.filter_cons_of_neg (by simpa using hnot)]
      simp only [List.filter_nil, requestedBy_nil]
      push_cast
      omega

/-- A job that can run as the priority job takes its machines. -/
theorem checkPriorityJob_some (hx : checkPriorityJob s job date = (s', some scheduled)) :
    Takes s s' job date ∧ s'.priorityJob = PriorityJob.update s.priorityJob job := by
  unfold checkPriorityJob at hx
  dsimp only at hx
  split at hx
  · cases hx
    have htakes := handleScheduledJob_takes (PriorityJob.update s.priorityJob job) s.backfillCounter s job date
    exact ⟨⟨htakes.queue, htakes.workload, htakes.inOrder, htakes.count, htakes.freeAt⟩, rfl⟩
  · split at hx <;> nomatch hx

/-- A job that cannot run becomes the priority job, with its machines free at its shadow time, and not before. -/
theorem checkPriorityJob_none (horder : InOrder s.scheduledJobs) (hn : s.nbAvailableMachines + requestedBy s.scheduledJobs = c.nbMachines)
    (hfits : job.nbRequestedResources ≤ c.nbMachines)
    (hrequested : (PriorityJob.update s.priorityJob job).requestedResources = job.nbRequestedResources)
    (hx : checkPriorityJob s job date = (s', none)) :
    ∃ p : PriorityJob, s' = { s with priorityJob := p } ∧ p.id = (PriorityJob.update s.priorityJob job).id ∧
      p.requestedResources = job.nbRequestedResources ∧ p.extraUsed = 0 ∧ 0 ≤ p.extraResources ∧
      p.requestedResources + p.extraResources ≤ s.freeAt p.shadowTime ∧
      ∀ D, p.requestedResources ≤ s.freeAt D → p.shadowTime ≤ D := by
  unfold checkPriorityJob at hx
  dsimp only at hx
  split at hx
  · nomatch hx
  · rename_i hnot
    split at hx
    · rename_i shadow total hshadow
      cases hx
      obtain ⟨_, hle, htotal, hmin⟩ := findShadow_some horder (not_le.1 hnot) hshadow
      refine ⟨_, rfl, rfl, hrequested, rfl, ?_, ?_, hmin⟩
      · dsimp only
        omega
      · simp only [EasyBf3State.freeAt]
        omega
    · rename_i hshadow
      have hnone := findShadow_none (not_le.1 hnot) hshadow
      omega

/-- A job that is backfilled takes its machines, and those past the shadow time are counted. -/
theorem checkNextJob_some (hx : checkNextJob s job date = (s', some scheduled)) :
    canRunNext s job date = true ∧ Takes s s' job date ∧ s'.priorityJob =
      { s.priorityJob with
        extraUsed := s.priorityJob.extraUsed + if endsByShadow s job date then 0 else job.nbRequestedResources } := by
  unfold checkNextJob at hx
  split at hx
  · rename_i hcan
    cases hx
    exact ⟨hcan, handleScheduledJob_takes _ _ s job date, rfl⟩
  · nomatch hx

theorem checkNextJob_none (hx : checkNextJob s job date = (s', none)) : s' = s := by
  unfold checkNextJob at hx
  split at hx
  · nomatch hx
  · cases hx
    rfl

/-- Executing a job changes the queue and the decisions only. -/
theorem executeJob_ok (hx : executeJob s job scheduled = .ok s') :
    job ∈ s.queue.jobs ∧ s'.queue.jobs = s.queue.jobs.erase job ∧
      s' = { s with queue := s'.queue, decision := s'.decision } := by
  obtain ⟨queue, hq, rfl⟩ := Execution.map_eq_ok.1 hx
  obtain ⟨hmem, hjobs⟩ := Queue.jobs_removeJob hq
  exact ⟨hmem, hjobs, rfl⟩

/-- The jobs released that can run some day wait behind the others. -/
theorem releaseJobs_eq (currentDate : ℚ) (jobs : List Job) (s : EasyBf3State) :
    (jobs.foldl (releaseJob c currentDate) s).queue.jobs = s.queue.jobs ++ jobs.filter (!isRejected c ·) ∧
      jobs.foldl (releaseJob c currentDate) s = { s with
        queue := (jobs.foldl (releaseJob c currentDate) s).queue
        decision := (jobs.foldl (releaseJob c currentDate) s).decision } := by
  induction jobs generalizing s with
  | nil => simp
  | cons job jobs ih =>
    obtain ⟨hqueue, hstate⟩ := ih (releaseJob c currentDate s job)
    rw [List.foldl_cons]
    by_cases hreject : isRejected c job = true
    · have hstep : releaseJob c currentDate s job = { s with decision := s.decision.add (.rejectJob job.id) } := by
        unfold releaseJob
        exact if_pos hreject
      rw [hstep] at hqueue hstate ⊢
      refine ⟨?_, hstate⟩
      rw [hqueue, List.filter_cons_of_neg (by simpa using hreject)]
    · have hstep : releaseJob c currentDate s job = { s with queue := s.queue.appendJob job currentDate } := by
        unfold releaseJob
        exact if_neg hreject
      rw [hstep] at hqueue hstate ⊢
      refine ⟨?_, hstate⟩
      rw [hqueue, List.filter_cons_of_pos (by simpa using hreject), Queue.jobs_appendJob, List.append_assoc]
      rfl

/-! ### Which machines are free -/

/-- The available machines and those of some jobs are all the machines, each once. -/
structure Split (n : ℕ) (available : IntervalSet) (count : ℤ) (jobs : List ScheduledJob) : Prop where
  machines : ∀ m, m < n ↔ m ∈ available ∨ ∃ job ∈ jobs, m ∈ job.allocatedMachines
  free : ∀ job ∈ jobs, Disjoint available job.allocatedMachines
  allocated : jobs.Pairwise fun x y => Disjoint x.allocatedMachines y.allocatedMachines
  sized : ∀ job ∈ jobs, job.allocatedMachines.card = job.requestedResources
  count : count = available.card

variable {n : ℕ} {available : IntervalSet} {count : ℤ} {jobs jobs' : List ScheduledJob}

theorem Split.perm (h : Split n available count jobs) (hp : jobs'.Perm jobs) : Split n available count jobs' where
  machines := fun m => (h.machines m).trans (by simp [hp.mem_iff])
  free := fun job hmem => h.free job (hp.mem_iff.1 hmem)
  allocated := (hp.pairwise_iff fun hd => hd.symm).2 h.allocated
  sized := fun job hmem => h.sized job (hp.mem_iff.1 hmem)
  count := h.count

/-- A job takes available machines. -/
theorem Split.take (h : Split n available count jobs) (scheduled : ScheduledJob) (hsub : scheduled.allocatedMachines ⊆ available)
    (hcard : scheduled.allocatedMachines.card = scheduled.requestedResources) :
    Split n (available \ scheduled.allocatedMachines) (count - scheduled.requestedResources) (scheduled :: jobs) where
  machines := by
    intro m
    have hm := @hsub m
    simp only [h.machines, Finset.mem_sdiff, List.mem_cons, exists_eq_or_imp]
    tauto
  free := by
    intro job hmem
    rcases List.mem_cons.1 hmem with rfl | hmem
    · exact Finset.sdiff_disjoint
    · exact Finset.disjoint_of_subset_left Finset.sdiff_subset (h.free job hmem)
  allocated := List.pairwise_cons.2 ⟨fun job hmem => Finset.disjoint_of_subset_left hsub (h.free job hmem), h.allocated⟩
  sized := by
    intro job hmem
    rcases List.mem_cons.1 hmem with rfl | hmem
    · exact hcard
    · exact h.sized job hmem
  count := by
    have hsum := Finset.card_sdiff_add_card_eq_card hsub
    have hcount := h.count
    omega

/-- A job gives its machines back. -/
theorem Split.giveBack (h : Split n available count (scheduled :: jobs)) :
    Split n (available ∪ scheduled.allocatedMachines) (count + scheduled.requestedResources) jobs where
  machines := by
    intro m
    simp only [h.machines, Finset.mem_union, List.mem_cons, exists_eq_or_imp]
    tauto
  free := by
    intro job hmem
    refine Finset.disjoint_union_left.2 ⟨h.free job (List.mem_cons_of_mem _ hmem), ?_⟩
    exact (List.pairwise_cons.1 h.allocated).1 job hmem
  allocated := (List.pairwise_cons.1 h.allocated).2
  sized := fun job hmem => h.sized job (List.mem_cons_of_mem _ hmem)
  count := by
    have hunion := Finset.card_union_of_disjoint (h.free scheduled List.mem_cons_self)
    have hsized := h.sized scheduled List.mem_cons_self
    have hcount := h.count
    omega

/-- A job that fits takes the leftmost machines. -/
theorem Split.schedule (h : Split n s.availableMachines s.nbAvailableMachines s.scheduledJobs)
    (hfit : (job.nbRequestedResources : ℤ) ≤ s.nbAvailableMachines) (date : ℚ) :
    Split n (handleScheduledJob s job date).1.availableMachines (handleScheduledJob s job date).1.nbAvailableMachines
      (sortMaxHeap (handleScheduledJob s job date).1.scheduledJobs) := by
  have hcard : (s.availableMachines.leftmost job.nbRequestedResources).card = job.nbRequestedResources := by
    have hcount := h.count
    exact Finset.card_leftmost_of_le (by omega)
  have htake := h.take (handleScheduledJob s job date).2 (Finset.leftmost_subset _ _) hcard
  exact htake.perm ((perm_sortMaxHeap _).trans (List.perm_append_singleton _ _))

/-- A job that ends is taken out of the scheduled jobs. -/
theorem perm_eraseP_of_find? {id : String} (hfind : s.scheduledJobs.find? (·.id = id) = some scheduled) :
    (scheduled :: s.scheduledJobs.eraseP (·.id = id)).Perm s.scheduledJobs := by
  obtain ⟨heq, before, after, hjobs, hbefore⟩ := List.find?_eq_some_iff_append.1 hfind
  have herase : s.scheduledJobs.eraseP (·.id = id) = before ++ after := by
    rw [hjobs, List.eraseP_append_right _ (by simpa using hbefore), List.eraseP_cons_of_pos (by exact heq)]
  rw [herase, hjobs]
  exact List.perm_middle.symm

/-- A job that ends gives its machines back, if it was scheduled. -/
theorem Split.finish (h : Split n s.availableMachines s.nbAvailableMachines s.scheduledJobs) (id : String) :
    Split n (handleFinishedJob s id).availableMachines (handleFinishedJob s id).nbAvailableMachines
      (handleFinishedJob s id).scheduledJobs := by
  unfold handleFinishedJob
  split
  · rename_i scheduled hfind
    exact (h.perm (perm_eraseP_of_find? hfind)).giveBack
  · exact h

end EasyBf3

end ScheduleTest
