import ScheduleTest.Lemmas.EasyBf3

/-!
# The accounts of `easy_bf3`

Which machines are available is kept in a set and a counter, and which are allocated in the scheduled jobs. A job that waits is in
the queue, whether it is the priority job or not: the record of the priority job only says what was computed for it. So every job
moves from the released ones to the queue, to the scheduled ones and out, and is in one place at a time.
-/

namespace ScheduleTest

open Execution EasyBf3

/-- The ids of the jobs by what has become of them: released and not looked at, rejected, waiting, scheduled, or ended. -/
def EasyBf3State.jobIds (s : EasyBf3State) (p : Platform) : List String :=
  s.jobsReleasedRecently.map (·.id) ++ p.rejected ++ s.queue.jobs.map (·.id) ++ s.scheduledJobs.map (·.id) ++ p.ended

/-- What the books of the scheduler say about machines and jobs, beside what the messages say. -/
structure EasyBf3Accounts (c : EasyBf3Config) (t : EasyBf3State × Platform) : Prop where
  /-- Every machine is available or allocated, and nothing else is. -/
  machines : ∀ m, m < c.nbMachines ↔ m ∈ t.1.availableMachines ∨ ∃ job ∈ t.1.scheduledJobs, m ∈ job.allocatedMachines
  available : ∀ job ∈ t.1.scheduledJobs, Disjoint t.1.availableMachines job.allocatedMachines
  allocated : t.1.scheduledJobs.Pairwise fun x y => Disjoint x.allocatedMachines y.allocatedMachines
  count : t.1.nbAvailableMachines = t.1.availableMachines.card
  /-- Every job submitted is in one place, once. -/
  places : (t.1.jobIds t.2).Perm (t.2.submitted.map (·.id))
  distinct : (t.2.submitted.map (·.id)).Nodup
  /-- Only a job that can never run is rejected. -/
  rejected : ∀ job ∈ t.2.submitted, job.id ∈ t.2.rejected → isRejected c job = true
  /-- Every job that is scheduled or has ended was executed once, and no other was. -/
  executed : t.2.executed.Perm (t.1.scheduledJobs.map (·.id) ++ t.2.ended)
  once : t.2.executed.Nodup

namespace EasyBf3AccountsAux

variable {c : EasyBf3Config} {s s' : EasyBf3State} {p : Platform} {job : Job} {date : ℚ} {released : List Job}
  {finished : List String}

/-! ### The invariant within a step -/

/-- The books in the middle of a step, with the decisions made so far, the jobs released that are still to be looked at, and the
jobs that have been finished. -/
structure Books (c : EasyBf3Config) (p : Platform) (s : EasyBf3State) (decisions : List Decision) (released : List Job)
    (finished : List String) : Prop where
  split : Split c.nbMachines s.availableMachines s.nbAvailableMachines s.scheduledJobs
  known : ∀ job ∈ s.queue.jobs ++ released, s.workload job.id = some job ∧ job.id ≠ ""
  requested : s.priorityJob.id = "" ∨
    ∃ job, s.workload s.priorityJob.id = some job ∧ s.priorityJob.requestedResources = job.nbRequestedResources
  submitted : ∀ job ∈ p.submitted, s.workload job.id = some job
  places : (released.map (·.id) ++ (p.rejected ++ rejections decisions) ++ s.queue.jobs.map (·.id) ++
    s.scheduledJobs.map (·.id) ++ (p.ended ++ finished)).Perm (p.submitted.map (·.id))
  distinct : (p.submitted.map (·.id)).Nodup
  rejected : ∀ job ∈ p.submitted, job.id ∈ p.rejected ++ rejections decisions → isRejected c job = true
  executed : (p.executed ++ (executions decisions).map (·.1)).Perm (s.scheduledJobs.map (·.id) ++ (p.ended ++ finished))

/-- What stays of the record of the priority job when a job of the queue is checked. -/
theorem Books.update (h : Books c p s s.decision.decisions released finished) (hmem : job ∈ s.queue.jobs) :
    (PriorityJob.update s.priorityJob job).id = job.id ∧
      (PriorityJob.update s.priorityJob job).requestedResources = job.nbRequestedResources := by
  obtain ⟨hjob, hne⟩ := h.known job (List.mem_append_left _ hmem)
  exact update_of_known h.requested hjob hne

/-- The record of the priority job may change, as long as it is about a job of the workload or about none. -/
theorem Books.note (h : Books c p s s.decision.decisions released finished) {priority : PriorityJob}
    (hp : priority.id = "" ∨ ∃ job, s.workload priority.id = some job ∧ priority.requestedResources = job.nbRequestedResources) :
    Books c p { s with priorityJob := priority } s.decision.decisions released finished :=
  { h with requested := hp }

/-- A job that waits is executed: it takes machines, leaves the queue, and the decision is sent. -/
theorem Books.start (h : Books c p s s.decision.decisions released finished) (nb : ℕ) (priority : PriorityJob)
    (hfit : (job.nbRequestedResources : ℤ) ≤ s.nbAvailableMachines)
    (hp : priority.id = "" ∨ ∃ job, s.workload priority.id = some job ∧ priority.requestedResources = job.nbRequestedResources)
    (hx : executeJob { (handleScheduledJob s job date).1 with
        scheduledJobs := sortMaxHeap (handleScheduledJob s job date).1.scheduledJobs
        priorityJob := priority
        backfillCounter := nb } job (handleScheduledJob s job date).2 = .ok s') :
    Books c p s' s'.decision.decisions released finished ∧ s'.queue.jobs = s.queue.jobs.erase job := by
  obtain ⟨hmem, hjobs, hstate⟩ := executeJob_ok hx
  obtain ⟨queue, _, heq⟩ := map_eq_ok.1 hx
  have hdecision : s'.decision.decisions = s.decision.decisions ++
      [.executeJob job.id (s.availableMachines.leftmost job.nbRequestedResources)] := by
    rw [← heq]
    rfl
  have hqueue : s'.queue.jobs = s.queue.jobs.erase job := hjobs
  have hmem : job ∈ s.queue.jobs := hmem
  have hscheduled : s'.scheduledJobs.Perm ((handleScheduledJob s job date).2 :: s.scheduledJobs) := by
    rw [← heq]
    exact (perm_sortMaxHeap _).trans (List.perm_append_singleton _ _)
  have hids := (hscheduled.map (·.id)).count_eq
  have hwaiting := ((List.perm_cons_erase hmem).map (·.id)).count_eq
  have hsub : s'.queue.jobs ++ released ⊆ s.queue.jobs ++ released := by
    rw [hqueue]
    exact (List.erase_sublist.append_right _).subset
  refine ⟨?_, hqueue⟩
  constructor
  case split =>
    rw [hstate]
    exact h.split.schedule hfit date
  case known =>
    intro x hx
    rw [hstate]
    exact h.known x (hsub hx)
  case requested =>
    rw [hstate]
    exact hp
  case submitted =>
    rw [hstate]
    exact h.submitted
  case places =>
    refine (List.perm_iff_count.2 fun id => ?_).trans h.places
    have hids := hids id
    have hwaiting := hwaiting id
    simp only [hdecision, hqueue, rejections_append, rejections_executeJob, List.append_nil, List.count_append, List.map_cons,
      List.count_cons, handleScheduledJob] at hids hwaiting ⊢
    omega
  case distinct => exact h.distinct
  case rejected =>
    simp only [hdecision, rejections_append, rejections_executeJob, List.append_nil]
    exact h.rejected
  case executed =>
    refine List.perm_iff_count.2 fun id => ?_
    have hids := hids id
    have hold := h.executed.count_eq id
    simp only [hdecision, executions_append, executions_executeJob, List.map_append, List.map_cons, List.map_nil,
      List.count_append, List.count_cons, List.count_nil, handleScheduledJob] at hids hold ⊢
    omega

/-- A job whose end was reported gives its machines back. -/
theorem Books.finish {decisions : List Decision} (h : Books c p s decisions released finished) {id : String}
    (hid : id ∈ s.scheduledJobs.map (·.id)) :
    Books c p (handleFinishedJob s id) decisions released (finished ++ [id]) := by
  unfold handleFinishedJob
  split
  · rename_i scheduled hfind
    have hperm := perm_eraseP_of_find? hfind
    have hids := (hperm.map (·.id)).count_eq
    have hsid : scheduled.id = id := by simpa using List.find?_some hfind
    refine ⟨(h.split.perm hperm).giveBack, h.known, h.requested, h.submitted, ?_, h.distinct, h.rejected, ?_⟩
    · refine (List.perm_iff_count.2 fun x => ?_).trans h.places
      have hids := hids x
      simp only [List.count_append, List.map_cons, List.count_cons, List.count_nil, hsid] at hids ⊢
      omega
    · refine h.executed.trans (List.perm_iff_count.2 fun x => ?_)
      have hids := hids x
      simp only [List.count_append, List.map_cons, List.count_cons, List.count_nil, hsid] at hids ⊢
      omega
  · rename_i hnone
    obtain ⟨job, hjob, rfl⟩ := List.mem_map.1 hid
    exact absurd (List.find?_eq_none.1 hnone job hjob) (by simp)

/-- The jobs whose ends were reported give their machines back. -/
theorem Books.finishAll {decisions : List Decision} {ids : List String} (h : Books c p s decisions released finished)
    (hids : ids.Nodup) (hmem : ∀ id ∈ ids, id ∈ s.scheduledJobs.map (·.id)) :
    Books c p (ids.foldl handleFinishedJob s) decisions released (finished ++ ids) ∧
      (ids.foldl handleFinishedJob s).decision = s.decision := by
  induction ids generalizing s finished with
  | nil => simpa using h
  | cons id ids ih =>
    obtain ⟨hnew, hids⟩ := List.nodup_cons.1 hids
    have hkeep : (handleFinishedJob s id).decision = s.decision ∧
        ∀ x, x ≠ id → x ∈ s.scheduledJobs.map (·.id) → x ∈ (handleFinishedJob s id).scheduledJobs.map (·.id) := by
      unfold handleFinishedJob
      split
      · refine ⟨rfl, fun x hne hx => ?_⟩
        obtain ⟨job, hjob, rfl⟩ := List.mem_map.1 hx
        exact List.mem_map_of_mem ((List.mem_eraseP_of_neg (by simpa using hne)).2 hjob)
      · exact ⟨rfl, fun _ _ hx => hx⟩
    obtain ⟨hok, hdecision⟩ := ih (h.finish (hmem id List.mem_cons_self)) hids fun x hx =>
      hkeep.2 x (fun heq => hnew (heq ▸ hx)) (hmem x (List.mem_cons_of_mem _ hx))
    rw [List.append_assoc] at hok
    exact ⟨hok, hdecision.trans hkeep.1⟩

/-- A job that is released waits, or is rejected. -/
theorem Books.release (h : Books c p s s.decision.decisions (job :: released) finished) (currentDate : ℚ) :
    Books c p (releaseJob c currentDate s job) (releaseJob c currentDate s job).decision.decisions released finished := by
  have hjob := h.known job (by simp)
  unfold releaseJob
  split
  · rename_i hreject
    refine ⟨h.split, fun x hx => h.known x (by simp at hx ⊢; tauto), h.requested, h.submitted, ?_, h.distinct, ?_, ?_⟩
    · refine (List.perm_iff_count.2 fun x => ?_).trans h.places
      simp only [SchedulingDecision.decisions_add, rejections_append, rejections_rejectJob, List.count_append, List.map_cons,
        List.count_cons, List.count_nil]
      omega
    · intro x hx hid
      simp only [SchedulingDecision.decisions_add, rejections_append, rejections_rejectJob, ← List.append_assoc] at hid
      rcases List.mem_append.1 hid with hid | hid
      · exact h.rejected x hx hid
      · have hsame := h.submitted x hx
        rw [List.mem_singleton.1 hid, hjob.1] at hsame
        rwa [← Option.some.inj hsame]
    · simpa using h.executed
  · refine ⟨h.split, fun x hx => h.known x (by simp at hx ⊢; tauto), h.requested, h.submitted, ?_, h.distinct, h.rejected,
      h.executed⟩
    refine (List.perm_iff_count.2 fun x => ?_).trans h.places
    simp only [Queue.jobs_appendJob, List.map_append, List.count_append, List.map_cons, List.map_nil, List.count_cons,
      List.count_nil]
    omega

theorem Books.releaseAll (currentDate : ℚ) (h : Books c p s s.decision.decisions released finished) :
    Books c p (released.foldl (releaseJob c currentDate) s) (released.foldl (releaseJob c currentDate) s).decision.decisions []
      finished := by
  induction released generalizing s with
  | nil => exact h
  | cons job released ih => exact ih (h.release currentDate)

/-- Sorting the queue moves no job. -/
theorem Books.sort (h : Books c p s s.decision.decisions [] finished) (currentDate : ℚ) :
    Books c p { s with queue := s.queue.sortQueue c.order currentDate } s.decision.decisions [] finished := by
  have hperm := s.queue.jobs_sortQueue c.order currentDate
  refine ⟨h.split, fun x hx => h.known x ?_, h.requested, h.submitted, ?_, h.distinct, h.rejected, h.executed⟩
  · simpa only [List.append_nil, hperm.mem_iff] using hx
  · refine List.Perm.trans ?_ h.places
    exact (((hperm.map _).append_left _).append_right _).append_right _

/-! ### The loops -/

/-- What checking a job comes to: either it can start, and then leaves the queue, or nothing moves. -/
def Checked (c : EasyBf3Config) (p : Platform) (released : List Job) (finished : List String) (s : EasyBf3State) (job : Job) :
    EasyBf3State × Option ScheduledJob → Prop
  | (t, some scheduled) => ∀ s', executeJob t job scheduled = .ok s' →
    Books c p s' s'.decision.decisions released finished ∧ s'.queue.jobs = s.queue.jobs.erase job
  | (t, none) => Books c p t t.decision.decisions released finished ∧ t.queue = s.queue

/-- Checking a job of the queue as the priority job either starts it or only notes when it will. -/
theorem Books.priority (h : Books c p s s.decision.decisions released finished) (hmem : job ∈ s.queue.jobs) (date : ℚ) :
    Checked c p released finished s job (checkPriorityJob s job date) := by
  obtain ⟨hid, hreq⟩ := h.update hmem
  have hjob := (h.known job (List.mem_append_left _ hmem)).1
  unfold checkPriorityJob
  dsimp only
  split
  · rename_i hle
    intro s' hx
    exact h.start s.backfillCounter _ (hreq ▸ hle) (.inr ⟨job, hid ▸ hjob, hreq⟩) hx
  · split <;> exact ⟨h.note (.inr ⟨job, hid ▸ hjob, hreq⟩), rfl⟩

/-- Checking a job behind the priority job either starts it or does nothing. -/
theorem Books.next (h : Books c p s s.decision.decisions released finished) (job : Job) (date : ℚ) :
    Checked c p released finished s job (checkNextJob s job date) := by
  unfold checkNextJob
  split
  · rename_i hcan
    intro s' hx
    refine h.start (s.backfillCounter + 1) { s.priorityJob with
      extraUsed := s.priorityJob.extraUsed + if endsByShadow s job date then 0 else job.nbRequestedResources } ?_ h.requested hx
    unfold canRunNext at hcan
    split at hcan
    · exact of_decide_eq_true hcan
    · exact (of_decide_eq_true hcan).trans (min_le_left _ _)
  · exact ⟨h, rfl⟩

theorem Books.queue_nodup (h : Books c p s s.decision.decisions released finished) : s.queue.jobs.Nodup := by
  have hall := h.places.nodup_iff.2 h.distinct
  have hqueue := (List.nodup_append.1 (List.nodup_append.1 (List.nodup_append.1 hall).1).1).2.1
  exact hqueue.of_map

/-- The loop over the first jobs. -/
theorem Books.priorityJobs {rest : List Job} (h : Books c p s s.decision.decisions [] finished) (hjobs : s.queue.jobs = rest)
    (hx : executePriorityJobs date s rest = .ok s') : Books c p s' s'.decision.decisions [] finished := by
  induction rest generalizing s with
  | nil =>
    cases hx
    exact h
  | cons job rest ih =>
    have hmem : job ∈ s.queue.jobs := by simp [hjobs]
    have hchecked := h.priority hmem date
    unfold executePriorityJobs at hx
    split at hx
    · rename_i t scheduled hcheck
      rw [hcheck] at hchecked
      split at hx
      · rename_i u hu
        obtain ⟨hok, hqueue⟩ := hchecked u hu
        refine ih hok ?_ hx
        rw [hqueue, hjobs, List.erase_cons_head]
      · nomatch hx
    · rename_i t hcheck
      rw [hcheck] at hchecked
      cases hx
      exact hchecked.1

theorem Books.sortHandling {before : Option Job} {currentDate : ℚ} (h : Books c p s s.decision.decisions [] finished)
    (hx : sortQueueWhileHandlingPriorityJob c s before currentDate = .ok s') :
    Books c p s' s'.decision.decisions [] finished := by
  unfold sortQueueWhileHandlingPriorityJob at hx
  dsimp only at hx
  split at hx
  · exact (h.sort currentDate).priorityJobs rfl hx
  · cases hx
    exact h.sort currentDate

/-- One of the jobs just released. -/
theorem Books.backfill {first : Option Job} (h : Books c p s s.decision.decisions [] finished)
    (hx : backfillReleased date first s job = .ok s') : Books c p s' s'.decision.decisions [] finished := by
  have hchecked := h.next job date
  unfold backfillReleased at hx
  split at hx
  · split at hx
    · rename_i t scheduled hcheck
      rw [hcheck] at hchecked
      exact (hchecked s' hx).1
    · rename_i t hcheck
      rw [hcheck] at hchecked
      cases hx
      exact hchecked.1
  · cases hx
    exact h

/-- The loop over the queue: the books, and the jobs that are still to come wait. -/
structure Traversing (c : EasyBf3Config) (p : Platform) (finished : List String) (t : EasyBf3State × Option Job)
    (rest : List Job) : Prop where
  books : Books c p t.1 t.1.decision.decisions [] finished
  nodup : rest.Nodup
  waiting : ∀ job ∈ rest, job ∈ t.1.queue.jobs

theorem Traversing.step {t t' : EasyBf3State × Option Job} {rest : List Job} (h : Traversing c p finished t (job :: rest))
    (hx : traverseJob date t job = .ok t') : Traversing c p finished t' rest := by
  obtain ⟨u, first⟩ := t
  obtain ⟨hbooks, hnodup, hwaiting⟩ := h
  obtain ⟨hnew, hnodup⟩ := List.nodup_cons.1 hnodup
  have hmem := hwaiting job List.mem_cons_self
  have hrest : ∀ x ∈ rest, x ∈ u.queue.jobs := fun x hx => hwaiting x (List.mem_cons_of_mem _ hx)
  -- whichever way the job is checked, it starts or nothing moves
  have hchecked : Checked c p [] finished u job
      (if some job = first then checkPriorityJob u job date else checkNextJob u job date) := by
    split
    · exact hbooks.priority hmem date
    · exact hbooks.next job date
  unfold traverseJob at hx
  dsimp only at hx
  split at hx
  · split at hx
    · rename_i w scheduled hcheck
      obtain ⟨v, hv, rfl⟩ := map_eq_ok.1 hx
      rw [hcheck] at hchecked
      obtain ⟨hok, hqueue⟩ := hchecked v hv
      refine ⟨hok, hnodup, fun x hx => ?_⟩
      rw [hqueue]
      have hne : x ≠ job := fun heq => hnew (heq ▸ hx)
      exact (List.mem_erase_of_ne hne).2 (hrest x hx)
    · rename_i w hcheck
      cases hx
      rw [hcheck] at hchecked
      obtain ⟨hok, hqueue⟩ := hchecked
      exact ⟨hok, hnodup, by rwa [hqueue]⟩
  · cases hx
    exact ⟨hbooks, hnodup, hrest⟩

/-- The decisions of a step. -/
theorem Books.decide {currentDate : ℚ} (h : Books c p s s.decision.decisions s.jobsReleasedRecently [])
    (hids : s.jobsEndedRecently.Nodup) (hmem : ∀ id ∈ s.jobsEndedRecently, id ∈ s.scheduledJobs.map (·.id))
    (hx : makeDecisions c s date currentDate = .ok s') :
    Books c p s' s'.decision.decisions [] s.jobsEndedRecently := by
  obtain ⟨hfinished, hdecision⟩ := h.finishAll hids hmem
  rw [← hdecision, List.nil_append] at hfinished
  have hhandled := hfinished.releaseAll currentDate
  unfold makeDecisions at hx
  split at hx
  · rename_i t ht
    have ht : Books c p t t.decision.decisions [] s.jobsEndedRecently := hhandled.sortHandling ht
    split at hx
    · exact runFrom_invariant (I := fun u => Books c p u u.decision.decisions [] s.jobsEndedRecently) (C := fun _ _ => True)
        (fun _ _ _ hu _ hstep => hu.backfill hstep) ht (allSteps_of_forall fun _ _ => trivial) hx
    · obtain ⟨u, hu, rfl⟩ := map_eq_ok.1 hx
      have htraversed := runFrom_rest (R := Traversing c p s.jobsEndedRecently) (fun _ _ _ _ hv hstep => hv.step hstep)
        ⟨ht, ht.queue_nodup, fun _ hmem => hmem⟩ hu
      exact htraversed.books
  · nomatch hx

/-! ### Runs -/

/-- The invariant between events: the books agree with the platform about who runs. -/
structure Inv (c : EasyBf3Config) (t : EasyBf3State × Platform) : Prop where
  books : Books c t.2 t.1 [] t.1.jobsReleasedRecently []
  ended : t.1.jobsEndedRecently = t.2.reported.map (·.id)
  running : (t.2.running.map (·.id) ++ t.2.reported.map (·.id)).Perm (t.1.scheduledJobs.map (·.id))

theorem new_inv (c : EasyBf3Config) (date : ℚ) : Inv c (EasyBf3.new c, Platform.new date) where
  books := by
    refine ⟨⟨?_, ?_, ?_, ?_, ?_⟩, ?_, .inl rfl, ?_, ?_, ?_, ?_, ?_⟩ <;> simp [EasyBf3.new, Platform.new, Queue.jobs]
  ended := rfl
  running := by simp [EasyBf3.new, Platform.new]

theorem submitted_inv {t : EasyBf3State × Platform} (h : Inv c (s, p)) (hid : job.id ≠ "")
    (hx : (EasyBf3.scheduler c).run (s, p) (.jobSubmitted job) = .ok t) : Inv c t := by
  obtain ⟨hbooks, hended, hrunning⟩ := h
  dsimp only at hbooks hended hrunning
  obtain ⟨s', hs, rfl⟩ := JobScheduler.run_submitted rfl hx
  change EasyBf3.step c s (.jobSubmitted job) = .ok s' at hs
  rw [EasyBf3.step] at hs
  split at hs
  · nomatch hs
  · rename_i hnone
    cases hs
    have hother : ∀ id x, s.workload id = some x → id ≠ job.id := by
      rintro id x hx rfl
      rw [hnone] at hx
      nomatch hx
    have hkeep : ∀ id x, s.workload id = some x → Function.update s.workload job.id (some job) id = some x := by
      intro id x hx
      rw [Function.update_of_ne (hother id x hx), hx]
    have hnew : job.id ∉ p.submitted.map (·.id) := by
      intro hmem
      obtain ⟨x, hx, heq⟩ := List.mem_map.1 hmem
      exact hother _ x (hbooks.submitted x hx) heq
    refine ⟨⟨hbooks.split, ?_, ?_, ?_, ?_, ?_, ?_, hbooks.executed⟩, hended, hrunning⟩
    · intro x hx
      dsimp only at hx ⊢
      rw [← List.append_assoc, List.mem_append, List.mem_singleton] at hx
      rcases hx with hx | rfl
      · exact ⟨hkeep _ x (hbooks.known x hx).1, (hbooks.known x hx).2⟩
      · exact ⟨Function.update_self .., hid⟩
    · exact hbooks.requested.imp_right fun ⟨x, hx, hreq⟩ => ⟨x, hkeep _ x hx, hreq⟩
    · intro x hx
      rcases List.mem_append.1 hx with hx | hx
      · exact hkeep _ x (hbooks.submitted x hx)
      · rw [List.mem_singleton.1 hx]
        exact Function.update_self ..
    · refine List.perm_iff_count.2 fun id => ?_
      have hold := hbooks.places.count_eq id
      simp only [List.map_append, List.count_append] at hold ⊢
      omega
    · dsimp only
      rw [List.map_append]
      refine List.nodup_append.2 ⟨hbooks.distinct, List.nodup_singleton _, fun x hx y hy heq => hnew ?_⟩
      rw [List.map_singleton, List.mem_singleton] at hy
      rwa [← hy, ← heq]
    · intro x hx hrejected
      rcases List.mem_append.1 hx with hx | hx
      · exact hbooks.rejected x hx hrejected
      · rw [List.mem_singleton.1 hx] at hrejected
        refine absurd (hbooks.places.mem_iff.1 ?_) hnew
        simp only [List.mem_append] at hrejected ⊢
        tauto

theorem completed_inv {t : EasyBf3State × Platform} {id : String} (h : Inv c (s, p))
    (hx : (EasyBf3.scheduler c).run (s, p) (.jobCompleted id) = .ok t) : Inv c t := by
  obtain ⟨hbooks, hended, hrunning⟩ := h
  dsimp only at hbooks hended hrunning
  obtain ⟨s', r, before, after, hs, rfl, hjobs, rfl⟩ := JobScheduler.run_completed rfl hx
  change EasyBf3.step c s (.jobCompleted r.id) = .ok s' at hs
  rw [EasyBf3.step] at hs
  split at hs
  · cases hs
    refine ⟨{ hbooks with }, ?_, ?_⟩
    · dsimp only
      rw [hended, List.map_append, List.map_singleton]
    · refine List.Perm.trans (List.perm_iff_count.2 fun x => ?_) hrunning
      simp only [hjobs, List.map_append, List.map_cons, List.map_nil, List.count_append, List.count_cons, List.count_nil]
      omega
  · nomatch hs

theorem decided_inv {t : EasyBf3State × Platform} {currentDate : ℚ} (h : Inv c (s, p))
    (hx : (EasyBf3.scheduler c).run (s, p) (.makeDecisions date currentDate) = .ok t) : Inv c t := by
  obtain ⟨hbooks, hended, hrunning⟩ := h
  dsimp only at hbooks hended hrunning
  obtain ⟨_, s', hs, rfl⟩ := JobScheduler.run_decided rfl hx
  change EasyBf3.step c s (.makeDecisions date currentDate) = .ok s' at hs
  obtain ⟨u, hu, rfl⟩ := map_eq_ok.1 hs
  have hreported : s.jobsEndedRecently.Nodup ∧ ∀ id ∈ s.jobsEndedRecently, id ∈ s.scheduledJobs.map (·.id) := by
    have hall := hbooks.places.nodup_iff.2 hbooks.distinct
    have hscheduled := (List.nodup_append.1 (List.nodup_append.1 hall).1).2.1
    rw [hended]
    exact ⟨(List.nodup_append.1 (hrunning.nodup_iff.2 hscheduled)).2.1,
      fun id hid => hrunning.mem_iff.1 (List.mem_append_right _ hid)⟩
  have hstart : Books c { p with now := date } { s with decision := s.decision.clear } s.decision.clear.decisions
      s.jobsReleasedRecently [] := { hbooks with }
  have hdone := hstart.decide hreported.1 hreported.2 hu
  rw [hended] at hdone
  refine ⟨⟨hdone.split, hdone.known, hdone.requested, hdone.submitted, ?_, hdone.distinct, ?_, ?_⟩, rfl, ?_⟩
  · simpa [scheduler, Platform.send] using hdone.places
  · simpa [scheduler, Platform.send] using hdone.rejected
  · simpa [scheduler, Platform.send] using hdone.executed
  · refine List.perm_iff_count.2 fun id => ?_
    have hexecuted := hdone.executed.count_eq id
    have hbefore := hbooks.executed.count_eq id
    have hrunning := hrunning.count_eq id
    simp only [scheduler, Platform.send, List.map_append, List.map_map, List.map_nil, List.count_append,
      List.count_nil, executions_nil, Function.comp_def] at hexecuted hbefore hrunning ⊢
    omega

/-- In the states of the invariant the accounts are right. -/
theorem Inv.accounts {t : EasyBf3State × Platform} (h : Inv c t) : EasyBf3Accounts c t := by
  have hbooks := h.books
  have hplaces : (t.1.jobIds t.2).Perm (t.2.submitted.map (·.id)) := by
    simpa [EasyBf3State.jobIds] using hbooks.places
  have hexecuted : t.2.executed.Perm (t.1.scheduledJobs.map (·.id) ++ t.2.ended) := by
    simpa using hbooks.executed
  have hnodup := hplaces.nodup_iff.2 hbooks.distinct
  refine ⟨hbooks.split.machines, hbooks.split.free, hbooks.split.allocated, hbooks.split.count, hplaces, hbooks.distinct, ?_,
    hexecuted, hexecuted.nodup_iff.2 (hnodup.sublist ?_)⟩
  · simpa using hbooks.rejected
  · unfold EasyBf3State.jobIds
    exact (List.sublist_append_right _ _).append_right _

end EasyBf3AccountsAux

open EasyBf3AccountsAux in
/-- In every run, after every event, the machines are available or allocated once, the counter counts the available ones, and every
job that was submitted is in one place: released, rejected, waiting, scheduled or ended; none is executed twice. -/
theorem easyBf3_accounts (c : EasyBf3Config) (date : ℚ) (events : List EasyBf3Event)
    (hids : ∀ job, .jobSubmitted job ∈ events → job.id ≠ "") :
    Always (EasyBf3.scheduler c).run (EasyBf3Accounts c) (EasyBf3.new c, Platform.new date) events := by
  have hall : AllSteps (EasyBf3.scheduler c).run (fun _ event => ∀ job, event = .jobSubmitted job → job.id ≠ "")
      (EasyBf3.new c, Platform.new date) events := allSteps_of_forall fun event hmem job heq => hids job (heq ▸ hmem)
  refine always_of_invariant ?_ (fun t h => h.accounts) (new_inv c date) hall
  rintro ⟨s, p⟩ event t h hid hx
  cases event with
  | jobSubmitted job => exact submitted_inv h (hid job rfl) hx
  | jobCompleted id => exact completed_inv h hx
  | makeDecisions date currentDate => exact decided_inv h hx

namespace EasyBf3AccountsWitness

/-- Three jobs on four machines and one that is too large: one runs, one waits, one is backfilled; then the first ends. -/
def events : List EasyBf3Event :=
  [.jobSubmitted { id := "w!1", nbRequestedResources := 2, walltime := 10 },
    .jobSubmitted { id := "w!2", nbRequestedResources := 3, walltime := 10 },
    .jobSubmitted { id := "w!3", nbRequestedResources := 1, walltime := 5 },
    .jobSubmitted { id := "w!4", nbRequestedResources := 5, walltime := 5 },
    .makeDecisions 0 0, .jobCompleted "w!1", .makeDecisions 8 8]

end EasyBf3AccountsWitness

open EasyBf3AccountsWitness in
/-- The run goes through, and in the end two jobs are scheduled, one has ended and one is rejected. -/
theorem easyBf3_accounts_witness :
    (runFrom (EasyBf3.scheduler { nbMachines := 4 }).run (EasyBf3.new { nbMachines := 4 }, Platform.new 0) events).toOption.map
        (fun t => (t.1.jobIds t.2, t.2.executed)) = some (["w!4", "w!3", "w!2", "w!1"], ["w!1", "w!3", "w!2"]) ∧
      Always (EasyBf3.scheduler { nbMachines := 4 }).run (EasyBf3Accounts { nbMachines := 4 })
        (EasyBf3.new { nbMachines := 4 }, Platform.new 0) events := by
  refine ⟨by decide +kernel, easyBf3_accounts { nbMachines := 4 } 0 events ?_⟩
  intro job hmem
  simp only [events, List.mem_cons, EasyBf3Event.jobSubmitted.injEq, reduceCtorEq, List.not_mem_nil, or_false] at hmem
  rcases hmem with rfl | rfl | rfl | rfl <;> decide

end ScheduleTest
