import ScheduleTest.Lemmas.EasyBf3

/-!
# The EASY guarantee of `easy_bf3`

The machines that the priority job leaves at its shadow time are a budget for the jobs that are backfilled past it. The source
computes the budget when the priority job is checked and does not take off what is spent, so two jobs can spend it twice. As long
as it is not overspent, the priority job finds its machines at its shadow time.
-/

namespace ScheduleTest

open Execution EasyBf3

/-- The job is the first of the queue, and its reservation has been computed. -/
def EasyBf3State.IsPriorityJob (s : EasyBf3State) (job : Job) : Prop :=
  s.queue.firstJob? = some job ∧ s.priorityJob.id = job.id

/-- At the shadow time of the priority job, as many machines are free as it requests. -/
def ShadowKept (s : EasyBf3State) : Prop :=
  ∀ job, s.IsPriorityJob job → s.priorityJob.requestedResources ≤ s.freeAt s.priorityJob.shadowTime

/-- Whether the queue, sorted in a step, still begins with the job. -/
def StaysFirst (c : EasyBf3Config) (s : EasyBf3State) (job : Job) : EasyBf3Event → Prop
  | .makeDecisions _ currentDate =>
    ((handleJobs c { s with decision := s.decision.clear } currentDate).queue.sortQueue c.order currentDate).firstJob? = some job
  | _ => True

/-- The shadow time of a job that stays the priority job does not increase in a step. -/
def ShadowNotLater (c : EasyBf3Config) (s : EasyBf3State) (event : EasyBf3Event) : Prop :=
  ∀ s' job, EasyBf3.step c s event = .ok s' → s.IsPriorityJob job → StaysFirst c s job event → s'.IsPriorityJob job →
    s'.priorityJob.shadowTime ≤ s.priorityJob.shadowTime

/-- If the job is backfilled past the shadow time, what is left of the extra resources is enough for it. -/
def SparesExtra (date : ℚ) (s : EasyBf3State) (job : Job) : Prop :=
  canRunNext s job date → ¬ endsByShadow s job date →
    (s.priorityJob.extraUsed + job.nbRequestedResources : ℤ) ≤ s.priorityJob.extraResources

/-- No job is backfilled in a step past the shadow time beyond what is left of the extra resources, from the state in which
the backfilling begins. -/
def BackfillsWithinExtra (c : EasyBf3Config) (s : EasyBf3State) (date : ℚ) (t : EasyBf3State) : Prop :=
  if s.jobsEndedRecently.isEmpty then
    AllSteps (backfillReleased date t.queue.firstJob?) (SparesExtra date) t (recentlyQueuedJobs c s)
  else AllSteps (traverseJob date) (fun u job => some job ≠ u.2 → SparesExtra date u.1 job) (t, t.queue.firstJob?) t.queue.jobs

/-- The condition on a step: the job submitted has an id, and the backfilling stays within the extra resources. -/
def StaysWithinExtra (c : EasyBf3Config) (s : EasyBf3State) : EasyBf3Event → Prop
  | .jobSubmitted job => job.id ≠ ""
  | .jobCompleted _ => True
  | .makeDecisions date currentDate =>
    ∀ t ∈ (prepare c { s with decision := s.decision.clear } currentDate).toOption, BackfillsWithinExtra c s date t

namespace EasyBf3Aux

variable {c : EasyBf3Config} {s s' : EasyBf3State} {job : Job} {date : ℚ} {released : List Job}

/-! ### The invariant -/

/-- The books of the scheduler: who runs, who waits, and whom the priority job's record is about. -/
structure Ok (c : EasyBf3Config) (s : EasyBf3State) (released : List Job) : Prop where
  inOrder : InOrder s.scheduledJobs
  count : s.nbAvailableMachines + requestedBy s.scheduledJobs = c.nbMachines
  known : ∀ job ∈ s.queue.jobs ++ released, s.workload job.id = some job ∧ job.id ≠ ""
  nodup : (s.queue.jobs ++ released).Nodup
  fits : ∀ job ∈ s.queue.jobs, job.nbRequestedResources ≤ c.nbMachines
  requested : s.priorityJob.id = "" ∨
    ∃ job, s.workload s.priorityJob.id = some job ∧ s.priorityJob.requestedResources = job.nbRequestedResources

/-- What was not spent of the extra resources is free at the shadow time besides what the priority job requests. -/
structure Covered (s : EasyBf3State) : Prop where
  free : s.priorityJob.requestedResources + s.priorityJob.extraResources - s.priorityJob.extraUsed ≤
    s.freeAt s.priorityJob.shadowTime
  spent : s.priorityJob.extraUsed ≤ s.priorityJob.extraResources

/-- The job is the priority job, or no machine is available. Where jobs have just ended, machines may be available before the
job is checked. -/
def ReservedFor (s : EasyBf3State) (ended : Prop) (job : Job) : Prop :=
  s.priorityJob.id = job.id ∧ Covered s ∨ s.priorityJob.id ≠ job.id ∧ (ended ∨ s.nbAvailableMachines ≤ 0)

/-- The first job of the queue, if there is one, is reserved for. -/
def Reserved (s : EasyBf3State) (ended : Prop) : Prop := ∀ job, s.queue.firstJob? = some job → ReservedFor s ended job

/-- A job that was the priority job with a shadow time is gone, or still is, with no later one. -/
def Bounded (X : Job) (S : ℚ) (s : EasyBf3State) : Prop :=
  X ∉ s.queue.jobs ∨ s.IsPriorityJob X ∧ Covered s ∧ s.priorityJob.shadowTime ≤ S

/-- What bounds the shadow time of a job before a part of a step bounds it after it. -/
def KeepsBounds (s s' : EasyBf3State) : Prop := ∀ X S, Bounded X S s → Bounded X S s'

theorem KeepsBounds.trans {s'' : EasyBf3State} (h : KeepsBounds s s') (h' : KeepsBounds s' s'') : KeepsBounds s s'' :=
  fun X S hb => h' X S (h X S hb)

theorem Covered.kept (h : Covered s) : s.priorityJob.requestedResources ≤ s.freeAt s.priorityJob.shadowTime := by
  have h1 := h.free
  have h2 := h.spent
  omega

/-- More machines that are free do no harm. -/
theorem Covered.mono (h : Covered s) (hp : s'.priorityJob = s.priorityJob) (hfree : ∀ D, s.freeAt D ≤ s'.freeAt D) :
    Covered s' where
  free := by
    rw [hp]
    exact h.free.trans (hfree _)
  spent := by
    rw [hp]
    exact h.spent

theorem ReservedFor.mono {ended ended' : Prop} (h : ReservedFor s ended job) (hp : s'.priorityJob = s.priorityJob)
    (hfree : ∀ D, s.freeAt D ≤ s'.freeAt D)
    (hfull : ended ∨ s.nbAvailableMachines ≤ 0 → ended' ∨ s'.nbAvailableMachines ≤ 0) : ReservedFor s' ended' job := by
  rcases h with ⟨hid, hc⟩ | ⟨hid, hnot⟩
  · exact .inl ⟨hp ▸ hid, hc.mono hp hfree⟩
  · exact .inr ⟨hp ▸ hid, hfull hnot⟩

/-- Jobs of the queue with one id are one job. -/
theorem Ok.eq_of_id (h : Ok c s released) {x y : Job} (hx : x ∈ s.queue.jobs) (hy : y ∈ s.queue.jobs) (hid : x.id = y.id) :
    x = y := by
  have hxw := (h.known x (List.mem_append_left _ hx)).1
  have hyw := (h.known y (List.mem_append_left _ hy)).1
  rw [hid, hyw] at hxw
  exact (Option.some.inj hxw).symm

/-- The record of the priority job gets the request of the job that is checked. -/
theorem Ok.requested_update (h : Ok c s released) (hmem : job ∈ s.queue.jobs) :
    (PriorityJob.update s.priorityJob job).id = job.id ∧
      (PriorityJob.update s.priorityJob job).requestedResources = job.nbRequestedResources := by
  obtain ⟨hjob, hne⟩ := h.known job (List.mem_append_left _ hmem)
  exact update_of_known h.requested hjob hne

/-! ### The operations -/

/-- A job that takes machines keeps the books, if the record of the priority job is still about a job of its request. -/
theorem Ok.takes (h : Ok c s released) (ht : Takes s s' job date)
    (hp : s'.priorityJob.id = "" ∨
      ∃ x, s.workload s'.priorityJob.id = some x ∧ s'.priorityJob.requestedResources = x.nbRequestedResources) :
    Ok c s' released where
  inOrder := ht.inOrder
  count := ht.count.trans h.count
  known := by
    rw [ht.queue, ht.workload]
    exact h.known
  nodup := ht.queue ▸ h.nodup
  fits := ht.queue ▸ h.fits
  requested := ht.workload ▸ hp

/-- Executing a job of the queue takes it out of it. -/
theorem Ok.execute {scheduled : ScheduledJob} (h : Ok c s released) (hx : executeJob s job scheduled = .ok s') :
    Ok c s' released := by
  obtain ⟨hmem, hjobs, hstate⟩ := executeJob_ok hx
  have hsub : (s'.queue.jobs ++ released).Sublist (s.queue.jobs ++ released) :=
    (hjobs ▸ List.erase_sublist).append_right released
  rw [hstate]
  exact ⟨h.inOrder, h.count, fun x hx => h.known x (hsub.subset hx), h.nodup.sublist hsub,
    fun x hx => h.fits x (List.mem_of_mem_erase (hjobs ▸ hx)), h.requested⟩

/-- A first job that can run as the priority job leaves the queue. -/
theorem priority_runs {t : EasyBf3State} {scheduled : ScheduledJob} {rest : List Job} (h : Ok c s released)
    (hfirst : s.queue.jobs = job :: rest) (hcheck : checkPriorityJob s job date = (t, some scheduled))
    (hx : executeJob t job scheduled = .ok s') :
    Ok c s' released ∧ s'.queue.jobs = rest ∧ s'.priorityJob.id = job.id ∧ KeepsBounds s s' := by
  have hmem : job ∈ s.queue.jobs := hfirst ▸ List.mem_cons_self
  obtain ⟨htakes, hp⟩ := checkPriorityJob_some hcheck
  obtain ⟨hid, hreq⟩ := h.requested_update hmem
  obtain ⟨_, hjobs, hstate⟩ := executeJob_ok hx
  have hok : Ok c t released := by
    refine h.takes htakes (.inr ⟨job, ?_, ?_⟩)
    · rw [hp, hid]
      exact (h.known job (List.mem_append_left _ hmem)).1
    · rw [hp, hreq]
  have hrest : s'.queue.jobs = rest := by
    rw [hjobs, htakes.queue, hfirst, List.erase_cons_head]
  refine ⟨hok.execute hx, hrest, ?_, fun X S hb => .inl ?_⟩
  · rw [hstate]
    exact (congrArg PriorityJob.id hp).trans hid
  · rw [hrest]
    have hnodup : (job :: rest).Nodup := hfirst ▸ (List.nodup_append.1 h.nodup).1
    rcases hb with hgone | ⟨⟨hX, _⟩, _⟩
    · exact fun hX => hgone (hfirst ▸ List.mem_cons_of_mem _ hX)
    · rw [Queue.firstJob?_eq_head?, hfirst] at hX
      cases hX
      exact (List.nodup_cons.1 hnodup).1

/-- A first job that cannot run becomes the priority job, with a shadow time that is not later than before. -/
theorem priority_waits {rest : List Job} (h : Ok c s released) (hfirst : s.queue.jobs = job :: rest)
    (hcheck : checkPriorityJob s job date = (s', none)) :
    Ok c s' released ∧ s'.queue = s.queue ∧ s'.priorityJob.id = job.id ∧ Covered s' ∧ KeepsBounds s s' := by
  have hmem : job ∈ s.queue.jobs := hfirst ▸ List.mem_cons_self
  obtain ⟨hid, hreq⟩ := h.requested_update hmem
  obtain ⟨p, rfl, hpid, hpreq, hused, hextra, hfree, hmin⟩ :=
    checkPriorityJob_none h.inOrder h.count (h.fits job hmem) hreq hcheck
  have hcovered : Covered { s with priorityJob := p } := by
    refine ⟨?_, ?_⟩
    · have hfree' : p.requestedResources + p.extraResources - p.extraUsed ≤ s.freeAt p.shadowTime := by omega
      exact hfree'
    · dsimp only
      omega
  refine ⟨⟨h.inOrder, h.count, h.known, h.nodup, h.fits, .inr ⟨job, ?_, hpreq⟩⟩, rfl, hpid.trans hid, hcovered,
    fun X S hb => ?_⟩
  · dsimp only
    rw [hpid, hid]
    exact (h.known job (List.mem_append_left _ hmem)).1
  · refine hb.imp_right fun ⟨⟨hX, hXid⟩, hc, hle⟩ => ⟨⟨hX, ?_⟩, hcovered, (hmin _ ?_).trans hle⟩
    · rw [Queue.firstJob?_eq_head?, hfirst] at hX
      cases hX
      exact hpid.trans hid
    · rw [Queue.firstJob?_eq_head?, hfirst] at hX
      cases hX
      have hsame : PriorityJob.update s.priorityJob job = s.priorityJob := by
        unfold PriorityJob.update
        exact if_neg (not_not.2 hXid)
      rw [hsame] at hreq
      rw [hpreq, ← hreq]
      exact hc.kept

/-- A job behind the first that is backfilled leaves the queue, and the priority job keeps its shadow time. -/
theorem next_runs {t : EasyBf3State} {scheduled : ScheduledJob} (h : Ok c s released) (hne : s.queue.firstJob? ≠ some job)
    (hspares : SparesExtra date s job) (hcheck : checkNextJob s job date = (t, some scheduled))
    (hx : executeJob t job scheduled = .ok s') :
    Ok c s' released ∧ s'.queue.jobs = s.queue.jobs.erase job ∧ s'.queue.firstJob? = s.queue.firstJob? ∧
      s'.priorityJob.id = s.priorityJob.id ∧ (Covered s → Covered s') ∧ KeepsBounds s s' := by
  obtain ⟨hcan, htakes, hp⟩ := checkNextJob_some hcheck
  obtain ⟨hmem, hjobs, hstate⟩ := executeJob_ok hx
  have hok : Ok c t released := h.takes htakes (by rw [hp]; exact h.requested)
  have hqueue : s'.queue.jobs = s.queue.jobs.erase job := by
    rw [hjobs, htakes.queue]
  have hhead : s'.queue.firstJob? = s.queue.firstJob? := by
    rw [Queue.firstJob?_eq_head?, Queue.firstJob?_eq_head?, hqueue]
    cases hq : s.queue.jobs with
    | nil => rfl
    | cons first rest =>
      have hfirst : first ≠ job := by
        rintro rfl
        rw [Queue.firstJob?_eq_head?, hq] at hne
        exact hne rfl
      rw [List.erase_cons_tail (by simpa using hfirst)]
      rfl
  have hp' : s'.priorityJob = t.priorityJob := by rw [hstate]
  have hfree : ∀ D, s'.freeAt D = t.freeAt D := by
    intro D
    rw [hstate]
    rfl
  have hcovered : Covered s → Covered s' := by
    intro hc
    have hfree' := hc.free
    have hspent := hc.spent
    have hdate := htakes.freeAt s.priorityJob.shadowTime
    by_cases hends : endsByShadow s job date = true
    · have hle : date + job.walltime ≤ s.priorityJob.shadowTime := of_decide_eq_true hends
      rw [if_pos hends] at hp
      rw [if_pos hle] at hdate
      refine ⟨?_, ?_⟩
      · rw [hp', hfree, hp]
        dsimp only
        omega
      · rw [hp', hp]
        dsimp only
        omega
    · have hspares' := hspares hcan hends
      have hnot : ¬ date + job.walltime ≤ s.priorityJob.shadowTime := fun hle => hends (decide_eq_true hle)
      rw [if_neg hends] at hp
      rw [if_neg hnot] at hdate
      refine ⟨?_, ?_⟩
      · rw [hp', hfree, hp]
        dsimp only
        push_cast
        omega
      · rw [hp', hp]
        dsimp only
        push_cast
        omega
  refine ⟨hok.execute hx, hqueue, hhead, ?_, hcovered, fun X S hb => ?_⟩
  · rw [hp', hp]
  · rcases hb with hgone | ⟨⟨hX, hXid⟩, hc, hle⟩
    · exact .inl fun hX => hgone (List.mem_of_mem_erase (hqueue ▸ hX))
    · refine .inr ⟨⟨hhead.trans hX, ?_⟩, hcovered hc, ?_⟩
      · rw [hp', hp]
        exact hXid
      · rw [hp', hp]
        exact hle

/-! ### The parts of a step -/

/-- After the loop over the first jobs, the first job that is left is the priority job. -/
theorem executePriorityJobs_ok {jobs : List Job} (h : Ok c s released) (hjobs : s.queue.jobs = jobs)
    (hx : executePriorityJobs date s jobs = .ok s') : Ok c s' released ∧ Reserved s' False := by
  induction jobs generalizing s with
  | nil =>
    cases hx
    refine ⟨h, fun job hfirst => ?_⟩
    rw [Queue.firstJob?_eq_head?, hjobs] at hfirst
    nomatch hfirst
  | cons job rest ih =>
    unfold executePriorityJobs at hx
    split at hx
    · rename_i t scheduled hcheck
      split at hx
      · rename_i u hu
        obtain ⟨hok, hrest, _⟩ := priority_runs h hjobs hcheck hu
        exact ih hok hrest hx
      · nomatch hx
    · rename_i t hcheck
      cases hx
      obtain ⟨hok, hqueue, hid, hcovered, _⟩ := priority_waits h hjobs hcheck
      refine ⟨hok, fun job' hfirst => .inl ⟨?_, hcovered⟩⟩
      rw [hqueue, Queue.firstJob?_eq_head?, hjobs] at hfirst
      cases hfirst
      exact hid

/-- Sorting the queue keeps the books. -/
theorem Ok.sort (h : Ok c s []) (currentDate : ℚ) : Ok c { s with queue := s.queue.sortQueue c.order currentDate } [] := by
  have hperm := s.queue.jobs_sortQueue c.order currentDate
  refine ⟨h.inOrder, h.count, fun x hx => h.known x ?_, ?_, fun x hx => h.fits x (hperm.mem_iff.1 hx), h.requested⟩
  · simpa only [List.append_nil, hperm.mem_iff] using hx
  · have hnodup := h.nodup
    rw [List.append_nil] at hnodup ⊢
    exact hperm.nodup_iff.2 hnodup

/-- After the sort, the first job is reserved for if the first job before was. -/
theorem sortQueue_ok {before : Option Job} {currentDate : ℚ} {ended : Prop} (h : Ok c s [])
    (hres : ∀ job ∈ before, ReservedFor s ended job)
    (hx : sortQueueWhileHandlingPriorityJob c s before currentDate = .ok s') : Ok c s' [] ∧ Reserved s' ended := by
  have hsort := h.sort currentDate
  unfold sortQueueWhileHandlingPriorityJob at hx
  dsimp only at hx
  split at hx
  · obtain ⟨hok, hres'⟩ := executePriorityJobs_ok hsort rfl hx
    exact ⟨hok, fun job hfirst => (hres' job hfirst).mono rfl (fun _ => le_rfl) (Or.imp_left False.elim)⟩
  · rename_i heq
    cases hx
    exact ⟨hsort, fun job hfirst => (hres job ((not_not.1 heq).symm.trans hfirst)).mono rfl (fun _ => le_rfl) id⟩

/-- Where the first job stays first, the sort only sorts. -/
theorem sortQueue_stays {before : Option Job} {currentDate : ℚ} {X : Job} (hbefore : before = some X)
    (hstays : (s.queue.sortQueue c.order currentDate).firstJob? = some X)
    (hx : sortQueueWhileHandlingPriorityJob c s before currentDate = .ok s') :
    s' = { s with queue := s.queue.sortQueue c.order currentDate } := by
  unfold sortQueueWhileHandlingPriorityJob at hx
  dsimp only at hx
  rw [if_neg (by rw [hstays, hbefore]; simp)] at hx
  exact (Except.ok.inj hx).symm

/-- The jobs just released are backfilled one after the other. -/
theorem backfillReleased_ok {recent : List Job} {first : Option Job} (h : Ok c s []) (hres : Reserved s False)
    (hfirst : s.queue.firstJob? = first) (hc : AllSteps (backfillReleased date first) (SparesExtra date) s recent)
    (hx : runFrom (backfillReleased date first) s recent = .ok s') : Ok c s' [] ∧ Reserved s' False ∧ KeepsBounds s s' := by
  have hrun := runFrom_invariant (C := SparesExtra date)
    (I := fun t => (Ok c t [] ∧ Reserved t False) ∧ t.queue.firstJob? = first ∧ KeepsBounds s t) ?_
    ⟨⟨h, hres⟩, hfirst, fun _ _ => id⟩ hc hx
  · exact ⟨hrun.1.1, hrun.1.2, hrun.2.2⟩
  · rintro t job t' ⟨⟨hok, hres⟩, hfirst, hkeeps⟩ hspares hstep
    unfold backfillReleased at hstep
    split at hstep
    · rename_i hguard
      split at hstep
      · rename_i u scheduled hcheck
        have hne : t.queue.firstJob? ≠ some job := fun heq => hguard.2.2 (heq.symm.trans hfirst)
        obtain ⟨hok', _, hhead, hid, hcovered, hkeeps'⟩ := next_runs hok hne hspares hcheck hstep
        refine ⟨⟨hok', fun x hx => ?_⟩, hhead.trans hfirst, hkeeps.trans hkeeps'⟩
        rcases hres x (hhead ▸ hx) with ⟨hxid, hxc⟩ | ⟨_, hfalse | hfull⟩
        · exact .inl ⟨hid.trans hxid, hcovered hxc⟩
        · exact hfalse.elim
        · exact absurd hguard.1 (not_lt.2 hfull)
      · rename_i u hcheck
        cases hstep
        rw [checkNextJob_none hcheck]
        exact ⟨⟨hok, hres⟩, hfirst, hkeeps⟩
    · cases hstep
      exact ⟨⟨hok, hres⟩, hfirst, hkeeps⟩

/-- The loop over the queue, with the jobs it has passed and those to come. Before the first job is passed, machines may be
available that it has not been checked against. -/
structure Traversing (c : EasyBf3Config) (s : EasyBf3State) (t : EasyBf3State × Option Job) (rest : List Job) : Prop where
  ok : Ok c t.1 []
  first : t.2 = t.1.queue.firstJob?
  passed : ∃ before, t.1.queue.jobs = before ++ rest ∧ Reserved t.1 (before = [])
  keeps : KeepsBounds s t.1

/-- One job of the queue. -/
theorem Traversing.step {t t' : EasyBf3State × Option Job} {rest : List Job} (h : Traversing c s t (job :: rest))
    (hspares : some job ≠ t.2 → SparesExtra date t.1 job) (hx : traverseJob date t job = .ok t') : Traversing c s t' rest := by
  obtain ⟨u, first⟩ := t
  obtain ⟨hok, hfirst, ⟨before, hjobs, hres⟩, hkeeps⟩ := h
  dsimp only at hok hfirst hjobs hres hkeeps hspares
  have hnodup : (before ++ job :: rest).Nodup := hjobs ▸ (List.nodup_append.1 hok.nodup).1
  unfold traverseJob at hx
  dsimp only at hx
  split at hx
  · rename_i havailable
    by_cases hprio : some job = first
    · -- the job is the first of the queue, so none has been passed
      have hbefore : before = [] := by
        cases before with
        | nil => rfl
        | cons x before =>
          rw [Queue.firstJob?_eq_head?, hjobs] at hfirst
          cases hprio.trans hfirst
          exact absurd (List.mem_append_right _ List.mem_cons_self) (List.nodup_cons.1 hnodup).1
      subst hbefore
      rw [List.nil_append] at hjobs
      simp only [hprio, if_true] at hx
      split at hx
      · rename_i w scheduled hcheck
        obtain ⟨v, hv, rfl⟩ := map_eq_ok.1 hx
        obtain ⟨hok', hrest, hid, hkeeps'⟩ := priority_runs hok hjobs hcheck hv
        refine ⟨hok', rfl, ⟨[], hrest, fun x hx => .inr ⟨?_, .inl rfl⟩⟩, hkeeps.trans hkeeps'⟩
        rw [hid]
        intro heq
        rw [Queue.firstJob?_eq_head?, hrest] at hx
        have hmem : x ∈ rest := List.mem_of_mem_head? hx
        have hsame := hok.eq_of_id (x := job) (y := x) (hjobs ▸ List.mem_cons_self)
          (hjobs ▸ List.mem_cons_of_mem _ hmem) heq
        exact (List.nodup_cons.1 hnodup).1 (hsame ▸ hmem)
      · rename_i w hcheck
        cases hx
        obtain ⟨hok', hqueue, hid, hcovered, hkeeps'⟩ := priority_waits hok hjobs hcheck
        refine ⟨hok', hfirst.trans (congrArg Queue.firstJob? hqueue.symm), ⟨[job], hqueue ▸ hjobs, fun x hx => .inl ⟨?_, hcovered⟩⟩,
          hkeeps.trans hkeeps'⟩
        rw [hqueue, Queue.firstJob?_eq_head?, hjobs] at hx
        cases hx
        exact hid
    · have hne : u.queue.firstJob? ≠ some job := fun heq => hprio (heq.symm.trans hfirst.symm)
      have hbefore : before ≠ [] := by
        rintro rfl
        rw [Queue.firstJob?_eq_head?, hjobs] at hne
        exact hne rfl
      simp only [hprio, if_false] at hx
      split at hx
      · rename_i w scheduled hcheck
        obtain ⟨v, hv, rfl⟩ := map_eq_ok.1 hx
        obtain ⟨hok', hqueue, hhead, hid, hcovered, hkeeps'⟩ := next_runs hok hne (hspares hprio) hcheck hv
        refine ⟨hok', hfirst.trans hhead.symm, ⟨before, ?_, fun x hx => ?_⟩, hkeeps.trans hkeeps'⟩
        · have hjob : job ∉ before := fun hmem =>
            List.disjoint_of_nodup_append hnodup hmem List.mem_cons_self
          rw [hqueue, hjobs, List.erase_append_right _ hjob, List.erase_cons_head]
        · rcases hres x (hhead ▸ hx) with ⟨hxid, hxc⟩ | ⟨_, hnil | hfull⟩
          · exact .inl ⟨hid.trans hxid, hcovered hxc⟩
          · exact absurd hnil hbefore
          · exact absurd havailable (not_lt.2 hfull)
      · rename_i w hcheck
        cases hx
        rw [checkNextJob_none hcheck]
        refine ⟨hok, hfirst, ⟨before ++ [job], by rw [hjobs, List.append_assoc]; rfl, fun x hx => ?_⟩, hkeeps⟩
        exact (hres x hx).mono rfl (fun _ => le_rfl) fun hnot => .inr (hnot.resolve_left hbefore)
  · rename_i hfull
    cases hx
    refine ⟨hok, hfirst, ⟨before ++ [job], by rw [hjobs, List.append_assoc]; rfl, fun x hx => ?_⟩, hkeeps⟩
    exact (hres x hx).mono rfl (fun _ => le_rfl) fun _ => .inr (not_lt.1 hfull)

/-- The loop over the queue. -/
theorem traverse_ok {t : EasyBf3State × Option Job} (h : Ok c s []) (hres : Reserved s True)
    (hc : AllSteps (traverseJob date) (fun u job => some job ≠ u.2 → SparesExtra date u.1 job) (s, s.queue.firstJob?)
      s.queue.jobs)
    (hx : runFrom (traverseJob date) (s, s.queue.firstJob?) s.queue.jobs = .ok t) :
    Ok c t.1 [] ∧ Reserved t.1 False ∧ KeepsBounds s t.1 := by
  have hrun := runFrom_rest (R := fun u rest => Traversing c s u rest ∧
      AllSteps (traverseJob date) (fun u job => some job ≠ u.2 → SparesExtra date u.1 job) u rest)
    (fun u job rest u' hu hstep => ⟨hu.1.step hu.2.1 hstep, hu.2.2 u' hstep⟩)
    ⟨⟨h, rfl, ⟨[], rfl, fun x hx => (hres x hx).mono rfl (fun _ => le_rfl) fun _ => .inl rfl⟩, fun _ _ => id⟩, hc⟩ hx
  obtain ⟨⟨hok, _, ⟨before, hjobs, hres'⟩, hkeeps⟩, _⟩ := hrun
  refine ⟨hok, fun x hx => (hres' x hx).mono rfl (fun _ => le_rfl) fun hnot => .inr (hnot.resolve_left ?_), hkeeps⟩
  rintro rfl
  rw [Queue.firstJob?_eq_head?, hjobs] at hx
  nomatch hx

/-! ### A step -/

/-- The jobs that ended and were released are taken over into the books. -/
theorem handleJobs_ok (currentDate : ℚ) (h : Ok c s s.jobsReleasedRecently) :
    Ok c (handleJobs c s currentDate) [] ∧
      (handleJobs c s currentDate).priorityJob = s.priorityJob ∧
      (∀ D, s.freeAt D ≤ (handleJobs c s currentDate).freeAt D) ∧
      (s.jobsEndedRecently = [] → (handleJobs c s currentDate).nbAvailableMachines = s.nbAvailableMachines) := by
  have hfrees := handleFinishedJobs_frees s.jobsEndedRecently s
  obtain ⟨hqueue, hstate⟩ :=
    releaseJobs_eq (c := c) currentDate s.jobsReleasedRecently (s.jobsEndedRecently.foldl handleFinishedJob s)
  rw [hfrees.queue] at hqueue
  have hsub : (s.queue.jobs ++ recentlyQueuedJobs c s).Sublist (s.queue.jobs ++ s.jobsReleasedRecently) :=
    List.filter_sublist.append_left _
  change (handleJobs c s currentDate).queue.jobs = s.queue.jobs ++ recentlyQueuedJobs c s at hqueue
  change handleJobs c s currentDate = _ at hstate
  have hp : (handleJobs c s currentDate).priorityJob = s.priorityJob := by
    rw [hstate]
    exact hfrees.priorityJob
  have hw : (handleJobs c s currentDate).workload = s.workload := by
    rw [hstate]
    exact hfrees.workload
  refine ⟨⟨?_, ?_, ?_, ?_, ?_, ?_⟩, hp, fun D => ?_, fun hnone => ?_⟩
  · rw [hstate]
    exact hfrees.inOrder h.inOrder
  · rw [hstate]
    exact hfrees.count.trans h.count
  · rw [List.append_nil, hqueue, hw]
    exact fun x hx => h.known x (hsub.subset hx)
  · rw [List.append_nil, hqueue]
    exact h.nodup.sublist hsub
  · intro x hx
    rw [hqueue] at hx
    rcases List.mem_append.1 hx with hx | hx
    · exact h.fits x hx
    · have haccepted := (List.mem_filter.1 hx).2
      simp only [isRejected, Bool.not_or, Bool.and_eq_true, Bool.not_eq_true', decide_eq_false_iff_not, not_lt] at haccepted
      exact haccepted.1
  · rw [hp, hw]
    exact h.requested
  · rw [hstate]
    exact hfrees.freeAt D
  · rw [hstate, hnone]
    rfl

/-- The decisions of a step keep the books, the reservation and the bounds on the shadow time. -/
theorem makeDecisions_ok {currentDate : ℚ} (h : Ok c s s.jobsReleasedRecently) (hres : Reserved s False)
    (hc : ∀ t ∈ (prepare c s currentDate).toOption, BackfillsWithinExtra c s date t)
    (hx : makeDecisions c s date currentDate = .ok s') :
    Ok c s' [] ∧ Reserved s' False ∧ ∀ X, s.IsPriorityJob X → Covered s →
      ((handleJobs c s currentDate).queue.sortQueue c.order currentDate).firstJob? = some X →
      Bounded X s.priorityJob.shadowTime s' := by
  obtain ⟨hok, hp, hfree, havailable⟩ := handleJobs_ok currentDate h
  unfold makeDecisions at hx
  split at hx
  · rename_i t ht
    have hc : BackfillsWithinExtra c s date t := hc t (by rw [ht]; rfl)
    unfold BackfillsWithinExtra at hc
    have hbefore : ∀ job ∈ s.queue.firstJob?, ReservedFor (handleJobs c s currentDate) (¬ s.jobsEndedRecently.isEmpty) job := by
      intro job hfirst
      refine (hres job hfirst).mono hp hfree fun hnot => ?_
      by_cases hnone : s.jobsEndedRecently = []
      · exact .inr ((havailable hnone).trans_le (hnot.resolve_left id))
      · exact .inl (by simpa using hnone)
    obtain ⟨hok, hres⟩ := sortQueue_ok hok hbefore ht
    have hbounded : ∀ X, s.IsPriorityJob X → Covered s →
        ((handleJobs c s currentDate).queue.sortQueue c.order currentDate).firstJob? = some X →
        Bounded X s.priorityJob.shadowTime t := by
      intro X hX hcovered hstays
      rw [sortQueue_stays hX.1 hstays ht]
      refine .inr ⟨⟨hstays, ?_⟩, hcovered.mono hp hfree, ?_⟩
      · exact (congrArg PriorityJob.id hp).trans hX.2
      · exact (congrArg PriorityJob.shadowTime hp).le
    by_cases hended : s.jobsEndedRecently.isEmpty = true
    · rw [if_pos hended] at hc hx
      have hres' : Reserved t False := fun job hfirst =>
        (hres job hfirst).mono rfl (fun _ => le_rfl) (Or.imp_left fun hnot => hnot hended)
      obtain ⟨hok', hres'', hkeeps⟩ := backfillReleased_ok hok hres' rfl hc hx
      exact ⟨hok', hres'', fun X hX hcovered hstays => hkeeps X _ (hbounded X hX hcovered hstays)⟩
    · rw [if_neg hended] at hc hx
      obtain ⟨u, hu, rfl⟩ := map_eq_ok.1 hx
      have hres' : Reserved t True := fun job hfirst =>
        (hres job hfirst).mono rfl (fun _ => le_rfl) (Or.imp_left fun _ => trivial)
      obtain ⟨hok', hres'', hkeeps⟩ := traverse_ok hok hres' hc hu
      exact ⟨hok', hres'', fun X hX hcovered hstays => hkeeps X _ (hbounded X hX hcovered hstays)⟩
  · nomatch hx

/-- The invariant between messages. -/
def Inv (c : EasyBf3Config) (s : EasyBf3State) : Prop := Ok c s s.jobsReleasedRecently ∧ Reserved s False

theorem new_inv (c : EasyBf3Config) : Inv c (EasyBf3.new c) :=
  ⟨⟨List.Pairwise.nil, by simp [EasyBf3.new], by simp [EasyBf3.new, Queue.jobs], by simp [EasyBf3.new, Queue.jobs],
    by simp [EasyBf3.new, Queue.jobs], .inl rfl⟩, fun job hfirst => nomatch hfirst⟩

theorem Ok.congr (h : Ok c s released) (hjobs : s'.scheduledJobs = s.scheduledJobs)
    (hcount : s'.nbAvailableMachines = s.nbAvailableMachines) (hqueue : s'.queue = s.queue)
    (hworkload : s'.workload = s.workload) (hp : s'.priorityJob = s.priorityJob) : Ok c s' released := by
  constructor
  case inOrder => exact hjobs ▸ h.inOrder
  case count => exact hjobs ▸ hcount ▸ h.count
  case known => exact hqueue ▸ hworkload ▸ h.known
  case nodup => exact hqueue ▸ h.nodup
  case fits => exact hqueue ▸ h.fits
  case requested => exact hp ▸ hworkload ▸ h.requested

/-- A job that is submitted is new. -/
theorem submitted_inv (h : Inv c s) (hid : job.id ≠ "") (hx : EasyBf3.step c s (.jobSubmitted job) = .ok s') : Inv c s' := by
  obtain ⟨hok, hres⟩ := h
  rw [EasyBf3.step] at hx
  split at hx
  · nomatch hx
  · rename_i hnew
    cases hx
    have hother : ∀ id x, s.workload id = some x → id ≠ job.id := by
      rintro id x hx rfl
      rw [hnew] at hx
      nomatch hx
    have hfresh : job ∉ s.queue.jobs ++ s.jobsReleasedRecently := fun hmem =>
      hother job.id job (hok.known job hmem).1 rfl
    refine ⟨⟨hok.inOrder, hok.count, fun x hx => ?_, ?_, hok.fits, ?_⟩, fun x hx =>
      (hres x hx).mono rfl (fun _ => le_rfl) id⟩
    · dsimp only at hx ⊢
      rw [← List.append_assoc, List.mem_append, List.mem_singleton] at hx
      rcases hx with hx | rfl
      · have hknown := hok.known x hx
        rw [Function.update_of_ne (hother x.id x hknown.1)]
        exact hknown
      · rw [Function.update_self]
        exact ⟨rfl, hid⟩
    · dsimp only
      rw [← List.append_assoc]
      exact List.nodup_append.2 ⟨hok.nodup, List.nodup_singleton _, fun x hx y hy heq =>
        hfresh ((heq.trans (List.mem_singleton.1 hy)) ▸ hx)⟩
    · refine hok.requested.imp_right fun ⟨x, hx, hreq⟩ => ⟨x, ?_, hreq⟩
      dsimp only
      rw [Function.update_of_ne (hother _ x hx)]
      exact hx

/-- What the decisions of a step keep, with the lists of the step cleared. -/
theorem decided_ok {currentDate : ℚ} (h : Inv c s) (hc : StaysWithinExtra c s (.makeDecisions date currentDate))
    (hx : EasyBf3.step c s (.makeDecisions date currentDate) = .ok s') :
    Inv c s' ∧ ∀ X, s.IsPriorityJob X → Covered s → StaysFirst c s X (.makeDecisions date currentDate) →
      Bounded X s.priorityJob.shadowTime s' := by
  obtain ⟨hok, hres⟩ := h
  obtain ⟨t, ht, rfl⟩ := map_eq_ok.1 hx
  have hok' : Ok c { s with decision := s.decision.clear } s.jobsReleasedRecently := hok.congr rfl rfl rfl rfl rfl
  have hres' : Reserved { s with decision := s.decision.clear } False := fun x hx =>
    (hres x hx).mono rfl (fun _ => le_rfl) id
  obtain ⟨hok'', hres'', hbounds⟩ := makeDecisions_ok hok' hres' hc ht
  refine ⟨⟨hok''.congr rfl rfl rfl rfl rfl, fun x hx => (hres'' x hx).mono rfl (fun _ => le_rfl) id⟩,
    fun X hX hcovered hstays => ?_⟩
  exact (hbounds X hX (hcovered.mono rfl fun _ => le_rfl) hstays).imp_right fun ⟨hX', hcovered', hle⟩ =>
    ⟨hX', hcovered'.mono rfl fun _ => le_rfl, hle⟩

/-- A step within the extra resources keeps the invariant. -/
theorem step_inv {event : EasyBf3Event} (h : Inv c s) (hc : StaysWithinExtra c s event) (hx : EasyBf3.step c s event = .ok s') :
    Inv c s' := by
  cases event with
  | jobSubmitted job => exact submitted_inv h hc hx
  | jobCompleted id =>
    rw [EasyBf3.step] at hx
    split at hx
    · cases hx
      exact ⟨h.1.congr rfl rfl rfl rfl rfl, fun x hx => (h.2 x hx).mono rfl (fun _ => le_rfl) fun hnot => hnot⟩
    · nomatch hx
  | makeDecisions date currentDate => exact (decided_ok h hc hx).1

/-- In the states of the invariant the priority job finds its machines at its shadow time. -/
theorem shadowKept (h : Inv c s) : ShadowKept s := by
  intro job hjob
  rcases h.2 job hjob.1 with ⟨_, hcovered⟩ | ⟨hne, _⟩
  · exact hcovered.kept
  · exact absurd hjob.2 hne

/-- A step within the extra resources does not delay a job that stays the priority job. -/
theorem shadowNotLater {event : EasyBf3Event} (h : Inv c s) (hc : StaysWithinExtra c s event) :
    ShadowNotLater c s event := by
  intro s' job hx hjob hstays hjob'
  cases event with
  | jobSubmitted job =>
    rw [EasyBf3.step] at hx
    split at hx
    · nomatch hx
    · cases hx
      exact le_rfl
  | jobCompleted id =>
    rw [EasyBf3.step] at hx
    split at hx
    · cases hx
      exact le_rfl
    · nomatch hx
  | makeDecisions date currentDate =>
    have hcovered : Covered s := by
      rcases h.2 job hjob.1 with ⟨_, hcovered⟩ | ⟨hne, _⟩
      · exact hcovered
      · exact absurd hjob.2 hne
    rcases (decided_ok h hc hx).2 job hjob hcovered hstays with hgone | ⟨_, _, hle⟩
    · have hmem : job ∈ s'.queue.jobs := List.mem_of_mem_head? (Queue.firstJob?_eq_head? ▸ hjob'.1)
      exact absurd hmem hgone
    · exact hle

end EasyBf3Aux

open EasyBf3Aux in
/-- In every run in which jobs backfilled past the shadow time stay within what is left of the extra resources, the priority job
finds its machines at its shadow time in every state reached, and no step puts off the shadow time of a job that stays the
priority job. -/
theorem easy_guarantee (c : EasyBf3Config) (events : List EasyBf3Event)
    (hall : AllSteps (EasyBf3.step c) (StaysWithinExtra c) (EasyBf3.new c) events) :
    Always (EasyBf3.step c) ShadowKept (EasyBf3.new c) events ∧
      AllSteps (EasyBf3.step c) (ShadowNotLater c) (EasyBf3.new c) events := by
  have hstep : ∀ s event s', Inv c s → StaysWithinExtra c s event → EasyBf3.step c s event = .ok s' → Inv c s' :=
    fun _ _ _ h hc hx => step_inv h hc hx
  constructor
  · exact always_of_invariant hstep (fun _ h => shadowKept h) (new_inv c) hall
  · exact allSteps_of_invariant hstep (fun _ _ h hc => shadowNotLater h hc) (new_inv c) hall

instance {date : ℚ} (s : EasyBf3State) (job : Job) : Decidable (SparesExtra date s job) :=
  inferInstanceAs (Decidable (_ → _ → _))

instance {c : EasyBf3Config} (s : EasyBf3State) (date : ℚ) : DecidablePred (BackfillsWithinExtra c s date) :=
  fun t => inferInstanceAs (Decidable (if s.jobsEndedRecently.isEmpty then
    AllSteps (backfillReleased date t.queue.firstJob?) (SparesExtra date) t (recentlyQueuedJobs c s)
  else AllSteps (traverseJob date) (fun u job => some job ≠ u.2 → SparesExtra date u.1 job) (t, t.queue.firstJob?)
    t.queue.jobs))

instance {c : EasyBf3Config} (s : EasyBf3State) : (event : EasyBf3Event) → Decidable (StaysWithinExtra c s event)
  | .jobSubmitted job => inferInstanceAs (Decidable (job.id ≠ ""))
  | .jobCompleted _ => inferInstanceAs (Decidable True)
  | .makeDecisions date currentDate =>
    inferInstanceAs (Decidable (∀ t ∈ (prepare c { s with decision := s.decision.clear } currentDate).toOption,
      BackfillsWithinExtra c s date t))

namespace EasyBf3Witness

/-- Four machines. -/
def config : EasyBf3Config where
  nbMachines := 4

/-- A job that runs, a priority job that leaves one machine at its shadow time, and two jobs that end after it. -/
def jobs : List Job :=
  [{ id := "w!1", nbRequestedResources := 2, walltime := 10 }, { id := "w!2", nbRequestedResources := 3, walltime := 10 },
    { id := "w!3", nbRequestedResources := 1, walltime := 20 }, { id := "w!4", nbRequestedResources := 1, walltime := 20 }]

/-- The first of these jobs are submitted, and then the first one ends. -/
def events (n : ℕ) : List EasyBf3Event :=
  (jobs.take n).map .jobSubmitted ++ [.makeDecisions 0 0, .jobCompleted "w!1", .makeDecisions 10 10]

end EasyBf3Witness

open EasyBf3Witness in
/-- One job fits into what the priority job leaves. -/
theorem easy_guarantee_witness :
    abortOf (runFrom (EasyBf3.step config) (EasyBf3.new config) (events 3)) = none ∧
      Always (EasyBf3.step config) ShadowKept (EasyBf3.new config) (events 3) ∧
      AllSteps (EasyBf3.step config) (ShadowNotLater config) (EasyBf3.new config) (events 3) :=
  ⟨by decide +kernel, easy_guarantee config (events 3) (by decide +kernel)⟩

open EasyBf3Witness in
/-- Two jobs take the one machine that the priority job leaves, and at its shadow time only two machines are free. -/
theorem easy_guarantee_false :
    ¬ ∀ (c : EasyBf3Config) (events : List EasyBf3Event), Always (EasyBf3.step c) ShadowKept (EasyBf3.new c) events ∧
      AllSteps (EasyBf3.step c) (ShadowNotLater c) (EasyBf3.new c) events := by
  intro h
  have halways := (h config ((events 4).take 5)).1
  have hend : (runFrom (EasyBf3.step config) (EasyBf3.new config) ((events 4).take 5)).toOption.map (fun s =>
      (s.queue.firstJob?.map Job.id, s.priorityJob.id, s.priorityJob.requestedResources, s.freeAt s.priorityJob.shadowTime)) =
        some (some "w!2", "w!2", 3, 2) := by
    decide +kernel
  obtain ⟨s, hs, heq⟩ := toOption_map_eq_some.1 hend
  simp only [Prod.mk.injEq] at heq
  obtain ⟨hfirst, hid, hreq, hfree⟩ := heq
  obtain ⟨job, hjob, hjobid⟩ := Option.map_eq_some_iff.1 hfirst
  have hkept := halways.last hs job ⟨hjob, hid.trans hjobid.symm⟩
  omega

end ScheduleTest
