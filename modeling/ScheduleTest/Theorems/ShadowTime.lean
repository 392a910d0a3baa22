import ScheduleTest.Lemmas.EasyBf3

/-!
# The shadow time of `easy_bf3`

A job that does not fit now is to start at the first estimated end at which the available machines and those of all the jobs that
should have ended by then are enough. `check_priority_job` finds this date by adding up the scheduled jobs in their order, and it
stops in the middle of those that share a date. The scan relies on the sort after each start, and on the books of the machines,
which every step keeps.
-/

namespace ScheduleTest

open Execution EasyBf3

/-- The machines that are free at a date, by the estimates: those available, and those of the jobs that should have ended. -/
def EasyBf3State.machinesFreeAt (s : EasyBf3State) (date : ℚ) : IntervalSet :=
  (s.scheduledJobs.filter (·.estFinishTime ≤ date)).foldr (·.allocatedMachines ∪ ·) s.availableMachines

/-- No two jobs end at a date. -/
def NoTwoEndAt (date : ℚ) (jobs : List ScheduledJob) : Prop :=
  jobs.Pairwise fun x y => x.estFinishTime = date → y.estFinishTime ≠ date

/-- What `check_priority_job` does for a job: the scheduled jobs are in order, and if the job does not fit, the loop finds its shadow
time. -/
structure TrueShadow (s : EasyBf3State) (job : Job) (date : ℚ) : Prop where
  inOrder : InOrder s.scheduledJobs
  found : s.availableMachines.card < job.nbRequestedResources →
    ∃ (p : PriorityJob) (scheduled : ScheduledJob) (machineCount : ℤ),
      checkPriorityJob s job date = ({ s with priorityJob := p }, none) ∧
      findShadow p.requestedResources s.nbAvailableMachines s.scheduledJobs = some (scheduled, machineCount) ∧
      -- the shadow time is the end of a scheduled job, by which the machines are enough
      scheduled ∈ s.scheduledJobs ∧ p.shadowTime = scheduled.estFinishTime ∧
      job.nbRequestedResources ≤ (s.machinesFreeAt p.shadowTime).card ∧
      -- and the first one
      (∀ x ∈ s.scheduledJobs, job.nbRequestedResources ≤ (s.machinesFreeAt x.estFinishTime).card →
        p.shadowTime ≤ x.estFinishTime) ∧
      p.extraResources ≤ (s.machinesFreeAt p.shadowTime).card - job.nbRequestedResources ∧
      (NoTwoEndAt p.shadowTime s.scheduledJobs →
        p.extraResources = (s.machinesFreeAt p.shadowTime).card - job.nbRequestedResources)

/-! ### The calls of a step -/

/-- The calls of `check_priority_job` while the first jobs of the queue are executed: the state, the job and the date. -/
def executeChecks (date : ℚ) (s : EasyBf3State) : List Job → List (EasyBf3State × Job × ℚ)
  | [] => []
  | job :: rest => (s, job, date) ::
    match checkPriorityJob s job date with
    | (s', some scheduled) =>
      match executeJob s' job scheduled with
      | .ok s'' => executeChecks date s'' rest
      | .error _ => []
    | (_, none) => []

/-- Its calls while the queue is traversed. -/
def traverseChecks (date : ℚ) (t : EasyBf3State × Option Job) : List Job → List (EasyBf3State × Job × ℚ)
  | [] => []
  | job :: rest =>
    (if 0 < t.1.nbAvailableMachines ∧ some job = t.2 then [(t.1, job, date)] else []) ++
    match traverseJob date t job with
    | .ok t' => traverseChecks date t' rest
    | .error _ => []

/-- Its calls in `make_decisions`: after the queue is sorted, if another job is the first then, and while it is traversed. -/
def makeDecisionsChecks (c : EasyBf3Config) (s : EasyBf3State) (date currentDate : ℚ) : List (EasyBf3State × Job × ℚ) :=
  let queue := (handleJobs c s currentDate).queue.sortQueue c.order currentDate
  (if queue.firstJob? ≠ s.queue.firstJob? then
    executeChecks currentDate { handleJobs c s currentDate with queue := queue } queue.jobs
  else []) ++
  match prepare c s currentDate with
  | .ok s' => if s.jobsEndedRecently.isEmpty then [] else traverseChecks date (s', s'.queue.firstJob?) s'.queue.jobs
  | .error _ => []

/-- Its calls on a message. -/
def priorityChecks (c : EasyBf3Config) (s : EasyBf3State) : EasyBf3Event → List (EasyBf3State × Job × ℚ)
  | .makeDecisions date currentDate => makeDecisionsChecks c { s with decision := s.decision.clear } date currentDate
  | _ => []

namespace ShadowTimeAux

variable {c : EasyBf3Config} {s s' : EasyBf3State} {job : Job} {date : ℚ} {jobs : List ScheduledJob} {n : ℕ}

/-! ### The machines free at a date -/

theorem disjoint_foldr {machines available : IntervalSet} (hfree : Disjoint machines available)
    (hjobs : ∀ job ∈ jobs, Disjoint machines job.allocatedMachines) :
    Disjoint machines (jobs.foldr (·.allocatedMachines ∪ ·) available) := by
  induction jobs with
  | nil => exact hfree
  | cons first rest ih =>
    rw [List.foldr_cons, Finset.disjoint_union_right]
    exact ⟨hjobs first List.mem_cons_self, ih fun job hmem => hjobs job (List.mem_cons_of_mem _ hmem)⟩

/-- The machines of some jobs and the available ones are counted by the requests. -/
theorem card_foldr {available : IntervalSet} (hfree : ∀ job ∈ jobs, Disjoint available job.allocatedMachines)
    (hallocated : jobs.Pairwise fun x y => Disjoint x.allocatedMachines y.allocatedMachines)
    (hsized : ∀ job ∈ jobs, job.allocatedMachines.card = job.requestedResources) :
    (jobs.foldr (·.allocatedMachines ∪ ·) available).card = available.card + requestedBy jobs := by
  induction jobs with
  | nil => rfl
  | cons first rest ih =>
    obtain ⟨hfirst, hrest⟩ := List.pairwise_cons.1 hallocated
    have hdisjoint := disjoint_foldr (hfree first List.mem_cons_self).symm hfirst
    rw [List.foldr_cons, Finset.card_union_of_disjoint hdisjoint, hsized first List.mem_cons_self, requestedBy_cons,
      ih (fun job hmem => hfree job (List.mem_cons_of_mem _ hmem)) hrest fun job hmem => hsized job (List.mem_cons_of_mem _ hmem)]
    omega

/-- The machines free at a date are as many as the counter and the requests say. -/
theorem card_machinesFreeAt (h : Split n s.availableMachines s.nbAvailableMachines s.scheduledJobs) (date : ℚ) :
    ((s.machinesFreeAt date).card : ℤ) = s.freeAt date := by
  have hsub := List.filter_sublist (p := (·.estFinishTime ≤ date)) (l := s.scheduledJobs)
  have hcard := card_foldr (fun job hmem => h.free job (hsub.subset hmem)) (h.allocated.sublist hsub)
    fun job hmem => h.sized job (hsub.subset hmem)
  have hcount := h.count
  unfold EasyBf3State.machinesFreeAt EasyBf3State.freeAt
  omega

/-- All the machines are available or requested by a scheduled job. -/
theorem split_total (h : Split n s.availableMachines s.nbAvailableMachines s.scheduledJobs) :
    s.nbAvailableMachines + requestedBy s.scheduledJobs = n := by
  have hcard := card_foldr h.free h.allocated h.sized
  have hall : s.scheduledJobs.foldr (·.allocatedMachines ∪ ·) s.availableMachines = Finset.range n := by
    ext m
    rw [Finset.mem_range, h.machines]
    generalize s.scheduledJobs = jobs
    induction jobs with
    | nil => simp
    | cons first rest ih =>
      simp only [List.foldr_cons, Finset.mem_union, ih, List.mem_cons, exists_eq_or_imp]
      tauto
  have hcount := h.count
  rw [hall, Finset.card_range] at hcard
  omega

/-! ### The invariant -/

/-- What every step keeps, with the jobs released that are still to be looked at: the order and the books of the machines, and that
the record of the priority job is about a job of the workload. -/
structure Ledger (c : EasyBf3Config) (s : EasyBf3State) (released : List Job) : Prop where
  inOrder : InOrder s.scheduledJobs
  split : Split c.nbMachines s.availableMachines s.nbAvailableMachines s.scheduledJobs
  known : ∀ job ∈ s.queue.jobs ++ released, s.workload job.id = some job
  named : ∀ id job, s.workload id = some job → job.id ≠ ""
  requested : s.priorityJob.id = "" ∨
    ∃ x, s.workload s.priorityJob.id = some x ∧ s.priorityJob.requestedResources = x.nbRequestedResources

variable {released : List Job}

/-- The record of the priority job is brought up to date for a job of the workload. -/
theorem Ledger.update (h : Ledger c s released) (hjob : s.workload job.id = some job) :
    (PriorityJob.update s.priorityJob job).id = job.id ∧
      (PriorityJob.update s.priorityJob job).requestedResources = job.nbRequestedResources :=
  update_of_known h.requested hjob (h.named job.id job hjob)

/-- The check of a job of the workload finds its shadow time. -/
theorem Ledger.trueShadow (h : Ledger c s released) (hjob : s.workload job.id = some job)
    (hfits : job.nbRequestedResources ≤ c.nbMachines) (date : ℚ) : TrueShadow s job date := by
  refine ⟨h.inOrder, fun hlt => ?_⟩
  have hreq := (h.update hjob).2
  have hcount := h.split.count
  have hnot : s.nbAvailableMachines < job.nbRequestedResources := by omega
  cases hshadow : findShadow job.nbRequestedResources s.nbAvailableMachines s.scheduledJobs with
  | none =>
    have hnone := findShadow_none hnot hshadow
    have htotal := split_total h.split
    omega
  | some found =>
    obtain ⟨scheduled, machineCount⟩ := found
    obtain ⟨hmem, hle, hupper, hmin⟩ := findShadow_some h.inOrder hnot hshadow
    have hcheck : checkPriorityJob s job date = ({ s with priorityJob := { PriorityJob.update s.priorityJob job with
        shadowTime := scheduled.estFinishTime
        estFinishTime := scheduled.estFinishTime + job.walltime
        extraResources := machineCount - job.nbRequestedResources
        extraUsed := 0 } }, none) := by
      unfold checkPriorityJob
      dsimp only
      rw [hreq, if_neg (not_le.2 hnot), hshadow]
    have hfree := card_machinesFreeAt h.split
    simp only [EasyBf3State.freeAt] at hfree
    refine ⟨_, scheduled, machineCount, hcheck, by rw [hreq]; exact hshadow, hmem, rfl, ?_, fun x _ hx => hmin _ ?_, ?_,
      fun halone => ?_⟩
    · have hfree := hfree scheduled.estFinishTime
      dsimp only
      omega
    · have hfree := hfree x.estFinishTime
      omega
    · have hfree := hfree scheduled.estFinishTime
      dsimp only
      omega
    · have hfree := hfree scheduled.estFinishTime
      have htotal := findShadow_total h.inOrder hshadow halone
      dsimp only
      omega

/-! ### The steps -/

/-- What a check leaves as it was. -/
def Unmoved (s s' : EasyBf3State) : Prop := s'.workload = s.workload ∧ s'.queue = s.queue

/-- A job that fits takes its machines. The record of the priority job may change, as long as it is about a job of the workload or
about none. -/
theorem Ledger.schedule (h : Ledger c s released) (hfit : (job.nbRequestedResources : ℤ) ≤ s.nbAvailableMachines) (date : ℚ)
    (nb : ℕ) {p : PriorityJob}
    (hp : p.id = "" ∨ ∃ x, s.workload p.id = some x ∧ p.requestedResources = x.nbRequestedResources) :
    Ledger c { (handleScheduledJob s job date).1 with
      scheduledJobs := sortMaxHeap (handleScheduledJob s job date).1.scheduledJobs
      priorityJob := p
      backfillCounter := nb } released where
  inOrder := inOrder_sortMaxHeap _
  split := h.split.schedule hfit date
  known := h.known
  named := h.named
  requested := hp

theorem Ledger.checkPriority (h : Ledger c s released) (hjob : s.workload job.id = some job) (date : ℚ) :
    Ledger c (checkPriorityJob s job date).1 released ∧ Unmoved s (checkPriorityJob s job date).1 := by
  obtain ⟨hid, hreq⟩ := h.update hjob
  have hp : s.workload (PriorityJob.update s.priorityJob job).id = some job := by rw [hid, hjob]
  unfold checkPriorityJob
  dsimp only
  split
  · rename_i hle
    exact ⟨h.schedule (hreq ▸ hle) date s.backfillCounter (.inr ⟨job, hp, hreq⟩), rfl, rfl⟩
  · split <;> exact ⟨{ h with requested := .inr ⟨job, hp, hreq⟩ }, rfl, rfl⟩

theorem Ledger.checkNext (h : Ledger c s released) (job : Job) (date : ℚ) :
    Ledger c (checkNextJob s job date).1 released ∧ Unmoved s (checkNextJob s job date).1 := by
  unfold checkNextJob
  split
  · rename_i hcan
    have hfit : (job.nbRequestedResources : ℤ) ≤ s.nbAvailableMachines := by
      unfold canRunNext at hcan
      split at hcan
      · exact of_decide_eq_true hcan
      · exact (of_decide_eq_true hcan).trans (min_le_left _ _)
    exact ⟨h.schedule hfit date (s.backfillCounter + 1) h.requested, rfl, rfl⟩
  · exact ⟨h, rfl, rfl⟩

theorem Ledger.execute {scheduled : ScheduledJob} (h : Ledger c s released) (hx : executeJob s job scheduled = .ok s') :
    Ledger c s' released ∧ s'.workload = s.workload := by
  obtain ⟨_, hjobs, hstate⟩ := executeJob_ok hx
  have hsub : s'.queue.jobs ++ released ⊆ s.queue.jobs ++ released := by
    rw [hjobs]
    exact (List.erase_sublist.append_right _).subset
  rw [hstate]
  exact ⟨⟨h.inOrder, h.split, fun x hx => h.known x (hsub hx), h.named, h.requested⟩, rfl⟩

theorem Ledger.finish (h : Ledger c s released) (id : String) : Ledger c (handleFinishedJob s id) released := by
  have hfrees := handleFinishedJob_frees s id
  constructor
  case inOrder => exact hfrees.inOrder h.inOrder
  case split => exact h.split.finish id
  case known =>
    rw [hfrees.queue, hfrees.workload]
    exact h.known
  case named =>
    rw [hfrees.workload]
    exact h.named
  case requested =>
    rw [hfrees.priorityJob, hfrees.workload]
    exact h.requested

theorem Ledger.finishAll (h : Ledger c s released) (ids : List String) : Ledger c (ids.foldl handleFinishedJob s) released := by
  induction ids generalizing s with
  | nil => exact h
  | cons id ids ih => exact ih (h.finish id)

/-- The jobs released wait, or are rejected. -/
theorem Ledger.releaseAll (h : Ledger c s released) (currentDate : ℚ) :
    Ledger c (released.foldl (releaseJob c currentDate) s) [] := by
  obtain ⟨hqueue, hstate⟩ := releaseJobs_eq (c := c) currentDate released s
  have hsub : s.queue.jobs ++ released.filter (!isRejected c ·) ⊆ s.queue.jobs ++ released :=
    (List.filter_sublist.append_left _).subset
  rw [hstate]
  refine ⟨h.inOrder, h.split, fun x hx => ?_, h.named, h.requested⟩
  rw [List.append_nil] at hx
  exact h.known x (hsub (hqueue ▸ hx))

theorem Ledger.handleJobs (h : Ledger c s s.jobsReleasedRecently) (currentDate : ℚ) :
    Ledger c (handleJobs c s currentDate) [] :=
  (h.finishAll s.jobsEndedRecently).releaseAll currentDate

theorem Ledger.sort (h : Ledger c s []) (currentDate : ℚ) :
    Ledger c { s with queue := s.queue.sortQueue c.order currentDate } [] := by
  have hperm := s.queue.jobs_sortQueue c.order currentDate
  refine ⟨h.inOrder, h.split, fun x hx => h.known x ?_, h.named, h.requested⟩
  simpa only [List.append_nil, hperm.mem_iff] using hx

/-! ### The loops -/

/-- What is known of the calls of `check_priority_job`. -/
def AllTrue (c : EasyBf3Config) (calls : List (EasyBf3State × Job × ℚ)) : Prop :=
  ∀ call ∈ calls, call.2.1.nbRequestedResources ≤ c.nbMachines → TrueShadow call.1 call.2.1 call.2.2

theorem AllTrue.append {calls calls' : List (EasyBf3State × Job × ℚ)} (h : AllTrue c calls) (h' : AllTrue c calls') :
    AllTrue c (calls ++ calls') := by
  intro call hmem
  exact (List.mem_append.1 hmem).elim (h call) (h' call)

theorem AllTrue.cons {calls : List (EasyBf3State × Job × ℚ)} (h : Ledger c s []) (hjob : s.workload job.id = some job)
    (h' : AllTrue c calls) : AllTrue c ((s, job, date) :: calls) := by
  intro call hmem hfits
  rcases List.mem_cons.1 hmem with rfl | hmem
  · exact h.trueShadow hjob hfits date
  · exact h' call hmem hfits

theorem AllTrue.nil : AllTrue c [] := fun _ hmem => absurd hmem List.not_mem_nil

/-- Executing the first jobs keeps the ledger, and each check finds the shadow time. -/
theorem Ledger.executeAll {rest : List Job} (h : Ledger c s []) (hknown : ∀ job ∈ rest, s.workload job.id = some job) :
    AllTrue c (executeChecks date s rest) ∧ ∀ s', executePriorityJobs date s rest = .ok s' → Ledger c s' [] := by
  induction rest generalizing s with
  | nil => exact ⟨.nil, fun s' hx => Except.ok.inj hx ▸ h⟩
  | cons job rest ih =>
    have hjob := hknown job List.mem_cons_self
    obtain ⟨hcheck, hworkload, _⟩ := h.checkPriority hjob date
    rw [executeChecks, executePriorityJobs]
    cases hres : checkPriorityJob s job date with
    | mk t found =>
      rw [hres] at hcheck hworkload
      cases found with
      | none => exact ⟨.cons h hjob .nil, fun s' hx => Except.ok.inj hx ▸ hcheck⟩
      | some scheduled =>
        cases hexecute : executeJob t job scheduled with
        | error e =>
          refine ⟨.cons h hjob ?_, fun s' hx => ?_⟩
          · simpa only [hexecute] using .nil
          · simp only [hexecute] at hx
            cases hx
        | ok u =>
          obtain ⟨hu, hw⟩ := hcheck.execute hexecute
          have hrest := ih hu fun x hx => by
            rw [hw, hworkload]
            exact hknown x (List.mem_cons_of_mem _ hx)
          refine ⟨.cons h hjob ?_, fun s' hx => ?_⟩
          · simpa only [hexecute] using hrest.1
          · simp only [hexecute] at hx
            exact hrest.2 s' hx

/-- Trying one job of the queue keeps the ledger and the workload. -/
theorem Ledger.traverse {t t' : EasyBf3State × Option Job} (h : Ledger c t.1 []) (hjob : t.1.workload job.id = some job)
    (hx : traverseJob date t job = .ok t') : Ledger c t'.1 [] ∧ t'.1.workload = t.1.workload := by
  obtain ⟨u, first⟩ := t
  have hchecked : Ledger c (if some job = first then checkPriorityJob u job date else checkNextJob u job date).1 [] ∧
      Unmoved u (if some job = first then checkPriorityJob u job date else checkNextJob u job date).1 := by
    split
    · exact h.checkPriority hjob date
    · exact h.checkNext job date
  obtain ⟨hledger, hworkload, _⟩ := hchecked
  unfold traverseJob at hx
  dsimp only at hx
  split at hx
  · split at hx
    · rename_i w scheduled hcheck
      rw [hcheck] at hledger hworkload
      obtain ⟨v, hv, rfl⟩ := map_eq_ok.1 hx
      obtain ⟨hv, hw⟩ := hledger.execute hv
      exact ⟨hv, hw.trans hworkload⟩
    · rename_i w hcheck
      rw [hcheck] at hledger hworkload
      cases hx
      exact ⟨hledger, hworkload⟩
  · cases hx
    exact ⟨h, rfl⟩

/-- Traversing the queue keeps the ledger, and each check of the priority job finds the shadow time. -/
theorem Ledger.traverseAll {t : EasyBf3State × Option Job} {rest : List Job} (h : Ledger c t.1 [])
    (hknown : ∀ job ∈ rest, t.1.workload job.id = some job) :
    AllTrue c (traverseChecks date t rest) ∧ ∀ t', runFrom (traverseJob date) t rest = .ok t' → Ledger c t'.1 [] := by
  induction rest generalizing t with
  | nil => exact ⟨.nil, fun t' hx => Except.ok.inj hx ▸ h⟩
  | cons job rest ih =>
    have hjob := hknown job List.mem_cons_self
    have hfirst : AllTrue c (if 0 < t.1.nbAvailableMachines ∧ some job = t.2 then [(t.1, job, date)] else []) := by
      split
      · exact .cons h hjob .nil
      · exact .nil
    rw [traverseChecks, runFrom]
    cases hstep : traverseJob date t job with
    | error e => exact ⟨hfirst.append .nil, fun t' hx => by cases hx⟩
    | ok u =>
      obtain ⟨hu, hw⟩ := h.traverse hjob hstep
      have hrest := ih hu fun x hx => by
        rw [hw]
        exact hknown x (List.mem_cons_of_mem _ hx)
      exact ⟨hfirst.append hrest.1, hrest.2⟩

/-- Trying one of the jobs just released keeps the ledger. -/
theorem Ledger.backfill {first : Option Job} (h : Ledger c s []) (hx : backfillReleased date first s job = .ok s') :
    Ledger c s' [] := by
  have hledger := (h.checkNext job date).1
  unfold backfillReleased at hx
  split at hx
  · split at hx
    · rename_i t scheduled hcheck
      rw [hcheck] at hledger
      exact (hledger.execute hx).1
    · rename_i t hcheck
      rw [hcheck] at hledger
      cases hx
      exact hledger
  · cases hx
    exact h

/-- Up to the backfilling. -/
theorem Ledger.prepare {currentDate : ℚ} (h : Ledger c s s.jobsReleasedRecently) (hx : prepare c s currentDate = .ok s') :
    Ledger c s' [] := by
  have hsorted := (h.handleJobs currentDate).sort currentDate
  unfold EasyBf3.prepare sortQueueWhileHandlingPriorityJob at hx
  dsimp only at hx
  split at hx
  · exact (hsorted.executeAll fun x hx => hsorted.known x (List.mem_append_left _ hx)).2 s' hx
  · cases hx
    exact hsorted

/-! ### The runs -/

theorem Ledger.makeDecisions {currentDate : ℚ} (h : Ledger c s s.jobsReleasedRecently)
    (hx : makeDecisions c s date currentDate = .ok s') : Ledger c s' [] := by
  unfold EasyBf3.makeDecisions at hx
  split at hx
  · rename_i t ht
    have hprepared := h.prepare ht
    split at hx
    · exact runFrom_invariant (I := fun s => Ledger c s []) (C := fun _ _ => True)
        (fun s job s' hs _ hx => hs.backfill hx) hprepared (allSteps_of_forall fun _ _ => trivial) hx
    · obtain ⟨u, hu, rfl⟩ := map_eq_ok.1 hx
      exact (hprepared.traverseAll (t := (t, t.queue.firstJob?)) fun x hx =>
        hprepared.known x (List.mem_append_left _ hx)).2 u hu
  · cases hx

theorem Ledger.makeDecisionsChecks (h : Ledger c s s.jobsReleasedRecently) (date currentDate : ℚ) :
    AllTrue c (makeDecisionsChecks c s date currentDate) := by
  have hsorted := (h.handleJobs currentDate).sort currentDate
  unfold ScheduleTest.makeDecisionsChecks
  refine AllTrue.append ?_ ?_
  · split
    · exact (hsorted.executeAll fun x hx => hsorted.known x (List.mem_append_left _ hx)).1
    · exact .nil
  · split
    · rename_i t ht
      have hprepared := h.prepare ht
      split
      · exact .nil
      · exact (hprepared.traverseAll (t := (t, t.queue.firstJob?)) fun x hx =>
          hprepared.known x (List.mem_append_left _ hx)).1
    · exact .nil

theorem Ledger.clear (h : Ledger c s s.jobsReleasedRecently) :
    Ledger c { s with decision := s.decision.clear } s.jobsReleasedRecently :=
  ⟨h.inOrder, h.split, h.known, h.named, h.requested⟩

/-- A job that is submitted is new. -/
theorem Ledger.submit (h : Ledger c s s.jobsReleasedRecently) (hid : job.id ≠ "")
    (hx : EasyBf3.step c s (.jobSubmitted job) = .ok s') : Ledger c s' s'.jobsReleasedRecently := by
  rw [EasyBf3.step] at hx
  split at hx
  · cases hx
  · rename_i hnew
    cases hx
    have hother : ∀ id x, s.workload id = some x → Function.update s.workload job.id (some job) id = some x := by
      intro id x hx
      refine (Function.update_of_ne ?_ _ _).trans hx
      rintro rfl
      rw [hnew] at hx
      cases hx
    refine ⟨h.inOrder, h.split, fun x hx => ?_, fun id x hx => ?_, h.requested.imp_right fun ⟨x, hx, hreq⟩ =>
      ⟨x, hother _ x hx, hreq⟩⟩
    · dsimp only at hx ⊢
      rw [← List.append_assoc, List.mem_append, List.mem_singleton] at hx
      rcases hx with hx | rfl
      · exact hother x.id x (h.known x hx)
      · exact Function.update_self ..
    · dsimp only at hx
      rcases eq_or_ne id job.id with rfl | hne
      · rw [Function.update_self] at hx
        rwa [← Option.some.inj hx]
      · rw [Function.update_of_ne hne] at hx
        exact h.named id x hx

/-- Every message keeps the ledger. -/
theorem Ledger.step {event : EasyBf3Event} (h : Ledger c s s.jobsReleasedRecently)
    (hid : ∀ job, event = .jobSubmitted job → job.id ≠ "") (hx : EasyBf3.step c s event = .ok s') :
    Ledger c s' s'.jobsReleasedRecently := by
  cases event with
  | jobSubmitted job => exact h.submit (hid job rfl) hx
  | jobCompleted id =>
    rw [EasyBf3.step] at hx
    split at hx
    · cases hx
      exact ⟨h.inOrder, h.split, h.known, h.named, h.requested⟩
    · cases hx
  | makeDecisions date currentDate =>
    obtain ⟨t, ht, rfl⟩ := map_eq_ok.1 hx
    have hledger := Ledger.makeDecisions h.clear ht
    exact ⟨hledger.inOrder, hledger.split, hledger.known, hledger.named, hledger.requested⟩

theorem Ledger.new (c : EasyBf3Config) : Ledger c (EasyBf3.new c) [] where
  inOrder := List.Pairwise.nil
  split := ⟨fun m => by simp [EasyBf3.new], fun _ hmem => absurd hmem List.not_mem_nil, List.Pairwise.nil,
    fun _ hmem => absurd hmem List.not_mem_nil, by simp [EasyBf3.new]⟩
  known := by simp [EasyBf3.new, Queue.jobs]
  named := fun id x hx => by cases hx
  requested := .inl rfl

end ShadowTimeAux

open ShadowTimeAux in
/-- In every state that a run reaches, `check_priority_job` finds the shadow time of every job of the workload that requests at most
the number of machines, and so does every call it makes on the next message. A job has an id. -/
theorem check_priority_job_shadow (c : EasyBf3Config) (events : List EasyBf3Event)
    (hid : ∀ job, .jobSubmitted job ∈ events → job.id ≠ "") {s : EasyBf3State}
    (hs : runFrom (EasyBf3.step c) (EasyBf3.new c) events = .ok s) :
    (∀ job date, s.workload job.id = some job → job.nbRequestedResources ≤ c.nbMachines → TrueShadow s job date) ∧
      ∀ event, ∀ call ∈ priorityChecks c s event, call.2.1.nbRequestedResources ≤ c.nbMachines →
        TrueShadow call.1 call.2.1 call.2.2 := by
  have hledger : Ledger c s s.jobsReleasedRecently :=
    runFrom_invariant (I := fun s => Ledger c s s.jobsReleasedRecently)
      (C := fun _ event => ∀ job, event = .jobSubmitted job → job.id ≠ "") (fun _ _ _ h hc hx => h.step hc hx) (Ledger.new c)
      (allSteps_of_forall (C := fun event : EasyBf3Event => ∀ job, event = .jobSubmitted job → job.id ≠ "")
        fun event hmem job heq => hid job (by rwa [heq] at hmem)) hs
  refine ⟨fun job date hjob hfits => hledger.trueShadow hjob hfits date, fun event => ?_⟩
  cases event with
  | makeDecisions date currentDate => exact Ledger.makeDecisionsChecks hledger.clear date currentDate
  | jobSubmitted job => exact AllTrue.nil (c := c)
  | jobCompleted id => exact AllTrue.nil (c := c)

namespace ShadowTimeWitness

/-- Four machines. -/
def config : EasyBf3Config where
  nbMachines := 4

/-- Two jobs that end at one date, and one that does not fit beside them. -/
def jobs : List Job :=
  [{ id := "w!1", nbRequestedResources := 2, walltime := 10 }, { id := "w!2", nbRequestedResources := 1, walltime := 10 },
    { id := "w!3", nbRequestedResources := 3, walltime := 10 }]

/-- The first two run, and the second ends early. -/
def events : List EasyBf3Event := jobs.map .jobSubmitted ++ [.makeDecisions 0 0, .jobCompleted "w!2"]

end ShadowTimeWitness

open ShadowTimeWitness in
/-- The third job waits for three machines while one is available, and is checked again when the second job has ended. -/
theorem check_priority_job_shadow_witness :
    ∃ s, runFrom (EasyBf3.step config) (EasyBf3.new config) events = .ok s ∧ s.nbAvailableMachines = 1 ∧
      (∀ job ∈ jobs, TrueShadow s job 5) ∧ (priorityChecks config s (.makeDecisions 5 5)).map (·.2.1.id) = ["w!3"] ∧
      ∀ call ∈ priorityChecks config s (.makeDecisions 5 5), call.2.1.nbRequestedResources ≤ config.nbMachines →
        TrueShadow call.1 call.2.1 call.2.2 := by
  have hend : (runFrom (EasyBf3.step config) (EasyBf3.new config) events).toOption.map (fun s =>
      (s.nbAvailableMachines, decide (∀ job ∈ jobs, s.workload job.id = some job),
        (priorityChecks config s (.makeDecisions 5 5)).map (·.2.1.id))) = some (1, true, ["w!3"]) := by
    decide +kernel
  obtain ⟨s, hs, heq⟩ := toOption_map_eq_some.1 hend
  simp only [Prod.mk.injEq, decide_eq_true_eq] at heq
  obtain ⟨havailable, hknown, hcalls⟩ := heq
  have hid : ∀ job, .jobSubmitted job ∈ events → job.id ≠ "" := by
    intro job hmem
    have hjob : job ∈ jobs := by simpa [events] using hmem
    have hall : ∀ job ∈ jobs, job.id ≠ "" := by decide
    exact hall job hjob
  have hshadow := check_priority_job_shadow config events hid hs
  exact ⟨s, hs, havailable, fun job hmem => hshadow.1 job 5 (hknown job hmem) (by revert job; decide), hcalls, hshadow.2 _⟩

end ScheduleTest
