import ScheduleTest.EasyBf2
import ScheduleTest.Lemmas.Exclusive
import ScheduleTest.Lemmas.JobsKept

/-!
# easy_bf2 and the jobs it takes out of the schedule

A job killed by a failure leaves the schedule at once, and the simulator reports its end like any other. Where no failure hits a
machine on which a job runs, other than a reservation, the jobs whose ends are reported are in the schedule, and `remove_job` is
never called for a job that is not (`never_removes_absent`).
-/

namespace ScheduleTest

open Execution

/-- Whether a failure of a machine leaves the jobs that run alone: a job that runs on it is a reservation. -/
def EasyBf2.Spares (workload : String → Option Job) (running : List RunningJob) (number : ℕ) : Prop :=
  ∀ r ∈ running, number ∈ r.machines → ∀ job ∈ workload r.id, job.isReservation

instance (workload : String → Option Job) (running : List RunningJob) (number : ℕ) :
    Decidable (EasyBf2.Spares workload running number) :=
  inferInstanceAs (Decidable (∀ r ∈ running, number ∈ r.machines → ∀ job ∈ workload r.id, job.isReservation))

/-- Whether the failures that a message makes the scheduler deal with leave the jobs that run alone. -/
def EasyBf2.SparesRunning (t : EasyBf2State × Platform) : ConservativeEvent → Prop
  | .makeDecisions _ _ instantDraws downDraws =>
    (∀ number ∈ instantDowns t.1 instantDraws, Spares t.1.workload t.2.running number) ∧
      ∀ draws ∈ downs t.1 downDraws, Spares t.1.workload t.2.running draws.number
  | _ => True

instance (t : EasyBf2State × Platform) : DecidablePred (EasyBf2.SparesRunning t) := fun event =>
  match event with
  | .makeDecisions _ _ instantDraws downDraws => inferInstanceAs (Decidable
      ((∀ number ∈ EasyBf2.instantDowns t.1 instantDraws, EasyBf2.Spares t.1.workload t.2.running number) ∧
        ∀ draws ∈ EasyBf2.downs t.1 downDraws, EasyBf2.Spares t.1.workload t.2.running draws.number))
  | .jobSubmitted _ => isTrue trivial
  | .jobCompleted _ => isTrue trivial
  | .jobsKilled _ => isTrue trivial
  | .requestedCall _ _ _ _ => isTrue trivial
  | .noMoreStaticJobToSubmit => isTrue trivial

namespace EasyBf2Aux

open EasyBf2

variable {W : NamedJobs} {known : String → Option Job} {c : EasyBf2Config} {s s' : EasyBfState} {schedule schedule' : Schedule}
  {alloc : JobAlloc} {held base : List (String × IntervalSet)} {released : List Job} {job : Job} {date currentDate : ℚ}

/-- An abort that is not about a job missing in the schedule. -/
def NotMissing (e : Abort) : Prop := ∀ id, e ≠ .notInSchedule id

/-! ## The operations of the schedule -/

theorem addJobFirstFit_yields (schedule : Schedule) (job : Job) (assertSuccessful : Bool) :
    Yields (fun _ => True) NotMissing (schedule.addJobFirstFit job assertSuccessful) := by
  refine .intro (fun _ _ => trivial) fun e he id => ?_
  rcases Schedule.addJobFirstFit_error he with rfl | rfl
  · simp
  · simp

theorem removeJobIfExists_yields (schedule : Schedule) (job : Job) :
    Yields (fun _ => True) NotMissing (schedule.removeJobIfExists job) := by
  refine .intro (fun _ _ => trivial) fun e he id => ?_
  rw [Schedule.removeJobIfExists_error he]
  simp

theorem updateFirstSlice_yields (schedule : Schedule) (date : ℚ) :
    Yields (fun _ => True) NotMissing (schedule.updateFirstSlice date) := by
  refine .intro (fun _ _ => trivial) fun e he id => ?_
  rcases Schedule.updateFirstSlice_error he with rfl | rfl
  · simp
  · simp

theorem removeFromQueue_yields (queue : Queue) (job : Job) : Yields (fun _ => True) NotMissing (queue.removeJob job) := by
  refine .intro (fun _ _ => trivial) fun e he id => ?_
  unfold Queue.removeJob at he
  split at he
  · cases he
  · cases he
    simp

/-- A job that is in the schedule can be removed. -/
theorem removeJob_yields (hpresent : Present job schedule.profile) : Yields (fun _ => True) NotMissing (schedule.removeJob job) := by
  refine .intro (fun _ _ => trivial) fun e he => ?_
  rcases Schedule.removeJob_error he with rfl | he
  · -- a job that is there is not found missing
    exfalso
    rw [Schedule.removeJob] at he
    split at he
    · cases he
    · rename_i hr
      rcases Schedule.removeJobIfExists_ok hr with ⟨-, -, hc⟩ | ⟨hb, -⟩
      · rw [containsJob_iff_present.2 hpresent] at hc
        cases hc
      · cases hb
    · rename_i hr
      have := Schedule.removeJobIfExists_error hr
      cases he
      cases this
  · exact (removeJobIfExists_yields schedule job).of_error he

/-- A job placed is in the schedule. -/
theorem present_addJobFirstFit (ha : schedule.addJobFirstFit job = .ok (schedule', alloc)) : Present job schedule'.profile := by
  unfold Schedule.addJobFirstFit at ha
  split at ha
  · cases ha
  · unfold Schedule.addJobFirstFitAfterTimeSlice at ha
    split at ha
    · cases ha
      change Present job (Schedule.placeAt job _ _)
      rw [present_placeAt]
      exact .inl rfl
    · cases ha

/-! ## A pass -/

/-- The jobs that run when the decisions made so far are carried out. -/
def heldBy (base : List (String × IntervalSet)) (s : EasyBfState) : List (String × IntervalSet) :=
  base ++ executions s.decision.decisions

/-- The state in the middle of a pass, with the jobs released that are still to be queued. -/
structure Pass (known : String → Option Job) (base : List (String × IntervalSet)) (released : List Job) (s : EasyBfState) :
    Prop where
  holds : HoldsNow (.registered known) s.schedule (heldBy base s)
  jobs : ∀ job ∈ s.queue.jobs ++ released, job ∈ (NamedJobs.registered known).jobs
  distinct : ((s.queue.jobs ++ released).map (·.id) ++ (heldBy base s).map (·.1)).Nodup
  workload : s.workload = known

namespace Pass

theorem notMem_held (h : Pass known base released s) (hmem : job ∈ s.queue.jobs) : job.id ∉ (heldBy base s).map (·.1) :=
  fun hheld => (List.nodup_append.1 h.distinct).2.2 _
    (List.mem_map_of_mem (f := fun job : Job => job.id) (List.mem_append_left released hmem)) _ hheld rfl

/-- Another queue of the same jobs. -/
theorem requeue (h : Pass known base released s) {queue : Queue} (hperm : queue.jobs.Perm s.queue.jobs) :
    Pass known base released { s with queue := queue } where
  holds := h.holds
  jobs := fun job hmem => h.jobs job (((hperm.append_right released).mem_iff).1 hmem)
  distinct := ((((hperm.append_right released).map (·.id)).append_right _).nodup_iff).2 h.distinct
  workload := h.workload

/-- A job of the queue is placed. -/
theorem place (h : Pass known base released s) (hmem : job ∈ s.queue.jobs)
    (ha : s.schedule.addJobFirstFit job = .ok (schedule, alloc)) : Pass known base released { s with schedule := schedule } where
  holds := h.holds.place (h.jobs job (List.mem_append_left _ hmem)) ha
  jobs := h.jobs
  distinct := h.distinct
  workload := h.workload

/-- A job that does not run is taken out of the schedule. -/
theorem takeOut {b : Bool} (h : Pass known base released s) (hnot : job.id ∉ (heldBy base s).map (·.1))
    (hr : s.schedule.removeJobIfExists job = .ok (schedule, b)) : Pass known base released { s with schedule := schedule } where
  holds := by
    refine (h.holds.removeIfExists hr).subset fun e he => List.mem_filter.2 ⟨he, ?_⟩
    have hne : e.1 ≠ job.id := fun heq => hnot (heq ▸ List.mem_map_of_mem he)
    simpa using hne
  jobs := h.jobs
  distinct := h.distinct
  workload := h.workload

/-- A job of the queue is executed where it has been placed in the first slice. -/
theorem execute (h : Pass known base released s) (hmem : job ∈ s.queue.jobs)
    (ha : s.schedule.addJobFirstFit job = .ok (schedule, alloc)) (hstart : alloc.startedInFirstSlice) :
    Yields (fun s' => Pass known base released s' ∧ s'.queue.jobs = s.queue.jobs.erase job) NotMissing
      (EasyBf.executeJob s schedule job alloc) := by
  refine (removeFromQueue_yields s.queue job).map fun queue hq _ => ?_
  obtain ⟨-, hjobs⟩ := Queue.jobs_removeJob hq
  have hheld : ∀ u : EasyBfState, u.decision = s.decision.add (.executeJob job.id alloc.usedMachines) →
      heldBy base u = heldBy base s ++ [(job.id, alloc.usedMachines)] := by
    intro u hu
    simp [heldBy, hu]
  have hplaced := h.holds.place (h.jobs job (List.mem_append_left _ hmem)) ha
  have hnow := (h.holds.starts ha hstart).2.2.2
  refine ⟨⟨?_, fun other ho => ?_, ?_, h.workload⟩, hjobs⟩
  · rw [hheld _ rfl]
    exact hplaced.start hnow
  · refine h.jobs other ?_
    dsimp only at ho
    rw [hjobs] at ho
    exact List.mem_append.2 ((List.mem_append.1 ho).imp_left List.mem_of_mem_erase)
  · rw [hheld _ rfl]
    dsimp only
    rw [hjobs]
    refine (List.Perm.nodup_iff ?_).2 h.distinct
    -- the id moves from the queue to the jobs that run
    have hperm := ((List.perm_cons_erase hmem).map (·.id)).append_right (released.map (·.id) ++ (heldBy base s).map (·.1))
    simp only [List.map_append, List.map_cons, List.map_nil, List.append_assoc, List.cons_append] at hperm ⊢
    refine List.Perm.trans ?_ hperm.symm
    simp only [← List.append_assoc]
    exact List.perm_append_singleton _ _

end Pass

/-- The loop over the first jobs of the queue. -/
theorem executePriorityJobs_yields {jobs : List Job} (h : Pass known base released s) (hq : s.queue.jobs = jobs) :
    Yields (Pass known base released) NotMissing (EasyBf.executePriorityJobs s jobs) := by
  induction jobs generalizing s with
  | nil => exact h
  | cons job rest ih =>
    have hmem : job ∈ s.queue.jobs := hq ▸ List.mem_cons_self
    have hadded := addJobFirstFit_yields s.schedule job true
    rw [EasyBf.executePriorityJobs]
    cases ha : s.schedule.addJobFirstFit job with
    | error e => exact hadded.of_error ha
    | ok result =>
      obtain ⟨schedule, alloc⟩ := result
      dsimp only
      split
      · rename_i hstart
        have hexecuted := h.execute hmem ha hstart
        cases hx : EasyBf.executeJob s schedule job alloc with
        | error e => exact hexecuted.of_error hx
        | ok s' =>
          obtain ⟨hpass, hjobs⟩ := hexecuted.of_ok hx
          exact ih hpass (by rw [hjobs, hq, List.erase_cons_head])
      · exact h.place hmem ha

/-- The queue is sorted, and its first job placed where it is another than before. -/
theorem sortQueue_yields {before : Option Job} (c : EasyBfConfig) (h : Pass known base released s)
    (hbefore : ∀ job ∈ before, job ∈ s.queue.jobs) :
    Yields (Pass known base released) NotMissing (EasyBf.sortQueueWhileHandlingPriorityJob c s before currentDate) := by
  have hperm := Queue.jobs_sortQueue s.queue c.order currentDate
  unfold EasyBf.sortQueueWhileHandlingPriorityJob
  dsimp only
  split
  · have hremoved : Yields (fun schedule => Pass known base released { s with schedule := schedule }) NotMissing
        (EasyBf.removeBefore s.schedule before) := by
      cases before with
      | none => exact h
      | some job => exact (removeJobIfExists_yields s.schedule job).map fun _ hr _ => h.takeOut (h.notMem_held (hbefore job rfl)) hr
    cases hr : EasyBf.removeBefore s.schedule before with
    | error e => exact hremoved.of_error hr
    | ok schedule => exact executePriorityJobs_yields ((hremoved.of_ok hr).requeue hperm) rfl
  · exact h.requeue hperm

/-- Backfilling a job just released. -/
theorem backfillReleased_yields {priority : Option Job} {t : EasyBfState × ℤ} (h : Pass known base released t.1) :
    Yields (fun t' => Pass known base released t'.1) NotMissing (EasyBf.backfillReleased priority t job) := by
  obtain ⟨s, nbAvailable⟩ := t
  rw [EasyBf.backfillReleased]
  dsimp only at h ⊢
  split
  · rename_i hcan
    have hmem : job ∈ s.queue.jobs := Queue.containsJob_iff.1 hcan.2.1
    have hadded := addJobFirstFit_yields s.schedule job true
    cases ha : s.schedule.addJobFirstFit job with
    | error e => exact hadded.of_error ha
    | ok result =>
      obtain ⟨schedule, alloc⟩ := result
      dsimp only
      split
      · rename_i hstart
        exact (h.execute hmem ha hstart).map fun _ _ hpass => hpass.1
      · refine (removeJob_yields (present_addJobFirstFit ha)).map fun schedule' hr _ => ?_
        exact (h.place hmem ha).takeOut (h.notMem_held hmem) (Schedule.removeJob_ok hr)
  · exact h

/-- Trying a job of the queue. -/
theorem traverseJob_yields {t : EasyBfState × Option Job} (h : Pass known base released t.1) (hmem : job ∈ t.1.queue.jobs) :
    Yields (fun t' => Pass known base released t'.1 ∧ ∀ other ∈ t.1.queue.jobs, other ≠ job → other ∈ t'.1.queue.jobs) NotMissing
      (EasyBf.traverseJob t job) := by
  obtain ⟨s, priority⟩ := t
  dsimp only at h hmem
  have hwithout : Yields (fun schedule => Pass known base released { s with schedule := schedule }) NotMissing
      (if s.schedule.containsJob job then s.schedule.removeJob job else .ok s.schedule) := by
    split
    · rename_i hc
      have hremoved := removeJob_yields (containsJob_iff_present.1 hc)
      exact .intro (fun _ hr => h.takeOut (h.notMem_held hmem) (Schedule.removeJob_ok hr)) fun _ he => hremoved.of_error he
    · exact h
  rw [EasyBf.traverseJob]
  dsimp only
  generalize (if s.schedule.containsJob job then s.schedule.removeJob job else .ok s.schedule) = removed at hwithout
  cases removed with
  | error e => exact hwithout
  | ok without =>
    have hadded := addJobFirstFit_yields without job true
    dsimp only
    cases ha : without.addJobFirstFit job with
    | error e => exact hadded.of_error ha
    | ok result =>
      obtain ⟨schedule, alloc⟩ := result
      dsimp only
      have hout : Pass known base released { s with schedule := without } := hwithout
      split
      · rename_i hstart
        refine (hout.execute hmem ha hstart).map fun s' hx hpass => ⟨hpass.1, fun other ho hne => ?_⟩
        dsimp only
        rw [hpass.2]
        exact (List.mem_erase_of_ne hne).2 ho
      · split
        · exact ⟨hout.place hmem ha, fun _ ho _ => ho⟩
        · refine (removeJob_yields (present_addJobFirstFit ha)).map fun schedule' hr _ => ⟨?_, fun _ ho _ => ho⟩
          exact (hout.place hmem ha).takeOut (hout.notMem_held hmem) (Schedule.removeJob_ok hr)

/-- Trying the jobs of the queue one after the other. -/
theorem traverseJobs_yields {t : EasyBfState × Option Job} {jobs : List Job} (h : Pass known base released t.1)
    (hmem : ∀ job ∈ jobs, job ∈ t.1.queue.jobs) (hnodup : jobs.Nodup) :
    Yields (fun t' => Pass known base released t'.1) NotMissing (runFrom EasyBf.traverseJob t jobs) := by
  induction jobs generalizing t with
  | nil => exact h
  | cons job jobs ih =>
    obtain ⟨hnot, hnodup⟩ := List.nodup_cons.1 hnodup
    have hfirst := traverseJob_yields h (hmem job List.mem_cons_self)
    rw [runFrom]
    cases hx : EasyBf.traverseJob t job with
    | error e => exact hfirst.of_error hx
    | ok t' =>
      obtain ⟨hpass, hkept⟩ := hfirst.of_ok hx
      refine ih hpass (fun other ho => hkept other (hmem other (List.mem_cons_of_mem _ ho)) ?_) hnodup
      rintro rfl
      exact hnot ho

/-! ## Failures -/

/-- A machine fails on which no job runs that could be killed. -/
def SparesHeld (W : NamedJobs) (held : List (String × IntervalSet)) (number : ℕ) : Prop :=
  ∀ e ∈ held, number ∈ e.2 → ∀ job ∈ W.jobs, job.id = e.1 → job.isReservation

/-- A failure leaves the jobs that run in the schedule, and the queue as it is; it executes nothing. -/
structure Spared (W : NamedJobs) (held : List (String × IntervalSet)) (s s' : EasyBfState) : Prop where
  holds : HoldsNow W s'.schedule held
  queue : s'.queue = s.queue
  workload : s'.workload = s.workload
  executions : executions s'.decision.decisions = executions s.decision.decisions

/-- Jobs that do not run are killed. -/
theorem killRunning_yields {killed : List Job} (h : HoldsNow W s.schedule held) (hnot : ∀ job ∈ killed, job.id ∉ held.map (·.1)) :
    Yields (Spared W held s) NotMissing (killRunning s killed) := by
  have hremoved : Yields (fun schedule => HoldsNow W schedule held) NotMissing (s.schedule.removeJobs killed) := by
    generalize s.schedule = schedule at h
    induction killed generalizing schedule with
    | nil => exact h
    | cons job killed ih =>
      have hfirst := removeJobIfExists_yields schedule job
      rw [Schedule.removeJobs]
      cases hr : schedule.removeJobIfExists job with
      | error e => exact hfirst.of_error hr
      | ok result =>
        refine ih (fun job' hjob' => hnot job' (List.mem_cons_of_mem _ hjob')) result.1 ?_
        refine (h.removeIfExists hr).subset fun e he => List.mem_filter.2 ⟨he, ?_⟩
        have hne : e.1 ≠ job.id := fun heq => hnot job List.mem_cons_self (heq ▸ List.mem_map_of_mem he)
        simpa using hne
  exact hremoved.map fun schedule _ hholds => ⟨hholds, rfl, rfl, by simp [executions]⟩

/-- No job that runs on a machine is killed when the machine is spared. -/
theorem notMem_of_spares {first : TimeSlice} {rest : List TimeSlice} {number : ℕ} (h : HoldsNow W s.schedule held)
    (hprofile : s.schedule.profile = first :: rest)
    (hspares : SparesHeld W held number) :
    ∀ job ∈ Schedule.jobsRunningOnMachines first {number}, job.id ∉ held.map (·.1) := by
  intro job hjob hbad
  obtain ⟨entry, hentry, rfl⟩ := List.mem_map.1 hjob
  simp only [List.mem_filter, decide_eq_true_eq, Bool.not_eq_true'] at hentry
  obtain ⟨hmem, hon, hordinary⟩ := hentry
  obtain ⟨e, he, hid⟩ := List.mem_map.1 hbad
  have hnow := h.now entry.1 e.2 (hid ▸ he)
  rw [hprofile] at hnow
  have hmachines : machinesOf entry.1 first = some entry.2 := KeyedMap.find?_eq_some.2 ⟨entry.1, hmem, rfl⟩
  have hsame : entry.2 = e.2 := Option.some.inj (hmachines.symm.trans hnow)
  have hnumber : number ∈ entry.2 := by
    obtain ⟨x, hx⟩ := hon
    obtain ⟨hx, hsingle⟩ := Finset.mem_inter.1 hx
    exact Finset.mem_singleton.1 hsingle ▸ hx
  have hknown : entry.1 ∈ W.jobs := h.exclusive.runs.known first (by simp [hprofile]) entry hmem
  rw [hspares e he (hsame ▸ hnumber) entry.1 hknown hid.symm] at hordinary
  cases hordinary

theorem Spared.refl (h : HoldsNow W s.schedule held) : Spared W held s s := ⟨h, rfl, rfl, rfl⟩

theorem Spared.trans {s'' : EasyBfState} (h : Spared W held s s') (h' : Spared W held s' s'') : Spared W held s s'' where
  holds := h'.holds
  queue := h'.queue.trans h.queue
  workload := h'.workload.trans h.workload
  executions := h'.executions.trans h.executions

theorem onMachineInstantDownUp_yields {number : ℕ} (h : HoldsNow W s.schedule held) (hspares : SparesHeld W held number) :
    Yields (Spared W held s) NotMissing (onMachineInstantDownUp s number) := by
  unfold onMachineInstantDownUp
  split
  · exact fun id => by simp
  · rename_i first rest hprofile
    split
    · dsimp only
      split
      · exact .refl h
      · exact killRunning_yields h (notMem_of_spares h hprofile hspares)
    · exact .refl h

theorem onMachineDownForRepair_yields (c : EasyBf2Config) (date : ℚ) {draws : Draws} (h : HoldsNow W s.schedule held)
    (hspares : SparesHeld W held draws.number) :
    Yields (Spared W held s) NotMissing (onMachineDownForRepair c date s draws) := by
  unfold onMachineDownForRepair
  split
  · exact fun id => by simp
  · split
    · have hdown := onMachineInstantDownUp_yields (s := { s with
        schedule := (s.schedule.addRepairMachine {draws.number}).1
        decision := s.decision.addCallMeLater .repairDone draws.number
          (date + BackfillState.repairTimeOf c.toBackfillConfig draws.number draws.repair) }) (h.addRepairMachine _) hspares
      refine .intro (fun s' hs' => ?_) fun e he => hdown.of_error he
      have hspared := hdown.of_ok hs'
      refine ⟨hspared.holds, hspared.queue, hspared.workload, hspared.executions.trans ?_⟩
      simp [SchedulingDecision.addCallMeLater, executions]
    · exact .refl h

/-- Failures that spare the jobs that run. -/
theorem handleFailures_yields (c : EasyBf2Config) (date : ℚ) {instantDowns : List ℕ} {downs : List Draws}
    (h : HoldsNow W s.schedule held) (hinstant : ∀ number ∈ instantDowns, SparesHeld W held number)
    (hdown : ∀ draws ∈ downs, SparesHeld W held draws.number) :
    Yields (Spared W held s) NotMissing (handleFailures c s date instantDowns downs) := by
  have hfirst : Yields (Spared W held s) NotMissing (runFrom onMachineInstantDownUp s instantDowns) := by
    refine Yields.runFrom (Spared.refl h) fun s₁ number hmem hspared => ?_
    have hone := onMachineInstantDownUp_yields hspared.holds (hinstant number hmem)
    refine .intro (fun s₂ hs₂ => ?_) fun e he => hone.of_error he
    have hnext := hone.of_ok hs₂
    exact hspared.trans hnext
  unfold handleFailures
  cases hx : runFrom onMachineInstantDownUp s instantDowns with
  | error e => exact hfirst.of_error hx
  | ok s' =>
    refine Yields.runFrom (hfirst.of_ok hx) fun s₁ draws hmem hspared => ?_
    have hone := onMachineDownForRepair_yields c date hspared.holds (hdown draws hmem)
    refine .intro (fun s₂ hs₂ => ?_) fun e he => hone.of_error he
    have hnext := hone.of_ok hs₂
    exact hspared.trans hnext

/-! ## Decisions -/

/-- The jobs that ended are in the schedule, and leave it one after the other. -/
theorem finishJobs_yields {ended : List Job} {reported : List RunningJob} (hids : ended.map (·.id) = reported.map (·.id))
    (h : HoldsNow W schedule (base ++ reported.map RunningJob.pair))
    (hdistinct : ((base ++ reported.map RunningJob.pair).map (·.1)).Nodup) :
    Yields (fun schedule' => HoldsNow W schedule' base) NotMissing (runFrom Schedule.removeJob schedule ended) := by
  induction ended generalizing schedule reported with
  | nil =>
    obtain rfl : reported = [] := by simpa using hids
    exact h.subset fun e he => List.mem_append_left _ he
  | cons job ended ih =>
    cases reported with
    | nil => cases hids
    | cons r reported =>
      obtain ⟨hid, hids⟩ : job.id = r.id ∧ ended.map (·.id) = reported.map (·.id) := List.cons.inj hids
      have hpresent : Present job schedule.profile := h.present (hid ▸ List.mem_map_of_mem (a := r.pair) (by simp))
      have hremoved := removeJob_yields hpresent
      rw [List.map_cons, List.map_append, List.map_cons, List.nodup_middle, List.nodup_cons, ← List.map_append] at hdistinct
      rw [runFrom]
      cases hx : schedule.removeJob job with
      | error e => exact hremoved.of_error hx
      | ok schedule₁ =>
        refine ih hids ((h.removeIfExists (Schedule.removeJob_ok hx)).subset fun e he => List.mem_filter.2 ⟨?_, ?_⟩) hdistinct.2
        · simp only [List.map_cons, List.mem_append, List.mem_cons] at he ⊢
          exact he.imp_right .inr
        · have hne : e.1 ≠ job.id := by
            rintro heq
            have hself : e.1 = r.pair.1 := heq.trans hid
            exact hdistinct.1 (hself ▸ List.mem_map_of_mem he)
          simpa using hne

/-- A job released waits at the end of the queue, or is rejected. -/
theorem releaseJobs_pass (c : EasyBfConfig) (currentDate : ℚ) (h : Pass known base released s) :
    Pass known base [] (released.foldl (EasyBf.releaseJob c currentDate) s) ∧
      (∀ other ∈ s.queue.jobs, other ∈ (released.foldl (EasyBf.releaseJob c currentDate) s).queue.jobs) ∧
      executions (released.foldl (EasyBf.releaseJob c currentDate) s).decision.decisions = executions s.decision.decisions := by
  induction released generalizing s with
  | nil => exact ⟨h, fun _ ho => ho, rfl⟩
  | cons job rest ih =>
    have hone : Pass known base rest (EasyBf.releaseJob c currentDate s job) ∧
        (∀ other ∈ s.queue.jobs, other ∈ (EasyBf.releaseJob c currentDate s job).queue.jobs) ∧
        executions (EasyBf.releaseJob c currentDate s job).decision.decisions = executions s.decision.decisions := by
      unfold EasyBf.releaseJob
      split
      · have hheld : heldBy base { s with decision := s.decision.add (.rejectJob job.id) } = heldBy base s := by
          simp [heldBy]
        refine ⟨⟨hheld ▸ h.holds, fun other ho => h.jobs other ?_, ?_, h.workload⟩, fun _ ho => ho, by simp⟩
        · simp only [List.mem_append, List.mem_cons] at ho ⊢
          tauto
        · rw [hheld]
          refine h.distinct.sublist (List.Sublist.append_right (List.Sublist.map _ ?_) _)
          exact List.Sublist.append_left (List.sublist_cons_self _ _) _
      · refine ⟨⟨h.holds, fun other ho => h.jobs other (by simpa using ho), ?_, h.workload⟩, fun other ho => ?_, rfl⟩
        · dsimp only
          rw [Queue.jobs_appendJob, List.append_assoc]
          exact h.distinct
        · simp only [Queue.jobs_appendJob, List.mem_append]
          exact .inl ho
    obtain ⟨hpass, hkept, hexecutions⟩ := hone
    obtain ⟨hpass', hkept', hexecutions'⟩ := ih hpass
    exact ⟨hpass', fun other ho => hkept' other (hkept other ho), hexecutions'.trans hexecutions⟩

/-- What every step keeps: the jobs that run or whose ends are being reported are in the first slice. -/
structure Kept (t : EasyBf2State × Platform) : Prop where
  holds : HoldsNow (.registered t.1.workload) t.1.schedule ((t.2.running ++ t.2.reported).map RunningJob.pair)
  jobs : JobsKept t.1.workload (t.1.queue.jobs ++ t.1.jobsReleasedRecently) t.1.jobsEndedRecently t.2

/-- The pass up to the backfilling. -/
theorem prepare_yields (c : EasyBf2Config) (date currentDate : ℚ) {t : EasyBf2State} {p : Platform} {instantDowns : List ℕ}
    {downs : List Draws} (h : Kept (t, p))
    (hinstant : ∀ number ∈ instantDowns, Spares t.workload p.running number)
    (hdown : ∀ draws ∈ downs, Spares t.workload p.running draws.number) :
    Yields (Pass t.workload (p.running.map RunningJob.pair) []) NotMissing
      (prepare c { t.toEasyBfState with decision := t.decision.clear } date currentDate instantDowns downs) := by
  have hspares : ∀ number, Spares t.workload p.running number →
      SparesHeld (.registered t.workload) (p.running.map RunningJob.pair) number := by
    intro number hnumber e he hon job hjob hid
    obtain ⟨r, hr, rfl⟩ := List.mem_map.1 he
    have hknown : t.workload r.id = some job := (congrArg t.workload hid).symm.trans hjob.1
    exact hnumber r hr hon job hknown
  have hfinished : Yields (fun schedule => HoldsNow (.registered t.workload) schedule (p.running.map RunningJob.pair)) NotMissing
      (runFrom Schedule.removeJob t.schedule t.jobsEndedRecently) := by
    refine finishJobs_yields h.jobs.ends ?_ ?_
    · rw [← List.map_append]
      exact h.holds
    · rw [← List.map_append, map_pair_fst]
      exact (List.nodup_append.1 h.jobs.distinct).2.1
  unfold prepare EasyBf.handleJobs
  dsimp only
  cases hx : runFrom Schedule.removeJob t.schedule t.jobsEndedRecently with
  | error e => exact hfinished.of_error hx
  | ok schedule =>
    have hstart : Pass t.workload (p.running.map RunningJob.pair) t.jobsReleasedRecently
        { t.toEasyBfState with decision := t.decision.clear, schedule := schedule } := by
      refine ⟨by simpa [heldBy] using hfinished.of_ok hx, h.jobs.jobs, ?_, rfl⟩
      refine h.jobs.distinct.sublist (List.Sublist.append_left ?_ _)
      simp only [heldBy, SchedulingDecision.decisions_clear, executions_nil, List.append_nil, map_pair_fst]
      exact (List.sublist_append_left _ _).map _
    obtain ⟨hqueued, hkept, hnone⟩ := releaseJobs_pass c.toEasyBfConfig currentDate hstart
    simp only [Except.map]
    generalize t.jobsReleasedRecently.foldl _ _ = queued at hqueued hkept hnone ⊢
    have hupdated := updateFirstSlice_yields queued.schedule date
    cases hu : queued.schedule.updateFirstSlice date with
    | error e => exact hupdated.of_error hu
    | ok schedule' =>
      have hheld : heldBy (p.running.map RunningJob.pair) queued = p.running.map RunningJob.pair := by
        rw [heldBy, hnone]
        simp
      have hnow : HoldsNow (.registered t.workload) schedule' (p.running.map RunningJob.pair) := hheld ▸ hqueued.holds.update hu
      have hfailed := handleFailures_yields c date (s := { queued with schedule := schedule' }) hnow
        (fun number hn => hspares number (hinstant number hn)) (fun draws hd => hspares draws.number (hdown draws hd))
      dsimp only
      cases hf : handleFailures c { queued with schedule := schedule' } date instantDowns downs with
      | error e => exact hfailed.of_error hf
      | ok s₂ =>
        have hspared := hfailed.of_ok hf
        have hheld₂ : heldBy (p.running.map RunningJob.pair) s₂ = heldBy (p.running.map RunningJob.pair) queued := by
          rw [heldBy, heldBy, hspared.executions]
        have hpass : Pass t.workload (p.running.map RunningJob.pair) [] s₂ := by
          refine ⟨?_, ?_, ?_, hspared.workload.trans hqueued.workload⟩
          · rw [hheld₂, hheld]
            exact hspared.holds
          · rw [hspared.queue]
            exact hqueued.jobs
          · rw [hspared.queue, hheld₂]
            exact hqueued.distinct
        refine sortQueue_yields c.toEasyBfConfig hpass fun job hjob => ?_
        rw [hspared.queue]
        rw [Queue.firstJob?_eq_head?] at hjob
        exact hkept job (List.mem_of_mem_head? hjob)

/-- A pass calls `remove_job` for jobs that are in the schedule only. -/
theorem makeDecisions_yields {t : EasyBf2State} {p : Platform} {instantDowns : List ℕ} {downs : List Draws} (h : Kept (t, p))
    (hinstant : ∀ number ∈ instantDowns, Spares t.workload p.running number)
    (hdown : ∀ draws ∈ downs, Spares t.workload p.running draws.number) :
    Yields (Pass t.workload (p.running.map RunningJob.pair) []) NotMissing
      (makeDecisions c { t.toEasyBfState with decision := t.decision.clear } date currentDate instantDowns downs) := by
  have hprepared := prepare_yields c date currentDate h hinstant hdown
  unfold makeDecisions
  cases hx : prepare c { t.toEasyBfState with decision := t.decision.clear } date currentDate instantDowns downs with
  | error e => exact hprepared.of_error hx
  | ok s' =>
    have hpass := hprepared.of_ok hx
    dsimp only
    split
    · refine Yields.map (Yields.runFrom (I := fun u : EasyBfState × ℤ => Pass t.workload (p.running.map RunningJob.pair) [] u.1)
        hpass fun _ _ _ hu => backfillReleased_yields hu) fun _ _ hu => hu
    · split
      · refine (traverseJobs_yields hpass (fun _ hjob => hjob) ?_).map fun _ _ hu => hu
        have hnodup := (List.nodup_append.1 hpass.distinct).1
        rw [List.append_nil] at hnodup
        exact hnodup.of_map
      · exact hpass

/-! ## Messages -/

theorem Kept.new (c : EasyBf2Config) (date failure : ℚ) : Kept (EasyBf2.new c date failure, Platform.new date) where
  holds := ⟨Exclusive.new _ _ _, by simp [Platform.new]⟩
  jobs := by
    constructor <;> simp [EasyBf2.new, EasyBf.new, Platform.new, Queue.jobs]

/-- The decisions of a pass are sent. -/
theorem Kept.decide {t : EasyBf2State} {p : Platform} (h : Kept (t, p))
    (hpass : Pass t.workload (p.running.map RunningJob.pair) [] s') : Kept ({ t with
      toEasyBfState := { s' with jobsReleasedRecently := [], jobsEndedRecently := [] }
      onMachineInstantDownUps := 0
      onMachineDownForRepairs := 0 }, ({ p with now := date } : Platform).send s'.decision.decisions) := by
  have hheld : (({ p with now := date } : Platform).send s'.decision.decisions).running.map RunningJob.pair =
      heldBy (p.running.map RunningJob.pair) s' := by
    simp [Platform.send, heldBy, RunningJob.pair, Function.comp_def]
  have hworkload : s'.workload = t.workload := hpass.workload
  have hreported : (({ p with now := date } : Platform).send s'.decision.decisions).reported = [] := rfl
  refine ⟨?_, ?_, ?_, rfl, ?_, ?_⟩
  · dsimp only
    rw [hreported, List.append_nil, hheld, hworkload]
    exact hpass.holds
  · dsimp only
    rw [hworkload]
    exact hpass.jobs
  · dsimp only
    rw [hreported, List.append_nil (({ p with now := date } : Platform).send _).running, ← map_pair_fst, hheld]
    exact hpass.distinct
  · dsimp only
    rw [hworkload]
    exact h.jobs.named
  · intro r hr
    dsimp only at hr ⊢
    rw [hreported, List.append_nil] at hr
    have hmem : r.pair ∈ heldBy (p.running.map RunningJob.pair) s' := hheld ▸ List.mem_map_of_mem hr
    obtain ⟨slice, rest, job, hprofile, hentry, hid⟩ := hpass.holds.entry hmem
    have hjob := (hpass.holds.exclusive.runs.known slice (by simp [hprofile]) _ hentry).1
    rw [show job.id = r.id from hid] at hjob
    rw [hworkload, hjob]
    simp

/-- The only abort of a platform. -/
theorem receive_error {p : Platform} {notice : Notice} {e : Abort} (he : p.receive notice = .error e) : e = .impossibleMessage := by
  unfold Platform.receive at he
  split at he
  · cases he
  · split at he
    · cases he
    · exact (Except.error.inj he).symm
  · split at he
    · cases he
    · exact (Except.error.inj he).symm
  · cases he

/-- What the scheduler aborts with on a message. -/
theorem step_notMissing {t : EasyBf2State} {p : Platform} {event : ConservativeEvent} {e : Abort} (h : Kept (t, p))
    (hspares : SparesRunning (t, p) event) (he : step c t event = .error e) : NotMissing e := by
  intro id
  cases event with
  | jobSubmitted job =>
    rw [step, map_eq_error, EasyBf.step] at he
    split at he
    · cases he
      simp
    · cases he
  | jobCompleted id' =>
    rw [step, map_eq_error, EasyBf.step] at he
    split at he
    · cases he
    · cases he
      simp
  | jobsKilled ids => cases he
  | requestedCall date id' forWhat draws => cases he
  | noMoreStaticJobToSubmit => cases he
  | makeDecisions date currentDate instantDraws downDraws =>
    rw [step, map_eq_error] at he
    exact (makeDecisions_yields h hspares.1 hspares.2).of_error he id

/-- A message keeps what is kept, where the failures leave the jobs that run alone. -/
theorem kept_step {t t' : EasyBf2State × Platform} {event : ConservativeEvent} (h : Kept t)
    (hid : ∀ job, event = .jobSubmitted job → ∃ i : JobIdentifier, job.id = i.representation) (hspares : SparesRunning t event)
    (hx : (scheduler c).run t event = .ok t') : Kept t' := by
  obtain ⟨s, p⟩ := t
  cases event with
  | jobSubmitted job =>
    obtain ⟨s', hs, rfl⟩ := JobScheduler.run_submitted rfl hx
    obtain ⟨u, hu, rfl⟩ := map_eq_ok.1 hs
    rw [EasyBf.step] at hu
    split at hu
    · cases hu
    · rename_i hnew
      cases hu
      refine ⟨h.holds.mono (JobsKept.registered_subset hnew), ?_⟩
      have hsubmitted := h.jobs.submit (hid job rfl) hnew
      rwa [List.append_assoc] at hsubmitted
  | jobCompleted id =>
    obtain ⟨s', r, before, after, hs, hr, hrunning, rfl⟩ := JobScheduler.run_completed rfl hx
    obtain ⟨u, hu, rfl⟩ := map_eq_ok.1 hs
    rw [EasyBf.step] at hu
    split at hu
    · rename_i job hjob
      cases hu
      refine ⟨h.holds.subset fun e he => ?_, h.jobs.complete hrunning ((h.jobs.named id job hjob).trans hr.symm)⟩
      exact (((JobsKept.perm_complete hrunning).map RunningJob.pair).mem_iff).1 he
    · cases hu
  | jobsKilled ids =>
    obtain ⟨s', hs, rfl⟩ := JobScheduler.run_other rfl hx
    cases hs
    exact h
  | requestedCall date id forWhat draws =>
    obtain ⟨s', hs, rfl⟩ := JobScheduler.run_other rfl hx
    cases hs
    have hnoted : ∀ forWhat time, Kept (noteFailure c s forWhat time, p) := by
      intro forWhat time
      unfold noteFailure
      split
      · exact ⟨h.holds, h.jobs⟩
      · exact h
    cases forWhat with
    | fixedFailure => exact hnoted _ _
    | smtbf => exact hnoted _ _
    | repairDone => exact ⟨h.holds.removeRepairMachines _, h.jobs⟩
    | mtbf => exact h
    | reservationStart => exact h
    | checkpointBatsched => exact h
    | recoverFromCheckpoint => exact h
  | noMoreStaticJobToSubmit =>
    obtain ⟨s', hs, rfl⟩ := JobScheduler.run_other rfl hx
    cases hs
    exact ⟨h.holds, h.jobs⟩
  | makeDecisions date currentDate instantDraws downDraws =>
    obtain ⟨-, s', hs, rfl⟩ := JobScheduler.run_decided rfl hx
    obtain ⟨u, hu, rfl⟩ := map_eq_ok.1 hs
    have hpass := (makeDecisions_yields h hspares.1 hspares.2).of_ok hu
    exact h.decide hpass

end EasyBf2Aux

open EasyBf2Aux in
/-- In every run in which no failure hits a machine on which a job runs that is no reservation, whatever jobs are submitted and
reported ended, whatever machines fail and are repaired: `remove_job` is never called for a job that is not in the schedule. -/
theorem never_removes_absent (c : EasyBf2Config) (date failure : ℚ) (events : List ConservativeEvent)
    (hnamed : ∀ job, .jobSubmitted job ∈ events → ∃ i : JobIdentifier, job.id = i.representation)
    (hspares : AllSteps (EasyBf2.scheduler c).run EasyBf2.SparesRunning (EasyBf2.new c date failure, Platform.new date) events)
    (id : String) :
    runFrom (EasyBf2.scheduler c).run (EasyBf2.new c date failure, Platform.new date) events ≠ .error (.notInSchedule id) := by
  intro hrun
  have hids : AllSteps (EasyBf2.scheduler c).run
      (fun _ event => ∀ job, event = .jobSubmitted job → ∃ i : JobIdentifier, job.id = i.representation)
      (EasyBf2.new c date failure, Platform.new date) events :=
    allSteps_of_forall fun event hmem job heq => hnamed job (heq ▸ hmem)
  refine runFrom_error (P := NotMissing) (fun t event t' h hc hx => kept_step h hc.2 hc.1 hx) (fun t event e h hc he => ?_)
    (Kept.new c date failure) (hspares.and hids) hrun id rfl
  rw [JobScheduler.run] at he
  split at he
  · exact step_notMissing h hc.1 (map_eq_error.1 he)
  · rename_i hreceived
    cases he
    rw [receive_error hreceived]
    exact fun id => by simp

namespace EasyBf2Aux

private theorem workloadName_valid : '!' ∉ "w0".toList ∧ ',' ∉ "w0".toList := by decide

private def identifier : JobIdentifier where
  workloadName := "w0"
  jobName := "1"
  workloadName_valid := workloadName_valid
  jobName_valid := by decide

private def drawing (number : ℕ) : ℕ → Draws := fun _ => { number := number, failure := 0, repair := 0, victim := "" }

private def config : EasyBf2Config := { nbMachines := 3, fixedFailures := 100, repairTime := 0 }

/-- A job runs on two of three machines, and a machine fails. -/
private def failing (number : ℕ) : List ConservativeEvent :=
  [.jobSubmitted { id := "w0!1", nbRequestedResources := 2, walltime := 10 },
    .makeDecisions 0 0 (drawing number) (drawing number), .requestedCall 1 0 .fixedFailure (drawing number 0),
    .makeDecisions 1 1 (drawing number) (drawing number)]

/-- The end of the job is reported. -/
private def ending (number : ℕ) (killed : List String) : List ConservativeEvent :=
  [.jobCompleted "w0!1", .jobsKilled killed, .makeDecisions 2 2 (drawing number) (drawing number)]

private theorem failing_named {number : ℕ} {killed : List String} {job : Job}
    (hjob : .jobSubmitted job ∈ failing number ++ ending number killed) : ∃ i : JobIdentifier, job.id = i.representation := by
  simp only [failing, ending, List.cons_append, List.nil_append, List.mem_cons, ConservativeEvent.jobSubmitted.injEq, reduceCtorEq,
    List.not_mem_nil, or_false] at hjob
  exact ⟨identifier, by rw [hjob]; decide⟩

end EasyBf2Aux

open EasyBf2Aux in
/-- The third machine fails, on which nothing runs, and the job ends. -/
theorem never_removes_absent_witness :
    (runFrom (EasyBf2.scheduler config).run (EasyBf2.new config 0 0, Platform.new 0) (failing 2 ++ ending 2 [])).toOption.map
      (fun t => t.2.ended) = some ["w0!1"] ∧
    ∀ id, runFrom (EasyBf2.scheduler config).run (EasyBf2.new config 0 0, Platform.new 0) (failing 2 ++ ending 2 []) ≠
      .error (.notInSchedule id) :=
  ⟨by decide +kernel, never_removes_absent config 0 0 _ (fun _ hjob => failing_named hjob) (by decide +kernel)⟩

open EasyBf2Aux in
/-- The first machine fails, the job is killed, and its end is reported: it is not in the schedule. -/
theorem never_removes_absent_false :
    ¬∀ (c : EasyBf2Config) (date failure : ℚ) (events : List ConservativeEvent),
      (∀ job, .jobSubmitted job ∈ events → ∃ i : JobIdentifier, job.id = i.representation) →
      ∀ id, runFrom (EasyBf2.scheduler c).run (EasyBf2.new c date failure, Platform.new date) events ≠
        .error (.notInSchedule id) := by
  intro hall
  refine hall config 0 0 (failing 0 ++ ending 0 ["w0!1"]) (fun _ hjob => failing_named hjob) "w0!1" ?_
  have habort : abortOf (runFrom (EasyBf2.scheduler config).run (EasyBf2.new config 0 0, Platform.new 0)
      (failing 0 ++ ending 0 ["w0!1"])) = some (.notInSchedule "w0!1") := by
    decide +kernel
  exact abortOf_eq_some.1 habort

end ScheduleTest
