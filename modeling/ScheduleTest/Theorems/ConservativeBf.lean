import ScheduleTest.Lemmas.JobsKept
import ScheduleTest.Lemmas.ConservativeBf

/-!
# conservative_bf allocates exclusively

Without reservations, every job is executed on as many machines as it requests, none of which is under repair or of a job that runs
and has not been killed (`allocates_exclusively`). What every message keeps is that the jobs that run, less those killed, are in the
first slice on their machines. A killed job leaves the schedule at once, before its end is reported.
-/

namespace ScheduleTest

open Execution ConservativeBf

/-- An event of a run without reservations. -/
def ConservativeBf.WithoutReservations : ConservativeEvent → Prop
  | .jobSubmitted job => job.isReservation = false
  | .requestedCall _ _ forWhat _ => forWhat ≠ .reservationStart
  | _ => True

namespace ConservativeAux

variable {c : ConservativeConfig} {s s' : ConservativeState} {p : Platform} {job : Job} {date currentDate : ℚ}

/-- What a running job says about the schedule. -/
def pairOf (r : RunningJob) : String × IntervalSet := (r.id, r.machines)

/-- The jobs that run or whose ends are being reported, less those killed. -/
def unkilled (p : Platform) : List (String × IntervalSet) := ((p.running ++ p.reported).map pairOf).filter fun e => e.1 ∉ p.killed

/-- What every step keeps. -/
structure Kept (t : ConservativeState × Platform) : Prop where
  holds : HoldsNow (.registered t.1.workload) t.1.schedule (unkilled t.2)
  jobs : ∀ job ∈ t.1.queue.jobs ++ t.1.jobsReleasedRecently, job ∈ (NamedJobs.registered t.1.workload).jobs
  distinct : ((t.1.queue.jobs ++ t.1.jobsReleasedRecently).map (·.id) ++ (t.2.running ++ t.2.reported).map (·.id)).Nodup
  ended : t.1.jobsEndedRecently.map (·.id) = t.2.reported.map (·.id)
  workload : ∀ id job, t.1.workload id = some job → job.id = id ∧ job.isReservation = false ∧ job ∈ t.2.submitted
  isKnown : ∀ r ∈ t.2.running ++ t.2.reported, t.1.workload r.id ≠ none
  resubmitted : ∀ job ∈ t.1.resubmittedJobsReleased, job ∈ (NamedJobs.registered t.1.workload).jobs
  quiet : t.1.savedReservations = [] ∧ t.1.savedRecentlyQueuedJobs = [] ∧ t.1.startAReservation = false
  calls : CallsOrdinary t.1.decision

/-- The calls asked for at the start are about failures. -/
theorem calls_setGenerators (c : FastConfig) (date failure : ℚ) : CallsOrdinary (c.setGenerators date failure) := by
  have hnone : CallsOrdinary {} := nofun
  unfold FastConfig.setGenerators
  dsimp only
  have hfixed : CallsOrdinary (if c.fixedFailures ≠ -1 then
      ({} : SchedulingDecision).addCallMeLater .fixedFailure 1 (c.fixedFailures + date) else {}) := by
    split
    · exact hnone.addCallMeLater (by simp)
    · exact hnone
  split
  · exact hfixed.addCallMeLater (by simp)
  · split
    · exact hfixed.addCallMeLater (by simp)
    · exact hfixed

theorem Kept.new (c : ConservativeConfig) (date failure : ℚ) : Kept (ConservativeBf.new c date failure, Platform.new date) where
  holds := ⟨Exclusive.new _ _ _, by simp [unkilled, Platform.new]⟩
  jobs := by simp [ConservativeBf.new, Queue.jobs]
  distinct := by simp [ConservativeBf.new, Platform.new, Queue.jobs]
  ended := rfl
  workload := by simp [ConservativeBf.new]
  isKnown := by simp [Platform.new]
  resubmitted := by simp [ConservativeBf.new]
  quiet := ⟨rfl, rfl, rfl⟩
  calls := calls_setGenerators _ _ _

/-- The jobs registered are no reservations. -/
theorem Kept.ordinary (h : Kept (s, p)) (hjob : job ∈ (NamedJobs.registered s.workload).jobs) : job.isReservation = false :=
  (h.workload job.id job hjob.1).2.1

/-- What is kept of the jobs. -/
theorem Kept.jobsKept (h : Kept (s, p)) :
    JobsKept s.workload (s.queue.jobs ++ s.jobsReleasedRecently) s.jobsEndedRecently p :=
  ⟨h.jobs, h.distinct, h.ended, fun id job hjob => (h.workload id job hjob).1, h.isKnown⟩

/-- A job submitted is registered. -/
theorem Kept.submit (h : Kept (s, p)) (hid : ∃ i : JobIdentifier, job.id = i.representation) (hordinary : job.isReservation = false)
    (hnew : s.workload job.id = none) :
    Kept ({ s with
      workload := Function.update s.workload job.id (some job)
      jobsReleasedRecently := s.jobsReleasedRecently ++ [job] }, { p with submitted := p.submitted ++ [job] }) := by
  obtain ⟨hjobs, hdistinct, hended, hnamed, hknown⟩ := h.jobsKept.submit hid hnew
  rw [List.append_assoc] at hjobs hdistinct
  have hsub := JobsKept.registered_subset hnew
  refine ⟨h.holds.mono hsub, hjobs, hdistinct, hended, fun id other ho => ?_, hknown, fun other ho => hsub (h.resubmitted other ho),
    h.quiet, h.calls⟩
  refine ⟨hnamed id other ho, ?_⟩
  change Function.update s.workload job.id (some job) id = some other at ho
  by_cases heq : id = job.id
  · subst heq
    rw [Function.update_self] at ho
    cases ho
    exact ⟨hordinary, List.mem_append_right _ List.mem_cons_self⟩
  · rw [Function.update_of_ne heq] at ho
    obtain ⟨_, hordinary', hsubmitted⟩ := h.workload id other ho
    exact ⟨hordinary', List.mem_append_left _ hsubmitted⟩

/-- The end of a job that runs is reported. -/
theorem Kept.complete {r : RunningJob} {before after : List RunningJob} (h : Kept (s, p))
    (hrunning : p.running = before ++ r :: after) (hid : job.id = r.id) :
    Kept ({ s with jobsEndedRecently := s.jobsEndedRecently ++ [job] },
      { p with running := before ++ after, reported := p.reported ++ [r] }) := by
  obtain ⟨hjobs, hdistinct, hended, _, hknown⟩ := h.jobsKept.complete hrunning hid
  refine ⟨h.holds.subset fun e he => ?_, hjobs, hdistinct, hended, h.workload, hknown, h.resubmitted, h.quiet, h.calls⟩
  obtain ⟨he, hnot⟩ := List.mem_filter.1 he
  exact List.mem_filter.2 ⟨(((JobsKept.perm_complete hrunning).map pairOf).mem_iff).1 he, hnot⟩

/-- A call that is no start of a reservation is answered. -/
theorem Kept.call {id : ℕ} {forWhat : CallMeLaterType} {draws : Draws} (h : Kept (s, p)) (hwhat : forWhat ≠ .reservationStart)
    (hx : onRequestedCall c s date id forWhat draws = .ok s') :
    Kept (s', p) ∧ (executions s.decision.decisions = [] → executions s'.decision.decisions = []) ∧ s'.executions = s.executions := by
  have hnoted : ∀ forWhat : CallMeLaterType, forWhat ≠ .reservationStart → ∀ time : ℚ, Kept (noteFailure c s forWhat time, p) ∧
      (executions s.decision.decisions = [] → executions (noteFailure c s forWhat time).decision.decisions = []) ∧
      (noteFailure c s forWhat time).executions = s.executions := by
    intro forWhat hwhat time
    unfold noteFailure
    split
    · have hcalls : CallsOrdinary (s.decision.addCallMeLater forWhat 1 time) := h.calls.addCallMeLater hwhat
      refine ⟨⟨h.holds, h.jobs, h.distinct, h.ended, h.workload, h.isKnown, h.resubmitted, h.quiet, hcalls⟩, fun hnone => ?_, rfl⟩
      simp only [SchedulingDecision.addCallMeLater, executions_append, hnone]
      rfl
    · exact ⟨h, fun hnone => hnone, rfl⟩
  have hanswered : Kept (answerCall c s date id draws forWhat, p) ∧
      (executions s.decision.decisions = [] → executions (answerCall c s date id draws forWhat).decision.decisions = []) ∧
      (answerCall c s date id draws forWhat).executions = s.executions := by
    cases forWhat with
    | smtbf => exact hnoted .smtbf (by simp) _
    | fixedFailure => exact hnoted .fixedFailure (by simp) _
    | repairDone =>
      refine ⟨⟨h.holds.removeRepairMachines _, h.jobs, h.distinct, h.ended, h.workload, h.isKnown, h.resubmitted, h.quiet, h.calls⟩,
        fun hnone => hnone, rfl⟩
    | reservationStart => exact absurd rfl hwhat
    | mtbf => exact ⟨h, fun hnone => hnone, rfl⟩
    | checkpointBatsched => exact ⟨h, fun hnone => hnone, rfl⟩
    | recoverFromCheckpoint => exact ⟨h, fun hnone => hnone, rfl⟩
  unfold onRequestedCall at hx
  generalize answerCall c s date id draws forWhat = s₁ at hx hanswered
  obtain ⟨hkept, hsilent, hexecutions⟩ := hanswered
  have hforgotten : Kept ({ s₁ with decision := (s₁.decision.removeCallMeLater id date).1 }, p) := by
    refine ⟨hkept.holds, hkept.jobs, hkept.distinct, hkept.ended, hkept.workload, hkept.isKnown, hkept.resubmitted, hkept.quiet, ?_⟩
    intro id' call hcall
    refine hkept.calls id' call ?_
    simp only [SchedulingDecision.removeCallMeLater, Function.update_apply] at hcall
    split at hcall
    · cases hcall
    · exact hcall
  have hforget : forgetCall s₁ date id = .ok ({ s₁ with decision := (s₁.decision.removeCallMeLater id date).1 },
      (s₁.decision.removeCallMeLater id date).2) := by
    unfold forgetCall
    dsimp only
    split
    · rename_i call hcall
      rw [if_neg fun hlate => hkept.calls id call hcall hlate.2]
    · rfl
  rw [hforget] at hx
  dsimp only at hx
  rw [if_neg fun hlate => hwhat hlate.2] at hx
  cases hx
  exact ⟨hforgotten, hsilent, hexecutions⟩

/-- A pass keeps the jobs that run in the first slice, and executes jobs exclusively. -/
theorem makeDecisions_pass {instantDraws downDraws : ℕ → Draws} (h : Kept (s, p)) (hexecutions : s.executions = [])
    (hdecisions : s.decision.decisions = []) (hx : makeDecisions c s date currentDate instantDraws downDraws = .ok s') :
    Pass (.registered s.workload) s.workload (p.running.map pairOf) p.killed [] (boardOf s') := by
  have hordinary : ∀ job ∈ (NamedJobs.registered s.workload).jobs, job.isReservation = false := fun job hjob => h.ordinary hjob
  have hheld : heldBy (p.running.map pairOf) p.killed s.decision.decisions =
      (p.running.map pairOf).filter fun e => e.1 ∉ p.killed := by
    simp [heldBy, hdecisions]
  have hids : (p.running.map pairOf).map (·.1) = p.running.map (·.id) := by
    simp [pairOf, Function.comp_def]
  have hstart : Pass (.registered s.workload) s.workload (p.running.map pairOf) p.killed s.jobsReleasedRecently (boardOf s) := by
    refine ⟨?_, h.jobs, ?_, ?_, ?_, rfl, fun job hjob => h.jobs job (List.mem_append_right _ hjob), h.resubmitted, h.quiet, h.calls⟩
    · refine hheld ▸ h.holds.subset fun e he => ?_
      obtain ⟨he, hnot⟩ := List.mem_filter.1 he
      refine List.mem_filter.2 ⟨?_, hnot⟩
      rw [List.map_append]
      exact List.mem_append_left _ he
    · refine h.distinct.sublist (List.Sublist.append_left ?_ _)
      simp only [boardOf, hdecisions, executions_nil, List.append_nil, hids]
      exact (List.sublist_append_left _ _).map _
    · simp only [boardOf, hdecisions, hexecutions]
      exact .of_silent rfl
    · simp [boardOf, hexecutions]
  unfold makeDecisions at hx
  split at hx
  · rename_i s₁ hprepared
    refine decide_pass hordinary (prepare_pass hordinary hstart (fun job hjob hbad => ?_) hprepared) hx
    -- the jobs whose ends are reported run no longer
    rw [hheld] at hbad
    have hrunning : job.id ∈ p.running.map (·.id) := by
      refine hids ▸ List.Sublist.subset ?_ hbad
      exact List.Sublist.map _ List.filter_sublist
    have hreported : job.id ∈ p.reported.map (·.id) := h.ended ▸ List.mem_map_of_mem hjob
    have hnodup := (List.nodup_append.1 h.distinct).2.1
    rw [List.map_append] at hnodup
    exact (List.nodup_append.1 hnodup).2.2 job.id hrunning job.id hreported rfl
  · cases hx

/-- The decisions of a pass are sent. -/
theorem Kept.decide (h : Kept (s, p))
    (hpass : Pass (.registered s.workload) s.workload (p.running.map pairOf) p.killed [] (boardOf s')) :
    Kept (clearRecentDataStructures s', ({ p with now := date } : Platform).send s'.decision.decisions) := by
  have hworkload : s'.workload = s.workload := hpass.workload
  have hrunning : (({ p with now := date } : Platform).send s'.decision.decisions).running.map pairOf =
      p.running.map pairOf ++ executions s'.decision.decisions := by
    simp [Platform.send, pairOf, Function.comp_def]
  have hids : ∀ running : List RunningJob, running.map (·.id) = (running.map pairOf).map (·.1) := by
    simp [pairOf, Function.comp_def]
  have hreported : (({ p with now := date } : Platform).send s'.decision.decisions).reported = [] := rfl
  refine ⟨?_, ?_, ?_, rfl, ?_, ?_, ?_, hpass.quiet, hpass.calls⟩
  · unfold unkilled
    rw [hreported, List.append_nil, hrunning]
    change HoldsNow (.registered s'.workload) s'.schedule _
    rw [hworkload]
    exact hpass.holds
  · change ∀ job ∈ s'.queue.jobs ++ [], job ∈ (NamedJobs.registered s'.workload).jobs
    rw [hworkload]
    exact hpass.jobs
  · dsimp only
    rw [hreported, List.append_nil, hids, hrunning]
    exact hpass.distinct
  · change ∀ id job, s'.workload id = some job → job.id = id ∧ job.isReservation = false ∧ job ∈ p.submitted
    rw [hworkload]
    exact h.workload
  · intro r hr
    change s'.workload r.id ≠ none
    rw [hworkload]
    rw [hreported, List.append_nil] at hr
    have hmem : pairOf r ∈ p.running.map pairOf ++ executions s'.decision.decisions := hrunning ▸ List.mem_map_of_mem hr
    rcases List.mem_append.1 hmem with hmem | hmem
    · obtain ⟨r', hr', heq⟩ := List.mem_map.1 hmem
      have hid : r'.id = r.id := (Prod.mk.inj heq).1
      exact hid ▸ h.isKnown r' (List.mem_append_left _ hr')
    · -- a job executed is one that has been noted
      have hnoted := hpass.executes.agree
      obtain ⟨e, he, heq⟩ := List.mem_map.1 (hnoted ▸ hmem)
      have hid : e.job.id = r.id := (Prod.mk.inj heq).1
      have hjob := (hpass.executed e he).1
      simp [← hid, hjob]
  · change ∀ job ∈ s'.resubmittedJobsReleased, job ∈ (NamedJobs.registered s'.workload).jobs
    rw [hworkload]
    exact hpass.resubmitted

/-- Every event of a run without reservations keeps what is kept, and executes jobs exclusively. -/
theorem kept_step {t t' : ConservativeState × Platform} {event : ConservativeEvent} (h : Kept t)
    (hid : ∀ job, event = .jobSubmitted job → ∃ i : JobIdentifier, job.id = i.representation) (hwithout : WithoutReservations event)
    (hx : (scheduler c).run t event = .ok t') : Kept t' ∧
      ExecutesExclusively (t.2.running.map pairOf) t.2.killed t'.1.decision.decisions t'.1.executions ∧
      ∀ e ∈ t'.1.executions, e.job ∈ t.2.submitted := by
  obtain ⟨s, p⟩ := t
  -- the messages of the step before have been sent
  have hcleared : Kept ({ s with decision := s.decision.clear, executions := [] }, p) :=
    ⟨h.holds, h.jobs, h.distinct, h.ended, h.workload, h.isKnown, h.resubmitted, h.quiet, h.calls⟩
  cases event with
  | jobSubmitted job =>
    obtain ⟨s', hs, rfl⟩ := JobScheduler.run_submitted rfl hx
    simp only [scheduler, step] at hs
    split at hs
    · cases hs
    · rename_i hnew
      cases hs
      exact ⟨hcleared.submit (hid job rfl) hwithout hnew, .of_silent rfl, nofun⟩
  | jobCompleted id =>
    obtain ⟨s', r, before, after, hs, hr, hrunning, rfl⟩ := JobScheduler.run_completed rfl hx
    simp only [scheduler, step] at hs
    split at hs
    · rename_i job hjob
      cases hs
      exact ⟨hcleared.complete hrunning ((h.workload id job hjob).1.trans hr.symm), .of_silent rfl, nofun⟩
    · cases hs
  | jobsKilled ids =>
    obtain ⟨s', hs, rfl⟩ := JobScheduler.run_other rfl hx
    cases hs
    exact ⟨⟨hcleared.holds, hcleared.jobs, hcleared.distinct, hcleared.ended, hcleared.workload, hcleared.isKnown,
      hcleared.resubmitted, hcleared.quiet, hcleared.calls⟩, .of_silent rfl, nofun⟩
  | requestedCall date id forWhat draws =>
    obtain ⟨s', hs, rfl⟩ := JobScheduler.run_other rfl hx
    obtain ⟨hkept, hsilent, hexecutions⟩ := hcleared.call hwithout hs
    rw [hexecutions]
    exact ⟨hkept, .of_silent (hsilent rfl), nofun⟩
  | noMoreStaticJobToSubmit =>
    obtain ⟨s', hs, rfl⟩ := JobScheduler.run_other rfl hx
    cases hs
    exact ⟨⟨hcleared.holds, hcleared.jobs, hcleared.distinct, hcleared.ended, hcleared.workload, hcleared.isKnown,
      hcleared.resubmitted, hcleared.quiet, hcleared.calls⟩, .of_silent rfl, nofun⟩
  | makeDecisions date currentDate instantDraws downDraws =>
    obtain ⟨-, s', hs, rfl⟩ := JobScheduler.run_decided rfl hx
    obtain ⟨s'', hmade, rfl⟩ := map_eq_ok.1 hs
    have hpass := makeDecisions_pass hcleared rfl rfl hmade
    refine ⟨hcleared.decide hpass, hpass.executes, fun e he => ?_⟩
    exact (h.workload e.job.id e.job (hpass.executed e he).1).2.2

end ConservativeAux

open ConservativeAux in
/-- In every run without reservations, whatever the machines that fail, are repaired and the jobs that are killed and submitted again:
each execute decision gives a job submitted as many machines as it requests, none under repair and none of a job that was executed
before and has neither been reported ended nor been killed. -/
theorem allocates_exclusively (c : ConservativeConfig) (date failure : ℚ) (events : List ConservativeEvent) (event : ConservativeEvent)
    (hnamed : ∀ job, .jobSubmitted job ∈ events ++ [event] → ∃ i : JobIdentifier, job.id = i.representation)
    (hwithout : ∀ e ∈ events ++ [event], WithoutReservations e) (t t' : ConservativeState × Platform)
    (hrun : runFrom (scheduler c).run (ConservativeBf.new c date failure, Platform.new date) events = .ok t)
    (hstep : (scheduler c).run t event = .ok t') :
    ExecutesExclusively (t.2.running.map fun r => (r.id, r.machines)) t.2.killed t'.1.decision.decisions t'.1.executions ∧
      ∀ e ∈ t'.1.executions, e.job ∈ t.2.submitted := by
  have hkept : Kept t := by
    refine runFrom_invariant (C := fun _ event => (∀ job, event = .jobSubmitted job → ∃ i : JobIdentifier, job.id = i.representation) ∧
      WithoutReservations event) (fun _ _ _ h hc hx => (kept_step h hc.1 hc.2 hx).1) (Kept.new c date failure) ?_ hrun
    refine allSteps_of_forall fun e he => ⟨fun job heq => ?_, hwithout e (List.mem_append_left _ he)⟩
    exact hnamed job (List.mem_append_left _ (heq ▸ he))
  refine (kept_step hkept (fun job heq => hnamed job ?_) (hwithout event ?_) hstep).2
  · exact List.mem_append_right _ (heq ▸ List.mem_cons_self)
  · exact List.mem_append_right _ List.mem_cons_self

namespace ConservativeAux

private theorem workloadName_valid : '!' ∉ "w0".toList ∧ ',' ∉ "w0".toList := by decide

private def jobIdentifier (jobName : String) (h : '!' ∉ jobName.toList := by decide) : JobIdentifier where
  workloadName := "w0"
  jobName := jobName
  workloadName_valid := workloadName_valid
  jobName_valid := h

private def draws : ℕ → Draws := fun _ => { number := 0, failure := 0, repair := 0, victim := "" }

private def config : ConservativeConfig := { nbMachines := 3, fixedFailures := 100, repairTime := 50 }

/-- A machine fails on which a job runs, and the job is killed and submitted again. -/
private def events : List ConservativeEvent :=
  [.jobSubmitted { id := "w0!1", nbRequestedResources := 2, walltime := 10 },
    .jobSubmitted { id := "w0!2", nbRequestedResources := 3, walltime := 10 },
    .makeDecisions 0 0 draws draws, .requestedCall 1 0 .fixedFailure (draws 0), .makeDecisions 1 1 draws draws,
    .jobsKilled ["w0!1"], .jobCompleted "w0!1", .makeDecisions 1 1 draws draws,
    .jobSubmitted { id := "w0!1#1", nbRequestedResources := 2, walltime := 10 }]

end ConservativeAux

open ConservativeAux in
/-- The job submitted again is executed on the two machines that are left. -/
theorem allocates_exclusively_witness :
    ∃ t t', runFrom (scheduler config).run (ConservativeBf.new config 0 0, Platform.new 0) events = .ok t ∧
      (scheduler config).run t (.makeDecisions 2 2 draws draws) = .ok t' ∧
      t'.1.executions.map (fun e => (e.job.id, e.machines, e.repairMachines)) = [("w0!1#1", {1, 2}, {0})] ∧
      ExecutesExclusively (t.2.running.map fun r => (r.id, r.machines)) t.2.killed t'.1.decision.decisions t'.1.executions := by
  have hok : (runFrom (scheduler config).run (ConservativeBf.new config 0 0, Platform.new 0)
      (events ++ [.makeDecisions 2 2 draws draws])).toOption.map (fun t => t.1.executions.map fun e =>
        (e.job.id, e.machines, e.repairMachines)) = some [("w0!1#1", {1, 2}, {0})] := by
    decide +kernel
  obtain ⟨t', ht', hexecutions⟩ := toOption_map_eq_some.1 hok
  obtain ⟨t, ht, hlast⟩ := of_runFrom_append ht'
  obtain ⟨t'', hstep, hend⟩ := of_runFrom_cons hlast
  cases hend
  refine ⟨t, t', ht, hstep, hexecutions,
    (allocates_exclusively config 0 0 events _ (fun job hjob => ?_) (fun e he => ?_) t t' ht hstep).1⟩
  · simp only [events, List.cons_append, List.nil_append, List.mem_cons, ConservativeEvent.jobSubmitted.injEq, reduceCtorEq,
      List.not_mem_nil, or_false, false_or] at hjob
    rcases hjob with rfl | rfl | rfl
    · exact ⟨jobIdentifier "1", rfl⟩
    · exact ⟨jobIdentifier "2", rfl⟩
    · exact ⟨jobIdentifier "1#1", rfl⟩
  · simp only [events, List.cons_append, List.nil_append, List.mem_cons, List.not_mem_nil, or_false] at he
    rcases he with rfl | rfl | rfl | rfl | rfl | rfl | rfl | rfl | rfl | rfl <;> simp [WithoutReservations, Job.isReservation]

end ScheduleTest
