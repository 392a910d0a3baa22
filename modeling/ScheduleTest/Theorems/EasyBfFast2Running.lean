import ScheduleTest.Lemmas.EasyBfFast2

/-!
# The running jobs of easy_bf_fast2

The scheduler keeps the jobs that run twice, as the keys of the allocations and as a set of ids. The handlers of failures and the
test for the end of the simulation ask the set. It is updated wherever a job is executed but where jobs have ended and the priority
job is executed on machines of its own. Without that step the two agree in every run.
-/

namespace ScheduleTest

open Execution FastState EasyBFFast2

/-- The running jobs are those that were executed and whose ends have not been dealt with, and what relies on that: a failure of a
machine marks every job on it, the next pass kills the jobs marked, and the end of the simulation is announced when no job runs. -/
structure RunningJobsKept (c : FastConfig) (t : EasyState × Platform) : Prop where
  running : ∀ id, id ∈ t.1.runningJobs ↔ ∃ e ∈ t.1.currentAllocations.entries, e.1.id = id
  executed : (held t.1.toFastState).Perm ((t.2.running ++ t.2.reported).map fun r => (r.id, r.machines))
  down : ∀ date number repair, number ∉ t.1.repairMachines → ∀ r ∈ t.2.running ++ t.2.reported, number ∈ r.machines →
    r.id ∈ (t.1.onMachineDownForRepair c date number repair).myKillJobs
  downUp : ∀ number, ∀ r ∈ t.2.running ++ t.2.reported, number ∈ r.machines →
    r.id ∈ (t.1.onMachineInstantDownUp number).myKillJobs
  killed : ∀ date s', step c t.1 (.makeDecisions date) = .ok s' → ∀ id ∈ t.1.myKillJobs, (∀ r ∈ t.2.reported, r.id ≠ id) →
    id ∈ kills s'.decision.decisions
  finished : .finishedSubmittingJobs ∈ t.1.decision.decisions → t.2.running = []

/-- When jobs have ended, the priority job is not executed on machines of its own: it shares a machine, or does not fit yet. -/
def SparesPriorityJob (c : FastConfig) (s : EasyState) : FastEvent → Prop
  | .makeDecisions _ => s.jobsEndedRecently ≠ [] →
      ∀ t ∈ (runFrom (finishJob c) { s with decision := s.decision.clear } s.jobsEndedRecently).toOption,
        ∀ entry ∈ t.priorityJob, c.shares entry.1 ∨ t.nbAvailableMachines < entry.1.nbRequestedResources
  | _ => True

instance (c : FastConfig) (s : EasyState) : (event : FastEvent) → Decidable (SparesPriorityJob c s event)
  | .makeDecisions _ => inferInstanceAs (Decidable (s.jobsEndedRecently ≠ [] →
      ∀ t ∈ (runFrom (finishJob c) { s with decision := s.decision.clear } s.jobsEndedRecently).toOption,
        ∀ entry ∈ t.priorityJob, c.shares entry.1 ∨ t.nbAvailableMachines < entry.1.nbRequestedResources))
  | .jobSubmitted _ => isTrue trivial
  | .jobCompleted _ => isTrue trivial
  | .jobsKilled _ => isTrue trivial
  | .requestedCall .. => isTrue trivial
  | .machinesAvailable _ => isTrue trivial
  | .myKillJob _ => isTrue trivial
  | .noMoreStaticJobToSubmit => isTrue trivial

namespace EasyFast2RunningAux

variable {c : FastConfig} {s s' : EasyState} {job : Job} {released : List Job} {date : ℚ}

/-- The running jobs are those that hold machines. -/
def RunsHeld (s : EasyState) : Prop := ∀ id, id ∈ s.runningJobs ↔ id ∈ (held s.toFastState).map Prod.fst

/-- A job that holds machines is not among the running jobs. -/
def Missing (s : EasyState) : Prop := ∃ id ∈ (held s.toFastState).map Prod.fst, id ∉ s.runningJobs

/-- The jobs that hold machines after one has been executed. -/
theorem mem_held_started {f f' : FastState} (hf : StartedFrame f job f') (hnew : f.Fresh job) (id : String) :
    id ∈ (held f').map Prod.fst ↔ id ∈ (held f).map Prod.fst ∨ id = job.id := by
  rw [((held_started hf hnew).map Prod.fst).mem_iff]
  simp

theorem not_mem_held {f : FastState} (hnew : f.Fresh job) : job.id ∉ (held f).map Prod.fst := by
  intro hmem
  obtain ⟨x, hx, hid⟩ := List.mem_map.1 hmem
  obtain ⟨e, he, rfl⟩ := List.mem_map.1 hx
  exact hnew e he hid

/-- An act adds the job that it executes to both. -/
theorem act_runsHeld {a b : EasyState × List Job} (h : Act c date a b)
    (hj : JobsOk a.1.toFastState (waitingJobs a.1 ++ a.2)) (hr : RunsHeld a.1) : RunsHeld b.1 := by
  cases h with
  | @start s job pending released released' f hf hprecede hsub hjobs =>
    intro id
    have hnew := (hj.perm (waiting_perm hjobs)).fresh job List.mem_cons_self
    have hmem := mem_held_started hf.frame hnew id
    rw [← hr id] at hmem
    refine Iff.trans ?_ hmem.symm
    rw [hf.frame.running, Finset.mem_insert, or_comm]
  | promote => exact hr
  | wait => exact hr
  | reject => exact hr

/-- No act adds a job that holds machines already to the running jobs. -/
theorem act_missing {a b : EasyState × List Job} (h : Act c date a b)
    (hj : JobsOk a.1.toFastState (waitingJobs a.1 ++ a.2)) (hm : Missing a.1) : Missing b.1 := by
  cases h with
  | @start s job pending released released' f hf hprecede hsub hjobs =>
    obtain ⟨id, hid, hnot⟩ := hm
    have hnew := (hj.perm (waiting_perm hjobs)).fresh job List.mem_cons_self
    refine ⟨id, (mem_held_started hf.frame hnew id).2 (.inl hid), ?_⟩
    change id ∉ f.runningJobs
    rw [hf.frame.running, Finset.mem_insert]
    rintro (rfl | hmem)
    · exact not_mem_held hnew hid
    · exact hnot hmem
  | promote => exact hm
  | wait => exact hm
  | reject => exact hm

/-- Where the priority job is spared, the opening of a pass keeps the running jobs. -/
theorem opening_runsHeld {jobEnded : Bool} (h : Opening c date s jobEnded released s')
    (hj : JobsOk s.toFastState (waitingJobs s ++ released)) (hr : RunsHeld s)
    (hspare : jobEnded = true → ∀ entry ∈ s.priorityJob, c.shares entry.1 ∨ s.nbAvailableMachines < entry.1.nbRequestedResources) :
    RunsHeld s' := by
  cases h with
  | nothing => exact hr
  | blocked => exact hr
  | @executed _ job d f hended hprio hf hacts =>
    obtain ⟨hnew, hjobs⟩ := priorityStarted_jobs hj hprio hf.frame
    have hshares : c.shares job := by
      rcases hspare hended _ hprio with hshares | hlt
      · exact hshares
      · cases hf with
        | onCore hshares => exact hshares
        | onNewCoreMachine hshares => exact hshares
        | onMachines _ hfit => exact absurd hlt (not_lt.2 hfit)
    refine Acts.keep (fun _ _ => act_runsHeld) hacts (hjobs.congr rfl rfl rfl) fun id => ?_
    have hmem := mem_held_started hf.frame hnew id
    rw [← hr id] at hmem
    refine Iff.trans ?_ hmem.symm
    simp only [if_pos hshares]
    rw [hf.frame.running, Finset.mem_insert, or_comm]

/-- A priority job that is executed on machines of its own is not among the running jobs. -/
theorem opening_missing {jobEnded : Bool} {d : ℚ} (h : Opening c date s jobEnded released s')
    (hj : JobsOk s.toFastState (waitingJobs s ++ released)) (hr : RunsHeld s) (hended : jobEnded = true)
    (hprio : s.priorityJob = some (job, d)) (hshares : ¬ c.shares job)
    (hfit : (job.nbRequestedResources : ℤ) ≤ s.nbAvailableMachines) : Missing s' := by
  cases h with
  | nothing h => simp [hended, hprio] at h
  | blocked _ hprio' hlt =>
    obtain ⟨rfl, rfl⟩ := Prod.mk.inj (Option.some.inj (hprio.symm.trans hprio'))
    exact absurd hlt (not_lt.2 hfit)
  | executed _ hprio' hf hacts =>
    obtain ⟨rfl, rfl⟩ := Prod.mk.inj (Option.some.inj (hprio.symm.trans hprio'))
    obtain ⟨hnew, hjobs⟩ := priorityStarted_jobs hj hprio hf.frame
    refine Acts.keep (fun _ _ => act_missing) hacts (hjobs.congr rfl rfl rfl) ⟨job.id, ?_, ?_⟩
    · exact (mem_held_started hf.frame hnew job.id).2 (.inr rfl)
    · simp only [if_neg hshares]
      rw [hr]
      exact not_mem_held hnew

/-- The end of jobs takes them off both. -/
theorem finished_runsHeld {ended : List Job} (h : FinishedAll s ended s') (hr : RunsHeld s) : RunsHeld s' := by
  intro id
  rw [h.running, hr]
  simp only [held, h.entries, List.map_map, List.mem_map, List.mem_filter, Function.comp_apply, decide_eq_true_eq]
  constructor
  · rintro ⟨⟨e, he, rfl⟩, hnot⟩
    exact ⟨e, ⟨he, hnot⟩, rfl⟩
  · rintro ⟨e, ⟨he, hnot⟩, rfl⟩
    exact ⟨⟨e, he, rfl⟩, hnot⟩

/-- What every step that spares the priority job keeps. -/
structure Kept (t : EasyState × Platform) : Prop where
  tracks : Tracks t.1 t.2
  running : RunsHeld t.1
  finished : .finishedSubmittingJobs ∈ t.1.decision.decisions → t.2.running = []

/-- Before the priority job is looked at, the jobs that run are those that hold machines. -/
theorem sendKills_kept {p : Platform} {t : EasyState} (h : Tracks s p) (hr : RunsHeld s) (hall : FinishedAll s s.jobsEndedRecently t) :
    JobsOk (sendKills t).toFastState (waitingJobs (sendKills t) ++ t.jobsReleasedRecently) ∧ RunsHeld (sendKills t) ∧
      (sendKills t).priorityJob = t.priorityJob ∧ (sendKills t).nbAvailableMachines = t.nbAvailableMachines := by
  obtain ⟨d, hkills, -⟩ := sendKills_eq t
  have hruns : RunsHeld t := finished_runsHeld hall hr
  rw [hkills]
  exact ⟨(h.finished hall).1.congr rfl rfl rfl, hruns, rfl, rfl⟩

/-- A pass that spares the priority job. -/
theorem decided_kept {p : Platform} {t : EasyState × Platform} (h : Kept (s, p))
    (hspare : SparesPriorityJob c s (.makeDecisions date)) (hx : (scheduler c).run (s, p) (.makeDecisions date) = .ok t) : Kept t := by
  have htracks := h.tracks.run hx
  obtain ⟨-, s', hs, rfl⟩ := JobScheduler.run_decided rfl hx
  obtain ⟨w, hw, rfl⟩ := map_eq_ok.1 hs
  obtain ⟨t, u, v, hfinish, hopen, hacts, rfl⟩ := makeDecisions_acts hw
  have hclear := h.tracks.clear
  obtain ⟨-, htables, hnot⟩ := hclear.pass rfl hfinish hopen hacts
  have hall := finishJobs_all hfinish
  obtain ⟨hjobs, hruns, hprio, hav⟩ := sendKills_kept hclear h.running hall
  have hu : RunsHeld u := by
    refine opening_runsHeld hopen hjobs hruns fun hended entry hentry => ?_
    rw [hprio] at hentry
    rw [hav]
    refine hspare ?_ t (by rw [hfinish]; rfl) entry hentry
    simpa using hended
  obtain ⟨_, hopened⟩ := hopen.progress hjobs
  have hv : RunsHeld v := Acts.keep (fun _ _ => act_runsHeld) hacts hopened.jobs hu
  obtain ⟨d, need, heq, ds, hds, hnone, hfin⟩ := sendFinished_eq v.toFastState date
  refine ⟨htracks, ?_, fun hmem => ?_⟩
  · change RunsHeld { v with toFastState := (v.toFastState.sendFinishedSubmittingJobs date).clearRecentDataStructures }
    rw [heq]
    exact hv
  · change .finishedSubmittingJobs ∈ (v.toFastState.sendFinishedSubmittingJobs date).decision.decisions at hmem
    rw [heq] at hmem
    change _ ∈ d.decisions at hmem
    rw [hds, List.mem_append] at hmem
    have hidle := hfin (hmem.resolve_left hnot)
    have hempty : held v.toFastState = [] := by
      refine List.eq_nil_iff_forall_not_mem.2 fun x hx => ?_
      have hin := (hv x.1).2 (List.mem_map_of_mem hx)
      rw [hidle] at hin
      exact absurd hin (Finset.notMem_empty _)
    have hruns := htables.held
    rw [hempty, List.nil_perm, List.map_eq_nil_iff] at hruns
    change p.running ++ (executions (v.toFastState.sendFinishedSubmittingJobs date).decision.decisions).map _ = []
    rw [heq]
    change p.running ++ (executions d.decisions).map _ = []
    rw [hds, executions_append, hnone, List.append_nil]
    exact hruns

/-- A pass that does not spare the priority job and goes through. -/
theorem decided_missing {p : Platform} {t : EasyState × Platform} (h : Kept (s, p))
    (hspare : ¬ SparesPriorityJob c s (.makeDecisions date)) (hx : (scheduler c).run (s, p) (.makeDecisions date) = .ok t) :
    Missing t.1 := by
  obtain ⟨-, s', hs, rfl⟩ := JobScheduler.run_decided rfl hx
  obtain ⟨w, hw, rfl⟩ := map_eq_ok.1 hs
  obtain ⟨t, u, v, hfinish, hopen, hacts, rfl⟩ := makeDecisions_acts hw
  have hclear := h.tracks.clear
  have hall := finishJobs_all hfinish
  obtain ⟨hjobs, hruns, hprio, hav⟩ := sendKills_kept hclear h.running hall
  simp only [SparesPriorityJob] at hspare
  push Not at hspare
  obtain ⟨hended, t', ht', ⟨job, d⟩, hentry, hshares, hfit⟩ := hspare
  obtain rfl : t = t' := by
    rw [hfinish] at ht'
    exact Option.some.inj ht'
  have hu : Missing u := by
    refine opening_missing hopen hjobs hruns ?_ (hprio.trans hentry) hshares (hav ▸ hfit)
    simpa using hended
  obtain ⟨_, hopened⟩ := hopen.progress hjobs
  have hv : Missing v := Acts.keep (fun _ _ => act_missing) hacts hopened.jobs hu
  obtain ⟨d', need, heq, -⟩ := sendFinished_eq v.toFastState date
  change Missing { v with toFastState := (v.toFastState.sendFinishedSubmittingJobs date).clearRecentDataStructures }
  rw [heq]
  exact hv

/-- A message other than the one after which the scheduler decides. -/
theorem other_kept {p : Platform} {t : EasyState × Platform} {event : FastEvent} (h : Kept (s, p))
    (hn : event.notice = .other) (hx : (scheduler c).run (s, p) event = .ok t) : Kept t := by
  have htracks := h.tracks.run hx
  obtain ⟨s', hs, rfl⟩ := JobScheduler.run_other hn hx
  obtain ⟨hsame, -, -, hnot⟩ := step_other hn hs
  refine ⟨htracks, fun id => ?_, fun hmem => absurd hmem hnot⟩
  rw [hsame.running, held, hsame.allocations]
  exact h.running id

/-- Every step that spares the priority job. -/
theorem step_kept {t t' : EasyState × Platform} {event : FastEvent} (h : Kept t) (hspare : SparesPriorityJob c t.1 event)
    (hx : (scheduler c).run t event = .ok t') : Kept t' := by
  cases event with
  | jobSubmitted job =>
    have htracks := h.tracks.run hx
    obtain ⟨s', hs, rfl⟩ := JobScheduler.run_submitted rfl hx
    change step c t.1 (.jobSubmitted job) = .ok s' at hs
    obtain ⟨f, hf, rfl⟩ := step_handler (by simp) hs
    change onJobSubmitted _ job = .ok f at hf
    rw [onJobSubmitted] at hf
    split at hf
    · cases hf
    · cases hf
      exact ⟨htracks, h.running, fun hmem => by simp at hmem⟩
  | jobCompleted id =>
    have htracks := h.tracks.run hx
    obtain ⟨s', r, before, after, hs, -, -, rfl⟩ := JobScheduler.run_completed rfl hx
    change step c t.1 (.jobCompleted id) = .ok s' at hs
    obtain ⟨f, hf, rfl⟩ := step_handler (by simp) hs
    change onJobCompleted _ id = .ok f at hf
    rw [onJobCompleted] at hf
    split at hf
    · cases hf
      exact ⟨htracks, h.running, fun hmem => by simp at hmem⟩
    · cases hf
  | makeDecisions date => exact decided_kept h hspare hx
  | jobsKilled ids => exact other_kept h rfl hx
  | requestedCall date id forWhat draws => exact other_kept h rfl hx
  | machinesAvailable machines => exact other_kept h rfl hx
  | myKillJob victim => exact other_kept h rfl hx
  | noMoreStaticJobToSubmit => exact other_kept h rfl hx

/-- A job on a machine is one of those that hold it. -/
theorem mem_jobsOn {p : Platform} (h : Tracks s p) {r : RunningJob} {number : ℕ} (hr : r ∈ p.running ++ p.reported)
    (hnumber : number ∈ r.machines) : r.id ∈ s.jobsOn {number} := by
  have hmem := h.tables.held.mem_iff.2 (List.mem_map_of_mem (f := fun r => (r.id, r.machines)) hr)
  obtain ⟨e, he, heq⟩ := List.mem_map.1 hmem
  obtain ⟨hid, hmachines⟩ := Prod.mk.inj heq
  simp only [jobsOn, List.mem_toFinset, List.mem_map, List.mem_filter, decide_eq_true_eq]
  refine ⟨e, ⟨he, number, ?_⟩, hid⟩
  rw [hmachines, Finset.mem_inter]
  exact ⟨hnumber, Finset.mem_singleton_self _⟩

/-- The jobs that a failure is to kill are killed by the next pass, unless they have ended. -/
theorem killed_next {p : Platform} (h : Tracks s p) (hx : step c s (.makeDecisions date) = .ok s') {id : String}
    (hid : id ∈ s.myKillJobs) (hrun : ∀ r ∈ p.reported, r.id ≠ id) : id ∈ kills s'.decision.decisions := by
  obtain ⟨w, hw, rfl⟩ := map_eq_ok.1 hx
  obtain ⟨t, u, v, hfinish, hopen, hacts, rfl⟩ := makeDecisions_acts hw
  have hclear := h.clear
  have hall := finishJobs_all hfinish
  have hmem : id ∈ t.myKillJobs := by
    refine hall.kills id hid fun hended => ?_
    change id ∈ s.jobsEndedRecently.map Job.id at hended
    rw [h.ended] at hended
    obtain ⟨r, hr, heq⟩ := List.mem_map.1 hended
    exact hrun r hr heq
  obtain ⟨d, hkills, ds, hds, -, -, hkill⟩ := sendKills_eq t
  obtain ⟨hjobs, -⟩ := hclear.finished hall
  have hsent : JobsOk (sendKills t).toFastState (waitingJobs (sendKills t) ++ t.jobsReleasedRecently) := by
    rw [hkills]
    exact hjobs.congr rfl rfl rfl
  obtain ⟨_, h₁⟩ := hopen.progress hsent
  obtain ⟨_, h₂⟩ := Acts.progress hacts h₁.jobs
  obtain ⟨ds', hds', -⟩ := (h₁.trans h₂).sent
  obtain ⟨d', need, heq, ds'', hds'', -⟩ := sendFinished_eq v.toFastState date
  change id ∈ kills (v.toFastState.sendFinishedSubmittingJobs date).decision.decisions
  rw [heq, mem_kills]
  refine ⟨t.myKillJobs, ?_, hmem⟩
  have hv : .killJobs t.myKillJobs ∈ v.decision.decisions := by
    change v.decision.decisions = _ at hds'
    rw [hds', hkills]
    refine List.mem_append_left _ ?_
    change _ ∈ d.decisions
    rw [hds]
    exact List.mem_append_right _ (hkill ⟨id, hmem⟩)
  change _ ∈ d'.decisions
  rw [hds'']
  exact List.mem_append_left _ hv

/-- What is kept is what is meant. -/
theorem runningJobsKept {t : EasyState × Platform} (h : Kept t) : RunningJobsKept c t := by
  have hnonempty : ∀ {r number}, r ∈ t.2.running ++ t.2.reported → number ∈ r.machines →
      t.1.runningJobs.Nonempty ∧ r.id ∈ t.1.jobsOn {number} := by
    intro r number hr hnumber
    have hmem := h.tracks.tables.held.mem_iff.2 (List.mem_map_of_mem (f := fun r => (r.id, r.machines)) hr)
    exact ⟨⟨r.id, (h.running r.id).2 (List.mem_map.2 ⟨_, hmem, rfl⟩)⟩, mem_jobsOn h.tracks hr hnumber⟩
  constructor
  case running =>
    intro id
    rw [h.running id]
    simp [held]
  case executed => exact h.tracks.tables.held
  case down =>
    intro date number repair hworks r hr hnumber
    obtain ⟨hruns, hon⟩ := hnonempty hr hnumber
    rw [onMachineDownForRepair, if_neg hworks]
    simp only [if_pos hruns]
    exact Finset.mem_union_right _ hon
  case downUp =>
    intro number r hr hnumber
    obtain ⟨hruns, hon⟩ := hnonempty hr hnumber
    rw [onMachineInstantDownUp, if_pos hruns]
    exact Finset.mem_union_right _ hon
  case killed => exact fun date s' hx id hid hrun => killed_next h.tracks hx hid hrun
  case finished => exact h.finished

/-- At the start nothing runs. -/
theorem kept_new (c : FastConfig) (date failure : ℚ) : Kept (EasyBFFast2.new c date failure, Platform.new date) where
  tracks := tracks_new c date failure
  running := by simp [RunsHeld, held, EasyBFFast2.new, FastState.new]
  finished := fun _ => rfl

end EasyFast2RunningAux

open EasyFast2RunningAux in
/-- In every run whose passes spare the priority job, the running jobs are those that hold machines and what relies on them works,
in every state reached. A run that goes through and in which they are is a run of such passes. -/
theorem running_jobs_iff (c : FastConfig) (date failure : ℚ) (events : List FastEvent) :
    (AllSteps (scheduler c).run (fun t event => SparesPriorityJob c t.1 event)
        (EasyBFFast2.new c date failure, Platform.new date) events →
      Always (scheduler c).run (RunningJobsKept c) (EasyBFFast2.new c date failure, Platform.new date) events) ∧
    ∀ t, runFrom (scheduler c).run (EasyBFFast2.new c date failure, Platform.new date) events = .ok t →
      Always (scheduler c).run (RunningJobsKept c) (EasyBFFast2.new c date failure, Platform.new date) events →
      AllSteps (scheduler c).run (fun t event => SparesPriorityJob c t.1 event)
        (EasyBFFast2.new c date failure, Platform.new date) events := by
  constructor
  · exact fun hall => always_of_invariant (fun _ _ _ => step_kept) (fun _ => runningJobsKept) (kept_new c date failure) hall
  · intro t hrun halways
    refine allSteps_of_always (fun _ _ _ => step_kept) ?_ (kept_new c date failure) hrun halways
    intro t event t' h hspare hx hkept
    cases event with
    | makeDecisions date =>
      obtain ⟨id, hid, hnot⟩ := decided_missing h hspare hx
      refine hnot ((hkept.running id).2 ?_)
      simpa [held] using hid
    | _ => exact hspare trivial

namespace PriorityJobWitness

/-- Two machines. -/
def config : FastConfig where
  nbMachines := 2

/-- A job of ten seconds. -/
def job (id : String) (nbRequestedResources : ℕ) : Job := { id := id, nbRequestedResources := nbRequestedResources, walltime := 10 }

/-- Two jobs take a machine each, a job that requests both becomes the priority job, and the first of the two ends. -/
def events : List FastEvent :=
  [.jobSubmitted (job "w!1" 1), .jobSubmitted (job "w!2" 1), .makeDecisions 0, .jobSubmitted (job "w!3" 2), .makeDecisions 1,
    .jobCompleted "w!1", .makeDecisions 5]

end PriorityJobWitness

open PriorityJobWitness in
/-- As long as the priority job does not fit, the jobs that hold machines are the running jobs. -/
theorem running_jobs_iff_witness :
    (runFrom (scheduler config).run (EasyBFFast2.new config 0 0, Platform.new 0) events).toOption.map (fun t => t.1.runningJobs) =
        some {"w!2"} ∧
      Always (scheduler config).run (RunningJobsKept config) (EasyBFFast2.new config 0 0, Platform.new 0) events :=
  ⟨by decide +kernel, (running_jobs_iff config 0 0 events).1 (by decide +kernel)⟩

open PriorityJobWitness in
/-- When the other job ends as well, the priority job is executed on both machines and no job is among the running ones. -/
theorem running_jobs_false :
    ¬ ∀ (c : FastConfig) (date failure : ℚ) (events : List FastEvent),
      Always (scheduler c).run (RunningJobsKept c) (EasyBFFast2.new c date failure, Platform.new date) events := by
  intro h
  have halways := h config 0 0 (events ++ [.jobCompleted "w!2", .makeDecisions 6])
  have hend : (runFrom (scheduler config).run (EasyBFFast2.new config 0 0, Platform.new 0)
      (events ++ [.jobCompleted "w!2", .makeDecisions 6])).toOption.map (fun t =>
        decide (t.1.runningJobs = ∅ ∧ t.1.currentAllocations.entries.map (·.1.id) = ["w!3"])) = some true := by
    decide +kernel
  obtain ⟨t, ht, hbad⟩ := toOption_map_eq_some.1 hend
  obtain ⟨hempty, hheld⟩ := of_decide_eq_true hbad
  have hmem : "w!3" ∈ t.1.runningJobs := by
    refine ((halways.last ht).running "w!3").2 (List.mem_map.1 ?_)
    rw [hheld]
    exact List.mem_singleton_self _
  exact Finset.notMem_empty _ (hempty ▸ hmem)

end ScheduleTest
