import ScheduleTest.Lemmas.EasyBfFast2Points

/-!
# The priority job of easy_bf_fast2 waits only where it must

The priority job is looked at again when a job has ended, and only then: a machine that is repaired or reported available does not
lead to it being executed. The search for the date at which it can start counts the machines that are available or held by a job. A
machine under repair is neither, and with too many of them the search finds no date and the scheduler aborts.
-/

namespace ScheduleTest

open Execution FastState EasyBFFast2

/-- The machines available, those that jobs hold alone, and the shared ones. -/
def machinesInService (c : FastConfig) (s : EasyState) : ℤ :=
  s.nbAvailableMachines +
    (((s.currentAllocations.entries.filter (fun e => ¬ c.shares e.1)).map (·.1.nbRequestedResources)).sum +
      s.availableCoreMachines.card : ℕ)

/-- A pass leaves no priority job behind that would fit, and it does not abort for want of a date at which a job can start. -/
def LeavesNoneWaiting (c : FastConfig) (s : EasyState) (event : FastEvent) : Prop :=
  ∀ date, event = .makeDecisions date →
    (∀ s', step c s event = .ok s' → ∀ entry ∈ s'.priorityJob, s'.nbAvailableMachines < entry.1.nbRequestedResources) ∧
    ∀ id, step c s event ≠ .error (.neverExecutable id)

/-- The pending jobs up to the first that does not fit request no more machines than are in service. -/
def PendingInService (c : FastConfig) (date : ℚ) : EasyState → List Job → Prop
  | _, [] => True
  | s, job :: rest => (job.nbRequestedResources : ℤ) ≤ machinesInService c s ∧
    match tryExecute c s job date with
    | .ok (some s') => PendingInService c date { s' with pendingJobs := rest } rest
    | _ => True

instance decidablePendingInService (c : FastConfig) (date : ℚ) : (s : EasyState) → (jobs : List Job) →
    Decidable (PendingInService c date s jobs)
  | _, [] => isTrue trivial
  | s, job :: rest =>
    match h : tryExecute c s job date with
    | .ok (some s') =>
      have := decidablePendingInService c date { s' with pendingJobs := rest } rest
      decidable_of_iff ((job.nbRequestedResources : ℤ) ≤ machinesInService c s ∧
        PendingInService c date { s' with pendingJobs := rest } rest) (by rw [PendingInService, h])
    | .ok none => decidable_of_iff ((job.nbRequestedResources : ℤ) ≤ machinesInService c s) (by rw [PendingInService, h, and_true])
    | .error _ => decidable_of_iff ((job.nbRequestedResources : ℤ) ≤ machinesInService c s) (by rw [PendingInService, h, and_true])

/-- A job that is released while there is no priority job is rejected or requests no more machines than are in service. -/
def ReleasedInService (c : FastConfig) (s : EasyState) (job : Job) : Prop :=
  s.priorityJob = none → job.nbRequestedResources ≤ c.nbMachines → (job.nbRequestedResources : ℤ) ≤ machinesInService c s

instance (c : FastConfig) (s : EasyState) (job : Job) : Decidable (ReleasedInService c s job) :=
  inferInstanceAs (Decidable (s.priorityJob = none → _ → _))

/-- When no job has ended, the priority job does not fit; and the jobs that are looked at while there is no priority job request no
more machines than are in service. -/
structure ServesPriorityJob (c : FastConfig) (s : EasyState) (date : ℚ) : Prop where
  waits : s.jobsEndedRecently = [] → ∀ entry ∈ s.priorityJob, s.nbAvailableMachines < entry.1.nbRequestedResources
  pending : s.jobsEndedRecently ≠ [] → ∀ t ∈ (runFrom (finishJob c) s s.jobsEndedRecently).toOption, ∀ entry ∈ t.priorityJob,
    ∀ executed ∈ (executePriorityJob c (sendKills t) entry.1 date).toOption, ∀ s' ∈ executed, PendingInService c date s' s'.pendingJobs
  released : ∀ u ∈ (endAndExecute c s date).toOption, AllSteps (releaseJob c date) (ReleasedInService c) u u.jobsReleasedRecently

instance (c : FastConfig) (s : EasyState) (date : ℚ) : Decidable (ServesPriorityJob c s date) :=
  decidable_of_iff ((s.jobsEndedRecently = [] → ∀ entry ∈ s.priorityJob, s.nbAvailableMachines < entry.1.nbRequestedResources) ∧
    (s.jobsEndedRecently ≠ [] → ∀ t ∈ (runFrom (finishJob c) s s.jobsEndedRecently).toOption, ∀ entry ∈ t.priorityJob,
      ∀ executed ∈ (executePriorityJob c (sendKills t) entry.1 date).toOption, ∀ s' ∈ executed,
        PendingInService c date s' s'.pendingJobs) ∧
    ∀ u ∈ (endAndExecute c s date).toOption, AllSteps (releaseJob c date) (ReleasedInService c) u u.jobsReleasedRecently)
    ⟨fun h => ⟨h.1, h.2.1, h.2.2⟩, fun h => ⟨h.waits, h.pending, h.released⟩⟩

/-- The condition on the passes. Other messages meet it. -/
def InService (c : FastConfig) (s : EasyState) : FastEvent → Prop
  | .makeDecisions date => ServesPriorityJob c { s with decision := s.decision.clear } date
  | _ => True

instance (c : FastConfig) (s : EasyState) : (event : FastEvent) → Decidable (InService c s event)
  | .makeDecisions date => inferInstanceAs (Decidable (ServesPriorityJob c { s with decision := s.decision.clear } date))
  | .jobSubmitted _ => isTrue trivial
  | .jobCompleted _ => isTrue trivial
  | .jobsKilled _ => isTrue trivial
  | .requestedCall .. => isTrue trivial
  | .machinesAvailable _ => isTrue trivial
  | .myKillJob _ => isTrue trivial
  | .noMoreStaticJobToSubmit => isTrue trivial

namespace EasyFast2WaitingAux

variable {c : FastConfig} {s s' : EasyState} {job : Job} {waiting : List Job} {date : ℚ} {e : Abort}

/-- The priority job does not fit. -/
def Blocked (s : EasyState) : Prop := ∀ entry ∈ s.priorityJob, s.nbAvailableMachines < entry.1.nbRequestedResources

/-- Executing jobs leaves fewer machines, and a job becomes the priority job where it does not fit. -/
theorem act_blocked {a b : EasyState × List Job} (h : Act c date a b) (hb : Blocked a.1) : Blocked b.1 := by
  cases h with
  | start hf => exact fun entry hentry => hf.frame.available.trans_lt (hb entry hentry)
  | promote _ hfit =>
    rintro entry hentry
    obtain rfl := Option.some.inj hentry
    exact hfit
  | wait => exact hb
  | reject => exact hb

theorem acts_blocked {a b : EasyState × List Job} (h : Acts c date a b) (hb : Blocked a.1) : Blocked b.1 :=
  Acts.invariant (I := fun x => Blocked x.1) (fun _ _ => act_blocked) h hb

/-- The opening of a pass ends with a priority job that does not fit, as long as none that fits is passed over. -/
theorem opening_blocked {jobEnded : Bool} (h : Opening c date s jobEnded waiting s') (hb : jobEnded = false → Blocked s) :
    Blocked s' := by
  cases h with
  | nothing h =>
    rcases h with h | h
    · exact hb h
    · intro entry hentry
      rw [h] at hentry
      cases hentry
  | blocked _ hprio hfit =>
    intro entry hentry
    rw [hprio] at hentry
    obtain rfl := Option.some.inj hentry
    exact hfit
  | executed _ _ _ hacts => exact acts_blocked hacts fun entry hentry => nomatch hentry

/-- A job that is executed is executed, or there is no machine where one was counted. -/
theorem tryExecute_error (hx : tryExecute c s job date = .error e) : e = .emptyIntervalSet := by
  rw [EasyBFFast2.tryExecute] at hx
  split at hx
  · cases hx
  · cases hx
  · rename_i e' he
    cases hx
    rw [FastState.tryExecute] at he
    split at he
    · split at he
      · cases he
      · split at he
        · have hnew := map_eq_error.1 he
          rw [executeOnNewCoreMachine] at hnew
          dsimp only at hnew
          split at hnew
          · cases hnew
          · cases hnew
            rfl
        · cases he
    · split at he <;> cases he

/-- A job that requests no more machines than are in service finds a date. -/
theorem setPriorityJob_finds (h : Counts c s) (hlt : s.nbAvailableMachines < job.nbRequestedResources)
    (hservice : (job.nbRequestedResources : ℤ) ≤ machinesInService c s) : setPriorityJob c s job ≠ .error e := by
  intro hx
  rcases h.search hlt with ⟨pre, point, post, -, hfound, -⟩ | ⟨-, hfew⟩
  · rw [setPriorityJob, hfound] at hx
    cases hx
  · rw [List.nil_append, h.released_all] at hfew
    rw [machinesInService] at hservice
    omega

/-- The loop over the pending jobs finds a date for the job it stops at. -/
theorem executePending_error (waiting : List Job) {rest : List Job} (hcounts : Counts c s)
    (hj : JobsOk s.toFastState (waitingJobs s ++ waiting))
    (hnone : s.priorityJob = none) (hp : s.pendingJobs = rest) (hservice : PendingInService c date s rest)
    (hx : executePending c date s rest = .error e) : e = .emptyIntervalSet := by
  induction rest generalizing s with
  | nil => cases hx
  | cons job rest ih =>
    have hjobs : (job :: (rest ++ waiting)).Perm (s.pendingJobs ++ waiting) := by
      rw [hp, List.cons_append]
    rw [executePending] at hx
    rw [PendingInService] at hservice
    split at hx
    · rename_i t ht
      rw [ht] at hservice
      obtain ⟨f, hf, rfl⟩ := tryExecute_some ht
      have hprecede : mayPrecede s job date := by simp [mayPrecede, hnone]
      have hact : Act c date (s, waiting) (_, waiting) := .start hf hprecede (by simp [hp]) hjobs
      obtain ⟨new, hprog⟩ := hact.progress hj
      exact ih (hcounts.act hact hj) hprog.jobs (by exact hnone) (by rfl) hservice.2 hx
    · rename_i ht
      have hcounts' : Counts c { s with pendingJobs := rest } := hcounts.congr rfl rfl rfl rfl
      exact absurd hx (setPriorityJob_finds hcounts' (tryExecute_none ht).1 hservice.1)
    · rename_i e' ht
      cases hx
      exact tryExecute_error ht

theorem backfill_error {before rest : List Job} (hx : backfill c date s before rest = .error e) : e = .emptyIntervalSet := by
  induction rest generalizing s before with
  | nil => cases hx
  | cons job rest ih =>
    rw [backfill] at hx
    split at hx
    · split at hx
      · exact ih hx
      · exact ih hx
      · rename_i e' ht
        cases hx
        exact tryExecute_error ht
    · exact ih hx

/-- What is executed when jobs have ended finds a date for the job that becomes the priority job. -/
theorem handleEndedJobExecution_error {jobEnded : Bool} (hcounts : Counts c s)
    (hj : JobsOk s.toFastState (waitingJobs s ++ waiting))
    (hservice : jobEnded = true → ∀ entry ∈ s.priorityJob, ∀ executed ∈ (executePriorityJob c s entry.1 date).toOption,
      ∀ s' ∈ executed, PendingInService c date s' s'.pendingJobs)
    (hx : handleEndedJobExecution c s jobEnded date = .error e) : e = .emptyIntervalSet := by
  rw [handleEndedJobExecution] at hx
  split at hx
  · cases hx
  · rename_i job d hsome
    obtain ⟨hended, hprio⟩ : jobEnded = true ∧ s.priorityJob = some (job, d) := by
      split at hsome
      · rename_i h
        exact ⟨h, hsome⟩
      · cases hsome
    split at hx
    · rename_i t ht
      have hpend := hservice hended _ hprio (some t) (by rw [ht]; rfl) t rfl
      obtain ⟨executed, he, hmap⟩ := map_eq_ok.1 ht
      cases executed with
      | none => cases hmap
      | some u =>
        obtain ⟨f, hf, rfl⟩ := tryExecute_some he
        cases hmap
        split at hx
        · exact backfill_error hx
        · rename_i e' herr
          cases hx
          obtain ⟨hnew, hjobs⟩ := priorityStarted_jobs hj hprio hf.frame
          have hstarted := hcounts.started date hnew hf
          refine executePending_error waiting ?_ ?_ ?_ ?_ hpend herr
          · exact hstarted.congr rfl rfl rfl rfl
          · exact hjobs.congr rfl rfl rfl
          · rfl
          · rfl
    · exact backfill_error hx
    · rename_i e' ht
      cases hx
      exact tryExecute_error (map_eq_error.1 ht)

/-- A job that is released finds a date where it becomes the priority job. -/
theorem releaseJob_error (hcounts : Counts c s) (hservice : ReleasedInService c s job)
    (hx : releaseJob c date s job = .error e) : e = .emptyIntervalSet := by
  have hqueue : (s.priorityJob = none → s.nbAvailableMachines < job.nbRequestedResources) →
      job.nbRequestedResources ≤ c.nbMachines → enqueue c s job ≠ .error e := by
    intro hfit hsmall hq
    rw [enqueue] at hq
    split at hq
    · rename_i hnone
      exact setPriorityJob_finds hcounts (hfit hnone) (hservice hnone hsmall) hq
    · split at hq <;> cases hq
  rw [releaseJob] at hx
  split at hx
  · cases hx
  · rename_i hsmall
    split at hx
    · split at hx
      · cases hx
      · rename_i ht
        exact absurd hx (hqueue (fun _ => (tryExecute_none ht).1) (not_lt.1 hsmall))
      · rename_i e' ht
        cases hx
        exact tryExecute_error ht
    · rename_i hprecede
      refine absurd hx (hqueue (fun hnone => ?_) (not_lt.1 hsmall))
      simp [mayPrecede, hnone] at hprecede

/-- The released jobs find dates one after the other. -/
theorem releaseJobs_error (hcounts : Counts c s) (hj : JobsOk s.toFastState (waitingJobs s ++ waiting))
    (hservice : AllSteps (releaseJob c date) (ReleasedInService c) s waiting)
    (hx : runFrom (releaseJob c date) s waiting = .error e) : e = .emptyIntervalSet := by
  induction waiting generalizing s with
  | nil => cases hx
  | cons job rest ih =>
    rw [runFrom] at hx
    split at hx
    · rename_i t ht
      have hacts := releaseJob_acts ht rest
      obtain ⟨new, hprog⟩ := Acts.progress hacts hj
      have hcounts' : Counts c t := Acts.keep (fun _ _ hact hj hcounts => Counts.act hcounts hact hj) hacts hj hcounts
      exact ih hcounts' hprog.jobs (hservice.2 t ht) hx
    · rename_i e' ht
      cases hx
      exact releaseJob_error hcounts hservice.1 ht

/-- The end of a job aborts only where the job holds no machine. -/
theorem finishJob_error (hx : finishJob c s job = .error e) : ∀ id, e ≠ .neverExecutable id := by
  rw [finishJob] at hx
  split at hx
  · cases hx
    simp
  · split at hx
    · have hf := map_eq_error.1 hx
      rw [finishOnCore] at hf
      dsimp only at hf
      split at hf
      · cases hf
      · cases hf
        simp
    · cases hx

/-- A pass that serves the priority job does not abort for want of a date. -/
theorem makeDecisions_error {p : Platform} (hcounts : Counts c s) (htracks : Tracks s p) (hserves : ServesPriorityJob c s date)
    (hx : makeDecisions c s date = .error e) : ∀ id, e ≠ .neverExecutable id := by
  have hempty : ∀ id, Abort.emptyIntervalSet ≠ .neverExecutable id := by simp
  have hopens : ∀ {e}, endAndExecute c s date = .error e → ∀ id, e ≠ .neverExecutable id := by
    intro e hw
    rw [endAndExecute] at hw
    split at hw
    · rename_i t ht
      obtain ⟨hcounts', hjobs⟩ := hcounts.killsSent htracks ht
      have heq := handleEndedJobExecution_error (s := sendKills t) hcounts' hjobs (fun hended entry hentry => ?_) hw
      · exact heq ▸ hempty
      · obtain ⟨d, hkills, -⟩ := sendKills_eq t
        have hprio : (sendKills t).priorityJob = t.priorityJob := by rw [hkills]
        rw [hprio] at hentry
        exact hserves.pending (by simpa using hended) t (by rw [ht]; rfl) entry hentry
    · rename_i e' ht
      cases hw
      exact runFrom_error (I := fun _ => True) (C := fun _ _ => True) (fun _ _ _ _ _ _ => trivial)
        (fun _ _ _ _ _ herr => finishJob_error herr) trivial (allSteps_of_forall fun _ _ => trivial) ht
  rw [makeDecisions] at hx
  split at hx
  · rename_i u hu
    have hrelease := map_eq_error.1 hx
    obtain ⟨t, w, ht, hopen, hacts, hreleased⟩ := endAndExecute_acts hu
    obtain ⟨hcounts', hjobs⟩ := hcounts.killsSent htracks ht
    obtain ⟨_, hopened⟩ := hopen.progress hjobs
    obtain ⟨_, hprog⟩ := Acts.progress hacts hopened.jobs
    have hu' : Counts c u := Acts.keep (fun _ _ hact hj hcounts => Counts.act hcounts hact hj) hacts hopened.jobs
      (hcounts'.opening hopen hjobs)
    have hjobs' : JobsOk u.toFastState (waitingJobs u ++ u.jobsReleasedRecently) := by
      rw [hreleased]
      exact hprog.jobs
    exact releaseJobs_error hu' hjobs' (hserves.released u (by rw [hu]; rfl)) hrelease ▸ hempty
  · rename_i e' hw
    cases hx
    exact hopens hw

/-- A pass that serves the priority job leaves none behind that would fit. -/
theorem makeDecisions_blocked (hserves : ServesPriorityJob c s date) (hx : makeDecisions c s date = .ok s') : Blocked s' := by
  obtain ⟨t, u, v, hfinish, hopen, hacts, rfl⟩ := makeDecisions_acts hx
  have hu : Blocked u := by
    refine opening_blocked hopen fun hnone => ?_
    have hended : s.jobsEndedRecently = [] := by simpa using hnone
    rw [hended] at hfinish
    cases hfinish
    obtain ⟨d, hkills, -⟩ := sendKills_eq s
    rw [hkills]
    exact hserves.waits hended
  have hv := acts_blocked hacts hu
  obtain ⟨d, need, heq, -⟩ := sendFinished_eq v.toFastState date
  rw [heq]
  exact hv

/-- What the condition gives, in a state in which the jobs and the points are in order. -/
theorem leavesNoneWaiting {p : Platform} (hcounts : Counts c s) (htracks : Tracks s p) {event : FastEvent}
    (hservice : InService c s event) : LeavesNoneWaiting c s event := by
  rintro date rfl
  have hclear : Counts c { s with decision := s.decision.clear } := hcounts.congr rfl rfl rfl rfl
  constructor
  · intro s' hx
    obtain ⟨t, ht, rfl⟩ := map_eq_ok.1 hx
    have hblocked : Blocked t := makeDecisions_blocked hservice ht
    exact hblocked
  · intro id hx
    exact makeDecisions_error hclear htracks.clear hservice (map_eq_error.1 hx) id rfl

end EasyFast2WaitingAux

open EasyFast2WaitingAux in
/-- In every run whose passes meet the condition, every pass leaves no priority job waiting that would fit and finds a date for each
job that becomes the priority job. -/
theorem leaves_none_waiting (c : FastConfig) (date failure : ℚ) (events : List FastEvent)
    (hservice : AllSteps (scheduler c).run (fun t event => InService c t.1 event)
      (EasyBFFast2.new c date failure, Platform.new date) events) :
    AllSteps (scheduler c).run (fun t event => LeavesNoneWaiting c t.1 event)
      (EasyBFFast2.new c date failure, Platform.new date) events :=
  allSteps_of_invariant (I := fun t => Tracks t.1 t.2 ∧ Counts c t.1) (fun _ _ _ h _ hx => ⟨h.1.run hx, h.2.run h.1 hx⟩)
    (fun _ _ h hin => leavesNoneWaiting h.2 h.1 hin) ⟨tracks_new c date failure, counts_new c date failure⟩ hservice

namespace RepairedMachineWitness

/-- Two machines and a failure every five seconds. -/
def config : FastConfig where
  nbMachines := 2
  fixedFailures := 5
  repairTime := 10

/-- A job of a hundred seconds. -/
def job (id : String) (nbRequestedResources : ℕ) : Job := { id := id, nbRequestedResources := nbRequestedResources, walltime := 100 }

/-- Machine 0 fails. -/
def fails : FastEvent := .requestedCall 5 0 .fixedFailure { number := 0, failure := 0, repair := 0, victim := "" }

/-- The repair of machine 0 is done. -/
def repaired : FastEvent := .requestedCall 15 0 .repairDone { number := 0, failure := 0, repair := 0, victim := "" }

/-- Machine 0 fails, a job runs on machine 1, and another one becomes the priority job. -/
def events : List FastEvent :=
  [fails, .jobSubmitted (job "w!1" 1), .makeDecisions 5, .jobSubmitted (job "w!2" 1), .makeDecisions 6]

end RepairedMachineWitness

open RepairedMachineWitness in
/-- The second job waits for the end of the first one, and with it and the repair it is executed. -/
theorem leaves_none_waiting_witness :
    (runFrom (scheduler config).run (EasyBFFast2.new config 0 0, Platform.new 0)
        (events ++ [.jobCompleted "w!1", repaired, .makeDecisions 15])).toOption.map (fun t => t.2.running.map (·.id)) =
      some ["w!2"] ∧
    AllSteps (scheduler config).run (fun t event => LeavesNoneWaiting config t.1 event)
      (EasyBFFast2.new config 0 0, Platform.new 0) (events ++ [.jobCompleted "w!1", repaired, .makeDecisions 15]) :=
  ⟨by decide +kernel, leaves_none_waiting config 0 0 _ (by decide +kernel)⟩

open RepairedMachineWitness in
/-- When the repair is done before the first job ends, the second job is left waiting while a machine is available; and a job that
requests both machines while one is under repair makes the scheduler abort. -/
theorem leaves_none_waiting_false :
    (¬ ∀ (c : FastConfig) (date failure : ℚ) (events : List FastEvent) (d : ℚ) (t : EasyState × Platform),
      (∀ event ∈ events, event.DrawsMachine c) →
      runFrom (scheduler c).run (EasyBFFast2.new c date failure, Platform.new date) (events ++ [.makeDecisions d]) = .ok t →
      ∀ entry ∈ t.1.priorityJob, t.1.nbAvailableMachines < entry.1.nbRequestedResources) ∧
    ¬ ∀ (c : FastConfig) (date failure : ℚ) (events : List FastEvent) (id : String), (∀ event ∈ events, event.DrawsMachine c) →
      runFrom (scheduler c).run (EasyBFFast2.new c date failure, Platform.new date) events ≠ .error (.neverExecutable id) := by
  constructor
  · intro h
    have hdraw : ∀ event ∈ events ++ [repaired], event.DrawsMachine config := by
      simp [events, fails, repaired, FastEvent.DrawsMachine, config]
    have hend : (runFrom (scheduler config).run (EasyBFFast2.new config 0 0, Platform.new 0)
        ((events ++ [repaired]) ++ [.makeDecisions 15])).toOption.map (fun t =>
          decide (t.1.nbAvailableMachines = 1 ∧ t.1.priorityJob.map (·.1) = some (job "w!2" 1))) = some true := by
      decide +kernel
    obtain ⟨t, ht, hbad⟩ := toOption_map_eq_some.1 hend
    obtain ⟨hav, hprio⟩ := of_decide_eq_true hbad
    obtain ⟨entry, hentry, hjob⟩ := Option.map_eq_some_iff.1 hprio
    have hlt := h config 0 0 _ 15 t hdraw ht entry hentry
    rw [hav, hjob] at hlt
    exact absurd hlt (by decide)
  · intro h
    have hdraw : ∀ event ∈ [fails, .jobSubmitted (job "w!1" 2), .makeDecisions 5], event.DrawsMachine config := by
      simp [fails, FastEvent.DrawsMachine, config]
    refine h config 0 0 _ "w!1" hdraw (abortOf_eq_some.1 ?_)
    decide +kernel

end ScheduleTest
