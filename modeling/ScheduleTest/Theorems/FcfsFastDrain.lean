import ScheduleTest.Lemmas.Drain
import ScheduleTest.Theorems.FcfsFast

/-!
# fcfs_fast never gets stuck

No run aborts but for a message that the simulator does not send (`fcfs_fast_never_aborts`), and whatever has happened, all jobs that
can be executed can be executed to the end, in the order in which they were submitted (`fcfs_fast_drains`).
-/

namespace ScheduleTest

open Execution FCFSFast

namespace FCFSFastAux

variable {n : ℕ} {s s' : FCFSFastState} {p : Platform} {t t' : FCFSFastState × Platform} {released : List Job}
  {base : List (String × IntervalSet)}

/-- The jobs whose ends are reported are known, and give their machines back. -/
theorem exists_finishJobs {ended : List (String × IntervalSet)} (h : Books n p (ended ++ base) released s) :
    ∃ s', runFrom finishJob s (ended.map (·.1)) = .ok s' := by
  induction ended generalizing s with
  | nil => exact ⟨s, rfl⟩
  | cons e ended ih =>
    obtain ⟨job, hjob, -⟩ := h.sized e List.mem_cons_self
    have hfirst : finishJob s e.1 = .ok { s with
        availableMachines := s.availableMachines ∪ (s.currentAllocations.find? e.1).getD ∅
        nbAvailableMachines := s.nbAvailableMachines + job.nbRequestedResources
        currentAllocations := s.currentAllocations.erase e.1 } := by
      simp only [finishJob, hjob]
    obtain ⟨s', hs'⟩ := ih (h.finish hfirst)
    exact ⟨s', by rw [List.map_cons, runFrom_cons_ok hfirst, hs']⟩

/-- The scheduler decides whenever time has not run backwards. -/
theorem exists_decide (h : Kept n t) {date : ℚ} (currentDate : ℚ) (hle : t.2.now ≤ date) :
    ∃ s', (scheduler n).run t (.makeDecisions date currentDate) = .ok
      ({ s' with jobsReleasedRecently := [], jobsEndedRecently := [] },
        ({ t.2 with now := date } : Platform).send s'.decision.decisions) ∧
      makeDecisions n { t.1 with decision := t.1.decision.clear } = .ok s' := by
  obtain ⟨s, p⟩ := t
  have hended : s.jobsEndedRecently = (p.reported.map allocation).map (·.1) := by
    rw [List.map_map]
    exact h.ended
  have hbooks : Books n p (p.reported.map allocation ++ p.running.map allocation) s.jobsReleasedRecently
      { s with decision := s.decision.clear } := by
    rw [← List.map_append]
    exact h.books
  obtain ⟨s₁, hs₁⟩ := exists_finishJobs hbooks
  rw [← hended] at hs₁
  have hmade : ∃ s', makeDecisions n { s with decision := s.decision.clear } = .ok s' := by
    unfold makeDecisions
    rw [hs₁]
    exact ⟨_, rfl⟩
  obtain ⟨s', hs'⟩ := hmade
  refine ⟨s', ?_, hs'⟩
  simp only [JobScheduler.run, scheduler, step, Platform.receive, if_pos hle, hs']
  rfl

/-- The end of a job that runs is reported. -/
theorem complete_known {r : RunningJob} (h : Kept n (s, p)) (hr : r ∈ p.running) : ∃ job, s.workload r.id = some job := by
  obtain ⟨job, hjob, -⟩ := h.books.sized (allocation r)
    (List.mem_append_left _ (List.mem_map_of_mem (List.mem_append_right _ hr)))
  exact ⟨job, hjob⟩

/-- What a run aborts with is a message that the simulator does not send. -/
theorem abort_step {event : EasyBf3Event} {e : Abort} (h : Kept n t) (hx : (scheduler n).run t event = .error e) :
    e = .impossibleMessage ∨ ∃ id, e = .alreadyInWorkload id := by
  obtain ⟨s, p⟩ := t
  cases event with
  | jobSubmitted job =>
    simp only [JobScheduler.run, scheduler, Platform.receive, step] at hx
    split at hx
    · obtain rfl := Except.error.inj hx
      exact .inr ⟨job.id, rfl⟩
    · cases hx
  | jobCompleted id =>
    simp only [JobScheduler.run, scheduler, Platform.receive] at hx
    cases hfind : p.running.find? (·.id = id) with
    | none =>
      rw [hfind] at hx
      obtain rfl := Except.error.inj hx
      exact .inl rfl
    | some r =>
      obtain ⟨other, ho⟩ := complete_known h (List.mem_of_find?_eq_some hfind)
      have hid : r.id = id := by simpa using List.find?_some hfind
      rw [hid] at ho
      rw [hfind] at hx
      simp only [step, ho] at hx
      cases hx
  | makeDecisions date currentDate =>
    by_cases hle : p.now ≤ date
    · obtain ⟨s', hs', -⟩ := exists_decide h currentDate hle
      rw [hs'] at hx
      cases hx
    · simp only [JobScheduler.run, scheduler, Platform.receive, if_neg hle] at hx
      obtain rfl := Except.error.inj hx
      exact .inl rfl

/-- Of the jobs that can be executed, how many have not been. -/
def left (n : ℕ) (s : FCFSFastState) : ℕ := (s.pendingJobs ++ accepted n s.jobsReleasedRecently).length

theorem Kept.left_add (h : Kept n t) : left n t.1 + t.2.executed.length = (accepted n t.2.submitted).length := by
  have hcount := congrArg List.length h.served.order
  simp only [List.length_append, List.length_map] at hcount
  rw [left, List.length_append]
  omega

/-- The jobs that wait can be executed. -/
def Fits (n : ℕ) (s : FCFSFastState) : Prop := ∀ job ∈ s.pendingJobs, job.nbRequestedResources ≤ n

theorem fits_finishJob {id : String} (h : Fits n s) (hx : finishJob s id = .ok s') : Fits n s' := by
  unfold finishJob at hx
  split at hx
  · cases hx
    exact h
  · cases hx

theorem fits_executePending {jobs : List Job} (h : ∀ job ∈ jobs, job.nbRequestedResources ≤ n) : Fits n (executePending s jobs) := by
  induction jobs generalizing s with
  | nil => exact nofun
  | cons job rest ih =>
    unfold executePending
    split
    · exact ih fun other ho => h other (List.mem_cons_of_mem _ ho)
    · exact h

theorem fits_releaseJob {job : Job} (h : Fits n s) : Fits n (releaseJob n s job) := by
  have hwait : job.nbRequestedResources ≤ n → Fits n { s with pendingJobs := s.pendingJobs ++ [job] } := by
    intro hle other ho
    rcases List.mem_append.1 ho with ho | ho
    · exact h other ho
    · rw [List.mem_singleton.1 ho]
      exact hle
  unfold releaseJob
  split
  · exact h
  · rename_i hle
    split
    · exact hwait (not_lt.1 hle)
    · split
      · exact h
      · exact hwait (not_lt.1 hle)

theorem fits_makeDecisions (h : Fits n s) (hx : makeDecisions n s = .ok s') : Fits n s' := by
  unfold makeDecisions at hx
  obtain ⟨s₁, hfinished, rfl⟩ := map_eq_ok.1 hx
  have hfirst : Fits n s₁ := runFrom_invariant (fun _ _ _ h _ hx => fits_finishJob h hx) h
    (allSteps_of_forall fun _ _ => trivial) hfinished
  have hsecond : Fits n (if s₁.jobsEndedRecently.isEmpty then s₁ else executePending s₁ s₁.pendingJobs) := by
    split
    · exact hfirst
    · exact fits_executePending hfirst
  exact List.foldlRecOn _ _ hsecond fun _ h _ _ => fits_releaseJob h

/-- Every event keeps what is needed. -/
theorem fits_step {event : EasyBf3Event} (h : Kept n t ∧ Fits n t.1) (hx : (scheduler n).run t event = .ok t') :
    Kept n t' ∧ Fits n t'.1 := by
  refine ⟨kept_step h.1 hx, ?_⟩
  obtain ⟨s, p⟩ := t
  cases event with
  | jobSubmitted job =>
    obtain ⟨s', hs, rfl⟩ := JobScheduler.run_submitted rfl hx
    simp only [scheduler, step] at hs
    split at hs
    · cases hs
    · cases hs
      exact h.2
  | jobCompleted id =>
    obtain ⟨s', r, before, after, hs, rfl, -, rfl⟩ := JobScheduler.run_completed rfl hx
    simp only [scheduler, step] at hs
    split at hs
    · cases hs
      exact h.2
    · cases hs
  | makeDecisions now currentDate =>
    obtain ⟨-, s', hs, rfl⟩ := JobScheduler.run_decided rfl hx
    obtain ⟨s'', hmade, rfl⟩ := map_eq_ok.1 hs
    have hcleared : Fits n { s with decision := s.decision.clear } := h.2
    have hafter := fits_makeDecisions hcleared hmade
    exact hafter

/-- When nothing runs and the scheduler has just decided, no job waits. -/
theorem pending_eq_nil (h : Kept n (s, p)) (hfits : Fits n s) (hrunning : p.running = []) (hreported : p.reported = []) :
    s.pendingJobs = [] := by
  have hserved := h.served
  have hnone : s.currentAllocations.entries = [] := by
    refine List.eq_nil_iff_forall_not_mem.2 fun e he => ?_
    have hmem := (hserved.allocated e).1 he
    simp [hrunning, hreported] at hmem
  have hcard := hserved.divided.card_add_sum
  have hcount : s.nbAvailableMachines = s.availableMachines.card := hserved.count
  simp only [hnone, List.map_nil, List.sum_nil, Finset.card_range, add_zero] at hcard
  cases hpending : s.pendingJobs with
  | nil => rfl
  | cons first rest =>
    have hbusy : s.nbAvailableMachines < first.nbRequestedResources := hserved.busy first (by simp [hpending])
    have hle := hfits first (by simp [hpending])
    omega

theorem drains (n : ℕ) : Drains (scheduler n).run (fun t => Kept n t ∧ Fits n t.1)
    (fun t => t.1.jobsReleasedRecently = [] ∧ t.2.reported = []) (left n) .jobCompleted (fun date => .makeDecisions date date) where
  complete := by
    intro s p r rest h hrunning
    obtain ⟨job, hjob⟩ := complete_known h.1 (hrunning ▸ List.mem_cons_self)
    have hx : (scheduler n).run (s, p) (.jobCompleted r.id) = .ok ({ s with jobsEndedRecently := s.jobsEndedRecently ++ [r.id] },
        { p with running := rest, reported := p.reported ++ [r] }) := by
      simp [JobScheduler.run, scheduler, Platform.receive, step, hrunning, hjob, Except.map]
    exact ⟨_, hx, fits_step h hx, rfl⟩
  decide := by
    intro t h
    obtain ⟨s', hs', -⟩ := exists_decide h.1 t.2.now le_rfl
    have hkept := fits_step h hs'
    refine ⟨_, hs', hkept, ⟨rfl, rfl⟩, rfl, ?_⟩
    have hbefore := h.1.left_add
    have hafter := hkept.1.left_add
    simp only [Platform.send, List.length_append, List.length_map] at hbefore hafter ⊢
    omega
  stranded := by
    rintro ⟨s, p⟩ h ⟨hreleased, hreported⟩ hrunning
    have hpending := pending_eq_nil h.1 h.2 hrunning hreported
    dsimp only at hreleased
    simp [left, hpending, hreleased, accepted]

end FCFSFastAux

section

variable (nbMachines : ℕ) (date : ℚ)

open FCFSFastAux

theorem FCFSFastAux.kept_of_run {events : List EasyBf3Event} {t : FCFSFastState × Platform}
    (hrun : runFrom (scheduler nbMachines).run (FCFSFast.new nbMachines, Platform.new date) events = .ok t) :
    Kept nbMachines t ∧ Fits nbMachines t.1 :=
  runFrom_invariant (fun _ _ _ h _ hx => fits_step h hx) ⟨Kept.new nbMachines date, nofun⟩ (allSteps_of_forall fun _ _ => trivial)
    hrun

/-- No run aborts but for a message that the simulator does not send. -/
theorem fcfs_fast_never_aborts (events : List EasyBf3Event) (e : Abort)
    (hrun : runFrom (scheduler nbMachines).run (FCFSFast.new nbMachines, Platform.new date) events = .error e) :
    e = .impossibleMessage ∨ ∃ id, e = .alreadyInWorkload id :=
  runFrom_error (fun _ _ _ h _ hx => kept_step h hx) (fun _ _ _ h _ hx => abort_step h hx) (Kept.new nbMachines date)
    (allSteps_of_forall fun _ _ => trivial) hrun

/-- Whatever has happened, all jobs that can be executed can be executed to the end, without another submission, and they are in
the order in which they were submitted. -/
theorem fcfs_fast_drains (events : List EasyBf3Event) (t : FCFSFastState × Platform)
    (hrun : runFrom (scheduler nbMachines).run (FCFSFast.new nbMachines, Platform.new date) events = .ok t) :
    ∃ events' t', runFrom (scheduler nbMachines).run t events' = .ok t' ∧ (∀ event ∈ events', ∀ job, event ≠ .jobSubmitted job) ∧
      t'.2.running = [] ∧ t'.2.reported = [] ∧ t'.2.executed = (accepted nbMachines t.2.submitted).map (·.id) := by
  obtain ⟨events', t', ht', hkind, hkept, ⟨-, hreported⟩, hsubmitted, hrunning, hleft⟩ :=
    (drains nbMachines).exists_drained (kept_of_run nbMachines date hrun)
  have hnone : t'.1.pendingJobs ++ accepted nbMachines t'.1.jobsReleasedRecently = [] := List.eq_nil_of_length_eq_zero hleft
  have horder := hkept.1.served.order
  rw [hnone, hsubmitted, List.map_nil, List.append_nil] at horder
  refine ⟨events', t', ht', fun event hevent job => ?_, hrunning, hreported, horder⟩
  rcases hkind event hevent with ⟨id, rfl⟩ | ⟨date', rfl⟩ <;> nofun

end

namespace FCFSFastAux

/-- The second job does not fit beside the first, and the third waits behind it. -/
private def waitingEvents : List EasyBf3Event :=
  [.jobSubmitted { id := "w0!1", nbRequestedResources := 2, walltime := 10 },
    .jobSubmitted { id := "w0!2", nbRequestedResources := 3, walltime := 10 },
    .jobSubmitted { id := "w0!3", nbRequestedResources := 1, walltime := 10 }, .makeDecisions 0 0]

end FCFSFastAux

open FCFSFastAux

/-- A job is submitted twice. -/
theorem fcfs_fast_never_aborts_witness :
    ∃ e, runFrom (scheduler 4).run (FCFSFast.new 4, Platform.new 0) (waitingEvents ++ waitingEvents) = .error e ∧
      (e = .impossibleMessage ∨ ∃ id, e = .alreadyInWorkload id) := by
  have herror : abortOf (runFrom (scheduler 4).run (FCFSFast.new 4, Platform.new 0) (waitingEvents ++ waitingEvents)) =
      some (.alreadyInWorkload "w0!1") := by
    decide +kernel
  exact ⟨_, abortOf_eq_some.1 herror, fcfs_fast_never_aborts 4 0 _ _ (abortOf_eq_some.1 herror)⟩

theorem fcfs_fast_drains_witness : ∃ t, runFrom (scheduler 4).run (FCFSFast.new 4, Platform.new 0) waitingEvents = .ok t ∧
    t.2.executed = ["w0!1"] ∧ ∃ events' t', runFrom (scheduler 4).run t events' = .ok t' ∧
    (∀ event ∈ events', ∀ job, event ≠ .jobSubmitted job) ∧ t'.2.running = [] ∧ t'.2.reported = [] ∧
    t'.2.executed = (accepted 4 t.2.submitted).map (·.id) := by
  have hok : (runFrom (scheduler 4).run (FCFSFast.new 4, Platform.new 0) waitingEvents).toOption.map (fun t => t.2.executed) =
      some ["w0!1"] := by
    decide +kernel
  obtain ⟨t, ht, hexecuted⟩ := toOption_map_eq_some.1 hok
  exact ⟨t, ht, hexecuted, fcfs_fast_drains 4 0 waitingEvents t ht⟩

end ScheduleTest
