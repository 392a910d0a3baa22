import ScheduleTest.Lib.Divided
import ScheduleTest.FcfsFast

/-!
# fcfs_fast serves in order

Whatever the order in which jobs are released and end, and however the messages group them, the jobs executed, those that wait and
those just released are the jobs submitted, in that order; every machine is available or allocated to one running job; and the first
job that waits requests more machines than are available (`served_in_order`).
-/

namespace ScheduleTest

open Execution FCFSFast

/-- The jobs that can be executed, in their order. -/
def FCFSFast.accepted (nbMachines : ℕ) (jobs : List Job) : List Job := jobs.filter (·.nbRequestedResources ≤ nbMachines)

/-- What is meant to hold of the books of the scheduler, beside what the messages say. -/
structure ServedInOrder (nbMachines : ℕ) (t : FCFSFastState × Platform) : Prop where
  /-- No job overtakes another: each is executed once, in the order of the submissions. -/
  order : t.2.executed ++ (t.1.pendingJobs ++ accepted nbMachines t.1.jobsReleasedRecently).map (·.id) =
    (accepted nbMachines t.2.submitted).map (·.id)
  divided : Divided (Finset.range nbMachines) t.1.availableMachines (t.1.currentAllocations.entries.map (·.2))
  /-- The allocations are those of the jobs whose ends the scheduler has not dealt with. -/
  allocated : ∀ e, e ∈ t.1.currentAllocations.entries ↔ e ∈ (t.2.running ++ t.2.reported).map fun r => (r.id, r.machines)
  count : t.1.nbAvailableMachines = t.1.availableMachines.card
  busy : ∀ first ∈ t.1.pendingJobs.head?, t.1.nbAvailableMachines < first.nbRequestedResources

namespace FCFSFastAux

variable {n : ℕ} {s s' : FCFSFastState} {p : Platform} {job : Job} {jobs released : List Job} {base : List (String × IntervalSet)}

/-- The jobs that run when the decisions made so far are carried out. -/
def runningWith (base : List (String × IntervalSet)) (s : FCFSFastState) : List (String × IntervalSet) :=
  base ++ executions s.decision.decisions

/-- The books in the middle of a pass, with the jobs released that are still to be looked at. -/
structure Books (n : ℕ) (p : Platform) (base : List (String × IntervalSet)) (released : List Job) (s : FCFSFastState) : Prop where
  order : p.executed ++ (executions s.decision.decisions).map (·.1) ++ (s.pendingJobs ++ accepted n released).map (·.id) =
    (accepted n p.submitted).map (·.id)
  divided : Divided (Finset.range n) s.availableMachines (s.currentAllocations.entries.map (·.2))
  allocated : ∀ e, e ∈ s.currentAllocations.entries ↔ e ∈ runningWith base s
  count : s.nbAvailableMachines = s.availableMachines.card
  distinct : ((runningWith base s).map (·.1) ++ (s.pendingJobs ++ released).map (·.id)).Nodup
  sized : ∀ e ∈ runningWith base s, ∃ job, s.workload e.1 = some job ∧ e.2.card = job.nbRequestedResources
  known : ∀ job ∈ s.pendingJobs ++ released, s.workload job.id = some job

/-- The first job that waits does not fit. -/
def Busy (s : FCFSFastState) : Prop := ∀ first ∈ s.pendingJobs.head?, s.nbAvailableMachines < first.nbRequestedResources

theorem finishJob_frame {id : String} (hx : finishJob s id = .ok s') :
    s'.jobsReleasedRecently = s.jobsReleasedRecently ∧ s'.jobsEndedRecently = s.jobsEndedRecently := by
  unfold finishJob at hx
  split at hx
  · cases hx
    exact ⟨rfl, rfl⟩
  · cases hx

/-- A job that has ended gives its machines back. -/
theorem Books.finish {e : String × IntervalSet} (h : Books n p (e :: base) released s) (hx : finishJob s e.1 = .ok s') :
    Books n p base released s' := by
  have hmem : e ∈ s.currentAllocations.entries := (h.allocated e).2 List.mem_cons_self
  obtain ⟨job, hjob, hcard⟩ := h.sized e List.mem_cons_self
  have hfind : s.currentAllocations.find? e.1 = some e.2 := KeyedMap.find?_eq_some.2 ⟨e.1, hmem, rfl⟩
  have hperm := KeyedMap.perm_erase (a := e.1) hmem rfl
  have hdivided := h.divided.perm (hperm.map (·.2)).symm
  have hdistinct : ((e :: runningWith base s).map (·.1) ++ (s.pendingJobs ++ released).map (·.id)).Nodup := h.distinct
  rw [List.map_cons, List.cons_append, List.nodup_cons] at hdistinct
  unfold finishJob at hx
  rw [hjob] at hx
  cases hx
  rw [hfind]
  refine ⟨h.order, hdivided.giveBack, fun e' => ?_, ?_, hdistinct.2, fun e' he => h.sized e' (List.mem_cons_of_mem _ he), h.known⟩
  · rw [KeyedMap.mem_erase, h.allocated e']
    constructor
    · rintro ⟨he, hne⟩
      rcases List.mem_cons.1 he with rfl | he
      · exact absurd rfl hne
      · exact he
    · refine fun he => ⟨List.mem_cons_of_mem _ he, fun heq => hdistinct.1 (List.mem_append_left _ ?_)⟩
      exact heq ▸ List.mem_map_of_mem he
  · dsimp only
    rw [Option.getD_some, hdivided.card_giveBack, h.count, hcard]

/-- The jobs whose ends are reported give their machines back. -/
theorem finishJobs_books {ended : List (String × IntervalSet)} (h : Books n p (ended ++ base) released s)
    (hx : runFrom finishJob s (ended.map (·.1)) = .ok s') : Books n p base released s' ∧
      s'.jobsReleasedRecently = s.jobsReleasedRecently ∧ s'.jobsEndedRecently = s.jobsEndedRecently := by
  induction ended generalizing s with
  | nil =>
    cases hx
    exact ⟨h, rfl, rfl⟩
  | cons e ended ih =>
    obtain ⟨s₁, hfirst, hrest⟩ := of_runFrom_cons hx
    obtain ⟨hreleased, hended⟩ := finishJob_frame hfirst
    obtain ⟨hbooks, hreleased', hended'⟩ := ih (h.finish hfirst) hrest
    exact ⟨hbooks, hreleased'.trans hreleased, hended'.trans hended⟩

/-- The first job that waits is executed where it fits. -/
theorem Books.execute {rest : List Job} (h : Books n p base released { s with pendingJobs := job :: rest })
    (hfits : job.nbRequestedResources ≤ s.nbAvailableMachines) :
    Books n p base released { FCFSFast.execute s job with pendingJobs := rest } := by
  have hle : job.nbRequestedResources ≤ s.availableMachines.card := by
    have hcount : s.nbAvailableMachines = s.availableMachines.card := h.count
    omega
  have hcard := Finset.card_leftmost_of_le hle
  have hsub := s.availableMachines.leftmost_subset job.nbRequestedResources
  have hrunning : runningWith base { FCFSFast.execute s job with pendingJobs := rest } =
      runningWith base s ++ [(job.id, s.availableMachines.leftmost job.nbRequestedResources)] := by
    simp [runningWith, FCFSFast.execute]
  have hdistinct : ((runningWith base s).map (·.1) ++ job.id :: (rest ++ released).map (·.id)).Nodup := h.distinct
  have hnew : ∀ e ∈ s.currentAllocations.entries, e.1 ≠ job.id := by
    intro e he heq
    refine (List.nodup_append.1 hdistinct).2.2 e.1 ?_ job.id List.mem_cons_self heq
    exact List.mem_map_of_mem ((h.allocated e).1 he)
  refine ⟨?_, ?_, fun e => ?_, ?_, ?_, fun e he => ?_, fun other ho => h.known other (List.mem_cons_of_mem _ ho)⟩
  · have horder := h.order
    simp only [FCFSFast.execute, SchedulingDecision.decisions_add, executions_append, executions_executeJob, List.map_append,
      List.map_cons, List.map_nil, List.append_assoc, List.cons_append, List.nil_append] at horder ⊢
    exact horder
  · have hperm := KeyedMap.perm_insert_of_new (b := s.availableMachines.leftmost job.nbRequestedResources) hnew
    have htaken := Divided.take h.divided hsub
    exact htaken.perm (hperm.map (·.2))
  · rw [hrunning, List.mem_append, List.mem_singleton]
    change e ∈ (s.currentAllocations.insert job.id _).entries ↔ _
    rw [KeyedMap.mem_insert_of_new hnew, h.allocated e, or_comm]
    rfl
  · change s.nbAvailableMachines - job.nbRequestedResources = ((s.availableMachines \ _).card : ℤ)
    rw [Divided.card_take hsub, hcard]
    exact congrArg (· - (job.nbRequestedResources : ℤ)) h.count
  · rw [hrunning]
    simpa using hdistinct
  · rw [hrunning] at he
    rcases List.mem_append.1 he with he | he
    · exact h.sized e he
    · obtain rfl := List.mem_singleton.1 he
      exact ⟨job, h.known job (List.mem_append_left _ List.mem_cons_self), hcard⟩

theorem executePending_frame (s : FCFSFastState) (jobs : List Job) :
    (executePending s jobs).jobsReleasedRecently = s.jobsReleasedRecently := by
  induction jobs generalizing s with
  | nil => rfl
  | cons job rest ih =>
    unfold executePending
    split
    · exact ih _
    · rfl

/-- The loop over the jobs that wait stops at one that does not fit. -/
theorem executePending_books (h : Books n p base released { s with pendingJobs := jobs }) :
    Books n p base released (executePending s jobs) ∧ Busy (executePending s jobs) := by
  induction jobs generalizing s with
  | nil => exact ⟨h, nofun⟩
  | cons job rest ih =>
    unfold executePending
    split
    · rename_i hfits
      exact ih (h.execute hfits)
    · rename_i hfits
      refine ⟨h, fun first hfirst => ?_⟩
      cases hfirst
      exact not_le.1 hfits

/-- A job released that can be executed waits. -/
theorem Books.wait (h : Books n p base (job :: released) s) (hle : job.nbRequestedResources ≤ n) :
    Books n p base released { s with pendingJobs := s.pendingJobs ++ [job] } := by
  have hshift : s.pendingJobs ++ job :: released = s.pendingJobs ++ [job] ++ released := by simp
  refine ⟨?_, h.divided, h.allocated, h.count, ?_, h.sized, ?_⟩
  · have horder := h.order
    rw [accepted, List.filter_cons_of_pos (by simpa using hle)] at horder
    simpa [accepted] using horder
  · exact hshift ▸ h.distinct
  · exact hshift ▸ h.known

/-- A job released that cannot be executed is rejected. -/
theorem Books.reject (h : Books n p base (job :: released) s) (hlt : n < job.nbRequestedResources) :
    Books n p base released { s with decision := s.decision.add (.rejectJob job.id) } := by
  have hrunning : runningWith base { s with decision := s.decision.add (.rejectJob job.id) } = runningWith base s := by
    simp [runningWith]
  have hsub : (s.pendingJobs ++ released).Sublist (s.pendingJobs ++ job :: released) :=
    (List.sublist_cons_self _ _).append_left _
  refine ⟨?_, h.divided, ?_, h.count, ?_, ?_, fun other ho => h.known other (hsub.subset ho)⟩
  · have horder := h.order
    rw [accepted, List.filter_cons_of_neg (by simpa using hlt)] at horder
    simpa [accepted] using horder
  · rw [hrunning]
    exact h.allocated
  · rw [hrunning]
    exact h.distinct.sublist ((hsub.map _).append_left _)
  · rw [hrunning]
    exact h.sized

/-- A job released is rejected, executed or waits. -/
theorem releaseJob_books (h : Books n p base (job :: released) s) (hbusy : Busy s) :
    Books n p base released (releaseJob n s job) ∧ Busy (releaseJob n s job) := by
  unfold releaseJob
  split
  · rename_i hlt
    exact ⟨h.reject hlt, hbusy⟩
  · rename_i hle
    have hwait := h.wait (not_lt.1 hle)
    split
    · rename_i hpending
      refine ⟨hwait, fun first hfirst => hbusy first ?_⟩
      cases hjobs : s.pendingJobs with
      | nil => simp [hjobs] at hpending
      | cons other rest => simpa [hjobs] using hfirst
    · rename_i hnone
      have hempty : s.pendingJobs = [] := by simpa using hnone
      rw [hempty, List.nil_append] at hwait
      split
      · rename_i hfits
        have hexecuted := hwait.execute hfits
        have hsame : { FCFSFast.execute s job with pendingJobs := [] } = FCFSFast.execute s job := by
          simp [FCFSFast.execute, hempty]
        rw [hsame] at hexecuted
        refine ⟨hexecuted, fun first hfirst => ?_⟩
        simp [FCFSFast.execute, hempty] at hfirst
      · rename_i hfits
        rw [hempty, List.nil_append]
        refine ⟨hwait, fun first hfirst => ?_⟩
        cases hfirst
        exact not_le.1 hfits

/-- The jobs released are looked at one after the other. -/
theorem releaseJobs_books (h : Books n p base released s) (hbusy : Busy s) :
    Books n p base [] (released.foldl (releaseJob n) s) ∧ Busy (released.foldl (releaseJob n) s) := by
  induction released generalizing s with
  | nil => exact ⟨h, hbusy⟩
  | cons job released ih =>
    obtain ⟨hbooks, hbusy'⟩ := releaseJob_books h hbusy
    exact ih hbooks hbusy'

/-- What a running job says about the allocations. -/
def allocation (r : RunningJob) : String × IntervalSet := (r.id, r.machines)

/-- What every step keeps. -/
structure Kept (n : ℕ) (t : FCFSFastState × Platform) : Prop where
  books : Books n t.2 ((t.2.reported ++ t.2.running).map allocation) t.1.jobsReleasedRecently
    { t.1 with decision := t.1.decision.clear }
  busy : Busy t.1
  ended : t.1.jobsEndedRecently = t.2.reported.map (·.id)

theorem Kept.new (n : ℕ) (date : ℚ) : Kept n (FCFSFast.new n, Platform.new date) where
  books := by
    refine ⟨rfl, Divided.new _, ?_, ?_, ?_, ?_, nofun⟩
    · simp [FCFSFast.new, runningWith, Platform.new]
    · simp [FCFSFast.new]
    · simp [FCFSFast.new, runningWith, Platform.new]
    · simp [runningWith, Platform.new]
  busy := nofun
  ended := rfl

/-- A job submitted is one that is not known yet. -/
theorem Kept.submit (h : Kept n (s, p)) (hnew : s.workload job.id = none) :
    Kept n ({ s with
      workload := Function.update s.workload job.id (some job)
      jobsReleasedRecently := s.jobsReleasedRecently ++ [job] }, { p with submitted := p.submitted ++ [job] }) := by
  have hother : ∀ {id other}, s.workload id = some other → Function.update s.workload job.id (some job) id = some other := by
    intro id other ho
    rw [Function.update_of_ne, ho]
    rintro rfl
    rw [hnew] at ho
    cases ho
  have hbooks := h.books
  refine ⟨⟨?_, hbooks.divided, hbooks.allocated, hbooks.count, ?_, fun e he => ?_, fun other ho => ?_⟩, h.busy, h.ended⟩
  · have horder := hbooks.order
    simp only [accepted, List.filter_append, ← List.append_assoc, List.map_append] at horder ⊢
    exact congrArg (· ++ _) horder
  · have hfresh : job.id ∉ (runningWith ((p.reported ++ p.running).map allocation) { s with decision := s.decision.clear }).map (·.1) ++
        (s.pendingJobs ++ s.jobsReleasedRecently).map (·.id) := by
      intro hbad
      rcases List.mem_append.1 hbad with hbad | hbad
      · obtain ⟨e, he, hid⟩ := List.mem_map.1 hbad
        obtain ⟨other, ho, -⟩ := hbooks.sized e he
        rw [hid, hnew] at ho
        cases ho
      · obtain ⟨other, ho, hid⟩ := List.mem_map.1 hbad
        have hknown : s.workload other.id = some other := hbooks.known other ho
        rw [hid, hnew] at hknown
        cases hknown
    have hnodup := (List.perm_append_singleton _ _).nodup_iff.2 (List.nodup_cons.2 ⟨hfresh, hbooks.distinct⟩)
    simpa [runningWith] using hnodup
  · obtain ⟨other, ho, hcard⟩ := hbooks.sized e he
    exact ⟨other, hother ho, hcard⟩
  · simp only [← List.append_assoc, List.mem_append, List.mem_singleton] at ho
    rcases ho with ho | rfl
    · exact hother (hbooks.known other (List.mem_append.2 ho))
    · exact Function.update_self ..

/-- The end of a job that runs is reported. -/
theorem Kept.complete {r : RunningJob} {before after : List RunningJob} (h : Kept n (s, p))
    (hrunning : p.running = before ++ r :: after) :
    Kept n ({ s with jobsEndedRecently := s.jobsEndedRecently ++ [r.id] },
      { p with running := before ++ after, reported := p.reported ++ [r] }) := by
  have hperm : (p.reported ++ [r] ++ (before ++ after)).Perm (p.reported ++ p.running) := by
    rw [hrunning, List.append_assoc, List.singleton_append]
    exact List.Perm.append_left _ List.perm_middle.symm
  have hallocation := hperm.map allocation
  have hbooks := h.books
  refine ⟨⟨hbooks.order, hbooks.divided, fun e => ?_, hbooks.count, ?_, fun e he => hbooks.sized e ?_, hbooks.known⟩, h.busy, ?_⟩
  · rw [hbooks.allocated e]
    exact (hallocation.append_right _).mem_iff.symm
  · exact ((((hallocation.append_right _).map _).append_right _).nodup_iff).2 hbooks.distinct
  · exact (hallocation.append_right _).mem_iff.1 he
  · have hended : s.jobsEndedRecently = p.reported.map (·.id) := h.ended
    simp [hended]

/-- A pass looks at the jobs whose ends are reported and at those released. -/
theorem makeDecisions_books (h : Kept n (s, p)) (hx : makeDecisions n { s with decision := s.decision.clear } = .ok s') :
    Books n p (p.running.map allocation) [] s' ∧ Busy s' := by
  have hended : s.jobsEndedRecently = (p.reported.map allocation).map (·.1) := by
    rw [List.map_map]
    exact h.ended
  have hbooks := h.books
  dsimp only at hbooks
  rw [List.map_append] at hbooks
  unfold makeDecisions at hx
  obtain ⟨s₁, hfinished, rfl⟩ := map_eq_ok.1 hx
  have hfinished' : runFrom finishJob { s with decision := s.decision.clear } ((p.reported.map allocation).map (·.1)) = .ok s₁ :=
    hended ▸ hfinished
  obtain ⟨hbooks₁, hreleased, hsame⟩ := finishJobs_books hbooks hfinished'
  dsimp only at hreleased hsame ⊢
  split
  · rename_i hnone
    -- no job has ended, and so nothing has changed for the first job that waits
    have hnothing : s.jobsEndedRecently = [] := by
      rw [← hsame]
      simpa using hnone
    rw [hreleased]
    refine releaseJobs_books hbooks₁ ?_
    dsimp only at hfinished
    rw [hnothing] at hfinished
    cases hfinished
    exact h.busy
  · obtain ⟨hbooks₂, hbusy⟩ := executePending_books hbooks₁
    rw [executePending_frame, hreleased]
    exact releaseJobs_books hbooks₂ hbusy

/-- The decisions of a pass are sent. -/
theorem Kept.decide {date : ℚ} (h : Kept n (s, p)) (hx : makeDecisions n { s with decision := s.decision.clear } = .ok s') :
    Kept n ({ s' with jobsReleasedRecently := [], jobsEndedRecently := [] },
      ({ p with now := date } : Platform).send s'.decision.decisions) := by
  obtain ⟨hbooks, hbusy⟩ := makeDecisions_books h hx
  have hrunning : runningWith (((({ p with now := date } : Platform).send s'.decision.decisions).reported ++
      (({ p with now := date } : Platform).send s'.decision.decisions).running).map allocation)
      { s' with jobsReleasedRecently := [], jobsEndedRecently := [], decision := s'.decision.clear } =
      runningWith (p.running.map allocation) s' := by
    simp [runningWith, Platform.send, allocation, Function.comp_def]
  refine ⟨⟨?_, hbooks.divided, ?_, hbooks.count, ?_, ?_, hbooks.known⟩, hbusy, rfl⟩
  · simpa [Platform.send] using hbooks.order
  · exact fun e => hrunning ▸ hbooks.allocated e
  · dsimp only
    rw [hrunning]
    exact hbooks.distinct
  · exact fun e he => hbooks.sized e (hrunning ▸ he)

/-- Every event keeps the books. -/
theorem kept_step {t t' : FCFSFastState × Platform} {event : EasyBf3Event} (h : Kept n t)
    (hx : (scheduler n).run t event = .ok t') : Kept n t' := by
  obtain ⟨s, p⟩ := t
  cases event with
  | jobSubmitted job =>
    obtain ⟨s', hs, rfl⟩ := JobScheduler.run_submitted rfl hx
    simp only [scheduler, step] at hs
    split at hs
    · cases hs
    · rename_i hnew
      cases hs
      exact h.submit hnew
  | jobCompleted id =>
    obtain ⟨s', r, before, after, hs, rfl, hrunning, rfl⟩ := JobScheduler.run_completed rfl hx
    simp only [scheduler, step] at hs
    split at hs
    · cases hs
      exact h.complete hrunning
    · cases hs
  | makeDecisions now currentDate =>
    obtain ⟨-, s', hs, rfl⟩ := JobScheduler.run_decided rfl hx
    obtain ⟨s'', hmade, rfl⟩ := map_eq_ok.1 hs
    exact h.decide hmade

/-- What is kept says what is meant to hold. -/
theorem Kept.served {t : FCFSFastState × Platform} (h : Kept n t) : ServedInOrder n t where
  order := by simpa using h.books.order
  divided := h.books.divided
  allocated := by
    intro e
    rw [h.books.allocated e, runningWith]
    simp [or_comm, allocation]
  count := h.books.count
  busy := h.busy

end FCFSFastAux

open FCFSFastAux in
/-- In every run, jobs are served in the order in which they were submitted, the machines are divided among the running jobs and those
available, and the first job that waits does not fit. -/
theorem served_in_order (nbMachines : ℕ) (date : ℚ) (events : List EasyBf3Event) (t : FCFSFastState × Platform)
    (hrun : runFrom (scheduler nbMachines).run (FCFSFast.new nbMachines, Platform.new date) events = .ok t) :
    ServedInOrder nbMachines t := by
  have hkept : Kept nbMachines t := runFrom_invariant (fun _ _ _ h _ hx => kept_step h hx) (Kept.new nbMachines date)
    (allSteps_of_forall fun _ _ => trivial) hrun
  exact hkept.served

namespace FCFSFastAux

/-- The second job does not fit beside the first, and the third waits behind it. -/
private def events : List EasyBf3Event :=
  [.jobSubmitted { id := "w0!1", nbRequestedResources := 2, walltime := 10 },
    .jobSubmitted { id := "w0!2", nbRequestedResources := 3, walltime := 10 },
    .jobSubmitted { id := "w0!3", nbRequestedResources := 1, walltime := 10 },
    .jobSubmitted { id := "w0!4", nbRequestedResources := 5, walltime := 10 },
    .makeDecisions 0 0, .jobCompleted "w0!1", .makeDecisions 4 4]

end FCFSFastAux

open FCFSFastAux in
/-- On four machines the second job and the third start when the first has ended. The fourth asks for too many. -/
theorem served_in_order_witness :
    ∃ t, runFrom (scheduler 4).run (FCFSFast.new 4, Platform.new 0) events = .ok t ∧ t.2.executed = ["w0!1", "w0!2", "w0!3"] ∧
      t.2.rejected = ["w0!4"] ∧ ServedInOrder 4 t := by
  have hok : (runFrom (scheduler 4).run (FCFSFast.new 4, Platform.new 0) events).toOption.map (fun t =>
      (t.2.executed, t.2.rejected)) = some (["w0!1", "w0!2", "w0!3"], ["w0!4"]) := by
    decide +kernel
  obtain ⟨t, ht, hjobs⟩ := toOption_map_eq_some.1 hok
  obtain ⟨hexecuted, hrejected⟩ := Prod.mk.inj hjobs
  exact ⟨t, ht, hexecuted, hrejected, served_in_order 4 0 events t ht⟩

end ScheduleTest
