import ScheduleTest.Lemmas.Drain
import ScheduleTest.Lemmas.Filler
import ScheduleTest.Theorems.Protocol

/-!
# The filler keeps its books, and fills the machines

In every run the machines are divided among the jobs that run and those available, and each job runs on as many machines as are to be
allocated to it (`filler_books_kept`). No job is executed on a machine that was last said to be unavailable
(`filler_avoids_unavailable`), and when the filler has decided no job that waits fits on the machines that are left (`filler_fills`).
It aborts only at a job that requests no machines (`filler_aborts_only`), all jobs can be executed to the end once no machine is
unavailable (`filler_drains`), and the simulator accepts what it decides (`filler_decisions_accepted`).
-/

namespace ScheduleTest

open Execution Filler

namespace Filler

/-- What is meant to hold of the books of the filler, beside what the messages say. -/
structure KeepsBooks (o : FillerOptions) (t : FillerState × Platform) : Prop where
  once : (t.2.submitted.map (·.id)).Nodup
  /-- Every job that can be executed has been executed, waits or was just released, and only one of these. -/
  accounted : (t.2.executed ++ (t.1.queue.jobs ++ JobBooks.accepted o.nbMachines t.1.jobsReleasedRecently).map (·.id)).Perm
    ((JobBooks.accepted o.nbMachines t.2.submitted).map (·.id))
  rejected : t.2.rejected ++ (JobBooks.tooLarge o.nbMachines t.1.jobsReleasedRecently).map (·.id) =
    (JobBooks.tooLarge o.nbMachines t.2.submitted).map (·.id)
  divided : Divided (Finset.range o.nbMachines) t.1.availableMachines ((t.2.running ++ t.2.reported).map (·.machines))
  /-- The allocations are those of the jobs whose ends the filler has not dealt with. -/
  allocated : ∀ e, e ∈ t.1.currentAllocations.entries ↔ e ∈ (t.2.running ++ t.2.reported).map fun r => (r.id, r.machines)
  sized : ∀ r ∈ t.2.running ++ t.2.reported, ∃ job ∈ t.2.submitted, job.id = r.id ∧
    (r.machines.card : ℤ) = nbMachinesToAllocate o job ∧ 0 < r.machines.card ∧ r.machines.card ≤ job.nbRequestedResources

/-- The machines whose last notice says that they are unavailable. -/
def unavailableAfter (events : List FillerEvent) : IntervalSet :=
  events.foldl (fun machines event => match event with
    | .machinesAvailable available => machines \ available
    | .machinesUnavailable unavailable => machines ∪ unavailable
    | _ => machines) ∅

/-- A job that the simulator knows, of an id that can be put into metadata where the filler does so. -/
structure Readable {ρ : Type} (o : FillerOptions) (g : Registrar ρ) (workloads : ρ) (job : Job) : Prop where
  identifier : readJobIdentifier? job.id = some job.id
  known : g.jobExists workloads job.id = true
  noQuotes : o.setJobMetadata = true → '"' ∉ job.id.toList

end Filler

namespace FillerAux

variable {o : FillerOptions} {s s' : FillerState} {p p' : Platform} {t t' : FillerState × Platform} {job : Job} {date : ℚ}

/-- What every step keeps. -/
structure Kept (o : FillerOptions) (t : FillerState × Platform) : Prop where
  books : JobBooks o.nbMachines t.2 ((t.2.reported ++ t.2.running).map JobBooks.allocation) [] t.1.queue.jobs t.1.jobsReleasedRecently
    t.1.availableMachines t.1.currentAllocations t.1.workload
  ended : t.1.jobsEndedRecently = t.2.reported.map (·.id)
  listed : JobBooks.Listed t.1.workload t.2.submitted
  sized : ∀ r ∈ t.2.reported ++ t.2.running, ∃ job, t.1.workload r.id = some job ∧
    (r.machines.card : ℤ) = nbMachinesToAllocate o job ∧ 0 < r.machines.card ∧ r.machines.card ≤ job.nbRequestedResources

theorem Kept.new (o : FillerOptions) (date : ℚ) : Kept o (Filler.new o, Platform.new date) :=
  ⟨JobBooks.new o.nbMachines date, rfl, .new, nofun⟩

theorem run_ok {event : FillerEvent} (hx : run o (s, p) event = .ok t') : ∃ p' s', p.receive (notice event) = .ok p' ∧
    step o s event = .ok s' ∧ t' = (s', match notice event with
      | .decided _ => p'.send (decisions s')
      | _ => p') := by
  unfold run at hx
  cases hp : p.receive (notice event) with
  | error reason =>
    rw [hp] at hx
    cases hx
  | ok p' =>
    rw [hp] at hx
    obtain ⟨s', hs, rfl⟩ := map_eq_ok.1 hx
    exact ⟨p', s', rfl, hs, rfl⟩

/-- What is known of the books when a pass begins. -/
theorem Kept.pass (h : Kept o (s, p)) : Books o p ((p.reported.map JobBooks.allocation) ++ p.running.map JobBooks.allocation)
      s.jobsReleasedRecently { s with decision := [] } ∧
    s.jobsEndedRecently = (p.reported.map JobBooks.allocation).map (·.1) := by
  refine ⟨?_, by rw [List.map_map]; exact h.ended⟩
  have hbooks := h.books
  dsimp only at hbooks
  rw [List.map_append] at hbooks
  unfold Books decisions
  simpa using hbooks

/-- The jobs executed in a pass are those that it starts. -/
theorem exists_starts (hpassed : Passed o { s with decision := [] } s') : ∃ starts : List (Job × IntervalSet),
    executions (decisions s') = starts.map (fun start => (start.1.id, start.2)) ∧ ∀ start ∈ starts,
      start.1 ∈ s.queue.jobs ++ s.jobsReleasedRecently ∧ Disjoint start.2 (unavailableAtPass s) ∧ ∃ usableMachines,
        MayStart o usableMachines start.1 start.2 := by
  obtain ⟨usableMachines, starts, hdecision, hdisjoint, hstarts⟩ := hpassed.starts
  refine ⟨starts, ?_, fun start hin => ?_⟩
  · unfold decisions
    rw [hdecision, List.nil_append, filterMap_decision?, executions_starts]
  · obtain ⟨hmem, hmay⟩ := hstarts start hin
    refine ⟨?_, hdisjoint.mono_left hmay.subset, usableMachines, hmay⟩
    exact (List.mem_append.1 hmem).elim (List.mem_append_left _) fun hnew =>
      List.mem_append_right _ (List.mem_of_mem_filter hnew)

/-- The decisions of a pass are sent. -/
theorem Kept.decide (h : Kept o (s, p)) (hbooks : Books o p (p.running.map JobBooks.allocation) [] s')
    (hpassed : Passed o { s with decision := [] } s') :
    Kept o (clearRecentDataStructures s', ({ p with now := date } : Platform).send (decisions s')) := by
  obtain ⟨starts, hexecuted, hstarts⟩ := exists_starts hpassed
  have hworkload : s'.workload = s.workload := hpassed.workload
  have hrunning : ((({ p with now := date } : Platform).send (decisions s')).running).map JobBooks.allocation =
      p.running.map JobBooks.allocation ++ executions (decisions s') := by
    simp [Platform.send, JobBooks.allocation, Function.comp_def]
  constructor
  case books =>
    have hsent := JobBooks.send hbooks date
    rw [← hrunning] at hsent
    exact hsent
  case ended => rfl
  case listed => exact hworkload ▸ h.listed
  case sized =>
    intro r hr
    simp only [Platform.send, List.nil_append, List.mem_append, List.mem_map, clearRecentDataStructures, hworkload] at hr ⊢
    rcases hr with hr | ⟨e, he, rfl⟩
    · exact h.sized r (List.mem_append_right _ hr)
    · rw [hexecuted, List.mem_map] at he
      obtain ⟨start, hin, rfl⟩ := he
      obtain ⟨hmem, -, usableMachines, hmay⟩ := hstarts start hin
      exact ⟨start.1, h.books.known start.1 hmem, hmay.card, hmay.pos, hmay.le⟩

/-- The end of a job that runs is reported. -/
theorem Kept.complete {r : RunningJob} {before after : List RunningJob} (h : Kept o (s, p))
    (hrunning : p.running = before ++ r :: after) :
    Kept o ({ s with jobsEndedRecently := s.jobsEndedRecently ++ [r.id] },
      { p with running := before ++ after, reported := p.reported ++ [r] }) := by
  have hperm : (p.reported ++ [r] ++ (before ++ after)).Perm (p.reported ++ p.running) := by
    rw [hrunning, List.append_assoc, List.singleton_append]
    exact List.Perm.append_left _ List.perm_middle.symm
  have hended : s.jobsEndedRecently = p.reported.map (·.id) := h.ended
  constructor
  case books =>
    have hbooks := h.books.perm_running (hperm.map JobBooks.allocation)
    exact { hbooks with }
  case ended => simp [hended]
  case listed => exact h.listed
  case sized => exact fun r' hr' => h.sized r' (hperm.mem_iff.1 hr')

/-- A job submitted is one that is not known yet. -/
theorem Kept.submit (h : Kept o (s, p)) (hnew : s.workload job.id = none) :
    Kept o ({ s with
      workload := Function.update s.workload job.id (some job)
      jobsReleasedRecently := s.jobsReleasedRecently ++ [job] }, { p with submitted := p.submitted ++ [job] }) where
  books := h.books.submit hnew
  ended := h.ended
  listed := h.listed.submit hnew
  sized := fun r hr => by
    obtain ⟨other, ho, hsize⟩ := h.sized r hr
    exact ⟨other, JobBooks.update_of_known hnew ho, hsize⟩

/-- What a pass does, from the books of a run. -/
theorem Kept.passed (h : Kept o (s, p)) (currentDate : ℚ) :
    Yields (fun s' => Books o p (p.running.map JobBooks.allocation) [] s' ∧ Passed o { s with decision := [] } s')
      (fun reason => ∃ job ∈ p.submitted, job.nbRequestedResources = 0 ∧ reason = .nbMachinesToAllocate job.id)
      (makeDecisions o currentDate { s with decision := [] }) := by
  obtain ⟨hbooks, hended⟩ := h.pass
  have hcleared : ({ s with decision := [] } : FillerState).jobsEndedRecently = (p.reported.map JobBooks.allocation).map (·.1) := hended
  refine (makeDecisions_passed hcleared hbooks).imp (fun _ hs' => hs') ?_
  rintro reason ⟨job, hmem, hzero, rfl⟩
  exact ⟨job, ((h.listed.iff job.id job).1 (h.books.known job hmem)).1, hzero, rfl⟩

/-- Every event keeps the books. -/
theorem kept_step {event : FillerEvent} (h : Kept o t) (hx : run o t event = .ok t') : Kept o t' := by
  obtain ⟨s, p⟩ := t
  obtain ⟨p', s', hp, hs, rfl⟩ := run_ok hx
  cases event with
  | jobSubmitted job =>
    obtain rfl := Except.ok.inj hp
    simp only [step] at hs
    split at hs
    · cases hs
    · rename_i hnew
      obtain rfl := Except.ok.inj hs
      exact h.submit hnew
  | jobCompleted id =>
    obtain ⟨r, before, after, rfl, hrunning, rfl⟩ := Platform.receive_completed hp
    simp only [step] at hs
    split at hs
    · obtain rfl := Except.ok.inj hs
      exact h.complete hrunning
    · cases hs
  | machinesAvailable machines =>
    obtain rfl := Except.ok.inj hp
    obtain rfl := Except.ok.inj hs
    exact ⟨h.books, h.ended, h.listed, h.sized⟩
  | machinesUnavailable machines =>
    obtain rfl := Except.ok.inj hp
    obtain rfl := Except.ok.inj hs
    exact ⟨h.books, h.ended, h.listed, h.sized⟩
  | makeDecisions date currentDate =>
    obtain ⟨s'', hmade, rfl⟩ := map_eq_ok.1 hs
    obtain ⟨hbooks, hpassed⟩ := (h.passed currentDate).of_ok hmade
    simp only [notice, Platform.receive] at hp
    split at hp
    · obtain rfl := Except.ok.inj hp
      exact h.decide hbooks hpassed
    · cases hp

/-- What is kept says what is meant to hold. -/
theorem Kept.keepsBooks (h : Kept o t) : KeepsBooks o t where
  once := h.listed.once
  accounted := by simpa using h.books.accounted
  rejected := by simpa using h.books.rejected
  divided := by
    have hdivided := h.books.divided
    rw [List.map_map] at hdivided
    exact hdivided.perm (List.perm_append_comm.map _)
  allocated := fun e => (h.books.allocated e).trans ((List.perm_append_comm.map _).mem_iff)
  sized := by
    intro r hr
    obtain ⟨job, hjob, hsize⟩ := h.sized r (List.perm_append_comm.mem_iff.1 hr)
    obtain ⟨hmem, hid⟩ := (h.listed.iff r.id job).1 hjob
    exact ⟨job, hmem, hid, hsize⟩

theorem kept_of_run {events : List FillerEvent} (hrun : runFrom (run o) (Filler.new o, Platform.new date) events = .ok t) : Kept o t :=
  runFrom_invariant (fun _ _ _ h _ hx => kept_step h hx) (Kept.new o date) (allSteps_of_forall fun _ _ => trivial) hrun

/-- The filler knows of each machine whose last notice says that it is unavailable. -/
theorem unavailable_of_run {events : List FillerEvent}
    (hrun : runFrom (run o) (Filler.new o, Platform.new date) events = .ok t) : unavailableAfter events ⊆ unavailableAtPass t.1 := by
  induction events using List.reverseRecOn generalizing t with
  | nil => exact Finset.empty_subset _
  | append_singleton events event ih =>
    obtain ⟨⟨s, p⟩, hbefore, hlast⟩ := of_runFrom_append hrun
    obtain ⟨t', hx, hnil⟩ := of_runFrom_cons hlast
    obtain rfl := Except.ok.inj hnil
    obtain ⟨p', s', -, hs, rfl⟩ := run_ok hx
    have hknown := ih hbefore
    have hsnoc : ∀ event', unavailableAfter (events ++ [event']) = _ := fun event' => List.foldl_append
    rw [hsnoc, List.foldl_cons, List.foldl_nil]
    cases event with
    | jobSubmitted job =>
      simp only [step] at hs
      split at hs
      · cases hs
      · obtain rfl := Except.ok.inj hs
        exact hknown
    | jobCompleted id =>
      simp only [step] at hs
      split at hs
      · obtain rfl := Except.ok.inj hs
        exact hknown
      · cases hs
    | machinesAvailable machines =>
      obtain rfl := Except.ok.inj hs
      intro machine hmem
      obtain ⟨hbefore, hother⟩ := Finset.mem_sdiff.1 hmem
      have hpass := hknown hbefore
      simp only [unavailableAtPass, Finset.mem_union, Finset.mem_sdiff] at hpass ⊢
      tauto
    | machinesUnavailable machines =>
      obtain rfl := Except.ok.inj hs
      intro machine hmem
      simp only [unavailableAtPass, Finset.mem_union, Finset.mem_sdiff] at hmem hknown ⊢
      rcases hmem with hbefore | hnew
      · have hpass := hknown hbefore
        simp only [Finset.mem_union, Finset.mem_sdiff] at hpass
        tauto
      · exact .inr (.inr hnew)
    | makeDecisions date' currentDate =>
      obtain ⟨s'', hmade, rfl⟩ := map_eq_ok.1 hs
      obtain ⟨-, hpassed⟩ := ((kept_of_run hbefore).passed currentDate).of_ok hmade
      have hunavailable : s''.unavailableMachines = unavailableAtPass s := hpassed.unavailable
      have hafter : unavailableAtPass (clearRecentDataStructures s'') = unavailableAtPass s := by
        rw [← hunavailable]
        simp [unavailableAtPass, clearRecentDataStructures]
      rw [hafter]
      exact hknown

/-- What a pass that ends a run has done. -/
theorem passed_of_run {events : List FillerEvent} {date' currentDate : ℚ}
    (hrun : runFrom (run o) (Filler.new o, Platform.new date) (events ++ [.makeDecisions date' currentDate]) = .ok t) :
    ∃ s p s', runFrom (run o) (Filler.new o, Platform.new date) events = .ok (s, p) ∧ Kept o (s, p) ∧
      Passed o { s with decision := [] } s' ∧
      t = (clearRecentDataStructures s', ({ p with now := date' } : Platform).send (decisions s')) := by
  obtain ⟨⟨s, p⟩, hbefore, hlast⟩ := of_runFrom_append hrun
  obtain ⟨t', hx, hnil⟩ := of_runFrom_cons hlast
  obtain rfl := Except.ok.inj hnil
  obtain ⟨p', s', hp, hs, rfl⟩ := run_ok hx
  obtain ⟨s'', hmade, rfl⟩ := map_eq_ok.1 hs
  have hkept := kept_of_run hbefore
  obtain ⟨-, hpassed⟩ := (hkept.passed currentDate).of_ok hmade
  simp only [notice, Platform.receive] at hp
  split at hp
  · obtain rfl := Except.ok.inj hp
    exact ⟨s, p, s'', hbefore, hkept, hpassed, rfl⟩
  · cases hp

/-- An order to execute a job is one of a job that is started. -/
theorem mem_of_executeJob {id : String} {machines : IntervalSet} {mapping : List CInt} {rejected : List Job}
    {starts : List (Job × IntervalSet)} (h : .executeJob id machines mapping ∈
      rejected.map (fun job => ProtocolEvent.rejectJob job.id) ++ starts.flatMap fun start => decisionsOf o start.1 start.2) :
    ∃ start ∈ starts, start.1.id = id ∧ start.2 = machines := by
  rcases List.mem_append.1 h with h | h
  · obtain ⟨job, -, heq⟩ := List.mem_map.1 h
    cases heq
  · obtain ⟨start, hin, hmem⟩ := List.mem_flatMap.1 h
    refine ⟨start, hin, ?_⟩
    unfold decisionsOf at hmem
    cases hmetadata : o.setJobMetadata <;> simp [hmetadata] at hmem <;> exact ⟨hmem.1.symm, hmem.2.1.symm⟩

/-- Only a job that an event submits is submitted. -/
theorem submitted_step {K : Job → Prop} {event : FillerEvent} (h : ∀ job ∈ t.2.submitted, K job)
    (hevent : ∀ job, event = .jobSubmitted job → K job) (hx : run o t event = .ok t') : ∀ job ∈ t'.2.submitted, K job := by
  obtain ⟨s, p⟩ := t
  obtain ⟨p', s', hp, -, rfl⟩ := run_ok hx
  cases event with
  | jobSubmitted job =>
    obtain rfl := Except.ok.inj hp
    intro other ho
    rcases List.mem_append.1 ho with ho | ho
    · exact h other ho
    · exact hevent other (List.mem_singleton.1 ho ▸ rfl)
  | jobCompleted id =>
    obtain ⟨r, before, after, -, -, rfl⟩ := Platform.receive_completed hp
    exact h
  | machinesAvailable machines =>
    obtain rfl := Except.ok.inj hp
    exact h
  | machinesUnavailable machines =>
    obtain rfl := Except.ok.inj hp
    exact h
  | makeDecisions date' currentDate =>
    simp only [notice, Platform.receive] at hp
    split at hp
    · obtain rfl := Except.ok.inj hp
      exact h
    · cases hp

/-- What a step aborts with. -/
theorem abort_step {K : Job → Prop} {event : FillerEvent} {reason : FillerAbort} (h : Kept o t) (hsubmitted : ∀ job ∈ t.2.submitted, K job)
    (hx : run o t event = .error reason) : reason = .job .impossibleMessage ∨ (∃ id, reason = .job (.alreadyInWorkload id)) ∨
      ∃ job, K job ∧ job.nbRequestedResources = 0 ∧ reason = .nbMachinesToAllocate job.id := by
  obtain ⟨s, p⟩ := t
  unfold run at hx
  cases hp : p.receive (notice event) with
  | error abort =>
    rw [hp] at hx
    obtain rfl := Except.error.inj hx
    exact .inl (congrArg FillerAbort.job (Platform.receive_error hp))
  | ok p' =>
    rw [hp] at hx
    have hs := map_eq_error.1 hx
    cases event with
    | jobSubmitted job =>
      simp only [step] at hs
      split at hs
      · exact .inr (.inl ⟨job.id, (Except.error.inj hs).symm⟩)
      · cases hs
    | jobCompleted id =>
      obtain ⟨r, before, after, rfl, hrunning, rfl⟩ := Platform.receive_completed hp
      obtain ⟨job, hjob, -⟩ := h.sized r (by simp [hrunning])
      simp [step, show s.workload r.id = some job from hjob] at hs
    | machinesAvailable machines => cases hs
    | machinesUnavailable machines => cases hs
    | makeDecisions date' currentDate =>
      obtain ⟨job, hmem, hzero, hreason⟩ := (h.passed currentDate).of_error (map_eq_error.1 hs)
      exact .inr (.inr ⟨job, hsubmitted job hmem, hzero, hreason⟩)

/-- How many of the jobs that can be executed have not been. -/
def left (o : FillerOptions) (s : FillerState) : ℕ := (s.queue.jobs ++ JobBooks.accepted o.nbMachines s.jobsReleasedRecently).length

theorem Kept.left_add (h : Kept o t) :
    left o t.1 + t.2.executed.length = (JobBooks.accepted o.nbMachines t.2.submitted).length := by
  have hcount := h.books.accounted.length_eq
  simp only [executions_nil, List.length_append, List.length_map, List.length_nil] at hcount
  rw [left, List.length_append]
  omega

/-- What is needed for all jobs to be executed: no machine is said to be unavailable, and each job that can be executed requests
machines, and fits where all are usable. -/
structure Drainable (o : FillerOptions) (t : FillerState × Platform) : Prop where
  kept : Kept o t
  available : unavailableAtPass t.1 = ∅
  fits : ∀ job ∈ JobBooks.accepted o.nbMachines t.2.submitted,
    0 < job.nbRequestedResources ∧ (o.selector.fit job (Finset.range o.nbMachines)).isSome

/-- The filler has just decided. -/
structure Quiet (o : FillerOptions) (t : FillerState × Platform) : Prop where
  released : t.1.jobsReleasedRecently = []
  reported : t.2.reported = []
  full : ∀ job ∈ t.1.queue.jobs, 0 < job.nbRequestedResources → o.selector.fit job (usable t.1) = none
  available : t.1.unavailableMachines = ∅

/-- A job that waits can be executed. -/
theorem Kept.accepted_of_waits (h : Kept o t) (hwaits : job ∈ t.1.queue.jobs) :
    job ∈ JobBooks.accepted o.nbMachines t.2.submitted := by
  have hknown := h.books.known job (List.mem_append_left _ hwaits)
  exact List.mem_filter.2 ⟨((h.listed.iff job.id job).1 hknown).1, by simpa using h.books.fits job hwaits⟩

theorem drains (o : FillerOptions) : Drains (run o) (Drainable o) (Quiet o) (left o) .jobCompleted
    (fun date => .makeDecisions date date) where
  complete := by
    intro s p r rest h hrunning
    obtain ⟨job, hjob, -⟩ := h.kept.sized r (List.mem_append_right _ (hrunning ▸ List.mem_cons_self))
    have hx : run o (s, p) (.jobCompleted r.id) = .ok ({ s with jobsEndedRecently := s.jobsEndedRecently ++ [r.id] },
        { p with running := rest, reported := p.reported ++ [r] }) := by
      simp [run, notice, Platform.receive, step, hrunning, show s.workload r.id = some job from hjob, Except.map]
    exact ⟨_, hx, ⟨kept_step h.kept hx, h.available, h.fits⟩, rfl⟩
  decide := by
    rintro ⟨s, p⟩ h
    have hyields := h.kept.passed p.now
    cases hmade : makeDecisions o p.now { s with decision := [] } with
    | error reason =>
      obtain ⟨job, hmem, hzero, -⟩ := hyields.of_error hmade
      have haccepted : job ∈ JobBooks.accepted o.nbMachines p.submitted := List.mem_filter.2 ⟨hmem, by simp [hzero]⟩
      have hpos := (h.fits job haccepted).1
      omega
    | ok s' =>
      obtain ⟨-, hpassed⟩ := hyields.of_ok hmade
      have hx : run o (s, p) (.makeDecisions p.now p.now) = .ok (clearRecentDataStructures s', p.send (decisions s')) := by
        simp only [run, notice, Platform.receive, le_refl, if_true, step, hmade, Except.map]
        rfl
      have hkept := kept_step h.kept hx
      have hunavailable : s'.unavailableMachines = ∅ := hpassed.unavailable.trans h.available
      refine ⟨_, hx, ⟨hkept, ?_, h.fits⟩, ⟨rfl, rfl, hpassed.full, hunavailable⟩, rfl, ?_⟩
      · simp [unavailableAtPass, clearRecentDataStructures, hunavailable]
      · have hbefore := h.kept.left_add
        have hafter := hkept.left_add
        simp only [Platform.send, List.length_append, List.length_map] at hbefore hafter ⊢
        omega
  stranded := by
    rintro ⟨s, p⟩ h hquiet hrunning
    have hreleased : s.jobsReleasedRecently = [] := hquiet.released
    have hreported : p.reported = [] := hquiet.reported
    have hall : Finset.range o.nbMachines = s.availableMachines := by
      have hdivided := h.kept.keepsBooks.divided
      dsimp only at hdivided hrunning
      rw [hrunning, hreported] at hdivided
      ext machine
      simpa using hdivided.mem machine
    have husable : usable s = Finset.range o.nbMachines := by
      unfold usable
      rw [hquiet.available, Finset.sdiff_empty, hall]
    have hnone : s.queue.jobs = [] := by
      refine List.eq_nil_iff_forall_not_mem.2 fun job hwaits => ?_
      obtain ⟨hpos, hfits⟩ := h.fits job (h.kept.accepted_of_waits hwaits)
      have hfull := hquiet.full job hwaits hpos
      rw [husable] at hfull
      rw [hfull] at hfits
      cases hfits
    simp [left, hnone, hreleased, JobBooks.accepted]

/-! ### What the simulator reads -/

variable {ρ : Type} {g : Registrar ρ} {r : JsonProtocolReader ρ} {texts : ProtocolTexts}

theorem val_intOf {z : ℤ} (h : Text.IsInt z) : (intOf z).val = z := by
  unfold Text.IsInt at h
  simp only [intOf]
  rw [Int.bmod_eq_of_le] <;> omega

/-- The whole mapping of a job is written, and it stays within the machines. -/
theorem mappingOf_written {requested nbMachines : ℕ} (hlt : requested < 2 ^ 31) (hpos : 0 < nbMachines) (hle : nbMachines ≤ requested) :
    writtenMapping (mappingOf requested nbMachines) = mappingOf requested nbMachines ∧
      FitsAllocation nbMachines (mappingOf requested nbMachines) := by
  constructor
  · refine List.take_of_length_le ?_
    have hsize : intSize (mappingOf requested nbMachines) = requested := by
      unfold intSize mappingOf
      rw [List.length_map, List.length_range, Int.bmod_eq_of_le] <;> omega
    rw [hsize]
    simp [mappingOf]
  · intro resource hmem
    obtain ⟨i, -, rfl⟩ := List.mem_map.1 hmem
    have hsmall := Nat.mod_lt i hpos
    have hint : Text.IsInt ((i % nbMachines : ℕ) : ℤ) := by
      unfold Text.IsInt
      omega
    rw [val_intOf hint]
    omega

/-- What is decided about a job that starts is handed over. -/
theorem handOver_decisionsOf {machines usableMachines : IntervalSet} {event : ProtocolEvent} (hjob : Readable o g r.workloads job)
    (hlt : job.nbRequestedResources < 2 ^ 31) (hstart : MayStart o usableMachines job machines)
    (hevent : event ∈ decisionsOf o job machines) : ∃ r', handOver texts g r (date, event) = some r' ∧ r'.workloads = r.workloads := by
  have hcard : (nbMachinesToAllocate o job).toNat = machines.card := by
    have := hstart.card
    omega
  obtain ⟨hwritten, hfits⟩ := mappingOf_written hlt hstart.pos hstart.le
  have hne : machines ≠ ∅ := (Finset.card_pos.1 hstart.pos).ne_empty
  unfold decisionsOf at hevent
  rw [hcard] at hevent
  rcases List.mem_cons.1 hevent with rfl | hevent
  · cases hmapping : o.customMapping with
    | false => simp [handOver, hjob.identifier, hjob.known, hne, writtenMapping, FitsAllocation, JsonProtocolReader.sendMessageAtTime]
    | true =>
      simp [handOver, hjob.identifier, hjob.known, hne, hwritten, hfits, JsonProtocolReader.sendMessageAtTime]
  · split at hevent
    · rename_i hmetadata
      obtain rfl := List.mem_singleton.1 hevent
      simp [handOver, hjob.identifier, hjob.noQuotes hmetadata, JsonProtocolReader.sendMessageAtTime]
    · cases hevent

open ProtocolAux JsonValue in
/-- What is written of a decision that rejects or executes a job, or sets its metadata, has no doubles. -/
theorem readsDoubles_data {event : ProtocolEvent} {data : JsonValue}
    (hevent : (∃ job : Job, event = .rejectJob job.id) ∨ ∃ job machines, event ∈ decisionsOf o job machines)
    (hdata : event.data texts = .ok data) : texts.ReadsDoubles data := by
  have hexecute : ∀ id machines mapping, ProtocolEvent.data texts (.executeJob id machines mapping) = .ok data →
      texts.ReadsDoubles data := by
    intro id machines mapping h
    obtain rfl := Except.ok.inj h
    refine readsDoubles_object fun member hmember => ?_
    rcases List.mem_append.1 hmember with hmember | hmember
    · simp only [List.mem_cons, List.not_mem_nil, or_false] at hmember
      rcases hmember with rfl | rfl <;> exact readsDoubles_string _
    · split at hmember
      · cases hmember
      · obtain rfl := List.mem_singleton.1 hmember
        exact readsDoubles_mappingMembers mapping
  rcases hevent with ⟨job, rfl⟩ | ⟨job, machines, hmem⟩
  · obtain rfl := Except.ok.inj hdata
    exact readsDoubles_object (by simp [readsDoubles_string])
  · rcases List.mem_cons.1 hmem with rfl | hmem
    · exact hexecute _ _ _ hdata
    · split at hmem
      · obtain rfl := List.mem_singleton.1 hmem
        obtain rfl := Except.ok.inj hdata
        exact readsDoubles_object (by simp [readsDoubles_string])
      · cases hmem

/-- Decisions that are handed over one by one, and leave the workloads as they are, are handed over together. -/
theorem exists_foldlM_handOver {events : List ProtocolEvent} (h : ∀ event ∈ events, ∀ r' : JsonProtocolReader ρ,
      r'.workloads = r.workloads → ∃ r'', handOver texts g r' (date, event) = some r'' ∧ r''.workloads = r'.workloads) :
    ∃ r', (events.map fun event => (date, event)).foldlM (handOver texts g) r = some r' := by
  induction events generalizing r with
  | nil => exact ⟨r, rfl⟩
  | cons event events ih =>
    obtain ⟨hfirst, hrest⟩ := List.forall_mem_cons.1 h
    obtain ⟨r₁, hr₁, hsame⟩ := hfirst r rfl
    obtain ⟨r', hr'⟩ := ih fun event' hin r'' hr'' => hrest event' hin r'' (hr''.trans hsame)
    refine ⟨r', ?_⟩
    rw [List.map_cons, List.foldlM_cons, hr₁]
    exact hr'

end FillerAux

section

variable (o : FillerOptions) (date : ℚ)

open FillerAux

/-- In every run the filler keeps its books. -/
theorem filler_books_kept (events : List FillerEvent) (t : FillerState × Platform)
    (hrun : runFrom (run o) (Filler.new o, Platform.new date) events = .ok t) : KeepsBooks o t :=
  (kept_of_run hrun).keepsBooks

/-- No job is executed on a machine whose last notice says that it is unavailable. -/
theorem filler_avoids_unavailable (events : List FillerEvent) (date' currentDate : ℚ) (t : FillerState × Platform)
    (hrun : runFrom (run o) (Filler.new o, Platform.new date) (events ++ [.makeDecisions date' currentDate]) = .ok t)
    (id : String) (machines : IntervalSet) (mapping : List CInt) (hmem : .executeJob id machines mapping ∈ t.1.decision) :
    Disjoint machines (unavailableAfter events) := by
  obtain ⟨s, p, s', hbefore, -, hpassed, rfl⟩ := passed_of_run hrun
  obtain ⟨usableMachines, starts, hdecision, hdisjoint, hstarts⟩ := hpassed.starts
  have horder : .executeJob id machines mapping ∈ s'.decision := hmem
  rw [hdecision, List.nil_append] at horder
  obtain ⟨start, hin, -, rfl⟩ := mem_of_executeJob horder
  exact (hdisjoint.mono_left (hstarts start hin).2.subset).mono_right (unavailable_of_run hbefore)

/-- When the filler has decided, no job that waits fits on the machines that are left, but for one that requests none. -/
theorem filler_fills (events : List FillerEvent) (date' currentDate : ℚ) (t : FillerState × Platform)
    (hrun : runFrom (run o) (Filler.new o, Platform.new date) (events ++ [.makeDecisions date' currentDate]) = .ok t)
    (job : Job) (hwaits : job ∈ t.1.queue.jobs) (hpos : 0 < job.nbRequestedResources) :
    o.selector.fit job (t.1.availableMachines \ t.1.unavailableMachines) = none := by
  obtain ⟨s, p, s', -, -, hpassed, rfl⟩ := passed_of_run hrun
  exact hpassed.full job hwaits hpos

/-- A run aborts at a message that the simulator does not send, or at a job that requests no machines. -/
theorem filler_aborts_only (events : List FillerEvent) (reason : FillerAbort)
    (hrun : runFrom (run o) (Filler.new o, Platform.new date) events = .error reason) :
    reason = .job .impossibleMessage ∨ (∃ id, reason = .job (.alreadyInWorkload id)) ∨
      ∃ job, .jobSubmitted job ∈ events ∧ job.nbRequestedResources = 0 ∧ reason = .nbMachinesToAllocate job.id := by
  refine runFrom_error (I := fun t => Kept o t ∧ ∀ job ∈ t.2.submitted, .jobSubmitted job ∈ events)
    (C := fun _ event => event ∈ events) ?_ (fun t event reason h _ hx => abort_step h.1 h.2 hx) ⟨Kept.new o date, nofun⟩
    (allSteps_of_forall fun _ hevent => hevent) hrun
  rintro t event t' ⟨hkept, hsubmitted⟩ hevent hx
  exact ⟨kept_step hkept hx, submitted_step hsubmitted (fun job heq => heq ▸ hevent) hx⟩

/-- Once no machine is said to be unavailable, all jobs that can be executed can be executed to the end, without another submission,
where the selector lets each of them fit on an empty platform. -/
theorem filler_drains (events : List FillerEvent) (t : FillerState × Platform)
    (hrun : runFrom (run o) (Filler.new o, Platform.new date) events = .ok t) (havailable : unavailableAtPass t.1 = ∅)
    (hfits : ∀ job ∈ JobBooks.accepted o.nbMachines t.2.submitted,
      0 < job.nbRequestedResources ∧ (o.selector.fit job (Finset.range o.nbMachines)).isSome) :
    ∃ events' t', runFrom (run o) t events' = .ok t' ∧
      (∀ event ∈ events', (∃ id, event = .jobCompleted id) ∨ ∃ date, event = .makeDecisions date date) ∧
      t'.2.running = [] ∧ t'.2.reported = [] ∧
      t'.2.executed.Perm ((JobBooks.accepted o.nbMachines t.2.submitted).map (·.id)) := by
  obtain ⟨events', t', ht', hkind, hdrainable, hquiet, hsubmitted, hrunning, hleft⟩ :=
    (drains o).exists_drained ⟨kept_of_run hrun, havailable, hfits⟩
  have hnone : t'.1.queue.jobs ++ JobBooks.accepted o.nbMachines t'.1.jobsReleasedRecently = [] := List.eq_nil_of_length_eq_zero hleft
  have haccounted := hdrainable.kept.keepsBooks.accounted
  rw [hnone, hsubmitted, List.map_nil, List.append_nil] at haccounted
  exact ⟨events', t', ht', hkind, hrunning, hquiet.reported, haccounted⟩

/-- The simulator reads the text of a message in which the filler's decisions are, and aborts at none of them. -/
theorem filler_decisions_accepted (events : List FillerEvent) (date' currentDate : ℚ) (t : FillerState × Platform)
    (hrun : runFrom (run o) (Filler.new o, Platform.new date) (events ++ [.makeDecisions date' currentDate]) = .ok t)
    (hint : o.nbMachines < 2 ^ 31) {ρ : Type} (g : Registrar ρ) (r : JsonProtocolReader ρ)
    (hjobs : ∀ job ∈ t.2.submitted, Readable o g r.workloads job) {texts : ProtocolTexts} {w w' : JsonProtocolWriter} {text : String}
    (htexts : ∀ event ∈ t.1.decision, ∀ machines ∈ event.machines?, texts.ReadsMachines machines)
    (happend : runFrom (JsonProtocolWriter.append texts) w.clear (t.1.decision.map fun event => (date', event)) = .ok w')
    (htext : w'.generateCurrentMessage texts date' = .ok text) (hback : texts.readBack date' = date') :
    ∃ r', JsonProtocolReader.parseAndApplyMessage texts g r text = .ok r' := by
  obtain ⟨s, p, s', -, hkept, hpassed, rfl⟩ := passed_of_run hrun
  obtain ⟨usableMachines, starts, hdecision, -, hstarts⟩ := hpassed.starts
  have hsubmitted : ∀ job ∈ s.queue.jobs ++ s.jobsReleasedRecently, Readable o g r.workloads job := fun job hmem =>
    hjobs job ((hkept.listed.iff job.id job).1 (hkept.books.known job hmem)).1
  have haccepted : ∀ event ∈ s'.decision, ∀ r' : JsonProtocolReader ρ, r'.workloads = r.workloads →
      ∃ r'', handOver texts g r' (date', event) = some r'' ∧ r''.workloads = r'.workloads := by
    intro event hevent r' hr'
    rw [hdecision, List.nil_append] at hevent
    rcases List.mem_append.1 hevent with hevent | hevent
    · obtain ⟨job, hjob, rfl⟩ := List.mem_map.1 hevent
      have hreadable := hsubmitted job (List.mem_append_right _ (List.mem_of_mem_filter hjob))
      simp [handOver, hreadable.identifier, JsonProtocolReader.sendMessageAtTime]
    · obtain ⟨start, hin, hmem⟩ := List.mem_flatMap.1 hevent
      obtain ⟨hjob, hmay⟩ := hstarts start hin
      rcases List.mem_append.1 hjob with hwaits | hnew
      · have hreadable := hsubmitted start.1 (List.mem_append_left _ hwaits)
        exact handOver_decisionsOf (hr' ▸ hreadable) ((hkept.books.fits _ hwaits).trans_lt hint) hmay hmem
      · have hreadable := hsubmitted start.1 (List.mem_append_right _ (List.mem_of_mem_filter hnew))
        have hle : start.1.nbRequestedResources ≤ o.nbMachines := by simpa using (List.mem_filter.1 hnew).2
        exact handOver_decisionsOf (hr' ▸ hreadable) (hle.trans_lt hint) hmay hmem
  obtain ⟨r₁, hr₁⟩ := exists_foldlM_handOver haccepted
  have hofDecision : ∀ decision ∈ s'.decision.map fun event => (date', event), ∃ event ∈ s'.decision, (date', event) = decision :=
    fun decision hmem => List.mem_map.1 hmem
  have hmachines : ∀ decision ∈ s'.decision.map fun event => (date', event), ∀ machines ∈ decision.2.machines?,
      texts.ReadsMachines machines := by
    intro decision hmem
    obtain ⟨event, hevent, rfl⟩ := hofDecision decision hmem
    exact htexts event hevent
  have hdoubles : texts.ReadsDoubles (w'.document date') := by
    refine ProtocolAux.readsDoubles_document hback (fun decision hmem => ?_) (fun decision hmem data hdata => ?_) happend
    · obtain ⟨event, -, rfl⟩ := hofDecision decision hmem
      exact hback
    · obtain ⟨event, hevent, rfl⟩ := hofDecision decision hmem
      refine readsDoubles_data (o := o) ?_ hdata
      rw [hdecision, List.nil_append] at hevent
      rcases List.mem_append.1 hevent with hevent | hevent
      · obtain ⟨job, -, rfl⟩ := List.mem_map.1 hevent
        exact .inl ⟨job, rfl⟩
      · obtain ⟨start, -, hmem⟩ := List.mem_flatMap.1 hevent
        exact .inr ⟨start.1, start.2, hmem⟩
  have hread := ProtocolAux.parseAndApplyMessage_handOver (g := g) hmachines happend htext hdoubles r
  rw [hr₁] at hread
  cases hparsed : JsonProtocolReader.parseAndApplyMessage texts g r text with
  | ok r' => exact ⟨r', rfl⟩
  | error e =>
    rw [hparsed] at hread
    cases hread

end

deriving instance DecidableEq for ProtocolEvent

namespace FillerAux

open ProtocolExample ProtocolAux JsonValue

/-- Four machines, of which jobs are executed on half as many as they request. -/
private def half : FillerOptions := { nbMachines := 4, fractionOfMachinesToUse := 1 / 2 }

/-- Two machines are unavailable. The first job fits, the second requests too many machines, and the third has to wait. -/
private def before : List FillerEvent :=
  [.machinesUnavailable {0, 1}, .jobSubmitted { id := "w0!1", nbRequestedResources := 2, walltime := 10 },
    .jobSubmitted { id := "w0!2", nbRequestedResources := 5, walltime := 10 },
    .jobSubmitted { id := "w0!3", nbRequestedResources := 4, walltime := 10 }]

private def waitingJob : Job := { id := "w0!3", nbRequestedResources := 4, walltime := 10 }

private def withoutMachines : List FillerEvent :=
  [.jobSubmitted { id := "w0!1", nbRequestedResources := 0, walltime := 10 }, .makeDecisions 10 10]

private def decided : List ProtocolEvent := [.rejectJob "w0!2", .executeJob "w0!1" {2} [⟨0, isInt_zero⟩, ⟨0, isInt_zero⟩]]

/-- The writer after the decisions. -/
private def decidedWriter : JsonProtocolWriter :=
  ((runFrom (JsonProtocolWriter.append texts) (JsonProtocolWriter.clear {}) (decided.map fun event => (10, event))).toOption).getD {}

private theorem exists_decided : ∃ t, runFrom (run half) (Filler.new half, Platform.new 0) (before ++ [.makeDecisions 10 10]) = .ok t ∧
    t.1.decision = decided ∧ t.1.queue.jobs = [waitingJob] ∧ t.2.submitted.map (·.id) = ["w0!1", "w0!2", "w0!3"] := by
  have hok : (runFrom (run half) (Filler.new half, Platform.new 0) (before ++ [.makeDecisions 10 10])).toOption.map
      (fun t => (t.1.decision, t.1.queue.jobs, t.2.submitted.map (·.id))) =
        some (decided, [waitingJob], ["w0!1", "w0!2", "w0!3"]) := by
    decide +kernel
  obtain ⟨t, ht, hfacts⟩ := toOption_map_eq_some.1 hok
  simp only [Prod.mk.injEq] at hfacts
  exact ⟨t, ht, hfacts⟩

end FillerAux

open FillerAux ProtocolExample

theorem filler_books_kept_witness : ∃ t, runFrom (run half) (Filler.new half, Platform.new 0) (before ++ [.makeDecisions 10 10]) = .ok t ∧
    KeepsBooks half t := by
  obtain ⟨t, ht, -⟩ := exists_decided
  exact ⟨t, ht, filler_books_kept half 0 _ t ht⟩

theorem filler_avoids_unavailable_witness : Disjoint ({2} : IntervalSet) (unavailableAfter before) := by
  obtain ⟨t, ht, hdecision, -⟩ := exists_decided
  have horder : .executeJob "w0!1" {2} [⟨0, isInt_zero⟩, ⟨0, isInt_zero⟩] ∈ t.1.decision := by
    rw [hdecision]
    exact List.mem_cons_of_mem _ List.mem_cons_self
  exact filler_avoids_unavailable half 0 before 10 10 t ht "w0!1" {2} _ horder

theorem filler_fills_witness : ∃ t, runFrom (run half) (Filler.new half, Platform.new 0) (before ++ [.makeDecisions 10 10]) = .ok t ∧
    waitingJob ∈ t.1.queue.jobs ∧ half.selector.fit waitingJob (t.1.availableMachines \ t.1.unavailableMachines) = none := by
  obtain ⟨t, ht, -, hqueue, -⟩ := exists_decided
  have hwaits : waitingJob ∈ t.1.queue.jobs := hqueue ▸ List.mem_cons_self
  exact ⟨t, ht, hwaits, filler_fills half 0 before 10 10 t ht waitingJob hwaits (by decide)⟩

/-- A job without machines makes the assertion fail. -/
theorem filler_aborts_only_witness : ∃ reason, runFrom (run half) (Filler.new half, Platform.new 0)
      withoutMachines = .error reason ∧ (reason = .job .impossibleMessage ∨ (∃ id, reason = .job (.alreadyInWorkload id)) ∨
      ∃ job, .jobSubmitted job ∈ withoutMachines ∧ job.nbRequestedResources = 0 ∧ reason = .nbMachinesToAllocate job.id) := by
  have herror : abortOf (runFrom (run half) (Filler.new half, Platform.new 0) withoutMachines) =
      some (.nbMachinesToAllocate "w0!1") := by
    decide +kernel
  exact ⟨_, abortOf_eq_some.1 herror, filler_aborts_only half 0 _ _ (abortOf_eq_some.1 herror)⟩

theorem filler_drains_witness : ∃ t, runFrom (run half) (Filler.new half, Platform.new 0)
      (before ++ [.makeDecisions 10 10, .machinesAvailable {0, 1}]) = .ok t ∧ t.2.executed = ["w0!1"] ∧
    ∃ events' t', runFrom (run half) t events' = .ok t' ∧
      (∀ event ∈ events', (∃ id, event = .jobCompleted id) ∨ ∃ date, event = .makeDecisions date date) ∧
      t'.2.running = [] ∧ t'.2.reported = [] ∧
      t'.2.executed.Perm ((JobBooks.accepted half.nbMachines t.2.submitted).map (·.id)) := by
  have hok : (runFrom (run half) (Filler.new half, Platform.new 0)
      (before ++ [.makeDecisions 10 10, .machinesAvailable {0, 1}])).toOption.map (fun t : FillerState × Platform =>
        (t.2.executed, unavailableAtPass t.1,
        decide (∀ job ∈ JobBooks.accepted half.nbMachines t.2.submitted,
          0 < job.nbRequestedResources ∧ (half.selector.fit job (Finset.range half.nbMachines)).isSome))) =
        some (["w0!1"], ∅, true) := by
    decide +kernel
  obtain ⟨t, ht, hfacts⟩ := toOption_map_eq_some.1 hok
  simp only [Prod.mk.injEq, decide_eq_true_eq] at hfacts
  exact ⟨t, ht, hfacts.1, filler_drains half 0 _ t ht hfacts.2.1 hfacts.2.2⟩

theorem filler_decisions_accepted_witness : ∃ text r', decidedWriter.generateCurrentMessage texts 10 = .ok text ∧
    JsonProtocolReader.parseAndApplyMessage texts registrar { clock := 10, workloads := ["w0!1", "w0!2", "w0!3"] } text = .ok r' := by
  obtain ⟨t, ht, hdecision, -, hids⟩ := exists_decided
  have htext : decidedWriter.generateCurrentMessage texts 10 = .ok (String.ofList ((decidedWriter.document 10).write texts.print)) :=
    if_pos (le_refl (10 : ℚ))
  have hjobs : ∀ job ∈ t.2.submitted, Readable half registrar ["w0!1", "w0!2", "w0!3"] job := by
    intro job hmem
    have hid : job.id ∈ ["w0!1", "w0!2", "w0!3"] := hids ▸ List.mem_map_of_mem hmem
    refine ⟨?_, decide_eq_true hid, fun h => absurd h (by decide)⟩
    revert hid
    generalize job.id = id
    revert id
    decide
  have happend : runFrom (JsonProtocolWriter.append texts) (JsonProtocolWriter.clear {}) (t.1.decision.map fun event => (10, event)) =
      .ok decidedWriter := by
    rw [hdecision]
    rfl
  have hmachines : ∀ event ∈ t.1.decision, ∀ machines ∈ event.machines?, texts.ReadsMachines machines := by
    rw [hdecision]
    intro event hmem machines hmachines
    simp only [decided, List.mem_cons, List.not_mem_nil, or_false] at hmem
    rcases hmem with rfl | rfl
    · cases hmachines
    · obtain rfl := Option.some.inj hmachines
      exact .inl (by decide)
  obtain ⟨r', hr'⟩ := filler_decisions_accepted half 0 before 10 10 t ht (by decide) registrar
    { clock := 10, workloads := ["w0!1", "w0!2", "w0!3"] } hjobs hmachines happend htext (readBack_natCast 10)
  exact ⟨_, r', htext, hr'⟩

end ScheduleTest
