import ScheduleTest.Lemmas.Drain
import ScheduleTest.Lemmas.EasyBfFast

/-!
# easy_bf_fast keeps its books and its promises

In every run the machines are divided among the jobs that run and those available, every job is executed once or waits behind the
priority job, and the points are those at which the running jobs end (`easy_bf_fast_books_kept`). No assertion of the source fails
(`easy_bf_fast_never_aborts`). As long as no job runs longer than its walltime the priority job starts by the date computed for it
and is never passed by at a later one (`easy_bf_fast_priority_starts_by`), and all jobs can always be executed to the end
(`easy_bf_fast_drains`).
-/

namespace ScheduleTest

open Execution EasyBFFast

namespace EasyBFFast

/-- What is meant to hold of the books of the scheduler, beside what the messages say. -/
structure KeepsBooks (nbMachines : ℕ) (t : EasyBFFastState × Platform) : Prop where
  once : (t.2.submitted.map (·.id)).Nodup
  /-- Every job that can be executed has been executed, waits or was just released, and only one of these. -/
  accounted : (t.2.executed ++ (waiting t.1 ++ accepted nbMachines t.1.jobsReleasedRecently).map (·.id)).Perm
    ((accepted nbMachines t.2.submitted).map (·.id))
  rejected : t.2.rejected ++ (tooLarge nbMachines t.1.jobsReleasedRecently).map (·.id) =
    (tooLarge nbMachines t.2.submitted).map (·.id)
  divided : Divided (Finset.range nbMachines) t.1.availableMachines ((t.2.running ++ t.2.reported).map (·.machines))
  /-- The allocations are those of the jobs whose ends the scheduler has not dealt with. -/
  allocated : ∀ e, e ∈ t.1.currentAllocations.entries ↔ e ∈ (t.2.running ++ t.2.reported).map fun r => (r.id, r.machines)
  count : t.1.nbAvailableMachines = t.1.availableMachines.card
  points : t.1.horizons.Perm ((t.2.running ++ t.2.reported).map (endPoint t.1))
  sorted : t.1.horizons.Pairwise fun p q => p.date ≤ q.date
  /-- Jobs wait behind a priority job, and it does not fit. -/
  waits : t.1.priorityJob = none → t.1.pendingJobs = []
  busy : ∀ job date, t.1.priorityJob = some (job, date) → t.1.nbAvailableMachines < job.nbRequestedResources

/-- A job is the priority job with a date, or it has been executed and started by that date. -/
def StartsBy (job : Job) (date : ℚ) (t : EasyBFFastState × Platform) : Prop :=
  t.1.priorityJob = some (job, date) ∨
    job.id ∈ t.2.executed ∧ ∀ r ∈ t.2.running ++ t.2.reported, r.id = job.id → r.start ≤ date

/-- When the scheduler decides and a job is the priority job with a date, that date has not passed. -/
def NeverLate (job : Job) (τ : ℚ) (t : EasyBFFastState × Platform) (event : EasyBf3Event) : Prop :=
  ∀ date currentDate, event = .makeDecisions date currentDate → t.1.priorityJob = some (job, τ) → date ≤ τ

end EasyBFFast

namespace EasyBFFastAux

variable {n : ℕ} {date : ℚ} {s s' : EasyBFFastState} {p : Platform} {t t' : EasyBFFastState × Platform} {job : Job}

/-- What every step keeps. -/
structure Kept (n : ℕ) (t : EasyBFFastState × Platform) : Prop where
  books : ∀ date, Books n date t.2 (t.2.reported ++ t.2.running) (waiting t.1) t.1.jobsReleasedRecently
    { t.1 with decision := t.1.decision.clear }
  reserved : Reserved t.1
  busy : Busy t.1
  ended : t.1.jobsEndedRecently = t.2.reported.map (·.id)
  listed : ∀ id job, t.1.workload id = some job ↔ job ∈ t.2.submitted ∧ job.id = id
  once : (t.2.submitted.map (·.id)).Nodup

theorem Kept.new (n : ℕ) (date : ℚ) : Kept n (EasyBFFast.new n, Platform.new date) where
  books := by
    intro date'
    have hrunning : runningWith ([] ++ []) date' { EasyBFFast.new n with decision := (EasyBFFast.new n).decision.clear } = [] := rfl
    refine ⟨Divided.new _, ?_, ?_, .refl _, .nil, .nil, nofun, nofun, nofun, .refl _, rfl⟩
    · intro e
      exact iff_of_false List.not_mem_nil List.not_mem_nil
    · simp [EasyBFFast.new]
  reserved := ⟨fun _ => rfl, nofun⟩
  busy := nofun
  ended := rfl
  listed := by simp [EasyBFFast.new, Platform.new]
  once := .nil

/-- A job submitted is one that is not known yet. -/
theorem Kept.submit (h : Kept n (s, p)) (hnew : s.workload job.id = none) :
    Kept n ({ s with
      workload := Function.update s.workload job.id (some job)
      jobsReleasedRecently := s.jobsReleasedRecently ++ [job] }, { p with submitted := p.submitted ++ [job] }) := by
  have hother : ∀ {id other}, s.workload id = some other → Function.update s.workload job.id (some job) id = some other := by
    intro id other ho
    rw [Function.update_of_ne, ho]
    rintro rfl
    rw [hnew] at ho
    cases ho
  have hnone : ∀ other ∈ p.submitted, other.id ≠ job.id := by
    intro other ho heq
    have hwork := (h.listed other.id other).2 ⟨ho, rfl⟩
    rw [heq] at hwork
    rw [show s.workload job.id = some other from hwork] at hnew
    cases hnew
  refine ⟨fun date => ?_, ⟨h.reserved.waits, h.reserved.reserved⟩, h.busy, h.ended, ?_, ?_⟩
  rotate_left
  · intro id other
    dsimp only
    by_cases hid : id = job.id
    · subst hid
      rw [Function.update_self, List.mem_append, List.mem_singleton]
      constructor
      · intro ho
        exact ⟨.inr (Option.some.inj ho).symm, congrArg Job.id (Option.some.inj ho).symm⟩
      · rintro ⟨ho | rfl, heq⟩
        · exact absurd heq (hnone other ho)
        · rfl
    · rw [Function.update_of_ne hid, show s.workload id = some other ↔ other ∈ p.submitted ∧ other.id = id from h.listed id other,
        List.mem_append, List.mem_singleton]
      refine and_congr_left fun heq => ⟨.inl, fun ho => ho.resolve_right ?_⟩
      rintro rfl
      exact hid heq.symm
  · rw [List.map_append, List.map_singleton]
    refine (List.perm_append_singleton _ _).nodup_iff.2 (List.nodup_cons.2 ⟨fun hmem => ?_, h.once⟩)
    obtain ⟨other, ho, heq⟩ := List.mem_map.1 hmem
    exact hnone other ho heq
  have hbooks := h.books date
  have hpoints : ∀ r ∈ runningWith (p.reported ++ p.running) date { s with decision := s.decision.clear },
      endPoint { s with workload := Function.update s.workload job.id (some job) } r = endPoint s r := by
    intro r hr
    obtain ⟨other, ho, -⟩ := hbooks.sized r hr
    simp only [endPoint, walltimeOf, hother ho, show s.workload r.id = some other from ho]
  constructor
  case divided => exact hbooks.divided
  case allocated => exact hbooks.allocated
  case count => exact hbooks.count
  case points => exact hbooks.points.trans (.of_eq (List.map_congr_left fun r hr => (hpoints r hr).symm))
  case sorted => exact hbooks.sorted
  case distinct =>
    have hfresh : job.id ∉ (runningWith (p.reported ++ p.running) date { s with decision := s.decision.clear }).map (·.id) ++
        (waiting s ++ s.jobsReleasedRecently).map (·.id) := by
      intro hbad
      rcases List.mem_append.1 hbad with hbad | hbad
      · obtain ⟨r, hr, hid⟩ := List.mem_map.1 hbad
        obtain ⟨other, ho, -⟩ := hbooks.sized r hr
        rw [hid, hnew] at ho
        cases ho
      · obtain ⟨other, ho, hid⟩ := List.mem_map.1 hbad
        have hknown : s.workload other.id = some other := hbooks.known other ho
        rw [hid, hnew] at hknown
        cases hknown
    have hnodup := (List.perm_append_singleton _ _).nodup_iff.2 (List.nodup_cons.2 ⟨hfresh, hbooks.distinct⟩)
    rw [List.append_assoc, ← List.map_singleton, ← List.map_append, List.append_assoc] at hnodup
    exact hnodup
  case sized =>
    intro r hr
    obtain ⟨other, ho, hcard⟩ := hbooks.sized r hr
    exact ⟨other, hother ho, hcard⟩
  case known =>
    intro other ho
    rw [← List.append_assoc, List.mem_append, List.mem_singleton] at ho
    rcases ho with ho | rfl
    · exact hother (hbooks.known other ho)
    · exact Function.update_self ..
  case fits => exact hbooks.fits
  case accounted =>
    have haccounted := hbooks.accounted
    simp only [accepted, List.filter_append, ← List.append_assoc, List.map_append] at haccounted ⊢
    exact haccounted.append_right _
  case rejected =>
    have hrejected := hbooks.rejected
    simp only [tooLarge, List.filter_append, ← List.append_assoc, List.map_append] at hrejected ⊢
    exact congrArg (· ++ _) hrejected

/-- The end of a job that runs is reported. -/
theorem Kept.complete {r : RunningJob} {before after : List RunningJob} (h : Kept n (s, p))
    (hrunning : p.running = before ++ r :: after) :
    Kept n ({ s with jobsEndedRecently := s.jobsEndedRecently ++ [r.id] },
      { p with running := before ++ after, reported := p.reported ++ [r] }) := by
  have hperm : (p.reported ++ [r] ++ (before ++ after)).Perm (p.reported ++ p.running) := by
    rw [hrunning, List.append_assoc, List.singleton_append]
    exact List.Perm.append_left _ List.perm_middle.symm
  refine ⟨fun date => ?_, ⟨h.reserved.waits, h.reserved.reserved⟩, h.busy, ?_, h.listed, h.once⟩
  · have hbooks := (h.books date).perm_base hperm
    exact ⟨hbooks.divided, hbooks.allocated, hbooks.count, hbooks.points, hbooks.sorted, hbooks.distinct, hbooks.sized, hbooks.known,
      hbooks.fits, hbooks.accounted, hbooks.rejected⟩
  · have hended : s.jobsEndedRecently = p.reported.map (·.id) := h.ended
    simp [hended]

/-- A pass looks at the jobs whose ends are reported and at those released, and does not abort. -/
theorem makeDecisions_books (h : Kept n (s, p)) (date : ℚ) :
    ∃ s', makeDecisions n { s with decision := s.decision.clear } date = .ok s' ∧ Books n date p p.running (waiting s') [] s' ∧
      Reserved s' ∧ Busy s' ∧ s'.workload = s.workload ∧ KeepsPriority s s' := by
  have hcleared : Books n date p (p.reported ++ p.running) (waiting { s with decision := s.decision.clear }) s.jobsReleasedRecently
      { s with decision := s.decision.clear } := h.books date
  obtain ⟨s₁, hs₁, hbooks₁, hreserved₁, hframe₁, hpriority₁⟩ := finishJobs_books hcleared ⟨h.reserved.waits, h.reserved.reserved⟩
  -- either no job has ended, and nothing has changed for the priority job, or jobs are executed
  have hsecond : ∃ s₂, (if s₁.jobsEndedRecently.isEmpty then .ok s₁ else executeJobs date s₁) = .ok s₂ ∧
      Books n date p p.running (waiting s₂) s.jobsReleasedRecently s₂ ∧ Reserved s₂ ∧ Busy s₂ ∧ Frame s₁ s₂ ∧
      KeepsPriority s₁ s₂ := by
    split
    · rename_i hnone
      have hnothing : p.reported.map (·.id) = [] := by
        have hended : s.jobsEndedRecently = p.reported.map (·.id) := h.ended
        rw [← hended]
        simpa [hframe₁.ended] using hnone
      rw [hnothing] at hs₁
      obtain rfl := Except.ok.inj hs₁
      exact ⟨_, rfl, hbooks₁, hreserved₁, h.busy, .refl _, fun _ _ hfirst => .inl hfirst⟩
    · exact executeJobs_books hbooks₁ hreserved₁
  obtain ⟨s₂, hs₂, hbooks₂, hreserved₂, hbusy₂, hframe₂, hkeeps₂⟩ := hsecond
  obtain ⟨s₃, hs₃, hbooks₃, hreserved₃, hbusy₃, hframe₃, hkeeps₃⟩ := releaseJobs_books hbooks₂ hreserved₂ hbusy₂
  have hreleased : s₂.jobsReleasedRecently = s.jobsReleasedRecently := hframe₂.released.trans hframe₁.released
  have hworkload : s₃.workload = s.workload := hframe₃.workload.trans (hframe₂.workload.trans hframe₁.workload)
  refine ⟨s₃, ?_, hbooks₃, hreserved₃, hbusy₃, hworkload, fun job t hjob => ?_⟩
  · have hended : s.jobsEndedRecently = p.reported.map (·.id) := h.ended
    rw [← hended] at hs₁
    unfold makeDecisions
    dsimp only
    rw [hs₁]
    change (if s₁.jobsEndedRecently.isEmpty then .ok s₁ else executeJobs date s₁) >>= _ = _
    rw [hs₂]
    change runFrom (releaseJob n date) s₂ s₂.jobsReleasedRecently = _
    rw [hreleased, hs₃]
  · rcases hkeeps₂ job t (hpriority₁.trans hjob) with hkept | hexecuted
    · exact .inl (hkeeps₃ job t hkept)
    · obtain ⟨e, he, heq⟩ := List.mem_map.1 hexecuted
      exact .inr (List.mem_map.2 ⟨e, hframe₃.executions e he, heq⟩)

/-- The decisions of a pass are sent. -/
theorem Kept.decide (h : Kept n (s, p)) (hbooks : Books n date p p.running (waiting s') [] s') (hreserved : Reserved s')
    (hbusy : Busy s') (hworkload : s'.workload = s.workload) :
    Kept n ({ s' with jobsReleasedRecently := [], jobsEndedRecently := [] },
      ({ p with now := date } : Platform).send s'.decision.decisions) := by
  refine ⟨fun date' => ?_, ⟨hreserved.waits, hreserved.reserved⟩, hbusy, rfl, fun id job => ?_, h.once⟩
  rotate_left
  · exact hworkload ▸ h.listed id job
  have hrunning : runningWith ([] ++ (({ p with now := date } : Platform).send s'.decision.decisions).running) date'
      { s' with jobsReleasedRecently := [], jobsEndedRecently := [], decision := s'.decision.clear } =
      runningWith p.running date s' := by
    simp [runningWith, Platform.send]
  constructor
  case divided => exact hrunning ▸ hbooks.divided
  case allocated => exact fun e => hrunning ▸ hbooks.allocated e
  case count => exact hbooks.count
  case points => exact hrunning ▸ hbooks.points
  case sorted => exact hbooks.sorted
  case distinct =>
    have hdistinct := hbooks.distinct
    exact hrunning ▸ hdistinct
  case sized => exact fun r hr => hbooks.sized r (hrunning ▸ hr)
  case known => exact hbooks.known
  case fits => exact hbooks.fits
  case accounted =>
    have haccounted := hbooks.accounted
    simp only [Platform.send, SchedulingDecision.decisions_clear, executions_nil, List.map_nil, List.append_nil]
    exact haccounted
  case rejected => simpa [Platform.send, tooLarge] using hbooks.rejected

/-- The scheduler decides whenever time has not run backwards. -/
theorem exists_decide (h : Kept n t) (currentDate : ℚ) (hle : t.2.now ≤ date) :
    ∃ s', (scheduler n).run t (.makeDecisions date currentDate) = .ok
        ({ s' with jobsReleasedRecently := [], jobsEndedRecently := [] },
          ({ t.2 with now := date } : Platform).send s'.decision.decisions) ∧
      Books n date t.2 t.2.running (waiting s') [] s' ∧ Reserved s' ∧ Busy s' ∧ s'.workload = t.1.workload ∧
      KeepsPriority t.1 s' := by
  obtain ⟨s, p⟩ := t
  obtain ⟨s', hs', hbooks, hreserved, hbusy, hworkload, hkeeps⟩ := makeDecisions_books h date
  refine ⟨s', ?_, hbooks, hreserved, hbusy, hworkload, hkeeps⟩
  simp only [JobScheduler.run, scheduler, step, Platform.receive, if_pos hle, hs']
  rfl

/-- Every event keeps the books, and what is promised to the priority job. -/
theorem kept_step {event : EasyBf3Event} (h : Kept n t) (hx : (scheduler n).run t event = .ok t') :
    Kept n t' := by
  obtain ⟨s, p⟩ := t
  cases event with
  | jobSubmitted job =>
    obtain ⟨s', hs, rfl⟩ := JobScheduler.run_submitted rfl hx
    simp only [scheduler, step] at hs
    split at hs
    · cases hs
    · rename_i hnew
      cases hs
      exact h.submit hnew
  | jobCompleted id =>
    obtain ⟨s', r, before, after, hs, rfl, hrunning, rfl⟩ := JobScheduler.run_completed rfl hx
    simp only [scheduler, step] at hs
    split at hs
    · cases hs
      exact h.complete hrunning
    · cases hs
  | makeDecisions now currentDate =>
    obtain ⟨hle, -, -, -⟩ := JobScheduler.run_decided rfl hx
    obtain ⟨s', hs', hbooks, hreserved, hbusy, hworkload, -⟩ := exists_decide h currentDate hle
    rw [hs'] at hx
    obtain rfl := Except.ok.inj hx
    exact h.decide hbooks hreserved hbusy hworkload

/-- What is kept says what is meant to hold. -/
theorem Kept.keepsBooks (h : Kept n t) : KeepsBooks n t := by
  have hbooks := (h.books 0).perm_base List.perm_append_comm
  have hrunning : runningWith (t.2.running ++ t.2.reported) 0 { t.1 with decision := t.1.decision.clear } =
      t.2.running ++ t.2.reported := List.append_nil _
  constructor
  case once => exact h.once
  case accounted => simpa using hbooks.accounted
  case rejected => simpa using hbooks.rejected
  case divided => exact hrunning ▸ hbooks.divided
  case allocated => exact fun e => hrunning ▸ hbooks.allocated e
  case count => exact hbooks.count
  case points => exact hrunning ▸ hbooks.points
  case sorted => exact hbooks.sorted
  case waits => exact h.reserved.waits
  case busy => exact h.busy

/-- In every run the books are kept. -/
theorem kept_of_run {events : List EasyBf3Event} (h : Kept n t) (hrun : runFrom (scheduler n).run t events = .ok t') : Kept n t' :=
  runFrom_invariant (fun _ _ _ h _ hx => kept_step h hx) h (allSteps_of_forall fun _ _ => trivial) hrun

/-- What a run aborts with is a message that the simulator does not send. -/
theorem abort_step {event : EasyBf3Event} {e : Abort} (h : Kept n t) (hx : (scheduler n).run t event = .error e) :
    e = .impossibleMessage ∨ ∃ id, e = .alreadyInWorkload id := by
  obtain ⟨s, p⟩ := t
  cases event with
  | jobSubmitted job =>
    simp only [JobScheduler.run, scheduler, Platform.receive, step] at hx
    split at hx
    · obtain rfl := Except.error.inj hx
      exact .inr ⟨job.id, rfl⟩
    · cases hx
  | jobCompleted id =>
    simp only [JobScheduler.run, scheduler, Platform.receive] at hx
    cases hfind : p.running.find? (·.id = id) with
    | none =>
      rw [hfind] at hx
      obtain rfl := Except.error.inj hx
      exact .inl rfl
    | some r =>
      obtain ⟨other, ho, -⟩ := (h.books 0).sized r (List.mem_append_left _ (List.mem_append_right _ (List.mem_of_find?_eq_some hfind)))
      have hid : r.id = id := by simpa using List.find?_some hfind
      rw [hid] at ho
      rw [hfind] at hx
      simp only [step, show s.workload id = some other from ho] at hx
      cases hx
  | makeDecisions date currentDate =>
    by_cases hle : p.now ≤ date
    · obtain ⟨s', hs', -⟩ := exists_decide h currentDate hle
      rw [hs'] at hx
      cases hx
    · simp only [JobScheduler.run, scheduler, Platform.receive, if_neg hle] at hx
      obtain rfl := Except.error.inj hx
      exact .inl rfl

/-! ### The date of the priority job -/

/-- When the scheduler decides and no job has run too long, the date of the priority job has not passed. -/
theorem le_of_inTime {first : Job} {τ : ℚ} (h : Kept n (s, p)) (hpriority : s.priorityJob = some (first, τ))
    (hintime : p.InTime date) : date ≤ τ := by
  by_contra hlt
  have hbooks := h.books date
  -- all points are later than the date of the priority job
  have hnone : releasedBy τ s.horizons = 0 := by
    rw [releasedBy, List.filter_eq_nil_iff.2, List.map_nil, List.sum_nil]
    intro point hpoint
    obtain ⟨r, hr, rfl⟩ := List.mem_map.1 (hbooks.points.mem_iff.1 hpoint)
    have hr' : r ∈ p.reported ++ p.running := by simpa [runningWith] using hr
    obtain ⟨job, hjob, -⟩ := hbooks.sized r hr
    have hwork : s.workload r.id = some job := hjob
    obtain ⟨hmem, hid⟩ := (h.listed r.id job).1 hwork
    have hend := hintime r (List.perm_append_comm.mem_iff.1 hr') job hmem hid
    simp only [endPoint, walltimeOf, hwork, Option.map_some, Option.getD_some, decide_eq_true_eq, not_le]
    exact (not_le.1 hlt).trans_le hend
  have henough : (first.nbRequestedResources : ℤ) ≤ s.nbAvailableMachines + releasedBy τ s.horizons :=
    h.reserved.reserved first τ hpriority
  have hbusy : s.nbAvailableMachines < first.nbRequestedResources := h.busy first τ hpriority
  rw [hnone] at henough
  push_cast at henough
  omega

/-- A job that is the priority job stays so with its date, or has started by it. -/
theorem startsBy_step {event : EasyBf3Event} {first : Job} {τ : ℚ} (h : Kept n t) (hintime : (scheduler n).EndsInTime t.2 event)
    (hstarts : StartsBy first τ t) (hx : (scheduler n).run t event = .ok t') : StartsBy first τ t' := by
  obtain ⟨s, p⟩ := t
  cases event with
  | jobSubmitted job =>
    obtain ⟨s', hs, rfl⟩ := JobScheduler.run_submitted rfl hx
    simp only [scheduler, step] at hs
    split at hs
    · cases hs
    · cases hs
      exact hstarts
  | jobCompleted id =>
    obtain ⟨s', r, before, after, hs, rfl, hrunning, rfl⟩ := JobScheduler.run_completed rfl hx
    simp only [scheduler, step] at hs
    split at hs
    · cases hs
      refine hstarts.imp_right fun ⟨hexecuted, hstart⟩ => ⟨hexecuted, fun r' hr' => hstart r' ?_⟩
      rw [hrunning]
      simp only [List.mem_append, List.mem_cons, List.not_mem_nil, or_false] at hr' ⊢
      tauto
    · cases hs
  | makeDecisions date currentDate =>
    obtain ⟨hle, -, -, -⟩ := JobScheduler.run_decided rfl hx
    obtain ⟨s', hs', hbooks, -, -, -, hkeeps⟩ := exists_decide h currentDate hle
    rw [hs'] at hx
    obtain rfl := Except.ok.inj hx
    -- no job is executed twice
    have hids := hbooks.accounted.nodup_iff.2 (h.once.sublist (List.filter_sublist.map _))
    have hdisjoint := (List.nodup_append.1 (List.nodup_append.1 hids).1).2.2
    rcases hstarts with hpriority | ⟨hexecuted, hstart⟩
    · have hdate := le_of_inTime h hpriority hintime
      rcases hkeeps first τ hpriority with hkept | hnew
      · exact .inl hkept
      · refine .inr ⟨List.mem_append_right _ hnew, fun r hr hid => ?_⟩
        simp only [Platform.send, List.append_nil, List.mem_append] at hr
        rcases hr with hr | hr
        · -- a job that waits does not run
          have hwaiting : first ∈ waiting s := by simp [waiting, show s.priorityJob = some (first, τ) from hpriority]
          refine absurd hid ((List.nodup_append.1 (h.books date).distinct).2.2 r.id (List.mem_map_of_mem ?_) first.id
            (List.mem_map_of_mem (List.mem_append_left _ hwaiting)))
          exact List.mem_append_left _ (List.mem_append_right _ hr)
        · obtain ⟨e, -, rfl⟩ := List.mem_map.1 hr
          exact hdate
    · refine .inr ⟨List.mem_append_left _ hexecuted, fun r hr hid => ?_⟩
      simp only [Platform.send, List.append_nil, List.mem_append] at hr
      rcases hr with hr | hr
      · exact hstart r (List.mem_append_left _ hr) hid
      · obtain ⟨e, he, rfl⟩ := List.mem_map.1 hr
        exact absurd hid.symm (hdisjoint first.id hexecuted e.1 (List.mem_map_of_mem he))

/-! ### Nothing is stranded -/

/-- When nothing runs and nothing was just released, no job waits. -/
theorem waiting_eq_nil (h : Kept n (s, p)) (hrunning : p.running = []) (hreported : p.reported = []) : waiting s = [] := by
  have hbooks := h.books 0
  have htotal := hbooks.total
  have hnone : s.horizons = [] := by
    have hpoints := hbooks.points
    simp only [runningWith, hrunning, hreported, SchedulingDecision.decisions_clear, executions_nil, List.map_nil,
      List.append_nil] at hpoints
    exact List.perm_nil.1 hpoints
  cases hpriority : s.priorityJob with
  | none =>
    have hpending : s.pendingJobs = [] := h.reserved.waits hpriority
    simp [waiting, hpriority, hpending]
  | some entry =>
    obtain ⟨first, τ⟩ := entry
    have hbusy : s.nbAvailableMachines < first.nbRequestedResources := h.busy first τ hpriority
    have hfits := hbooks.fits first (by simp [waiting, hpriority])
    have havailable : s.nbAvailableMachines = n := by simpa [hnone] using htotal
    omega

/-- Of the jobs that can be executed, how many have not been. -/
def left (n : ℕ) (s : EasyBFFastState) : ℕ := (waiting s ++ accepted n s.jobsReleasedRecently).length

theorem Kept.left_add (h : Kept n t) : left n t.1 + t.2.executed.length = (accepted n t.2.submitted).length := by
  have hcount := h.keepsBooks.accounted.length_eq
  simp only [List.length_append, List.length_map] at hcount
  rw [left, List.length_append]
  omega

theorem drains (n : ℕ) : Drains (scheduler n).run (Kept n) (fun t => t.1.jobsReleasedRecently = [] ∧ t.2.reported = []) (left n)
    .jobCompleted (fun date => .makeDecisions date date) where
  complete := by
    intro s p r rest h hrunning
    obtain ⟨job, hjob, -⟩ := (h.books 0).sized r (List.mem_append_left _ (List.mem_append_right _ (hrunning ▸ List.mem_cons_self)))
    have hwork : s.workload r.id = some job := hjob
    have hx : (scheduler n).run (s, p) (.jobCompleted r.id) = .ok ({ s with jobsEndedRecently := s.jobsEndedRecently ++ [r.id] },
        { p with running := rest, reported := p.reported ++ [r] }) := by
      simp [JobScheduler.run, scheduler, Platform.receive, step, hrunning, hwork, Except.map]
    exact ⟨_, hx, kept_step h hx, rfl⟩
  decide := by
    intro t h
    obtain ⟨s, p⟩ := t
    obtain ⟨s', hs', hbooks, hreserved, hbusy, hworkload, -⟩ := exists_decide h p.now le_rfl
    have hkept : Kept n ({ s' with jobsReleasedRecently := [], jobsEndedRecently := [] }, p.send s'.decision.decisions) :=
      h.decide hbooks hreserved hbusy hworkload
    refine ⟨_, hs', hkept, ⟨rfl, rfl⟩, rfl, ?_⟩
    have hbefore := h.left_add
    have hafter := hkept.left_add
    simp only [Platform.send, List.length_append, List.length_map] at hbefore hafter ⊢
    omega
  stranded := by
    rintro ⟨s, p⟩ h ⟨hreleased, hreported⟩ hrunning
    have hwaiting := waiting_eq_nil h hrunning hreported
    dsimp only at hreleased
    simp [left, hwaiting, hreleased, accepted]

end EasyBFFastAux

section

variable (nbMachines : ℕ) (date : ℚ)

open EasyBFFastAux

/-- In every run the books are kept. -/
theorem easy_bf_fast_books_kept (events : List EasyBf3Event) (t : EasyBFFastState × Platform)
    (hrun : runFrom (scheduler nbMachines).run (EasyBFFast.new nbMachines, Platform.new date) events = .ok t) :
    KeepsBooks nbMachines t :=
  (kept_of_run (Kept.new nbMachines date) hrun).keepsBooks

/-- No run aborts but for a message that the simulator does not send: no assertion fails, and no null pointer is followed. -/
theorem easy_bf_fast_never_aborts (events : List EasyBf3Event) (e : Abort)
    (hrun : runFrom (scheduler nbMachines).run (EasyBFFast.new nbMachines, Platform.new date) events = .error e) :
    e = .impossibleMessage ∨ ∃ id, e = .alreadyInWorkload id :=
  runFrom_error (fun _ _ _ h _ hx => kept_step h hx) (fun _ _ _ h _ hx => abort_step h hx) (Kept.new nbMachines date)
    (allSteps_of_forall fun _ _ => trivial) hrun

/-- As long as no job runs longer than its walltime, the priority job of any state reached starts by the date computed for it: in every
later state it is the priority job with that date or has started by it, and the scheduler does not decide at a later date while it
waits. -/
theorem easy_bf_fast_priority_starts_by (events events' : List EasyBf3Event) (t : EasyBFFastState × Platform) (job : Job) (τ : ℚ)
    (hrun : runFrom (scheduler nbMachines).run (EasyBFFast.new nbMachines, Platform.new date) events = .ok t)
    (hpriority : t.1.priorityJob = some (job, τ))
    (hintime : AllSteps (scheduler nbMachines).run (fun t event => (scheduler nbMachines).EndsInTime t.2 event) t events') :
    AllSteps (scheduler nbMachines).run (NeverLate job τ) t events' ∧
      Always (scheduler nbMachines).run (StartsBy job τ) t events' := by
  have hkept := kept_of_run (Kept.new nbMachines date) hrun
  have hstep : ∀ t₁ event t₂, Kept nbMachines t₁ ∧ StartsBy job τ t₁ → (scheduler nbMachines).EndsInTime t₁.2 event →
      (scheduler nbMachines).run t₁ event = .ok t₂ → Kept nbMachines t₂ ∧ StartsBy job τ t₂ :=
    fun t₁ event t₂ h hin hx => ⟨kept_step h.1 hx, startsBy_step h.1 hin h.2 hx⟩
  refine ⟨allSteps_of_invariant hstep ?_ ⟨hkept, .inl hpriority⟩ hintime,
    always_of_invariant hstep (fun t h => h.2) ⟨hkept, .inl hpriority⟩ hintime⟩
  rintro ⟨s, p⟩ event ⟨h, -⟩ hin now currentDate rfl hfirst
  exact le_of_inTime h hfirst hin

/-- Whatever has happened, all jobs that can be executed can be executed to the end, without another submission. -/
theorem easy_bf_fast_drains (events : List EasyBf3Event) (t : EasyBFFastState × Platform)
    (hrun : runFrom (scheduler nbMachines).run (EasyBFFast.new nbMachines, Platform.new date) events = .ok t) :
    ∃ events' t', runFrom (scheduler nbMachines).run t events' = .ok t' ∧ (∀ event ∈ events', ∀ job, event ≠ .jobSubmitted job) ∧
      t'.2.running = [] ∧ t'.2.reported = [] ∧ t'.2.executed.Perm ((accepted nbMachines t.2.submitted).map (·.id)) := by
  obtain ⟨events', t', ht', hkind, hkept, ⟨-, hreported⟩, hsubmitted, hrunning, hleft⟩ :=
    (drains nbMachines).exists_drained (kept_of_run (Kept.new nbMachines date) hrun)
  have hnone : waiting t'.1 ++ accepted nbMachines t'.1.jobsReleasedRecently = [] := List.eq_nil_of_length_eq_zero hleft
  have haccounted := hkept.keepsBooks.accounted
  rw [hnone, hsubmitted, List.map_nil, List.append_nil] at haccounted
  refine ⟨events', t', ht', fun event hevent job => ?_, hrunning, hreported, haccounted⟩
  rcases hkind event hevent with ⟨id, rfl⟩ | ⟨date', rfl⟩ <;> nofun

end

namespace EasyBFFastAux

/-- Beside the first job the second does not fit, and is to start at 10. The third is backfilled, the fourth would hinder it, and
the fifth asks for too many machines. -/
private def submissions : List EasyBf3Event :=
  [.jobSubmitted { id := "w0!1", nbRequestedResources := 3, walltime := 10 },
    .jobSubmitted { id := "w0!2", nbRequestedResources := 4, walltime := 5 },
    .jobSubmitted { id := "w0!3", nbRequestedResources := 1, walltime := 8 },
    .jobSubmitted { id := "w0!4", nbRequestedResources := 1, walltime := 20 },
    .jobSubmitted { id := "w0!5", nbRequestedResources := 5, walltime := 1 },
    .makeDecisions 0 0]

/-- The two jobs that run end. -/
private def ends : List EasyBf3Event := [.jobCompleted "w0!1", .jobCompleted "w0!3", .makeDecisions 6 6]

/-- The state in which the second job is the priority job. -/
private def before : Except Abort (EasyBFFastState × Platform) :=
  runFrom (scheduler 4).run (EasyBFFast.new 4, Platform.new 0) submissions

theorem exists_before : ∃ t, before = .ok t ∧ t.2.executed = ["w0!1", "w0!3"] ∧ t.2.rejected = ["w0!5"] ∧
    t.1.priorityJob = some ({ id := "w0!2", nbRequestedResources := 4, walltime := 5 }, 10) := by
  have hok : before.toOption.map (fun t => (t.2.executed, t.2.rejected, t.1.priorityJob)) =
      some (["w0!1", "w0!3"], ["w0!5"], some ({ id := "w0!2", nbRequestedResources := 4, walltime := 5 }, 10)) := by
    decide +kernel
  obtain ⟨t, ht, hjobs⟩ := toOption_map_eq_some.1 hok
  obtain ⟨hexecuted, hrest⟩ := Prod.mk.inj hjobs
  obtain ⟨hrejected, hpriority⟩ := Prod.mk.inj hrest
  exact ⟨t, ht, hexecuted, hrejected, hpriority⟩

end EasyBFFastAux

open EasyBFFastAux

theorem easy_bf_fast_books_kept_witness : ∃ t, before = .ok t ∧ t.2.executed = ["w0!1", "w0!3"] ∧ KeepsBooks 4 t := by
  obtain ⟨t, ht, hexecuted, -⟩ := exists_before
  exact ⟨t, ht, hexecuted, easy_bf_fast_books_kept 4 0 submissions t ht⟩

/-- A job is submitted twice. -/
theorem easy_bf_fast_never_aborts_witness :
    ∃ e, runFrom (scheduler 4).run (EasyBFFast.new 4, Platform.new 0) (submissions ++ submissions) = .error e ∧
      (e = .impossibleMessage ∨ ∃ id, e = .alreadyInWorkload id) := by
  have herror : abortOf (runFrom (scheduler 4).run (EasyBFFast.new 4, Platform.new 0) (submissions ++ submissions)) =
      some (.alreadyInWorkload "w0!1") := by
    decide +kernel
  exact ⟨_, abortOf_eq_some.1 herror, easy_bf_fast_never_aborts 4 0 _ _ (abortOf_eq_some.1 herror)⟩

/-- The second job starts at 6. -/
theorem easy_bf_fast_priority_starts_by_witness : ∃ t, before = .ok t ∧
    (runFrom (scheduler 4).run t ends).toOption.map (fun t' => t'.2.executed) = some ["w0!1", "w0!3", "w0!2"] ∧
    AllSteps (scheduler 4).run (NeverLate { id := "w0!2", nbRequestedResources := 4, walltime := 5 } 10) t ends ∧
    Always (scheduler 4).run (StartsBy { id := "w0!2", nbRequestedResources := 4, walltime := 5 } 10) t ends := by
  obtain ⟨t, ht, -, -, hpriority⟩ := exists_before
  have hok : (before.toOption.map fun t => ((runFrom (scheduler 4).run t ends).toOption.map fun t' => t'.2.executed,
      decide (AllSteps (scheduler 4).run (fun t event => (scheduler 4).EndsInTime t.2 event) t ends))) =
      some (some ["w0!1", "w0!3", "w0!2"], true) := by
    decide +kernel
  rw [ht] at hok
  obtain ⟨hexecuted, hintime⟩ := Prod.mk.inj (Option.some.inj hok)
  exact ⟨t, ht, hexecuted,
    easy_bf_fast_priority_starts_by 4 0 submissions ends t _ 10 ht hpriority (of_decide_eq_true hintime)⟩

theorem easy_bf_fast_drains_witness : ∃ t, before = .ok t ∧ ∃ events' t', runFrom (scheduler 4).run t events' = .ok t' ∧
    (∀ event ∈ events', ∀ job, event ≠ .jobSubmitted job) ∧ t'.2.running = [] ∧ t'.2.reported = [] ∧
    t'.2.executed.Perm ((accepted 4 t.2.submitted).map (·.id)) := by
  obtain ⟨t, ht, -⟩ := exists_before
  exact ⟨t, ht, easy_bf_fast_drains 4 0 submissions t ht⟩

end ScheduleTest
