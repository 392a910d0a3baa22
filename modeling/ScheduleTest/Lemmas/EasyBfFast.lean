import ScheduleTest.EasyBfFast
import ScheduleTest.Lib.Divided

/-!
# The books of easy_bf_fast

Which jobs run on which machines, when they end by, and which jobs wait (`Books`). The loops of a pass keep the books, and none of
them aborts. What the priority job is promised is that enough machines are available or released by its date (`Reserved`).
-/

namespace ScheduleTest

open Execution EasyBFFast

namespace EasyBFFast

/-- The jobs that can be executed, in their order. -/
def accepted (nbMachines : ℕ) (jobs : List Job) : List Job := jobs.filter (·.nbRequestedResources ≤ nbMachines)

/-- The jobs that request too many machines, in their order. -/
def tooLarge (nbMachines : ℕ) (jobs : List Job) : List Job := jobs.filter (nbMachines < ·.nbRequestedResources)

/-- The jobs that wait: the priority job and those behind it. -/
def waiting (s : EasyBFFastState) : List Job := (s.priorityJob.map (·.1)).toList ++ s.pendingJobs

/-- How many machines the points release up to a date. -/
def releasedBy (date : ℚ) (points : List FinishedHorizonPoint) : ℕ :=
  ((points.filter (·.date ≤ date)).map (·.nbReleasedMachines)).sum

/-- The walltime of a job. -/
def walltimeOf (s : EasyBFFastState) (id : String) : ℚ := ((s.workload id).map (·.walltime)).getD 0

/-- When the machines of a job that runs become free. -/
def endPoint (s : EasyBFFastState) (r : RunningJob) : FinishedHorizonPoint where
  date := r.start + walltimeOf s r.id
  nbReleasedMachines := r.machines.card
  id := r.id

end EasyBFFast

namespace EasyBFFastAux

variable {n : ℕ} {date : ℚ} {s s' : EasyBFFastState} {p : Platform} {job : Job} {jobs queue released : List Job} {base : List RunningJob}

/-! ### The points -/

theorem perm_insertHorizonPoint (point : FinishedHorizonPoint) (points : List FinishedHorizonPoint) :
    (insertHorizonPoint point points).Perm (point :: points) := by
  induction points with
  | nil => exact .refl _
  | cons p rest ih =>
    unfold insertHorizonPoint
    split
    · exact .refl _
    · exact (ih.cons p).trans (.swap point p rest)

theorem sorted_insertHorizonPoint {point : FinishedHorizonPoint} {points : List FinishedHorizonPoint}
    (h : points.Pairwise fun p q => p.date ≤ q.date) : (insertHorizonPoint point points).Pairwise fun p q => p.date ≤ q.date := by
  induction points with
  | nil => exact List.pairwise_singleton _ _
  | cons p rest ih =>
    obtain ⟨hfirst, hrest⟩ := List.pairwise_cons.1 h
    unfold insertHorizonPoint
    split
    · rename_i hlt
      refine List.pairwise_cons.2 ⟨fun q hq => ?_, h⟩
      rcases List.mem_cons.1 hq with rfl | hq
      · exact hlt.le
      · exact hlt.le.trans (hfirst q hq)
    · rename_i hle
      refine List.pairwise_cons.2 ⟨fun q hq => ?_, ih hrest⟩
      rcases List.mem_cons.1 ((perm_insertHorizonPoint point rest).mem_iff.1 hq) with rfl | hq
      · exact not_lt.1 hle
      · exact hfirst q hq

theorem releasedBy_perm {points points' : List FinishedHorizonPoint} (h : points.Perm points') (t : ℚ) :
    releasedBy t points = releasedBy t points' :=
  ((h.filter _).map _).sum_eq

@[simp] theorem releasedBy_cons (t : ℚ) (point : FinishedHorizonPoint) (points : List FinishedHorizonPoint) :
    releasedBy t (point :: points) = (if point.date ≤ t then point.nbReleasedMachines else 0) + releasedBy t points := by
  unfold releasedBy
  by_cases hle : point.date ≤ t <;> simp [hle]

/-- The date found is one by which enough machines are released. -/
theorem of_expectedEarliestStart {points : List FinishedHorizonPoint} {nb : ℤ} {t : ℚ}
    (hsorted : points.Pairwise fun p q => p.date ≤ q.date) (h : expectedEarliestStart job nb points = .ok t) :
    (∃ point ∈ points, point.date = t) ∧ (job.nbRequestedResources : ℤ) ≤ nb + releasedBy t points := by
  induction points generalizing nb with
  | nil => cases h
  | cons point rest ih =>
    obtain ⟨hfirst, hrest⟩ := List.pairwise_cons.1 hsorted
    unfold expectedEarliestStart at h
    dsimp only at h
    split at h
    · rename_i henough
      obtain rfl := Except.ok.inj h
      refine ⟨⟨point, List.mem_cons_self, rfl⟩, ?_⟩
      rw [releasedBy_cons, if_pos le_rfl]
      push_cast
      omega
    · obtain ⟨⟨other, hother, rfl⟩, henough⟩ := ih hrest h
      refine ⟨⟨other, List.mem_cons_of_mem _ hother, rfl⟩, ?_⟩
      rw [releasedBy_cons, if_pos (hfirst other hother)]
      push_cast
      omega

/-- A date is found where all points together release enough machines. -/
theorem exists_expectedEarliestStart {points : List FinishedHorizonPoint} {nb : ℤ} (hlt : nb < job.nbRequestedResources)
    (hle : (job.nbRequestedResources : ℤ) ≤ nb + (points.map (·.nbReleasedMachines)).sum) :
    ∃ t, expectedEarliestStart job nb points = .ok t := by
  induction points generalizing nb with
  | nil =>
    simp only [List.map_nil, List.sum_nil, Nat.cast_zero, add_zero] at hle
    omega
  | cons point rest ih =>
    unfold expectedEarliestStart
    dsimp only
    split
    · exact ⟨_, rfl⟩
    · rename_i hmore
      refine ih (not_le.1 hmore) ?_
      rw [List.map_cons, List.sum_cons, Nat.cast_add] at hle
      omega

/-! ### The books -/

/-- The jobs that run when the decisions made so far are carried out. -/
def runningWith (base : List RunningJob) (date : ℚ) (s : EasyBFFastState) : List RunningJob :=
  base ++ (executions s.decision.decisions).map fun e => { id := e.1, machines := e.2, start := date }

/-- What a running job says about the allocations. -/
def allocation (r : RunningJob) : String × IntervalSet := (r.id, r.machines)

/-- The books in the middle of a pass, with the jobs that wait and the jobs released that are still to be looked at. -/
structure Books (n : ℕ) (date : ℚ) (p : Platform) (base : List RunningJob) (queue released : List Job) (s : EasyBFFastState) :
    Prop where
  divided : Divided (Finset.range n) s.availableMachines ((runningWith base date s).map (·.machines))
  allocated : ∀ e, e ∈ s.currentAllocations.entries ↔ e ∈ (runningWith base date s).map allocation
  count : s.nbAvailableMachines = s.availableMachines.card
  points : s.horizons.Perm ((runningWith base date s).map (endPoint s))
  sorted : s.horizons.Pairwise fun p q => p.date ≤ q.date
  distinct : ((runningWith base date s).map (·.id) ++ (queue ++ released).map (·.id)).Nodup
  sized : ∀ r ∈ runningWith base date s, ∃ job, s.workload r.id = some job ∧ r.machines.card = job.nbRequestedResources
  known : ∀ job ∈ queue ++ released, s.workload job.id = some job
  fits : ∀ job ∈ queue, job.nbRequestedResources ≤ n
  accounted : (p.executed ++ (executions s.decision.decisions).map (·.1) ++ (queue ++ accepted n released).map (·.id)).Perm
    ((accepted n p.submitted).map (·.id))
  rejected : p.rejected ++ rejections s.decision.decisions ++ (tooLarge n released).map (·.id) = (tooLarge n p.submitted).map (·.id)

/-- Which jobs wait where does not matter. -/
theorem Books.requeue (h : Books n date p base queue released s) (pending : List Job) (priority : Option (Job × ℚ)) :
    Books n date p base queue released { s with pendingJobs := pending, priorityJob := priority } :=
  ⟨h.divided, h.allocated, h.count, h.points, h.sorted, h.distinct, h.sized, h.known, h.fits, h.accounted, h.rejected⟩

/-- The order of the jobs that wait does not matter. -/
theorem Books.perm_queue {queue' : List Job} (h : Books n date p base queue released s) (hperm : queue'.Perm queue) :
    Books n date p base queue' released s where
  __ := h
  distinct := ((((hperm.append_right _).map _).append_left _).nodup_iff).2 h.distinct
  known := fun other ho => h.known other ((hperm.append_right _).mem_iff.1 ho)
  fits := fun other ho => h.fits other (hperm.mem_iff.1 ho)
  accounted := (((hperm.append_right _).map _).append_left _).trans h.accounted

/-- The order of the jobs that run does not matter. -/
theorem Books.perm_base {base' : List RunningJob} (h : Books n date p base queue released s) (hperm : base'.Perm base) :
    Books n date p base' queue released s := by
  have hrunning : (runningWith base' date s).Perm (runningWith base date s) := hperm.append_right _
  exact {
    h with
    divided := h.divided.perm (hrunning.map _)
    allocated := fun e => (h.allocated e).trans (hrunning.map _).mem_iff.symm
    points := h.points.trans (hrunning.map _).symm
    distinct := (((hrunning.map _).append_right _).nodup_iff).2 h.distinct
    sized := fun r hr => h.sized r (hrunning.mem_iff.1 hr) }

/-- All machines are available or will be released. -/
theorem Books.total (h : Books n date p base queue released s) :
    s.nbAvailableMachines + (s.horizons.map (·.nbReleasedMachines)).sum = n := by
  have hcard := h.divided.card_add_sum
  have hsum : (s.horizons.map (·.nbReleasedMachines)).sum = ((runningWith base date s).map (·.machines.card)).sum := by
    rw [(h.points.map (·.nbReleasedMachines)).sum_eq, List.map_map]
    rfl
  rw [Finset.card_range, List.map_map] at hcard
  rw [h.count, hsum]
  exact_mod_cast hcard.symm

/-- A job that waits is executed where it fits. -/
theorem Books.execute (h : Books n date p base (job :: queue) released s)
    (hfits : (job.nbRequestedResources : ℤ) ≤ s.nbAvailableMachines) :
    Books n date p base queue released (EasyBFFast.execute date s job) := by
  have hle : job.nbRequestedResources ≤ s.availableMachines.card := by
    have hcount := h.count
    omega
  have hcard := Finset.card_leftmost_of_le hle
  have hsub := s.availableMachines.leftmost_subset job.nbRequestedResources
  have hrunning : runningWith base date (EasyBFFast.execute date s job) = runningWith base date s ++
      [{ id := job.id, machines := s.availableMachines.leftmost job.nbRequestedResources, start := date }] := by
    simp [runningWith, EasyBFFast.execute]
  have hperm := List.perm_append_singleton
    ({ id := job.id, machines := s.availableMachines.leftmost job.nbRequestedResources, start := date } : RunningJob)
    (runningWith base date s)
  have hknown : s.workload job.id = some job := h.known job List.mem_cons_self
  have hdistinct : ((runningWith base date s).map (·.id) ++ job.id :: (queue ++ released).map (·.id)).Nodup := h.distinct
  have hnew : ∀ e ∈ s.currentAllocations.entries, e.1 ≠ job.id := by
    intro e he heq
    obtain ⟨r, hr, rfl⟩ := List.mem_map.1 ((h.allocated e).1 he)
    refine (List.nodup_append.1 hdistinct).2.2 r.id (List.mem_map_of_mem hr) job.id List.mem_cons_self heq
  constructor
  case divided =>
    rw [hrunning]
    exact (h.divided.take hsub).perm (hperm.map _)
  case allocated =>
    intro e
    rw [hrunning, List.map_append, List.mem_append, List.map_singleton, List.mem_singleton, ← h.allocated e]
    change e ∈ (s.currentAllocations.insert job.id _).entries ↔ _
    rw [KeyedMap.mem_insert_of_new hnew, or_comm]
    rfl
  case count =>
    change s.nbAvailableMachines - job.nbRequestedResources = ((s.availableMachines \ _).card : ℤ)
    rw [Divided.card_take hsub, hcard, h.count]
  case points =>
    rw [hrunning]
    refine (perm_insertHorizonPoint _ _).trans (.trans ?_ ((hperm.map (endPoint s)).symm))
    have hpoint : endPoint s { id := job.id, machines := s.availableMachines.leftmost job.nbRequestedResources, start := date } =
        { date := date + job.walltime, nbReleasedMachines := job.nbRequestedResources, id := job.id } := by
      simp [endPoint, walltimeOf, hknown, hcard]
    rw [List.map_cons, hpoint]
    exact h.points.cons _
  case sorted => exact sorted_insertHorizonPoint h.sorted
  case distinct =>
    rw [hrunning]
    simpa using hdistinct
  case sized =>
    intro r hr
    rw [hrunning, List.mem_append, List.mem_singleton] at hr
    rcases hr with hr | rfl
    · exact h.sized r hr
    · exact ⟨job, hknown, hcard⟩
  case known => exact fun other ho => h.known other (List.mem_cons_of_mem _ ho)
  case fits => exact fun other ho => h.fits other (List.mem_cons_of_mem _ ho)
  case accounted =>
    have haccounted := h.accounted
    simp only [EasyBFFast.execute, SchedulingDecision.decisions_add, executions_append, executions_executeJob, List.map_append,
      List.map_cons, List.map_nil, List.append_assoc, List.cons_append, List.nil_append] at haccounted ⊢
    exact haccounted
  case rejected =>
    have hrejected := h.rejected
    simpa [EasyBFFast.execute] using hrejected

/-- A job that has ended gives its machines back. -/
theorem Books.finish {r : RunningJob} (h : Books n date p (r :: base) queue released s) :
    ∃ s', finishJob s r.id = .ok s' ∧ Books n date p base queue released s' ∧ s'.pendingJobs = s.pendingJobs ∧
      s'.priorityJob = s.priorityJob ∧ s'.jobsReleasedRecently = s.jobsReleasedRecently ∧
      s'.jobsEndedRecently = s.jobsEndedRecently ∧ s'.decision = s.decision ∧ s'.workload = s.workload ∧
      s'.nbAvailableMachines = s.nbAvailableMachines + r.machines.card ∧ s.horizons.Perm (endPoint s r :: s'.horizons) := by
  obtain ⟨job, hjob, hcard⟩ := h.sized r List.mem_cons_self
  have hentry : (r.id, r.machines) ∈ s.currentAllocations.entries := (h.allocated _).2 List.mem_cons_self
  have hfind : s.currentAllocations.find? r.id = some r.machines := KeyedMap.find?_eq_some.2 ⟨r.id, hentry, rfl⟩
  have hdivided : Divided (Finset.range n) s.availableMachines (r.machines :: (runningWith base date s).map (·.machines)) := h.divided
  have hdistinct : (r.id :: ((runningWith base date s).map (·.id) ++ (queue ++ released).map (·.id))).Nodup := h.distinct
  obtain ⟨hfresh, hrest⟩ := List.nodup_cons.1 hdistinct
  have hother : ∀ r' ∈ runningWith base date s, r'.id ≠ r.id := fun r' hr' heq =>
    hfresh (List.mem_append_left _ (heq ▸ List.mem_map_of_mem hr'))
  -- the points that are left are those of the other jobs
  have hpoints : (s.horizons.filter (·.id ≠ r.id)).Perm ((runningWith base date s).map (endPoint s)) := by
    refine (h.points.filter _).trans ?_
    have hcons : (runningWith (r :: base) date s).map (endPoint s) = endPoint s r :: (runningWith base date s).map (endPoint s) := rfl
    rw [hcons, List.filter_cons_of_neg (by simp [endPoint])]
    refine List.Perm.of_eq (List.filter_eq_self.2 ?_)
    intro point hpoint
    obtain ⟨r', hr', rfl⟩ := List.mem_map.1 hpoint
    exact decide_eq_true (hother r' hr')
  have hx : finishJob s r.id = .ok { s with
      availableMachines := s.availableMachines ∪ r.machines
      nbAvailableMachines := s.nbAvailableMachines + job.nbRequestedResources
      horizons := s.horizons.filter (·.id ≠ r.id)
      currentAllocations := s.currentAllocations.erase r.id } := by
    simp only [finishJob, hjob, hfind]
  have hpermuted : s.horizons.Perm (endPoint s r :: s.horizons.filter (·.id ≠ r.id)) :=
    h.points.trans (hpoints.symm.cons (endPoint s r))
  refine ⟨_, hx, ?_, rfl, rfl, rfl, rfl, rfl, rfl, by rw [hcard], hpermuted⟩
  constructor
  case divided => exact hdivided.giveBack
  case allocated =>
    intro e
    dsimp only
    rw [KeyedMap.mem_erase, h.allocated e]
    constructor
    · rintro ⟨he, hne⟩
      rcases List.mem_cons.1 he with rfl | he
      · exact absurd rfl hne
      · exact he
    · intro he
      refine ⟨List.mem_cons_of_mem _ he, ?_⟩
      obtain ⟨r', hr', rfl⟩ := List.mem_map.1 he
      exact hother r' hr'
  case count =>
    dsimp only
    rw [hdivided.card_giveBack, h.count, hcard]
  case points => exact hpoints
  case sorted => exact h.sorted.filter _
  case distinct => exact hrest
  case sized => exact fun r' hr' => h.sized r' (List.mem_cons_of_mem _ hr')
  case known => exact h.known
  case fits => exact h.fits
  case accounted => exact h.accounted
  case rejected => exact h.rejected

/-- A job released waits. -/
theorem Books.wait (h : Books n date p base queue (job :: released) s) (hle : job.nbRequestedResources ≤ n) :
    Books n date p base (queue ++ [job]) released s := by
  have hshift : queue ++ job :: released = queue ++ [job] ++ released := by simp
  have hsmall : tooLarge n (job :: released) = tooLarge n released := List.filter_cons_of_neg (by simpa using hle)
  have haccepted : accepted n (job :: released) = job :: accepted n released := List.filter_cons_of_pos (by simpa using hle)
  exact {
    h with
    distinct := hshift ▸ h.distinct
    known := hshift ▸ h.known
    fits := fun other ho => (List.mem_append.1 ho).elim (h.fits other) fun ho => List.mem_singleton.1 ho ▸ hle
    accounted := by
      have haccounted := h.accounted
      rw [haccepted] at haccounted
      simpa using haccounted
    rejected := by
      have hrejected := h.rejected
      rwa [hsmall] at hrejected }

/-- A job released that cannot be executed is rejected. -/
theorem Books.reject (h : Books n date p base queue (job :: released) s) (hlt : n < job.nbRequestedResources) :
    Books n date p base queue released { s with decision := s.decision.add (.rejectJob job.id) } := by
  have hrunning : runningWith base date { s with decision := s.decision.add (.rejectJob job.id) } = runningWith base date s := by
    simp [runningWith]
  have hlarge : tooLarge n (job :: released) = job :: tooLarge n released := List.filter_cons_of_pos (by simpa using hlt)
  have haccepted : accepted n (job :: released) = accepted n released := List.filter_cons_of_neg (by simpa using hlt)
  have hsub : (queue ++ released).Sublist (queue ++ job :: released) := (List.sublist_cons_self _ _).append_left _
  constructor
  case divided => exact hrunning ▸ h.divided
  case allocated => exact hrunning ▸ h.allocated
  case count => exact h.count
  case points => exact hrunning ▸ h.points
  case sorted => exact h.sorted
  case distinct =>
    rw [hrunning]
    exact h.distinct.sublist ((hsub.map _).append_left _)
  case sized => exact hrunning ▸ h.sized
  case known => exact fun other ho => h.known other (hsub.subset ho)
  case fits => exact h.fits
  case accounted =>
    have haccounted := h.accounted
    rw [haccepted] at haccounted
    simpa using haccounted
  case rejected =>
    have hrejected := h.rejected
    rw [hlarge] at hrejected
    simpa using hrejected

/-! ### The priority job -/

/-- Jobs wait behind a priority job only, and by its date enough machines are available or released for it. -/
structure Reserved (s : EasyBFFastState) : Prop where
  waits : s.priorityJob = none → s.pendingJobs = []
  reserved : ∀ job t, s.priorityJob = some (job, t) →
    (job.nbRequestedResources : ℤ) ≤ s.nbAvailableMachines + releasedBy t s.horizons

/-- The priority job does not fit. -/
def Busy (s : EasyBFFastState) : Prop := ∀ job t, s.priorityJob = some (job, t) → s.nbAvailableMachines < job.nbRequestedResources

/-- What a part of a pass leaves as it is. Nothing that was decided is taken back. -/
structure Frame (s s' : EasyBFFastState) : Prop where
  released : s'.jobsReleasedRecently = s.jobsReleasedRecently
  ended : s'.jobsEndedRecently = s.jobsEndedRecently
  workload : s'.workload = s.workload
  executions : ∀ e ∈ executions s.decision.decisions, e ∈ executions s'.decision.decisions

theorem Frame.refl (s : EasyBFFastState) : Frame s s := ⟨rfl, rfl, rfl, fun _ h => h⟩

theorem Frame.trans {s'' : EasyBFFastState} (h : Frame s s') (h' : Frame s' s'') : Frame s s'' :=
  ⟨h'.released.trans h.released, h'.ended.trans h.ended, h'.workload.trans h.workload, fun e he => h'.executions e (h.executions e he)⟩

theorem Frame.requeue (h : Frame s s') (pending : List Job) (priority : Option (Job × ℚ)) :
    Frame s { s' with pendingJobs := pending, priorityJob := priority } := ⟨h.released, h.ended, h.workload, h.executions⟩

theorem frame_execute (date : ℚ) (s : EasyBFFastState) (job : Job) : Frame s (EasyBFFast.execute date s job) := by
  refine ⟨rfl, rfl, rfl, fun e he => ?_⟩
  simp [EasyBFFast.execute, he]

/-- The priority job stays what it is until it is executed. -/
def KeepsPriority (s s' : EasyBFFastState) : Prop :=
  ∀ job t, s.priorityJob = some (job, t) →
    s'.priorityJob = some (job, t) ∨ job.id ∈ (executions s'.decision.decisions).map (·.1)

/-- A job that does not fit becomes the priority job. -/
theorem exists_setPriorityJob (h : Books n date p base (job :: queue) released s) (hbusy : s.nbAvailableMachines < job.nbRequestedResources) :
    ∃ t, setPriorityJob s job = .ok { s with priorityJob := some (job, t) } ∧
      (job.nbRequestedResources : ℤ) ≤ s.nbAvailableMachines + releasedBy t s.horizons := by
  have hle : (job.nbRequestedResources : ℤ) ≤ n := by exact_mod_cast h.fits job List.mem_cons_self
  obtain ⟨t, ht⟩ := exists_expectedEarliestStart hbusy (h.total ▸ hle)
  refine ⟨t, ?_, (of_expectedEarliestStart h.sorted ht).2⟩
  rw [setPriorityJob, ht]
  rfl

/-- A job that ends by the date of the priority job does not hinder it. -/
theorem reserved_execute {other : Job} {t : ℚ} (hle : date + job.walltime ≤ t)
    (h : (other.nbRequestedResources : ℤ) ≤ s.nbAvailableMachines + releasedBy t s.horizons) :
    (other.nbRequestedResources : ℤ) ≤ (EasyBFFast.execute date s job).nbAvailableMachines +
      releasedBy t (EasyBFFast.execute date s job).horizons := by
  have hreleased : releasedBy t (EasyBFFast.execute date s job).horizons = job.nbRequestedResources + releasedBy t s.horizons := by
    rw [EasyBFFast.execute, releasedBy_perm (perm_insertHorizonPoint _ _), releasedBy_cons, if_pos hle]
  have havailable : (EasyBFFast.execute date s job).nbAvailableMachines = s.nbAvailableMachines - job.nbRequestedResources := rfl
  rw [hreleased, havailable]
  push_cast
  omega

/-- The pending jobs are executed from the front, and one that does not fit becomes the priority job. -/
theorem executePending_books (h : Books n date p base jobs released s) (hnone : s.priorityJob = none) :
    ∃ s', executePending date s jobs = .ok s' ∧ Books n date p base (waiting s') released s' ∧ Reserved s' ∧ Busy s' ∧ Frame s s' := by
  induction jobs generalizing s with
  | nil =>
    refine ⟨_, rfl, ?_, ⟨fun _ => rfl, ?_⟩, ?_, ⟨rfl, rfl, rfl, fun _ he => he⟩⟩
    · simpa [waiting, hnone] using h.requeue [] s.priorityJob
    · simp [hnone]
    · simp [Busy, hnone]
  | cons job rest ih =>
    unfold executePending
    split
    · rename_i hfits
      obtain ⟨s', hs', hbooks, hreserved, hbusy, hframe⟩ := ih (h.execute hfits) hnone
      exact ⟨s', hs', hbooks, hreserved, hbusy, (frame_execute date s job).trans hframe⟩
    · rename_i hfits
      have hbusy := not_le.1 hfits
      obtain ⟨t, ht, henough⟩ := exists_setPriorityJob (h.requeue rest s.priorityJob) hbusy
      refine ⟨_, ht, h.requeue rest (some (job, t)), ⟨nofun, ?_⟩, ?_, ⟨rfl, rfl, rfl, fun _ he => he⟩⟩
      · rintro _ _ ⟨⟩
        exact henough
      · rintro _ _ ⟨⟩
        exact hbusy

/-- The jobs that are backfilled do not hinder the priority job. -/
theorem backfill_books {first : Job} {t : ℚ} {before : List Job} (hpriority : s.priorityJob = some (first, t))
    (h : Books n date p base (first :: (before.reverse ++ jobs)) released s)
    (hreserved : (first.nbRequestedResources : ℤ) ≤ s.nbAvailableMachines + releasedBy t s.horizons)
    (hbusy : s.nbAvailableMachines < first.nbRequestedResources) :
    ∃ s', backfill date s before jobs = .ok s' ∧ s'.priorityJob = some (first, t) ∧
      Books n date p base (waiting s') released s' ∧ Reserved s' ∧ Busy s' ∧ Frame s s' := by
  have hstop : ∀ (s' : EasyBFFastState) (pending : List Job), s'.priorityJob = some (first, t) →
      Books n date p base (first :: pending) released s' →
      (first.nbRequestedResources : ℤ) ≤ s'.nbAvailableMachines + releasedBy t s'.horizons →
      s'.nbAvailableMachines < first.nbRequestedResources →
      Books n date p base (waiting { s' with pendingJobs := pending }) released { s' with pendingJobs := pending } ∧
        Reserved { s' with pendingJobs := pending } ∧ Busy { s' with pendingJobs := pending } := by
    intro s' pending hpriority' h' hreserved' hbusy'
    refine ⟨?_, ⟨fun hnone => ?_, fun job t' hjob => ?_⟩, fun job t' hjob => ?_⟩
    · have hwaiting : waiting { s' with pendingJobs := pending } = first :: pending := by simp [waiting, hpriority']
      rw [hwaiting]
      exact h'.requeue pending s'.priorityJob
    · rw [hpriority'] at hnone
      cases hnone
    · rw [hpriority'] at hjob
      cases hjob
      exact hreserved'
    · rw [hpriority'] at hjob
      cases hjob
      exact hbusy'
  induction jobs generalizing s before with
  | nil =>
    rw [List.append_nil] at h
    obtain ⟨hbooks, hreserved', hbusy'⟩ := hstop s before.reverse hpriority h hreserved hbusy
    exact ⟨_, rfl, hpriority, hbooks, hreserved', hbusy', ⟨rfl, rfl, rfl, fun _ he => he⟩⟩
  | cons job rest ih =>
    have hskip : ∃ s', backfill date s (job :: before) rest = .ok s' ∧ s'.priorityJob = some (first, t) ∧
        Books n date p base (waiting s') released s' ∧ Reserved s' ∧ Busy s' ∧ Frame s s' := by
      refine ih hpriority ?_ hreserved hbusy
      rw [List.reverse_cons, List.append_assoc]
      exact h
    unfold backfill
    rw [hpriority]
    dsimp only
    split
    · rename_i hfits
      split
      · rename_i hends
        have hqueue : (job :: first :: (before.reverse ++ rest)).Perm (first :: (before.reverse ++ job :: rest)) :=
          (List.Perm.swap first job _).trans (List.perm_middle.symm.cons first)
        have hexecuted := (h.perm_queue hqueue).execute hfits
        have hreserved' := reserved_execute hends hreserved
        have hbusy' : (EasyBFFast.execute date s job).nbAvailableMachines < first.nbRequestedResources := by
          change s.nbAvailableMachines - job.nbRequestedResources < _
          omega
        split
        · obtain ⟨hbooks, hreserved'', hbusy''⟩ := hstop (EasyBFFast.execute date s job) (before.reverse ++ rest) hpriority hexecuted hreserved' hbusy'
          exact ⟨_, rfl, hpriority, hbooks, hreserved'', hbusy'', (frame_execute date s job).requeue _ _⟩
        · obtain ⟨s', hs', hsame, hbooks, hreserved'', hbusy'', hframe⟩ :=
            @ih (EasyBFFast.execute date s job) before hpriority hexecuted hreserved' hbusy'
          exact ⟨s', hs', hsame, hbooks, hreserved'', hbusy'', (frame_execute date s job).trans hframe⟩
      · exact hskip
    · exact hskip

/-- The jobs executed from the front, the priority job first. -/
theorem executeFront_books {t : ℚ} (hpriority : s.priorityJob = some (job, t))
    (h : Books n date p base (job :: s.pendingJobs) released s) (hreserved : Reserved s) :
    ∃ s', executeFront date s job = .ok s' ∧ Books n date p base (waiting s') released s' ∧ Reserved s' ∧ Busy s' ∧ Frame s s' ∧
      KeepsPriority s s' := by
  unfold executeFront
  split
  · rename_i hfits
    obtain ⟨s', hs', hbooks, hreserved', hbusy, hframe⟩ := executePending_books ((h.execute hfits).requeue s.pendingJobs none) rfl
    have hbefore : Frame s { EasyBFFast.execute date s job with priorityJob := none } := (frame_execute date s job).requeue _ _
    refine ⟨s', hs', hbooks, hreserved', hbusy, hbefore.trans hframe, fun other t' hother => .inr ?_⟩
    rw [hpriority] at hother
    cases hother
    refine List.mem_map.2 ⟨(job.id, s.availableMachines.leftmost job.nbRequestedResources), hframe.executions _ ?_, rfl⟩
    simp [EasyBFFast.execute]
  · rename_i hfits
    have hwaiting : waiting s = job :: s.pendingJobs := by simp [waiting, hpriority]
    refine ⟨s, rfl, hwaiting.symm ▸ h, hreserved, fun other t' hother => ?_, .refl s, fun other t' hother => .inl hother⟩
    rw [hpriority] at hother
    cases hother
    exact not_le.1 hfits

/-- What follows when jobs have ended. -/
theorem executeJobs_books (h : Books n date p base (waiting s) released s) (hreserved : Reserved s) :
    ∃ s', executeJobs date s = .ok s' ∧ Books n date p base (waiting s') released s' ∧ Reserved s' ∧ Busy s' ∧ Frame s s' ∧
      KeepsPriority s s' := by
  unfold executeJobs
  cases hpriority : s.priorityJob with
  | none =>
    refine ⟨s, rfl, h, hreserved, ?_, .refl s, ?_⟩
    · simp [Busy, hpriority]
    · simp [KeepsPriority, hpriority]
  | some entry =>
    obtain ⟨job, t⟩ := entry
    have hwaiting : waiting s = job :: s.pendingJobs := by simp [waiting, hpriority]
    rw [hwaiting] at h
    obtain ⟨s₁, hs₁, hbooks, hreserved₁, hbusy, hframe, hkeeps⟩ := executeFront_books hpriority h hreserved
    dsimp only
    rw [hs₁]
    change ∃ s', (if 0 < s₁.nbAvailableMachines then backfill date s₁ [] s₁.pendingJobs else .ok s₁) = .ok s' ∧ _
    split
    · cases hsecond : s₁.priorityJob with
      | none =>
        have hpending := hreserved₁.waits hsecond
        refine ⟨s₁, ?_, hbooks, hreserved₁, hbusy, hframe, hkeeps⟩
        rw [hpending, backfill, List.reverse_nil, ← hpending]
      | some entry =>
        obtain ⟨first, t'⟩ := entry
        have hwaiting₁ : waiting s₁ = first :: s₁.pendingJobs := by simp [waiting, hsecond]
        have hqueue : Books n date p base (first :: (([] : List Job).reverse ++ s₁.pendingJobs)) released s₁ := hwaiting₁ ▸ hbooks
        obtain ⟨s₂, hs₂, hsame, hbooks₂, hreserved₂, hbusy₂, hframe₂⟩ :=
          backfill_books hsecond hqueue (hreserved₁.reserved first t' hsecond) (hbusy first t' hsecond)
        refine ⟨s₂, hs₂, hbooks₂, hreserved₂, hbusy₂, hframe.trans hframe₂, fun other t'' hother => ?_⟩
        rcases hkeeps other t'' hother with hkept | hexecuted
        · left
          rw [hsame, ← hsecond, hkept]
        · right
          obtain ⟨e, he, heq⟩ := List.mem_map.1 hexecuted
          exact List.mem_map.2 ⟨e, hframe₂.executions e he, heq⟩
    · exact ⟨s₁, rfl, hbooks, hreserved₁, hbusy, hframe, hkeeps⟩

/-- A job released is executed, waits, becomes the priority job or is rejected. -/
theorem releaseJob_books (h : Books n date p base (waiting s) (job :: released) s) (hreserved : Reserved s) (hbusy : Busy s) :
    ∃ s', releaseJob n date s job = .ok s' ∧ Books n date p base (waiting s') released s' ∧ Reserved s' ∧ Busy s' ∧ Frame s s' ∧
      ∀ first t, s.priorityJob = some (first, t) → s'.priorityJob = some (first, t) := by
  have hpend : (∃ first t, s.priorityJob = some (first, t)) → job.nbRequestedResources ≤ n →
      Books n date p base (waiting { s with pendingJobs := s.pendingJobs ++ [job] }) released
        { s with pendingJobs := s.pendingJobs ++ [job] } ∧ Reserved { s with pendingJobs := s.pendingJobs ++ [job] } := by
    rintro ⟨first, t, hpriority⟩ hle
    have hwaiting : waiting { s with pendingJobs := s.pendingJobs ++ [job] } = waiting s ++ [job] := by simp [waiting]
    refine ⟨hwaiting ▸ (h.wait hle).requeue _ s.priorityJob, ⟨fun hnone => ?_, hreserved.reserved⟩⟩
    rw [hpriority] at hnone
    cases hnone
  unfold releaseJob
  split
  · rename_i hfits
    have hle : job.nbRequestedResources ≤ n := by
      have htotal := h.total
      omega
    split
    · rename_i hprecede
      have hwait := (h.wait hle).perm_queue (List.perm_append_singleton job (waiting s)).symm
      have hwaiting : waiting (EasyBFFast.execute date s job) = waiting s := rfl
      refine ⟨_, rfl, hwaiting ▸ hwait.execute hfits, ⟨hreserved.waits, fun first t hfirst => ?_⟩, fun first t hfirst => ?_,
        frame_execute date s job, fun _ _ hfirst => hfirst⟩
      · have hfirst' : s.priorityJob = some (first, t) := hfirst
        simp only [mayPrecede, hfirst', decide_eq_true_eq] at hprecede
        exact reserved_execute hprecede (hreserved.reserved first t hfirst')
      · have hlt := hbusy first t hfirst
        change s.nbAvailableMachines - job.nbRequestedResources < _
        omega
    · rename_i hprecede
      have hpriority : ∃ first t, s.priorityJob = some (first, t) := by
        cases hfirst : s.priorityJob with
        | none => simp [mayPrecede, hfirst] at hprecede
        | some entry => exact ⟨entry.1, entry.2, rfl⟩
      obtain ⟨hbooks, hreserved'⟩ := hpend hpriority hle
      exact ⟨_, rfl, hbooks, hreserved', hbusy, ⟨rfl, rfl, rfl, fun _ he => he⟩, fun _ _ hfirst => hfirst⟩
  · rename_i hfits
    split
    · rename_i hlt
      refine ⟨_, rfl, h.reject hlt, ⟨hreserved.waits, hreserved.reserved⟩, hbusy, ⟨rfl, rfl, rfl, fun e he => ?_⟩, fun _ _ hfirst => hfirst⟩
      simpa using he
    · rename_i hle
      split
      · rename_i hnone
        have hwaiting : waiting s = [] := by simp [waiting, hnone, hreserved.waits hnone]
        have hwait := h.wait (not_lt.1 hle)
        rw [hwaiting, List.nil_append] at hwait
        obtain ⟨t, ht, henough⟩ := exists_setPriorityJob hwait (not_le.1 hfits)
        have hafter : waiting { s with priorityJob := some (job, t) } = [job] := by simp [waiting, hreserved.waits hnone]
        refine ⟨_, ht, hafter ▸ hwait.requeue s.pendingJobs (some (job, t)), ⟨nofun, ?_⟩, ?_, ⟨rfl, rfl, rfl, fun _ he => he⟩, ?_⟩
        · rintro _ _ ⟨⟩
          exact henough
        · rintro _ _ ⟨⟩
          exact not_le.1 hfits
        · intro first t' hfirst
          rw [hnone] at hfirst
          cases hfirst
      · rename_i entry hpriority
        obtain ⟨hbooks, hreserved'⟩ := hpend ⟨entry.1, entry.2, hpriority⟩ (not_lt.1 hle)
        exact ⟨_, rfl, hbooks, hreserved', hbusy, ⟨rfl, rfl, rfl, fun _ he => he⟩, fun _ _ hfirst => hfirst⟩

/-- The jobs released are looked at one after the other. -/
theorem releaseJobs_books (h : Books n date p base (waiting s) released s) (hreserved : Reserved s) (hbusy : Busy s) :
    ∃ s', runFrom (releaseJob n date) s released = .ok s' ∧ Books n date p base (waiting s') [] s' ∧ Reserved s' ∧ Busy s' ∧
      Frame s s' ∧ ∀ first t, s.priorityJob = some (first, t) → s'.priorityJob = some (first, t) := by
  induction released generalizing s with
  | nil => exact ⟨s, rfl, h, hreserved, hbusy, .refl s, fun _ _ hfirst => hfirst⟩
  | cons job released ih =>
    obtain ⟨s₁, hs₁, hbooks, hreserved₁, hbusy₁, hframe, hkeeps⟩ := releaseJob_books h hreserved hbusy
    obtain ⟨s₂, hs₂, hbooks₂, hreserved₂, hbusy₂, hframe₂, hkeeps₂⟩ := ih hbooks hreserved₁ hbusy₁
    refine ⟨s₂, ?_, hbooks₂, hreserved₂, hbusy₂, hframe.trans hframe₂, fun first t hfirst => hkeeps₂ first t (hkeeps first t hfirst)⟩
    rw [runFrom_cons_ok hs₁, hs₂]

/-- The jobs whose ends are reported give their machines back. -/
theorem finishJobs_books {ended : List RunningJob} (h : Books n date p (ended ++ base) (waiting s) released s)
    (hreserved : Reserved s) : ∃ s', runFrom finishJob s (ended.map (·.id)) = .ok s' ∧
      Books n date p base (waiting s') released s' ∧ Reserved s' ∧ Frame s s' ∧ s'.priorityJob = s.priorityJob := by
  induction ended generalizing s with
  | nil => exact ⟨s, rfl, h, hreserved, .refl s, rfl⟩
  | cons r ended ih =>
    obtain ⟨s₁, hs₁, hbooks, hpending, hpriority, hreleased, hended, hdecision, hworkload, havailable,
      hpoints⟩ := h.finish
    have hwaiting : waiting s₁ = waiting s := by rw [waiting, waiting, hpending, hpriority]
    have hreserved₁ : Reserved s₁ := by
      refine ⟨fun hnone => ?_, fun job t hjob => ?_⟩
      · rw [hpending]
        exact hreserved.waits (hpriority ▸ hnone)
      · have hbefore := hreserved.reserved job t (hpriority ▸ hjob)
        rw [releasedBy_perm hpoints, releasedBy_cons] at hbefore
        have hgiven : (endPoint s r).nbReleasedMachines = r.machines.card := rfl
        rw [havailable]
        split at hbefore
        · push_cast at hbefore
          omega
        · omega
    obtain ⟨s₂, hs₂, hbooks₂, hreserved₂, hframe₂, hpriority₂⟩ := ih (hwaiting.symm ▸ hbooks) hreserved₁
    have hframe : Frame s s₁ := ⟨hreleased, hended, hworkload, by rw [hdecision]; exact fun _ he => he⟩
    refine ⟨s₂, ?_, hbooks₂, hreserved₂, hframe.trans hframe₂, hpriority₂.trans hpriority⟩
    rw [List.map_cons, runFrom_cons_ok hs₁, hs₂]

end EasyBFFastAux

end ScheduleTest
