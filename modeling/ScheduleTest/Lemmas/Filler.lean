import ScheduleTest.Filler
import ScheduleTest.Lemmas.FirstFit
import ScheduleTest.Lemmas.JobBooks

/-!
# A pass of the filler

The pass keeps the books, and executes jobs on machines that are usable only (`Filled`). At its end no job that waits fits on the
machines that are still usable. It aborts only at a job that requests no machines.
-/

namespace ScheduleTest

open Execution

namespace Filler

/-- The machines that jobs may be executed on. -/
def usable (s : FillerState) : IntervalSet := s.availableMachines \ s.unavailableMachines

/-- The books of a filler, with the jobs that ran before the pass. -/
def Books (o : FillerOptions) (p : Platform) (base : List (String × IntervalSet)) (released : List Job) (s : FillerState) : Prop :=
  JobBooks o.nbMachines p (base ++ executions (decisions s)) (decisions s) s.queue.jobs released s.availableMachines
    s.currentAllocations s.workload

/-- A job may be executed on machines: they are some of those that may be used, as many as are to be allocated to it. -/
structure MayStart (o : FillerOptions) (usableMachines : IntervalSet) (job : Job) (machines : IntervalSet) : Prop where
  subset : machines ⊆ usableMachines
  card : (machines.card : ℤ) = nbMachinesToAllocate o job
  pos : 0 < machines.card
  le : machines.card ≤ job.nbRequestedResources

/-- What else a filler knows stays as it is. -/
structure SameRest (s s' : FillerState) : Prop where
  unavailable : s'.unavailableMachines = s.unavailableMachines
  workload : s'.workload = s.workload
  released : s'.jobsReleasedRecently = s.jobsReleasedRecently
  ended : s'.jobsEndedRecently = s.jobsEndedRecently

/-- What a pass over some jobs of the queue has done. -/
structure Filled (o : FillerOptions) (s : FillerState) (rest : List SortableJob) (s' : FillerState) : Prop where
  starts : ∃ starts : List (Job × IntervalSet), s'.decision = s.decision ++ starts.flatMap (fun start => decisionsOf o start.1 start.2) ∧
    ∀ start ∈ starts, start.1 ∈ s.queue.jobs ∧ MayStart o (usable s) start.1 start.2
  /-- A job that still waits does not fit. -/
  full : ∀ sjob ∈ rest, 0 < sjob.job.nbRequestedResources → sjob.job ∈ s'.queue.jobs → o.selector.fit sjob.job (usable s') = none
  usable : usable s' ⊆ usable s
  queue : s'.queue.jobs ⊆ s.queue.jobs
  same : SameRest s s'

/-- The machines that are said to be unavailable when a pass begins. -/
def unavailableAtPass (s : FillerState) : IntervalSet :=
  (s.unavailableMachines \ s.machinesThatBecameAvailableRecently) ∪ s.machinesThatBecameUnavailableRecently

/-- What a whole pass has done: jobs released are rejected where they are too large, and jobs that wait are executed on machines that
are not said to be unavailable. -/
structure Passed (o : FillerOptions) (s s' : FillerState) : Prop where
  starts : ∃ (usableMachines : IntervalSet) (starts : List (Job × IntervalSet)),
    s'.decision = s.decision ++ (JobBooks.tooLarge o.nbMachines s.jobsReleasedRecently).map (fun job => .rejectJob job.id) ++
      starts.flatMap (fun start => decisionsOf o start.1 start.2) ∧
    Disjoint usableMachines (unavailableAtPass s) ∧
    ∀ start ∈ starts, start.1 ∈ s.queue.jobs ++ JobBooks.accepted o.nbMachines s.jobsReleasedRecently ∧
      MayStart o usableMachines start.1 start.2
  full : ∀ job ∈ s'.queue.jobs, 0 < job.nbRequestedResources → o.selector.fit job (usable s') = none
  unavailable : s'.unavailableMachines = unavailableAtPass s
  workload : s'.workload = s.workload

/-- The filler when a job has been executed on machines, with what is left of the queue. -/
def executedOn (o : FillerOptions) (s : FillerState) (job : Job) (machines : IntervalSet) (queue : Queue) : FillerState :=
  { s with
    decision := s.decision ++ decisionsOf o job machines
    currentAllocations := s.currentAllocations.insert job.id machines
    availableMachines := s.availableMachines \ machines
    queue := queue }

section

variable {o : FillerOptions} {s : FillerState} {job : Job} {machines usableMachines usableMachines' : IntervalSet}

theorem SameRest.refl (s : FillerState) : SameRest s s := ⟨rfl, rfl, rfl, rfl⟩

/-- A job that may be executed where fewer machines are usable may be where more are. -/
theorem MayStart.mono (h : MayStart o usableMachines job machines) (hsub : usableMachines ⊆ usableMachines') :
    MayStart o usableMachines' job machines :=
  { h with subset := Finset.Subset.trans h.subset hsub }

theorem usable_executedOn (queue : Queue) : usable (executedOn o s job machines queue) = usable s \ machines :=
  sdiff_right_comm s.availableMachines machines s.unavailableMachines

end

end Filler

open Filler

namespace FillerAux

variable {o : FillerOptions} {p : Platform} {base : List (String × IntervalSet)} {released : List Job} {s s' : FillerState}
  {job : Job} {machines : IntervalSet} {rest : List SortableJob} {queue : Queue}

@[simp] theorem filterMap_decisionsOf : (decisionsOf o job machines).filterMap decision? = [.executeJob job.id machines] := by
  cases hmetadata : o.setJobMetadata <;> simp [decisionsOf, decision?, hmetadata]

/-- A job of the queue is executed. -/
theorem execute_ok (hmem : job ∈ s.queue.jobs) : ∃ queue : Queue, queue.jobs = s.queue.jobs.erase job ∧
    execute o s job machines = .ok (executedOn o s job machines queue) := by
  obtain ⟨queue, hqueue⟩ := Queue.removeJob_of_mem hmem
  refine ⟨queue, (Queue.jobs_removeJob hqueue).2, ?_⟩
  simp only [execute, hqueue, executedOn]

/-- Its books are kept. -/
theorem books_executedOn (h : Books o p base released s) (hmem : job ∈ s.queue.jobs) (hqueue : queue.jobs = s.queue.jobs.erase job)
    (hsub : machines ⊆ s.availableMachines) : Books o p base released (executedOn o s job machines queue) := by
  have hfront := JobBooks.perm_queue h (List.perm_cons_erase hmem).symm
  have hexecuted := hfront.execute hsub
  unfold Books decisions executedOn
  rw [List.filterMap_append, filterMap_decisionsOf, executions_append, executions_executeJob, hqueue, ← List.append_assoc]
  exact hexecuted

/-- What the platform is told of the jobs that are rejected and of those that start. -/
theorem filterMap_decision? (rejected : List Job) (starts : List (Job × IntervalSet)) :
    (rejected.map (fun job => ProtocolEvent.rejectJob job.id) ++
      starts.flatMap (fun start => decisionsOf o start.1 start.2)).filterMap decision? =
    rejected.map (fun job => .rejectJob job.id) ++ starts.map (fun start => .executeJob start.1.id start.2) := by
  have hrejected : (rejected.map fun job => ProtocolEvent.rejectJob job.id).filterMap decision? =
      rejected.map fun job => .rejectJob job.id := by
    induction rejected with
    | nil => rfl
    | cons job rejected ih => simpa [decision?] using ih
  rw [List.filterMap_append, hrejected]
  refine congrArg _ ?_
  induction starts with
  | nil => rfl
  | cons start starts ih => rw [List.flatMap_cons, List.filterMap_append, filterMap_decisionsOf, ih, List.map_cons, List.singleton_append]

/-- The jobs that start are those that are executed. -/
theorem executions_starts (rejected : List Job) (starts : List (Job × IntervalSet)) :
    executions (rejected.map (fun job => Decision.rejectJob job.id) ++ starts.map fun start => .executeJob start.1.id start.2) =
      starts.map fun start => (start.1.id, start.2) := by
  simp [executions, List.filterMap_append, List.filterMap_map]

/-- The number of machines to allocate is one that the assertion lets pass where the job requests any machines. -/
theorem nbMachinesToAllocate_bounds (o : FillerOptions) (hpos : 0 < job.nbRequestedResources) :
    0 < nbMachinesToAllocate o job ∧ nbMachinesToAllocate o job ≤ job.nbRequestedResources := by
  unfold nbMachinesToAllocate
  refine ⟨Int.ceil_pos.2 (o.product.pos _ _ o.inRange.1 hpos), Int.ceil_le.2 ?_⟩
  exact_mod_cast o.product.le _ job.nbRequestedResources o.inRange.1 o.inRange.2

/-- The machines that a job is executed on are some of those that fit. -/
theorem mayStart_of_fit {usable fitting : IntervalSet} (hfit : o.selector.fit job usable = some fitting)
    (hnb : 0 < nbMachinesToAllocate o job ∧ nbMachinesToAllocate o job ≤ job.nbRequestedResources) :
    MayStart o usable job (fitting.leftmost (nbMachinesToAllocate o job).toNat) := by
  obtain ⟨hsub, hcard, -⟩ := (o.selector.fitLaws job).1 hfit
  have hle : (nbMachinesToAllocate o job).toNat ≤ fitting.card := by omega
  have hleft := Finset.card_leftmost_of_le hle
  exact {
    subset := (Finset.leftmost_subset _ _).trans hsub
    card := by rw [hleft]; omega
    pos := by omega
    le := by omega }

/-- What one job adds to what a pass has done. -/
theorem filled_cons {sjob : SortableJob} (hqueue : queue.jobs = s.queue.jobs.erase sjob.job) (hnodup : s.queue.jobs.Nodup)
    (hmem : sjob.job ∈ s.queue.jobs) (hstart : MayStart o (usable s) sjob.job machines)
    (h : Filled o (executedOn o s sjob.job machines queue) rest s') : Filled o s (sjob :: rest) s' := by
  have hfewer : queue.jobs ⊆ s.queue.jobs := hqueue ▸ List.erase_subset
  have hsub : usable s' ⊆ usable s \ machines := usable_executedOn (o := o) (s := s) queue ▸ h.usable
  constructor
  case starts =>
    obtain ⟨starts, hdecision, hstarts⟩ := h.starts
    refine ⟨(sjob.job, machines) :: starts, ?_, List.forall_mem_cons.2 ⟨⟨hmem, hstart⟩, fun start hin => ?_⟩⟩
    · rw [hdecision, List.flatMap_cons, ← List.append_assoc]
      rfl
    · obtain ⟨hwaits, hmay⟩ := hstarts start hin
      rw [usable_executedOn] at hmay
      exact ⟨hfewer hwaits, hmay.mono Finset.sdiff_subset⟩
  case full =>
    refine List.forall_mem_cons.2 ⟨fun _ hwaits => ?_, h.full⟩
    have hgone : sjob.job ∈ s.queue.jobs.erase sjob.job := hqueue ▸ h.queue hwaits
    exact absurd hgone hnodup.not_mem_erase
  case usable => exact hsub.trans Finset.sdiff_subset
  case queue => exact List.Subset.trans h.queue hfewer
  case same => exact ⟨h.same.unavailable, h.same.workload, h.same.released, h.same.ended⟩

/-- A job that does not fit keeps waiting. -/
theorem filled_skip {sjob : SortableJob} (hnone : o.selector.fit sjob.job (usable s) = none) (h : Filled o s rest s') :
    Filled o s (sjob :: rest) s' where
  __ := h
  full := by
    refine List.forall_mem_cons.2 ⟨fun _ _ => ?_, h.full⟩
    by_contra hfits
    have hsome := (o.selector.fitLaws sjob.job).2 h.usable (Option.isSome_iff_ne_none.2 hfits)
    rw [hnone] at hsome
    cases hsome

/-- Where no machine is usable, the jobs keep waiting. -/
theorem filled_stop (hnone : usable s = ∅) : Filled o s rest s where
  starts := ⟨[], by simp, nofun⟩
  full := by
    intro sjob _ hpos _
    cases hfit : o.selector.fit sjob.job (usable s) with
    | none => rfl
    | some fitting =>
      obtain ⟨hsub, hcard, -⟩ := (o.selector.fitLaws sjob.job).1 hfit
      rw [hnone, Finset.subset_empty] at hsub
      rw [hsub, Finset.card_empty] at hcard
      omega
  usable := Finset.Subset.refl _
  queue := List.Subset.refl _
  same := SameRest.refl s

/-- The loop keeps the books and fills the machines, or comes to a job that requests none. -/
theorem fillFrom_filled (h : Books o p base [] s) (hrest : ∀ sjob ∈ rest, sjob.job ∈ s.queue.jobs)
    (hnodup : (rest.map (·.job)).Nodup) : Yields (fun s' => Books o p base [] s' ∧ Filled o s rest s')
      (fun reason => ∃ sjob ∈ rest, sjob.job.nbRequestedResources = 0 ∧ reason = .nbMachinesToAllocate sjob.job.id)
      (fillFrom o s (usable s) (usable s).card rest) := by
  induction rest generalizing s with
  | nil => exact ⟨h, ⟨⟨[], by simp, nofun⟩, nofun, Finset.Subset.refl _, List.Subset.refl _, .refl s⟩⟩
  | cons sjob rest ih =>
    obtain ⟨hmem, hrest⟩ := List.forall_mem_cons.1 hrest
    obtain ⟨hother, hnodup⟩ := List.nodup_cons.1 hnodup
    have hjobs : s.queue.jobs.Nodup := by
      have hids := (List.nodup_append.1 h.distinct).2.1
      rw [List.append_nil] at hids
      exact hids.of_map
    have hlater : ∀ reason, (∃ sjob ∈ rest, sjob.job.nbRequestedResources = 0 ∧ reason = FillerAbort.nbMachinesToAllocate sjob.job.id) →
        ∃ sjob' ∈ sjob :: rest, sjob'.job.nbRequestedResources = 0 ∧ reason = .nbMachinesToAllocate sjob'.job.id := by
      rintro reason ⟨sjob', hin, hreason⟩
      exact ⟨sjob', List.mem_cons_of_mem _ hin, hreason⟩
    unfold fillFrom
    split
    · split
      · rename_i fitting hfit
        split
        · rename_i hnb
          -- the job is executed, and the loop goes on with what is left of the machines
          have hstart := mayStart_of_fit hfit hnb
          obtain ⟨queue, hqueue, hx⟩ : ∃ queue : Queue, queue.jobs = s.queue.jobs.erase sjob.job ∧
              execute o s sjob.job (fitting.leftmost (nbMachinesToAllocate o sjob.job).toNat) = .ok _ := execute_ok hmem
          have hbooks := books_executedOn h hmem hqueue (hstart.subset.trans Finset.sdiff_subset)
          have hothers : ∀ sjob' ∈ rest, sjob'.job ∈ queue.jobs := by
            intro sjob' hin
            rw [hqueue]
            exact (List.mem_erase_of_ne fun heq => hother (List.mem_map.2 ⟨sjob', hin, heq⟩)).2 (hrest sjob' hin)
          have hmore := ih hbooks hothers hnodup
          rw [usable_executedOn] at hmore
          have hcard := Divided.card_take hstart.subset
          dsimp only
          rw [hx, ← hcard]
          exact hmore.imp (fun s' hs' => ⟨hs'.1, filled_cons hqueue hjobs hmem hstart hs'.2⟩) hlater
        · rename_i hnb
          refine ⟨sjob, List.mem_cons_self, ?_, rfl⟩
          by_contra hpos
          exact hnb (nbMachinesToAllocate_bounds o (Nat.pos_of_ne_zero hpos))
      · rename_i hnone
        exact (ih h hrest hnodup).imp (fun s' hs' => ⟨hs'.1, filled_skip hnone hs'.2⟩) hlater
    · rename_i hnone
      have hempty : usable s = ∅ := by
        rw [← Finset.card_eq_zero]
        omega
      exact ⟨h, filled_stop hempty⟩

/-! ### Before the queue is looked at -/

/-- Jobs that have ended give their machines back. -/
theorem books_finishJobs {ended : List (String × IntervalSet)} (h : Books o p (ended ++ base) released s) :
    Books o p base released ((ended.map (·.1)).foldl finishJob s) := by
  induction ended generalizing s with
  | nil => exact h
  | cons e ended ih =>
    have hbooks : JobBooks o.nbMachines p (e :: (ended ++ base ++ executions (decisions s))) (decisions s) s.queue.jobs released
      s.availableMachines s.currentAllocations s.workload := h
    have hfinished := hbooks.finish
    have hsome := hbooks.find?_eq List.mem_cons_self
    have hfirst : Books o p (ended ++ base) released (finishJob s e.1) := by
      unfold Books finishJob
      rw [hsome]
      exact hfinished
    exact ih hfirst

/-- Finishing jobs touches nothing but the machines. -/
theorem finishJobs_frame (ids : List String) (s : FillerState) :
    (ids.foldl finishJob s).decision = s.decision ∧ (ids.foldl finishJob s).queue = s.queue ∧ SameRest s (ids.foldl finishJob s) ∧
      (ids.foldl finishJob s).machinesThatBecameAvailableRecently = s.machinesThatBecameAvailableRecently ∧
      (ids.foldl finishJob s).machinesThatBecameUnavailableRecently = s.machinesThatBecameUnavailableRecently := by
  induction ids generalizing s with
  | nil => exact ⟨rfl, rfl, .refl s, rfl, rfl⟩
  | cons id ids ih =>
    obtain ⟨hdecision, hqueue, hsame, havailable, hunavailable⟩ := ih (finishJob s id)
    exact ⟨hdecision, hqueue, ⟨hsame.unavailable, hsame.workload, hsame.released, hsame.ended⟩, havailable, hunavailable⟩

/-- Jobs released wait or are rejected. -/
theorem books_releaseJobs {currentDate : ℚ} (h : Books o p base released s) :
    Books o p base [] (released.foldl (releaseJob o currentDate) s) := by
  induction released generalizing s with
  | nil => exact h
  | cons job released ih =>
    refine ih ?_
    unfold releaseJob
    split
    · rename_i hlt
      have hrejected := JobBooks.reject h hlt
      unfold Books decisions
      rw [List.filterMap_append, executions_append]
      simpa [decision?, decisions] using hrejected
    · rename_i hle
      have hwaits := JobBooks.wait h (not_lt.1 hle)
      unfold Books
      rw [Queue.jobs_appendJob]
      exact hwaits

/-- Releasing jobs adds rejections and jobs that wait. -/
theorem releaseJobs_frame (currentDate : ℚ) (jobs : List Job) (s : FillerState) :
    (jobs.foldl (releaseJob o currentDate) s).decision =
        s.decision ++ (JobBooks.tooLarge o.nbMachines jobs).map (fun job => .rejectJob job.id) ∧
      (jobs.foldl (releaseJob o currentDate) s).queue.jobs = s.queue.jobs ++ JobBooks.accepted o.nbMachines jobs ∧
      SameRest s (jobs.foldl (releaseJob o currentDate) s) := by
  induction jobs generalizing s with
  | nil => exact ⟨(List.append_nil _).symm, (List.append_nil _).symm, .refl s⟩
  | cons job jobs ih =>
    obtain ⟨hdecision, hqueue, hsame⟩ := ih (releaseJob o currentDate s job)
    rw [List.foldl_cons, hdecision, hqueue]
    by_cases hlt : o.nbMachines < job.nbRequestedResources
    · rw [JobBooks.tooLarge_cons_of_lt hlt, JobBooks.accepted_cons_of_lt hlt]
      have hx : releaseJob o currentDate s job = { s with decision := s.decision ++ [.rejectJob job.id] } := if_pos hlt
      rw [hx] at hsame ⊢
      exact ⟨by simp, rfl, ⟨hsame.unavailable, hsame.workload, hsame.released, hsame.ended⟩⟩
    · rw [JobBooks.tooLarge_cons_of_le (not_lt.1 hlt), JobBooks.accepted_cons_of_le (not_lt.1 hlt)]
      have hx : releaseJob o currentDate s job = { s with queue := s.queue.appendJob job currentDate } := if_neg hlt
      rw [hx] at hsame ⊢
      exact ⟨rfl, by simp, ⟨hsame.unavailable, hsame.workload, hsame.released, hsame.ended⟩⟩

/-- Before the queue is looked at, the jobs that have ended have given their machines back, and the jobs released wait. -/
theorem prepare_books {currentDate : ℚ} {ended : List (String × IntervalSet)} (hended : s.jobsEndedRecently = ended.map (·.1))
    (h : Books o p (ended ++ base) s.jobsReleasedRecently s) : Books o p base [] (prepare o currentDate s) := by
  have hfinished := books_finishJobs h
  rw [← hended] at hfinished
  obtain ⟨-, -, hsame, -, -⟩ := finishJobs_frame s.jobsEndedRecently s
  have hreleased : Books o p base [] ((updateUnavailable (s.jobsEndedRecently.foldl finishJob s)).jobsReleasedRecently.foldl
      (releaseJob o currentDate) (updateUnavailable (s.jobsEndedRecently.foldl finishJob s))) := by
    refine books_releaseJobs ?_
    change Books o p base (s.jobsEndedRecently.foldl finishJob s).jobsReleasedRecently _
    rw [hsame.released]
    exact hfinished
  exact JobBooks.perm_queue hreleased (Queue.jobs_sortQueue _ _ _)

/-- What is known of the rest. -/
theorem prepare_frame (currentDate : ℚ) (s : FillerState) :
    (prepare o currentDate s).decision =
        s.decision ++ (JobBooks.tooLarge o.nbMachines s.jobsReleasedRecently).map (fun job => .rejectJob job.id) ∧
      (prepare o currentDate s).queue.jobs.Perm (s.queue.jobs ++ JobBooks.accepted o.nbMachines s.jobsReleasedRecently) ∧
      (prepare o currentDate s).unavailableMachines = unavailableAtPass s ∧ (prepare o currentDate s).workload = s.workload := by
  obtain ⟨hdecision, hqueue, hsame, havailable, hunavailable⟩ := finishJobs_frame s.jobsEndedRecently s
  obtain ⟨hdecision', hqueue', hsame'⟩ := releaseJobs_frame (o := o) currentDate
    (updateUnavailable (s.jobsEndedRecently.foldl finishJob s)).jobsReleasedRecently
    (updateUnavailable (s.jobsEndedRecently.foldl finishJob s))
  have hreleased : (updateUnavailable (s.jobsEndedRecently.foldl finishJob s)).jobsReleasedRecently = s.jobsReleasedRecently :=
    hsame.released
  refine ⟨?_, ?_, ?_, ?_⟩
  · refine hdecision'.trans ?_
    rw [hreleased]
    exact congrArg (· ++ _) hdecision
  · refine (Queue.jobs_sortQueue _ _ _).trans (.of_eq (hqueue'.trans ?_))
    rw [hreleased]
    exact congrArg (fun queue : Queue => queue.jobs ++ _) hqueue
  · refine hsame'.unavailable.trans ?_
    simp only [updateUnavailable, unavailableAtPass, hsame.unavailable, havailable, hunavailable]
  · exact hsame'.workload.trans hsame.workload

/-- A pass keeps the books, or comes to a job that requests no machines. -/
theorem makeDecisions_passed {currentDate : ℚ} {ended : List (String × IntervalSet)}
    (hended : s.jobsEndedRecently = ended.map (·.1)) (h : Books o p (ended ++ base) s.jobsReleasedRecently s) :
    Yields (fun s' => Books o p base [] s' ∧ Passed o s s')
      (fun reason => ∃ job ∈ s.queue.jobs ++ s.jobsReleasedRecently,
        job.nbRequestedResources = 0 ∧ reason = .nbMachinesToAllocate job.id) (makeDecisions o currentDate s) := by
  have hbooks : Books o p base [] (prepare o currentDate s) := prepare_books hended h
  obtain ⟨hdecision, hqueue, hunavailable, hworkload⟩ := prepare_frame (o := o) currentDate s
  have hnodup : ((prepare o currentDate s).queue.map (·.job)).Nodup := by
    have hids := (List.nodup_append.1 hbooks.distinct).2.1
    rw [List.append_nil] at hids
    exact hids.of_map
  refine (fillFrom_filled hbooks (fun sjob hin => List.mem_map_of_mem hin) hnodup).imp (fun s' hs' => ⟨hs'.1, ?_⟩) ?_
  · obtain ⟨starts, hmade, hstarts⟩ := hs'.2.starts
    constructor
    case starts =>
      refine ⟨usable (prepare o currentDate s), starts, by rw [hmade, hdecision], ?_, fun start hin => ?_⟩
      · rw [← hunavailable]
        exact Finset.sdiff_disjoint
      · exact ⟨hqueue.mem_iff.1 (hstarts start hin).1, (hstarts start hin).2⟩
    case full =>
      intro job hjob hpos
      obtain ⟨sjob, hin, rfl⟩ := List.mem_map.1 (hs'.2.queue hjob)
      exact hs'.2.full sjob hin hpos hjob
    case unavailable => exact hs'.2.same.unavailable.trans hunavailable
    case workload => exact hs'.2.same.workload.trans hworkload
  · rintro reason ⟨sjob, hin, hzero, rfl⟩
    refine ⟨sjob.job, ?_, hzero, rfl⟩
    have hmem := hqueue.mem_iff.1 (List.mem_map_of_mem hin)
    exact (List.mem_append.1 hmem).elim (List.mem_append_left _) fun hnew =>
      List.mem_append_right _ (List.mem_of_mem_filter hnew)

end FillerAux

end ScheduleTest
