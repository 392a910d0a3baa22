import ScheduleTest.Lemmas.EasyBfFast2
import ScheduleTest.Lemmas.EasyBfFast2Holdback

/-!
# The machines of easy_bf_fast2_holdback

A machine that is held back is meant to serve jobs that share it and no others. But the handlers of failures and repairs know
nothing of it: once it has been repaired it is an available machine like any other, and is given to a job as a whole while it is
still held back. Where that does not happen, and a machine is given back only when it works and no job holds it, every machine
keeps to its regime.
-/

namespace ScheduleTest

open Execution FastState FastMachines EasyBFFast2

/-- What is meant to hold of the machines at every moment. -/
structure HoldbackAccounted (c : FastConfig) (s : HoldbackState) : Prop where
  heldback : Disjoint s.heldbackMachines s.availableMachines
  heldbackJobs : ∀ e ∈ s.currentAllocations.entries, 1 < e.1.nbRequestedResources → Disjoint s.heldbackMachines e.2
  cores : ∀ m < c.nbMachines, s.coresAvailable m = c.coreLimit m - sharers c s.currentAllocations m ∧ 0 ≤ s.coresAvailable m ∧
    s.coresAvailable m ≤ c.coreLimit m
  repair : Disjoint s.availableMachines s.repairMachines
  allocated : ∀ e ∈ s.currentAllocations.entries, Disjoint s.availableMachines e.2
  count : s.nbAvailableMachines = s.availableMachines.card

/-- A repair that is reported done was under way. -/
def RepairsNamed (s : HoldbackState) : FastEvent → Prop
  | .requestedCall _ id .repairDone _ => id ∈ s.repairMachines
  | _ => True

/-- A repair is reported done for a machine that is not held back and that no job holds; no machines are reported available from
outside; and where a job has ended on a machine under repair, it is held back or a job that has not ended still shares it. -/
def KeepsRegimes (c : FastConfig) (s : HoldbackState) : FastEvent → Prop
  | .requestedCall _ id .repairDone _ => id ∉ s.heldbackMachines ∧ ∀ e ∈ s.currentAllocations.entries, id ∉ e.2
  | .machinesAvailable machines => machines = ∅
  | .makeDecisions _ => ∀ m ∈ s.repairMachines, m ∉ s.heldbackMachines →
      (∀ e ∈ s.currentAllocations.entries, e.1 ∈ s.jobsEndedRecently → m ∉ e.2) ∨
      ∃ e ∈ s.currentAllocations.entries, c.shares e.1 ∧ m ∈ e.2 ∧ e.1 ∉ s.jobsEndedRecently
  | _ => True

instance (s : HoldbackState) : (event : FastEvent) → Decidable (RepairsNamed s event)
  | .requestedCall _ id .repairDone _ => inferInstanceAs (Decidable (id ∈ s.repairMachines))
  | .requestedCall _ _ .smtbf _ => isTrue trivial
  | .requestedCall _ _ .mtbf _ => isTrue trivial
  | .requestedCall _ _ .fixedFailure _ => isTrue trivial
  | .requestedCall _ _ .reservationStart _ => isTrue trivial
  | .requestedCall _ _ .checkpointBatsched _ => isTrue trivial
  | .requestedCall _ _ .recoverFromCheckpoint _ => isTrue trivial
  | .machinesAvailable _ => isTrue trivial
  | .makeDecisions _ => isTrue trivial
  | .jobSubmitted _ => isTrue trivial
  | .jobCompleted _ => isTrue trivial
  | .jobsKilled _ => isTrue trivial
  | .myKillJob _ => isTrue trivial
  | .noMoreStaticJobToSubmit => isTrue trivial

instance (c : FastConfig) (s : HoldbackState) : (event : FastEvent) → Decidable (KeepsRegimes c s event)
  | .requestedCall _ id .repairDone _ => inferInstanceAs
      (Decidable (id ∉ s.heldbackMachines ∧ ∀ e ∈ s.currentAllocations.entries, id ∉ e.2))
  | .requestedCall _ _ .smtbf _ => isTrue trivial
  | .requestedCall _ _ .mtbf _ => isTrue trivial
  | .requestedCall _ _ .fixedFailure _ => isTrue trivial
  | .requestedCall _ _ .reservationStart _ => isTrue trivial
  | .requestedCall _ _ .checkpointBatsched _ => isTrue trivial
  | .requestedCall _ _ .recoverFromCheckpoint _ => isTrue trivial
  | .machinesAvailable machines => inferInstanceAs (Decidable (machines = ∅))
  | .makeDecisions _ => inferInstanceAs (Decidable (∀ m ∈ s.repairMachines, m ∉ s.heldbackMachines →
      (∀ e ∈ s.currentAllocations.entries, e.1 ∈ s.jobsEndedRecently → m ∉ e.2) ∨
      ∃ e ∈ s.currentAllocations.entries, c.shares e.1 ∧ m ∈ e.2 ∧ e.1 ∉ s.jobsEndedRecently))
  | .jobSubmitted _ => isTrue trivial
  | .jobCompleted _ => isTrue trivial
  | .jobsKilled _ => isTrue trivial
  | .myKillJob _ => isTrue trivial
  | .noMoreStaticJobToSubmit => isTrue trivial

namespace HoldbackAux

variable {c : FastConfig} {s s' : HoldbackState} {job : Job} {waiting released : List Job} {date : ℚ}

/-- What every step keeps. -/
structure Ok (c : FastConfig) (s : HoldbackState) (waiting : List Job) : Prop where
  regimes : Regimes c s.heldbackMachines s.toFastMachines
  jobs : JobsOk s.toFastState waiting

/-- What every step keeps is what is meant. -/
theorem accounted_of_ok (hlimit : ∀ m < c.nbMachines, 1 ≤ c.coreLimit m) (h : Ok c s waiting) : HoldbackAccounted c s := by
  obtain ⟨holder, hr⟩ := h.regimes.ordinary
  constructor
  case heldback => exact Finset.disjoint_right.2 fun m hm => notMem_held_of_available hr hm
  case heldbackJobs =>
    intro e he hmany
    by_contra hd
    obtain ⟨hsh, _⟩ := h.regimes.placed e he (fun hd' => hd hd'.symm)
    simp only [FastConfig.shares, Bool.and_eq_true, beq_iff_eq] at hsh
    omega
  case cores =>
    intro m hm
    by_cases hheld : m ∈ s.heldbackMachines
    · have := h.regimes.cores m hheld
      omega
    · have hlim := hlimit m hm
      have hcores := hr.cores m hm
      rw [sharers_ordinary h.regimes hheld] at hcores
      simp only [FastMachines.ordinary, if_neg hheld] at hcores
      have hle : (sharers c s.currentAllocations m : ℤ) ≤ c.coreLimit m := by
        by_cases hshared : holder m = .shared
        · have := hr.sharers_le m hshared
          rw [sharers_ordinary h.regimes hheld] at this
          omega
        · -- a machine that is not shared has no sharers
          have hzero : sharers c (s.toFastMachines.ordinary c s.heldbackMachines).currentAllocations m = 0 := by
            refine List.countP_eq_zero.2 fun e he hbad => hshared ?_
            simp only [decide_eq_true_eq] at hbad
            obtain ⟨x, hx, hh⟩ := hr.placed e he hbad.1
            rw [hx, Finset.mem_singleton] at hbad
            exact hbad.2 ▸ hh
          rw [sharers_ordinary h.regimes hheld] at hzero
          omega
      omega
  case repair =>
    exact Finset.disjoint_left.2 fun m hm hbroken => ((hr.available m).1 hm).2.2 (Finset.mem_union_left _ hbroken)
  case allocated =>
    intro e he
    refine Finset.disjoint_left.2 fun m hav hm => ?_
    have hfree := ((hr.available m).1 hav).2.1
    by_cases hd : Disjoint e.2 s.heldbackMachines
    · have he' := entry_ordinary (c := c) (show (e.1, e.2) ∈ s.currentAllocations.entries from he) hd
      by_cases hsh : c.shares e.1
      · obtain ⟨x, hx, hh⟩ := hr.placed _ he' hsh
        rw [show e.2 = {x} from hx, Finset.mem_singleton] at hm
        subst hm
        cases hfree.symm.trans hh
      · cases hfree.symm.trans ((hr.own _ he' hsh m).1 hm)
    · obtain ⟨_, x, hx, hxe⟩ := h.regimes.placed e he hd
      rw [hxe, Finset.mem_singleton] at hm
      subst hm
      exact notMem_held_of_available hr hav hx
  case count => exact hr.count

/-- Only the machines and the table of the jobs matter. -/
theorem Ok.congr (h : Ok c s waiting) (hmachines : s'.toFastMachines = s.toFastMachines)
    (hheld : s'.heldbackMachines = s.heldbackMachines) (hw : s'.workload = s.workload)
    (he : s'.jobsEndedRecently = s.jobsEndedRecently) : Ok c s' waiting where
  regimes := by
    rw [hmachines, hheld]
    exact h.regimes
  jobs := h.jobs.congr hw he (by rw [hmachines])

theorem Ok.perm (h : Ok c s waiting) {waiting' : List Job} (hp : waiting'.Perm waiting) : Ok c s waiting' :=
  ⟨h.regimes, h.jobs.perm hp⟩

/-- What waits, and what is to be released. -/
structure SameQueues (s s' : HoldbackState) : Prop where
  priority : s'.priorityJob = s.priorityJob
  pending : s'.pendingJobs = s.pendingJobs
  released : s'.jobsReleasedRecently = s.jobsReleasedRecently

theorem SameQueues.waitingJobs_eq (h : SameQueues s s') : waitingJobs s'.toEasyState = waitingJobs s.toEasyState := by
  simp only [waitingJobs, h.priority, h.pending]

/-- A machine that is held back and has a free core. -/
theorem heldbackMachine?_eq_some {m : ℕ} (h : EasyBFFast2Holdback.heldbackMachine? s = some m) :
    m ∈ s.heldbackMachines ∧ 1 ≤ s.coresAvailable m := by
  rw [EasyBFFast2Holdback.heldbackMachine?] at h
  exact ⟨(Finset.mem_sort _).1 (List.mem_of_find?_eq_some h), by simpa using List.find?_some h⟩

/-- A job is executed on a machine that is held back or on others. -/
theorem tryExecute_ok {ordinary : Bool} (h : Ok c s (job :: waiting))
    (hx : EasyBFFast2Holdback.tryExecute c s job date ordinary = .ok (some s')) : Ok c s' waiting ∧ SameQueues s s' := by
  have hnew := h.jobs.fresh job List.mem_cons_self
  unfold EasyBFFast2Holdback.tryExecute at hx
  split at hx
  · rename_i t ht
    cases hx
    unfold EasyBFFast2Holdback.tryHeldback at ht
    split at ht
    · rename_i hshares
      obtain ⟨m, hm, rfl⟩ := Option.map_eq_some_iff.1 ht
      obtain ⟨hheld, hcores⟩ := heldbackMachine?_eq_some hm
      exact ⟨⟨h.regimes.started_held hnew hshares hheld hcores, h.jobs.inserted rfl rfl rfl⟩, rfl, rfl, rfl⟩
    · cases ht
  · split at hx
    · obtain ⟨executed, ht, hmap⟩ := map_eq_ok.1 hx
      obtain ⟨t, rfl, rfl⟩ := Option.map_eq_some_iff.1 hmap
      obtain ⟨f, hf, rfl⟩ := tryExecute_some ht
      have hframe := hf.frame
      exact ⟨⟨h.regimes.started hnew hf, h.jobs.inserted hframe.workload hframe.ended hframe.allocations⟩, rfl, hframe.pending,
        hframe.released⟩
    · cases hx

/-- A job becomes the priority job and nothing else changes. -/
theorem setPriorityJob_ok (hx : EasyBFFast2Holdback.setPriorityJob c s job = .ok s') :
    ∃ d, s' = { s with priorityJob := some (job, d) } := by
  obtain ⟨t, ht, rfl⟩ := map_eq_ok.1 hx
  obtain ⟨d, _, rfl⟩ := setPriorityJob_some ht
  exact ⟨d, rfl⟩

/-- The machines under repair to which an ended job may not bring the scheduler back. -/
def Guarded (c : FastConfig) (s : HoldbackState) (ended : List Job) : Prop :=
  ∀ m ∈ s.repairMachines, m ∉ s.heldbackMachines →
    (∀ e ∈ s.currentAllocations.entries, e.1 ∈ ended → m ∉ e.2) ∨
    ∃ e ∈ s.currentAllocations.entries, c.shares e.1 ∧ m ∈ e.2 ∧ e.1 ∉ ended

/-- What the end of a job leaves as it is. -/
structure JobFinished (s : HoldbackState) (job : Job) (s' : HoldbackState) : Prop where
  queues : SameQueues s s'
  allocations : s'.currentAllocations = s.currentAllocations.erase job
  repair : s'.repairMachines = s.repairMachines
  heldback : s'.heldbackMachines = s.heldbackMachines
  workload : s'.workload = s.workload
  ended : s'.jobsEndedRecently = s.jobsEndedRecently

theorem finishJob_finished (hx : EasyBFFast2Holdback.finishJob c s job = .ok s') : JobFinished s job s' := by
  unfold EasyBFFast2Holdback.finishJob at hx
  split at hx
  · cases hx
  · split at hx
    · split at hx
      · cases hx
      · cases hx
        exact ⟨⟨rfl, rfl, rfl⟩, rfl, rfl, rfl, rfl, rfl⟩
    · obtain ⟨t, ht, rfl⟩ := map_eq_ok.1 hx
      have hframe := finishJob_frame ht
      exact ⟨⟨hframe.priority, hframe.pending, hframe.released⟩, hframe.allocations, hframe.repair, rfl, hframe.workload,
        hframe.ended⟩

/-- A job that ends leaves a machine that is held back, or one that works, or one that is still shared. -/
theorem finishJob_ok {ended : List Job} (h : Ok c s waiting) (hj : s.workload job.id = some job)
    (hguard : Guarded c s (job :: ended)) (hx : EasyBFFast2Holdback.finishJob c s job = .ok s') : Ok c s' waiting := by
  have hfinished := finishJob_finished hx
  refine ⟨?_, h.jobs.finished hfinished.workload hfinished.ended hfinished.allocations⟩
  rcases h.jobs.entry hj with ⟨machines, hentry⟩ | ⟨hnone, _⟩
  · unfold EasyBFFast2Holdback.finishJob at hx
    rw [find?_of_entry hentry] at hx
    dsimp only at hx
    split at hx
    · rename_i hheldback
      have hd : ¬ Disjoint machines s.heldbackMachines := by
        rw [Finset.disjoint_iff_inter_eq_empty, Finset.inter_comm]
        exact hheldback.2.ne_empty
      obtain ⟨hshares, m, hm, rfl⟩ := h.regimes.placed _ hentry hd
      rw [firstMachine?_singleton] at hx
      cases hx
      exact h.regimes.finished_held hentry hshares hm
    · rename_i hordinary
      obtain ⟨t, ht, rfl⟩ := map_eq_ok.1 hx
      have hd : Disjoint machines s.heldbackMachines := by
        by_contra hd
        refine hordinary ⟨(h.regimes.placed _ hentry hd).1, ?_⟩
        rw [Finset.inter_comm, Finset.nonempty_iff_ne_empty]
        exact fun hempty => hd (Finset.disjoint_iff_inter_eq_empty.2 hempty)
      have hnot : ∀ m ∈ machines, m ∈ s.repairMachines →
          ∃ e ∈ s.currentAllocations.entries, c.shares e.1 ∧ m ∈ e.2 ∧ e.1.id ≠ job.id := by
        intro m hm hbroken
        rcases hguard m hbroken (Finset.disjoint_left.1 hd hm) with hfree | ⟨e, he, hsh, hme, hin⟩
        · exact absurd hm (hfree _ hentry List.mem_cons_self)
        · refine ⟨e, he, hsh, hme, fun hid => hin ?_⟩
          rw [KeyedMap.entry_unique he hentry hid]
          exact List.mem_cons_self
      obtain ⟨holder, hr⟩ := h.regimes.ordinary
      have hentry' := entry_ordinary (c := c) hentry hd
      unfold EasyBFFast2.finishJob at ht
      rw [find?_of_entry hentry] at ht
      dsimp only at ht
      split at ht
      · rename_i hshares
        obtain ⟨f, hf, rfl⟩ := map_eq_ok.1 ht
        obtain ⟨m, rfl, _⟩ := hr.placed _ hentry' hshares
        exact h.regimes.finishedOnCore hentry hshares (Finset.disjoint_singleton_left.1 hd)
          (hnot m (Finset.mem_singleton_self m)) hf
      · rename_i hshares
        cases ht
        refine h.regimes.givenBack hentry hshares (Finset.disjoint_left.2 fun m hm hbroken => ?_)
        -- a machine of its own is shared by nobody
        obtain ⟨e, he, hsh, hme, _⟩ := hnot m hm hbroken
        have hd' : Disjoint e.2 s.heldbackMachines := by
          by_contra hd'
          obtain ⟨_, x, hx, hxe⟩ := h.regimes.placed e he hd'
          rw [hxe, Finset.mem_singleton] at hme
          exact Finset.disjoint_left.1 hd hm (hme ▸ hx)
        obtain ⟨x, hx, hh⟩ := hr.placed _ (entry_ordinary (c := c) (show (e.1, e.2) ∈ _ from he) hd') hsh
        rw [show e.2 = {x} from hx, Finset.mem_singleton] at hme
        subst hme
        cases hh.symm.trans ((hr.own _ hentry' hshares m).1 hm)
  · unfold EasyBFFast2Holdback.finishJob at hx
    rw [hnone] at hx
    cases hx

/-- The jobs that ended leave their machines one after the other. -/
theorem finishJobs_ok {ended : List Job} (h : Ok c s waiting) (hj : ∀ job ∈ ended, s.workload job.id = some job)
    (hguard : Guarded c s ended) (hx : runFrom (EasyBFFast2Holdback.finishJob c) s ended = .ok s') :
    Ok c s' waiting ∧ SameQueues s s' := by
  have hrest := runFrom_rest (R := fun t rest => (Ok c t waiting ∧ SameQueues s t) ∧
      (∀ job ∈ rest, t.workload job.id = some job) ∧ Guarded c t rest)
    (by
      rintro t job rest t' ⟨⟨hok, hq⟩, hknown, hguarded⟩ hstep
      have hf := finishJob_finished hstep
      have hok' := finishJob_ok hok (hknown job List.mem_cons_self) hguarded hstep
      refine ⟨⟨hok', hf.queues.priority.trans hq.priority, hf.queues.pending.trans hq.pending,
        hf.queues.released.trans hq.released⟩, fun other ho => ?_, fun m hm hheld => ?_⟩
      · rw [hf.workload]
        exact hknown other (List.mem_cons_of_mem _ ho)
      · rw [hf.repair] at hm
        rw [hf.heldback] at hheld
        rcases hguarded m hm hheld with hfree | ⟨e, he, hsh, hme, hin⟩
        · refine .inl fun e he hin => ?_
          rw [hf.allocations, KeyedMap.mem_erase] at he
          exact hfree e he.1 (List.mem_cons_of_mem _ hin)
        · refine .inr ⟨e, ?_, hsh, hme, fun hmem => hin (List.mem_cons_of_mem _ hmem)⟩
          rw [hf.allocations, KeyedMap.mem_erase]
          refine ⟨he, fun hid => hin ?_⟩
          have hknown' := hok.jobs.running e he
          rw [hid, hknown job List.mem_cons_self] at hknown'
          exact Option.some.inj hknown' ▸ List.mem_cons_self)
    ⟨⟨h, rfl, rfl, rfl⟩, hj, hguard⟩ hx
  exact hrest.1

/-- The priority job is executed, or does not fit. -/
theorem executePriorityJob_ok (h : Ok c s (job :: waiting))
    (hx : EasyBFFast2Holdback.executePriorityJob c s job date = .ok (some s')) :
    Ok c s' waiting ∧ s'.priorityJob = none ∧ s'.pendingJobs = s.pendingJobs ∧
      s'.jobsReleasedRecently = s.jobsReleasedRecently := by
  obtain ⟨executed, ht, hmap⟩ := map_eq_ok.1 hx
  obtain ⟨t, rfl, rfl⟩ := Option.map_eq_some_iff.1 hmap
  obtain ⟨hok, hq⟩ := tryExecute_ok h ht
  exact ⟨hok.congr rfl rfl rfl rfl, rfl, hq.pending, hq.released⟩

/-- The loop over the pending jobs after the priority job. -/
theorem executePending_ok {rest : List Job} (hp : s.pendingJobs = rest) (hnone : s.priorityJob = none)
    (h : Ok c s (rest ++ released)) (hx : EasyBFFast2Holdback.executePending c date s rest = .ok s') :
    Ok c s' (waitingJobs s'.toEasyState ++ released) ∧ s'.jobsReleasedRecently = s.jobsReleasedRecently := by
  induction rest generalizing s with
  | nil =>
    cases hx
    refine ⟨?_, rfl⟩
    simp only [waitingJobs, hnone, hp]
    exact h
  | cons job rest ih =>
    rw [EasyBFFast2Holdback.executePending] at hx
    split at hx
    · rename_i t ht
      obtain ⟨hok, hq⟩ := tryExecute_ok h ht
      obtain ⟨hok', hrel⟩ := ih (s := { t with pendingJobs := rest }) rfl (hq.priority.trans hnone) (hok.congr rfl rfl rfl rfl) hx
      exact ⟨hok', hrel.trans hq.released⟩
    · obtain ⟨d, rfl⟩ := setPriorityJob_ok hx
      exact ⟨h.congr rfl rfl rfl rfl, rfl⟩
    · cases hx

/-- The backfill loop. -/
theorem backfill_ok {before rest : List Job} (hp : s.pendingJobs = before.reverse ++ rest)
    (h : Ok c s (waitingJobs s.toEasyState ++ released)) (hx : EasyBFFast2Holdback.backfill c date s before rest = .ok s') :
    Ok c s' (waitingJobs s'.toEasyState ++ released) ∧ s'.jobsReleasedRecently = s.jobsReleasedRecently := by
  induction rest generalizing s before with
  | nil =>
    cases hx
    exact ⟨h, rfl⟩
  | cons job rest ih =>
    rw [EasyBFFast2Holdback.backfill] at hx
    split at hx
    · rename_i t ht
      have hperm : (job :: ((s.priorityJob.map (·.1)).toList ++ (before.reverse ++ rest) ++ released)).Perm
          (waitingJobs s.toEasyState ++ released) := by
        rw [waitingJobs, hp]
        have hmiddle : (((s.priorityJob.map (·.1)).toList ++ before.reverse) ++ job :: (rest ++ released)).Perm
            (job :: (((s.priorityJob.map (·.1)).toList ++ before.reverse) ++ (rest ++ released))) := List.perm_middle
        simpa only [List.append_assoc, List.cons_append] using hmiddle.symm
      obtain ⟨hok, hq⟩ := tryExecute_ok (h.perm hperm) ht
      obtain ⟨hok', hrel⟩ := ih (s := { t with pendingJobs := before.reverse ++ rest }) rfl (by
        rw [waitingJobs, hq.priority]
        exact hok.congr rfl rfl rfl rfl) hx
      exact ⟨hok', hrel.trans hq.released⟩
    · refine ih ?_ h hx
      rw [hp, List.reverse_cons, List.append_assoc, List.singleton_append]
    · cases hx

/-- What is executed when jobs have ended. -/
theorem handleEndedJobExecution_ok (released : List Job) {jobEnded : Bool}
    (h : Ok c s (waitingJobs s.toEasyState ++ released))
    (hx : EasyBFFast2Holdback.handleEndedJobExecution c s jobEnded date = .ok s') :
    Ok c s' (waitingJobs s'.toEasyState ++ released) ∧ s'.jobsReleasedRecently = s.jobsReleasedRecently := by
  rw [EasyBFFast2Holdback.handleEndedJobExecution] at hx
  split at hx
  · cases hx
    exact ⟨h, rfl⟩
  · rename_i job d hprio
    have hprio' : s.priorityJob = some (job, d) := by
      split at hprio
      · exact hprio
      · cases hprio
    split at hx
    · rename_i t ht
      have hwait : waitingJobs s.toEasyState ++ released = job :: (s.pendingJobs ++ released) := by
        rw [waitingJobs, hprio']
        rfl
      rw [hwait] at h
      obtain ⟨hok, hnone, hp, hrel⟩ := executePriorityJob_ok h ht
      split at hx
      · rename_i u hu
        obtain ⟨hok', hrel'⟩ := executePending_ok rfl hnone (by rw [hp]; exact hok) hu
        obtain ⟨hok'', hrel''⟩ := backfill_ok rfl hok' hx
        exact ⟨hok'', hrel''.trans (hrel'.trans hrel)⟩
      · cases hx
    · exact backfill_ok rfl h hx
    · cases hx

/-- A released job is executed, rejected, or waits. -/
theorem releaseJob_ok {c : HoldbackConfig} (h : Ok c.toFastConfig s (waitingJobs s.toEasyState ++ job :: released))
    (hx : EasyBFFast2Holdback.releaseJob c date s job = .ok s') :
    Ok c.toFastConfig s' (waitingJobs s'.toEasyState ++ released) := by
  have h' : Ok c.toFastConfig s (job :: (waitingJobs s.toEasyState ++ released)) := h.perm List.perm_middle.symm
  unfold EasyBFFast2Holdback.releaseJob at hx
  split at hx
  · cases hx
    exact ⟨h.regimes, h'.jobs.drop.congr rfl rfl rfl⟩
  · split at hx
    · rename_i t ht
      cases hx
      obtain ⟨hok, hq⟩ := tryExecute_ok h' ht
      rw [hq.waitingJobs_eq]
      exact hok
    · obtain ⟨t, ht, rfl⟩ := map_eq_ok.1 hx
      unfold EasyBFFast2.enqueue at ht
      split at ht
      · rename_i hnone
        obtain ⟨d, _, rfl⟩ := setPriorityJob_some ht
        simp only [waitingJobs, hnone] at h' ⊢
        exact h'.congr rfl rfl rfl rfl
      · rename_i hprio
        simp only [waitingJobs, hprio] at h'
        split at ht
        · cases ht
          refine Ok.congr (h'.perm ?_) rfl rfl rfl rfl
          simp only [waitingJobs, hprio]
          exact List.Perm.swap _ _ _
        · cases ht
          refine Ok.congr (h'.perm ?_) rfl rfl rfl rfl
          simp only [waitingJobs, hprio, ← List.append_assoc]
          rw [← List.cons_append]
          exact (List.perm_append_singleton _ _).append_right _
    · cases hx

/-- A pass over the messages received. -/
theorem makeDecisions_ok {c : HoldbackConfig} (h : Ok c.toFastConfig s (waitingJobs s.toEasyState ++ s.jobsReleasedRecently))
    (hguard : Guarded c.toFastConfig s s.jobsEndedRecently) (hx : EasyBFFast2Holdback.makeDecisions c s date = .ok s') :
    Ok c.toFastConfig s' (waitingJobs s'.toEasyState) := by
  unfold EasyBFFast2Holdback.makeDecisions at hx
  split at hx
  · rename_i t ht
    obtain ⟨u, hu, rfl⟩ := map_eq_ok.1 hx
    unfold EasyBFFast2Holdback.endAndExecute at ht
    split at ht
    · rename_i v hv
      obtain ⟨hok, hq⟩ := finishJobs_ok h h.jobs.ended hguard hv
      have hkill : v.toFastState.handleNewJobsToKill.toFastMachines = v.toFastMachines ∧
          v.toFastState.handleNewJobsToKill.pendingJobs = v.pendingJobs ∧
          v.toFastState.handleNewJobsToKill.jobsReleasedRecently = v.jobsReleasedRecently ∧
          v.toFastState.handleNewJobsToKill.workload = v.workload ∧
          v.toFastState.handleNewJobsToKill.jobsEndedRecently = v.jobsEndedRecently := by
        unfold handleNewJobsToKill
        split <;> exact ⟨rfl, rfl, rfl, rfl, rfl⟩
      obtain ⟨hok', hrel⟩ := handleEndedJobExecution_ok s.jobsReleasedRecently (by
        simp only [waitingJobs, hkill.2.1, hq.priority, hq.pending]
        exact hok.congr hkill.1 rfl hkill.2.2.2.1 hkill.2.2.2.2) ht
      have hreleased : t.jobsReleasedRecently = s.jobsReleasedRecently := hrel.trans (hkill.2.2.1.trans hq.released)
      rw [hreleased] at hu
      have hfinal := runFrom_rest (R := fun t rest => Ok c.toFastConfig t (waitingJobs t.toEasyState ++ rest))
        (fun _ _ _ _ hok hstep => releaseJob_ok hok hstep) hok' hu
      rw [List.append_nil] at hfinal
      dsimp only [sendFinishedSubmittingJobs]
      split <;> exact hfinal.congr rfl rfl rfl rfl
    · cases ht
  · cases hx

/-- A requested call leaves every machine in its regime. -/
theorem onRequestedCall_regimes {f : FastState} {held : IntervalSet} (h : Regimes c held f.toFastMachines) {id : ℕ}
    {forWhat : CallMeLaterType} {draws : Draws} (hdraw : draws.number < c.nbMachines)
    (hdone : forWhat = .repairDone → id ∈ f.repairMachines ∧ id ∉ held ∧ ∀ e ∈ f.currentAllocations.entries, id ∉ e.2) :
    Regimes c held (f.onRequestedCall c date id draws forWhat).toFastMachines := by
  have hfailure : Regimes c held (f.onFailure c date draws).toFastMachines := by
    unfold onFailure
    split
    · unfold onMachineInstantDownUp
      split <;> exact h
    · exact h.down hdraw _ _
  cases forWhat with
  | smtbf =>
    rw [onRequestedCall]
    split
    · exact hfailure
    · exact h
  | fixedFailure =>
    rw [onRequestedCall]
    split
    · exact hfailure
    · exact h
  | mtbf =>
    simp only [onRequestedCall, onMyKillJobNotifyEvent]
    split_ifs <;> exact h
  | repairDone =>
    obtain ⟨hbroken, hheld, hnone⟩ := hdone rfl
    exact h.repaired hbroken hheld hnone
  | reservationStart => exact h
  | checkpointBatsched => exact h
  | recoverFromCheckpoint => exact h

/-- A message other than a pass is handled as `easy_bf_fast2` does, and the machines held back stay so. -/
theorem step_message {c : HoldbackConfig} {event : FastEvent} (hne : ∀ date, event ≠ .makeDecisions date)
    (hx : EasyBFFast2Holdback.step c s event = .ok s') :
    ∃ t, s.toFastState.step c.toFastConfig (fun t _ => .ok t) event = .ok t ∧ { s with toFastState := t } = s' := by
  rw [EasyBFFast2Holdback.step] at hx
  · obtain ⟨t, ht, rfl⟩ := map_eq_ok.1 hx
    obtain ⟨f, hf, rfl⟩ := step_handler hne ht
    exact ⟨f, hf, rfl⟩
  · exact hne

/-- Every step that keeps the regimes of the machines. -/
theorem step_ok {c : HoldbackConfig} {event : FastEvent}
    (h : Ok c.toFastConfig s (waitingJobs s.toEasyState ++ s.jobsReleasedRecently)) (hdraw : event.DrawsMachine c.toFastConfig)
    (hnamed : RepairsNamed s event) (hkeeps : KeepsRegimes c.toFastConfig s event)
    (hx : EasyBFFast2Holdback.step c s event = .ok s') :
    Ok c.toFastConfig s' (waitingJobs s'.toEasyState ++ s'.jobsReleasedRecently) := by
  cases event with
  | makeDecisions date =>
    obtain ⟨t, ht, rfl⟩ := map_eq_ok.1 hx
    have hok := makeDecisions_ok (s := { s with decision := s.decision.clear }) (h.congr rfl rfl rfl rfl) hkeeps ht
    refine ⟨hok.regimes, ?_⟩
    simp only [clearRecentDataStructures, List.append_nil]
    exact { hok.jobs with ended := by simp }
  | jobSubmitted job =>
    obtain ⟨t, ht, rfl⟩ := step_message (by simp) hx
    change onJobSubmitted _ job = .ok t at ht
    have hclear : JobsOk { s.toFastState with decision := s.decision.clear } (waitingJobs s.toEasyState ++ s.jobsReleasedRecently) :=
      h.jobs.congr rfl rfl rfl
    have hjobs := hclear.submitted ht
    unfold onJobSubmitted at ht
    split at ht
    · cases ht
    · cases ht
      refine ⟨h.regimes, hjobs.perm ?_⟩
      simp only [waitingJobs, ← List.append_assoc]
      exact List.perm_append_singleton _ _
  | jobCompleted id =>
    obtain ⟨t, ht, rfl⟩ := step_message (by simp) hx
    change onJobCompleted _ id = .ok t at ht
    have hclear : JobsOk { s.toFastState with decision := s.decision.clear } (waitingJobs s.toEasyState ++ s.jobsReleasedRecently) :=
      h.jobs.congr rfl rfl rfl
    have hjobs := hclear.completed ht
    unfold onJobCompleted at ht
    split at ht
    · cases ht
      exact ⟨h.regimes, hjobs⟩
    · cases ht
  | jobsKilled ids =>
    obtain ⟨t, ht, rfl⟩ := step_message (by simp) hx
    cases ht
    exact h.congr rfl rfl rfl rfl
  | requestedCall date id forWhat draws =>
    obtain ⟨t, ht, rfl⟩ := step_message (by simp) hx
    cases ht
    have hsame := onRequestedCall_sameJobs c.toFastConfig { s.toFastState with decision := s.decision.clear } date id draws forWhat
    refine ⟨onRequestedCall_regimes (f := { s.toFastState with decision := s.decision.clear }) h.regimes hdraw ?_, ?_⟩
    · rintro rfl
      exact ⟨hnamed, hkeeps⟩
    · simp only [waitingJobs]
      rw [hsame.pending, hsame.released]
      exact h.jobs.congr hsame.workload hsame.ended hsame.allocations
  | machinesAvailable machines =>
    obtain ⟨t, ht, rfl⟩ := step_message (by simp) hx
    cases ht
    obtain rfl : machines = ∅ := hkeeps
    refine h.congr ?_ rfl rfl rfl
    simp [onMachineAvailableNotifyEvent]
  | myKillJob victim =>
    obtain ⟨t, ht, rfl⟩ := step_message (by simp) hx
    cases ht
    unfold onMyKillJobNotifyEvent
    split <;> exact h.congr rfl rfl rfl rfl
  | noMoreStaticJobToSubmit =>
    obtain ⟨t, ht, rfl⟩ := step_message (by simp) hx
    cases ht
    exact h.congr rfl rfl rfl rfl

end HoldbackAux

open HoldbackAux in
/-- With no more machines held back than there are and at least one job to a machine, in every run whose steps keep the regimes of
the machines, the machines are accounted for in every state reached. -/
theorem holdback_accounted (c : HoldbackConfig) (date failure : ℚ) (events : List FastEvent)
    (hheld : c.sharePackingHoldback ≤ c.nbMachines) (hlimit : ∀ m < c.nbMachines, 1 ≤ c.coreLimit m)
    (hdraws : ∀ event ∈ events, event.DrawsMachine c.toFastConfig)
    (hnamed : AllSteps (EasyBFFast2Holdback.step c) RepairsNamed (EasyBFFast2Holdback.new c date failure) events)
    (hkeeps : AllSteps (EasyBFFast2Holdback.step c) (KeepsRegimes c.toFastConfig) (EasyBFFast2Holdback.new c date failure) events) :
    Always (EasyBFFast2Holdback.step c) (HoldbackAccounted c.toFastConfig) (EasyBFFast2Holdback.new c date failure) events := by
  refine always_of_invariant
    (I := fun s => Ok c.toFastConfig s (waitingJobs s.toEasyState ++ s.jobsReleasedRecently))
    (fun s event s' h hc hx => step_ok h hc.2.2 hc.1 hc.2.1 hx) (fun s h => accounted_of_ok hlimit h)
    ⟨EasyBFFast2Holdback.regimes_new c hheld (fun m hm => zero_le_one.trans (hlimit m hm)) date failure, ?_⟩
    (hnamed.and (hkeeps.and (allSteps_of_forall hdraws)))
  unfold EasyBFFast2Holdback.new
  split <;> constructor <;> simp [EasyBFFast2.new, FastState.new, waitingJobs]

namespace HoldbackWitness

/-- Three machines of two cores, the first of which is held back; a failure every five seconds, a repair of a hundred. -/
def config : HoldbackConfig where
  nbMachines := 3
  sharePacking := true
  coreCount := fun _ => 2
  fixedFailures := 5
  repairTime := 100
  sharePackingHoldback := 1

def job (id : String) (nbRequestedResources : ℕ) : Job := { id := id, nbRequestedResources := nbRequestedResources, walltime := 50 }

def machineFails (date : ℚ) (number : ℕ) : FastEvent :=
  .requestedCall date 0 .fixedFailure { number := number, failure := 0, repair := 0, victim := "" }

def repairDone (date : ℚ) (number : ℕ) : FastEvent :=
  .requestedCall date number .repairDone { number := 0, failure := 0, repair := 0, victim := "" }

/-- Two jobs share machine 0 and one takes machine 1, machine 2 fails and is repaired, then the machine held back fails, and the
jobs end one after the other. -/
def events : List FastEvent :=
  [.jobSubmitted (job "w!1" 1), .jobSubmitted (job "w!2" 1), .jobSubmitted (job "w!3" 1), .makeDecisions 0, machineFails 5 2,
    .makeDecisions 5, repairDone 105 2, .makeDecisions 105, machineFails 110 0, .jobCompleted "w!1", .jobCompleted "w!3",
    .jobSubmitted (job "w!4" 2), .makeDecisions 111]

/-- The machine that is held back fails and is repaired, and a job that requests two machines is submitted. -/
def heldbackFails : List FastEvent :=
  [machineFails 5 0, .makeDecisions 5, repairDone 105 0, .makeDecisions 105, .jobSubmitted (job "w!1" 2), .makeDecisions 106]

end HoldbackWitness

open HoldbackWitness in
/-- The run in which a machine that is not held back is repaired goes through, and the machines are accounted for. -/
theorem holdback_accounted_witness :
    abortOf (runFrom (EasyBFFast2Holdback.step config) (EasyBFFast2Holdback.new config 0 0) events) = none ∧
      Always (EasyBFFast2Holdback.step config) (HoldbackAccounted config.toFastConfig) (EasyBFFast2Holdback.new config 0 0)
        events :=
  ⟨by decide +kernel, holdback_accounted config 0 0 events (by decide) (by decide +kernel)
    (by simp [events, machineFails, repairDone, FastEvent.DrawsMachine, config]) (by decide +kernel) (by decide +kernel)⟩

open HoldbackWitness in
/-- When the machine that is held back has been repaired it is available, and a job of two machines is executed on it. -/
theorem holdback_accounted_false :
    ¬ ∀ (c : HoldbackConfig) (date failure : ℚ) (events : List FastEvent),
      c.sharePacking → c.sharePackingHoldback ≤ c.nbMachines → (∀ m < c.nbMachines, 1 ≤ c.coreLimit m) →
      (∀ event ∈ events, event.DrawsMachine c.toFastConfig) →
      AllSteps (EasyBFFast2Holdback.step c) RepairsNamed (EasyBFFast2Holdback.new c date failure) events →
      Always (EasyBFFast2Holdback.step c) (HoldbackAccounted c.toFastConfig) (EasyBFFast2Holdback.new c date failure) events := by
  intro h
  have halways := h config 0 0 heldbackFails rfl (by decide) (by decide +kernel)
    (by simp [heldbackFails, machineFails, repairDone, FastEvent.DrawsMachine, config]) (by decide +kernel)
  have hend : (runFrom (EasyBFFast2Holdback.step config) (EasyBFFast2Holdback.new config 0 0) heldbackFails).toOption.map
      (fun s => decide (0 ∈ s.heldbackMachines ∧ (job "w!1" 2, {0, 1}) ∈ s.currentAllocations.entries)) = some true := by
    decide +kernel
  obtain ⟨s, hs, hboth⟩ := toOption_map_eq_some.1 hend
  obtain ⟨hheld, hentry⟩ := of_decide_eq_true hboth
  exact Finset.disjoint_left.1 ((halways.last hs).heldbackJobs _ hentry (by decide)) hheld (by simp)

end ScheduleTest
