import ScheduleTest.Lemmas.EasyBfFast2

/-!
# The machines of easy_bf_fast2

No machine is meant to be given to a job while it is under repair or another job holds it. When a job ends,
`handle_newly_finished_jobs` makes its machines available without subtracting those under repair, as `fcfs_fast2` does, and a
repair that is reported done makes its machine available even where the job that was to be killed on it still runs. Without
these two steps, and as long as no two jobs share a machine, nothing is oversubscribed.
-/

namespace ScheduleTest

open Execution FastState FastMachines EasyBFFast2

/-- No machine is given away twice, or while it is under repair. The decisions are those of the last step. -/
structure NeverOversubscribed (s : EasyState) : Prop where
  execute : ∀ id machines, Decision.executeJob id machines ∈ s.decision.decisions → Disjoint machines s.repairMachines
  once : ∀ e ∈ s.currentAllocations.entries, ∀ e' ∈ s.currentAllocations.entries, e ≠ e' → Disjoint e.2 e'.2
  count : s.nbAvailableMachines = s.availableMachines.card
  repair : Disjoint s.availableMachines s.repairMachines
  allocated : ∀ e ∈ s.currentAllocations.entries, Disjoint s.availableMachines e.2

/-- The machines of the jobs that have ended are not under repair; a repair is reported done for a machine that is under repair or
available, and that no job holds; and no machines are reported available from outside. -/
def ReturnsWorking (s : EasyState) : FastEvent → Prop
  | .requestedCall _ id .repairDone _ =>
    (id ∈ s.repairMachines ∨ id ∈ s.availableMachines) ∧ ∀ e ∈ s.currentAllocations.entries, id ∉ e.2
  | .machinesAvailable machines => machines = ∅
  | .makeDecisions _ => ∀ e ∈ s.currentAllocations.entries, e.1 ∈ s.jobsEndedRecently → Disjoint e.2 s.repairMachines
  | _ => True

instance (s : EasyState) : (event : FastEvent) → Decidable (ReturnsWorking s event)
  | .requestedCall _ id .repairDone _ => inferInstanceAs
      (Decidable ((id ∈ s.repairMachines ∨ id ∈ s.availableMachines) ∧ ∀ e ∈ s.currentAllocations.entries, id ∉ e.2))
  | .requestedCall _ _ .smtbf _ => isTrue trivial
  | .requestedCall _ _ .mtbf _ => isTrue trivial
  | .requestedCall _ _ .fixedFailure _ => isTrue trivial
  | .requestedCall _ _ .reservationStart _ => isTrue trivial
  | .requestedCall _ _ .checkpointBatsched _ => isTrue trivial
  | .requestedCall _ _ .recoverFromCheckpoint _ => isTrue trivial
  | .machinesAvailable machines => inferInstanceAs (Decidable (machines = ∅))
  | .makeDecisions _ => inferInstanceAs
      (Decidable (∀ e ∈ s.currentAllocations.entries, e.1 ∈ s.jobsEndedRecently → Disjoint e.2 s.repairMachines))
  | .jobSubmitted _ => isTrue trivial
  | .jobCompleted _ => isTrue trivial
  | .jobsKilled _ => isTrue trivial
  | .myKillJob _ => isTrue trivial
  | .noMoreStaticJobToSubmit => isTrue trivial

namespace EasyFast2Aux

variable {c : FastConfig} {s s' : EasyState} {f f' : FastState} {job : Job} {waiting : List Job} {date : ℚ}

/-- What every step keeps. -/
structure Ok (c : FastConfig) (f : FastState) (waiting : List Job) : Prop where
  machines : ∃ holder, Represents c f.toFastMachines holder
  jobs : JobsOk f waiting
  execute : ∀ id machines, Decision.executeJob id machines ∈ f.decision.decisions → Disjoint machines f.repairMachines

theorem Ok.of_eq (h : Ok c f waiting) {waiting' : List Job} (heq : waiting' = waiting) : Ok c f waiting' := heq ▸ h

/-- A shared machine has one job where at most one core may be taken. -/
theorem sharers_eq_one (hone : c.sharePacking → ∀ m < c.nbMachines, c.coreLimit m ≤ 1) {holder : ℕ → Holder}
    (h : Represents c f.toFastMachines holder) {m : ℕ} (hm : holder m = .shared) :
    sharers c f.currentAllocations m = 1 ∧ c.coreLimit m ≤ 1 := by
  have hpos := h.sharers_pos m hm
  obtain ⟨e, _, he⟩ := List.countP_pos_iff.1 hpos
  simp only [decide_eq_true_eq, FastConfig.shares, Bool.and_eq_true] at he
  have hlimit := hone he.1.1 m (h.inRange m (by simp [hm]))
  have hle := h.sharers_le m hm
  rw [max_eq_left hlimit] at hle
  exact ⟨by omega, hlimit⟩

/-- The machines of two jobs are disjoint. -/
theorem disjoint_entries (hone : c.sharePacking → ∀ m < c.nbMachines, c.coreLimit m ≤ 1) {holder : ℕ → Holder}
    (h : Represents c f.toFastMachines holder) {e e' : Job × IntervalSet} (he : e ∈ f.currentAllocations.entries)
    (he' : e' ∈ f.currentAllocations.entries) (hne : e ≠ e') : Disjoint e.2 e'.2 := by
  have hid : e.1.id ≠ e'.1.id := fun heq => hne (KeyedMap.entry_unique he he' heq)
  have hshared : ∀ {x : Job × IntervalSet} {m : ℕ}, x ∈ f.currentAllocations.entries → c.shares x.1 → m ∈ x.2 →
      holder m = .shared := by
    intro x m hx hsh hm
    obtain ⟨y, hy, hh⟩ := h.placed x hx hsh
    rw [hy, Finset.mem_singleton] at hm
    exact hm ▸ hh
  refine Finset.disjoint_left.2 fun m hm hm' => ?_
  by_cases hsh : c.shares e.1 <;> by_cases hsh' : c.shares e'.1
  · -- two jobs on one shared machine are more than one
    have hcount := (sharers_eq_one hone h (hshared he hsh hm)).1
    have herase := sharers_erase (c := c) (show (e.1, e.2) ∈ _ from he) m
    have hpos : 0 < sharers c (f.currentAllocations.erase e.1) m :=
      List.countP_pos_iff.2 ⟨e', KeyedMap.mem_erase.2 ⟨he', hid.symm⟩, by simp [hsh', hm']⟩
    simp only [hsh, hm, and_self, if_true] at herase
    omega
  · cases (hshared he hsh hm).symm.trans ((h.own e' he' hsh' m).1 hm')
  · cases (hshared he' hsh' hm').symm.trans ((h.own e he hsh m).1 hm)
  · exact hid (Holder.own.inj (((h.own e he hsh m).1 hm).symm.trans ((h.own e' he' hsh' m).1 hm')))

/-- What every step keeps is what is meant. -/
theorem neverOversubscribed (hone : c.sharePacking → ∀ m < c.nbMachines, c.coreLimit m ≤ 1)
    (h : Ok c s.toFastState waiting) : NeverOversubscribed s := by
  obtain ⟨holder, hr⟩ := h.machines
  constructor
  case execute => exact h.execute
  case once => exact fun e he e' he' hne => disjoint_entries hone hr he he' hne
  case count => exact hr.count
  case repair => exact Finset.disjoint_left.2 fun m hm => ((hr.available m).1 hm).2.2
  case allocated =>
    intro e he
    refine Finset.disjoint_left.2 fun m hav hm => ?_
    have hfree := ((hr.available m).1 hav).2.1
    by_cases hsh : c.shares e.1
    · obtain ⟨x, hx, hh⟩ := hr.placed e he hsh
      rw [hx, Finset.mem_singleton] at hm
      subst hm
      cases hfree.symm.trans hh
    · cases hfree.symm.trans ((hr.own e he hsh m).1 hm)

/-- A job is executed on machines that are not under repair. -/
theorem fastExecute_ok (hone : c.sharePacking → ∀ m < c.nbMachines, c.coreLimit m ≤ 1) (h : Ok c f (job :: waiting))
    (hx : f.tryExecute c job = .ok (some f')) : ∃ machines, Executed c f job machines f' ∧ Ok c f' waiting := by
  obtain ⟨holder, hr⟩ := h.machines
  obtain ⟨machines, holder', hex, hr', _⟩ := FastState.tryExecute_ok hr (h.jobs.fresh job List.mem_cons_self) hx
  refine ⟨machines, hex, ⟨holder', hr'⟩, h.jobs.executed hex, fun id ms hmem => ?_⟩
  rw [hex.repair]
  rw [hex.decision, SchedulingDecision.decisions_add, List.mem_append, List.mem_singleton] at hmem
  rcases hmem with hmem | hmem
  · exact h.execute id ms hmem
  · obtain ⟨rfl, rfl⟩ := Decision.executeJob.inj hmem
    rcases hex.source with hsub | ⟨m, hcore, _, hcores⟩
    · exact Finset.disjoint_left.2 fun m hm => ((hr.available m).1 (hsub hm)).2.2
    · -- the one core of a shared machine is taken
      have hshared := (hr.core m).1 hcore
      obtain ⟨hcount, hlimit⟩ := sharers_eq_one hone hr hshared
      have := hr.cores m (hr.inRange m (by simp [hshared]))
      omega

/-- What executing a job does to the scheduler's state. -/
theorem tryExecute_ok (hone : c.sharePacking → ∀ m < c.nbMachines, c.coreLimit m ≤ 1)
    (h : Ok c s.toFastState (job :: waiting)) (hx : EasyBFFast2.tryExecute c s job date = .ok (some s')) :
    Ok c s'.toFastState waiting ∧ s'.priorityJob = s.priorityJob ∧ s'.pendingJobs = s.pendingJobs ∧
      s'.jobsReleasedRecently = s.jobsReleasedRecently := by
  rw [EasyBFFast2.tryExecute] at hx
  split at hx
  · rename_i t ht
    cases hx
    obtain ⟨machines, hex, hok⟩ := fastExecute_ok hone h ht
    exact ⟨hok, rfl, hex.pending, hex.released⟩
  · cases hx
  · cases hx

/-- A job becomes the priority job and nothing else changes. -/
theorem setPriorityJob_ok (hx : EasyBFFast2.setPriorityJob c s job = .ok s') :
    s'.toFastState = s.toFastState ∧ s'.priorityJob.map (·.1) = some job := by
  obtain ⟨d, _, rfl⟩ := map_eq_ok.1 hx
  exact ⟨rfl, rfl⟩

/-- A job that ends gives back machines that are not under repair. -/
theorem finishJob_ok (h : Ok c s.toFastState waiting) (hj : s.workload job.id = some job)
    (hrepair : ∀ machines, (job, machines) ∈ s.currentAllocations.entries → Disjoint machines s.repairMachines)
    (hx : EasyBFFast2.finishJob c s job = .ok s') :
    Ok c s'.toFastState waiting ∧ s'.currentAllocations = s.currentAllocations.erase job ∧
      s'.repairMachines = s.repairMachines ∧ s'.workload = s.workload ∧ s'.priorityJob = s.priorityJob ∧
      s'.pendingJobs = s.pendingJobs ∧ s'.jobsReleasedRecently = s.jobsReleasedRecently := by
  obtain ⟨holder, hr⟩ := h.machines
  rw [EasyBFFast2.finishJob] at hx
  rcases h.jobs.entry hj with ⟨machines, hentry⟩ | ⟨hnone, _⟩
  · have hdisj := hrepair machines hentry
    rw [find?_of_entry hentry] at hx
    dsimp only at hx
    split at hx
    · rename_i hshares
      obtain ⟨t, ht, rfl⟩ := map_eq_ok.1 hx
      obtain ⟨m, rfl, _⟩ := hr.placed _ hentry hshares
      obtain ⟨holder', hr', _⟩ :=
        finishOnCore_ok hr hentry hshares (fun _ => Finset.disjoint_singleton_left.1 hdisj) ht
      rw [finishOnCore, find?_of_entry hentry] at ht
      simp only [Option.getD_some, firstMachine?_singleton] at ht
      cases ht
      exact ⟨⟨⟨holder', hr'⟩, h.jobs.finished rfl rfl rfl, h.execute⟩, rfl, rfl, rfl, rfl, rfl, rfl⟩
    · rename_i hshares
      cases hx
      have hr' := represents_giveBack hr hentry hshares
      rw [Finset.sdiff_eq_self_of_disjoint hdisj, hr.sized _ hentry] at hr'
      exact ⟨⟨⟨_, hr'⟩, h.jobs.finished rfl rfl rfl, h.execute⟩, rfl, rfl, rfl, rfl, rfl, rfl⟩
  · rw [hnone] at hx
    cases hx

/-- The jobs that ended give back their machines one after the other. -/
theorem finishJobs_ok {ended : List Job} (h : Ok c s.toFastState waiting) (hj : ∀ job ∈ ended, s.workload job.id = some job)
    (hrepair : ∀ e ∈ s.currentAllocations.entries, e.1 ∈ ended → Disjoint e.2 s.repairMachines)
    (hx : runFrom (EasyBFFast2.finishJob c) s ended = .ok s') :
    Ok c s'.toFastState waiting ∧ s'.priorityJob = s.priorityJob ∧ s'.pendingJobs = s.pendingJobs ∧
      s'.jobsReleasedRecently = s.jobsReleasedRecently := by
  have hrest := runFrom_rest (R := fun t rest =>
      (Ok c t.toFastState waiting ∧ t.priorityJob = s.priorityJob ∧ t.pendingJobs = s.pendingJobs ∧
        t.jobsReleasedRecently = s.jobsReleasedRecently) ∧ (∀ job ∈ rest, t.workload job.id = some job) ∧
      ∀ e ∈ t.currentAllocations.entries, e.1 ∈ rest → Disjoint e.2 t.repairMachines)
    (by
      rintro t job rest t' ⟨⟨hok, hprio, hp, hrel⟩, hknown, hworking⟩ hstep
      obtain ⟨hok', ha, hr, hw, hprio', hp', hrel'⟩ :=
        finishJob_ok hok (hknown job List.mem_cons_self) (fun ms hmem => hworking _ hmem List.mem_cons_self) hstep
      refine ⟨⟨hok', hprio'.trans hprio, hp'.trans hp, hrel'.trans hrel⟩, fun other ho => ?_, fun e he hin => ?_⟩
      · rw [hw]
        exact hknown other (List.mem_cons_of_mem _ ho)
      · rw [ha, KeyedMap.mem_erase] at he
        rw [hr]
        exact hworking e he.1 (List.mem_cons_of_mem _ hin))
    ⟨⟨h, rfl, rfl, rfl⟩, hj, hrepair⟩ hx
  exact hrest.1

/-- The priority job is executed, or does not fit. -/
theorem executePriorityJob_ok (hone : c.sharePacking → ∀ m < c.nbMachines, c.coreLimit m ≤ 1)
    (h : Ok c s.toFastState (job :: waiting)) (hx : EasyBFFast2.executePriorityJob c s job date = .ok (some s')) :
    Ok c s'.toFastState waiting ∧ s'.priorityJob = none ∧ s'.pendingJobs = s.pendingJobs ∧
      s'.jobsReleasedRecently = s.jobsReleasedRecently := by
  obtain ⟨executed, ht, hmap⟩ := map_eq_ok.1 hx
  cases executed with
  | none => cases hmap
  | some t =>
    obtain ⟨hok, _, hp, hrel⟩ := tryExecute_ok hone h ht
    cases hmap
    exact ⟨⟨hok.machines, hok.jobs.congr rfl rfl rfl, hok.execute⟩, rfl, hp, hrel⟩

/-- The loop over the pending jobs after the priority job. -/
theorem executePending_ok (hone : c.sharePacking → ∀ m < c.nbMachines, c.coreLimit m ≤ 1) {rest released : List Job}
    (hp : s.pendingJobs = rest) (hprio : s.priorityJob = none) (h : Ok c s.toFastState (waitingJobs s ++ released))
    (hx : EasyBFFast2.executePending c date s rest = .ok s') :
    Ok c s'.toFastState (waitingJobs s' ++ released) ∧ s'.jobsReleasedRecently = s.jobsReleasedRecently := by
  induction rest generalizing s with
  | nil =>
    cases hx
    exact ⟨h, rfl⟩
  | cons job rest ih =>
    have hwait : waitingJobs s = job :: rest := by
      rw [waitingJobs, hprio, hp]
      rfl
    rw [hwait, List.cons_append] at h
    rw [EasyBFFast2.executePending] at hx
    split at hx
    · rename_i t ht
      obtain ⟨hok, hprio', _, hrel⟩ := tryExecute_ok hone h ht
      have hnone := hprio'.trans hprio
      obtain ⟨hok', hrel'⟩ := ih (s := { t with pendingJobs := rest }) rfl hnone (by
        rw [waitingJobs, hnone]
        exact ⟨hok.machines, hok.jobs.congr rfl rfl rfl, hok.execute⟩) hx
      exact ⟨hok', hrel'.trans hrel⟩
    · obtain ⟨hstate, hnew⟩ := setPriorityJob_ok hx
      rw [hstate, waitingJobs, hnew, hstate]
      exact ⟨⟨h.machines, h.jobs.congr rfl rfl rfl, h.execute⟩, rfl⟩
    · cases hx

/-- The backfill loop. -/
theorem backfill_ok (hone : c.sharePacking → ∀ m < c.nbMachines, c.coreLimit m ≤ 1) {before rest released : List Job}
    (hp : s.pendingJobs = before.reverse ++ rest) (h : Ok c s.toFastState (waitingJobs s ++ released))
    (hx : EasyBFFast2.backfill c date s before rest = .ok s') :
    Ok c s'.toFastState (waitingJobs s' ++ released) ∧ s'.jobsReleasedRecently = s.jobsReleasedRecently := by
  induction rest generalizing s before with
  | nil =>
    cases hx
    exact ⟨h, rfl⟩
  | cons job rest ih =>
    have hnext : s.pendingJobs = (job :: before).reverse ++ rest := by
      rw [hp, List.reverse_cons, List.append_assoc, List.singleton_append]
    rw [EasyBFFast2.backfill] at hx
    split at hx
    · split at hx
      · rename_i t ht
        have hperm : (job :: ((s.priorityJob.map (·.1)).toList ++ (before.reverse ++ rest) ++ released)).Perm
            (waitingJobs s ++ released) := by
          rw [waitingJobs, hp]
          have hmiddle : (((s.priorityJob.map (·.1)).toList ++ before.reverse) ++ job :: (rest ++ released)).Perm
              (job :: (((s.priorityJob.map (·.1)).toList ++ before.reverse) ++ (rest ++ released))) := List.perm_middle
          simpa only [List.append_assoc, List.cons_append] using hmiddle.symm
        obtain ⟨hok, hprio, _, hrel⟩ :=
          tryExecute_ok hone ⟨h.machines, h.jobs.perm hperm, h.execute⟩ ht
        obtain ⟨hok', hrel'⟩ := ih (s := { t with pendingJobs := before.reverse ++ rest }) rfl (by
          rw [waitingJobs, hprio]
          exact ⟨hok.machines, hok.jobs.congr rfl rfl rfl, hok.execute⟩) hx
        exact ⟨hok', hrel'.trans hrel⟩
      · exact ih hnext h hx
      · cases hx
    · exact ih hnext h hx

/-- What is executed when jobs have ended. -/
theorem handleEndedJobExecution_ok (hone : c.sharePacking → ∀ m < c.nbMachines, c.coreLimit m ≤ 1) (released : List Job)
    {jobEnded : Bool} (h : Ok c s.toFastState (waitingJobs s ++ released))
    (hx : EasyBFFast2.handleEndedJobExecution c s jobEnded date = .ok s') :
    Ok c s'.toFastState (waitingJobs s' ++ released) ∧ s'.jobsReleasedRecently = s.jobsReleasedRecently := by
  rw [EasyBFFast2.handleEndedJobExecution] at hx
  split at hx
  · cases hx
    exact ⟨h, rfl⟩
  · rename_i job d hprio
    have hprio' : s.priorityJob = some (job, d) := by
      split at hprio
      · exact hprio
      · cases hprio
    split at hx
    · rename_i t ht
      have hwait : waitingJobs s ++ released = job :: (s.pendingJobs ++ released) := by
        rw [waitingJobs, hprio']
        rfl
      rw [hwait] at h
      obtain ⟨hok, hnone, hp, hrel⟩ := executePriorityJob_ok hone h ht
      split at hx
      · rename_i u hu
        have hwait' : waitingJobs t = s.pendingJobs := by
          rw [waitingJobs, hnone, hp]
          rfl
        obtain ⟨hok', hrel'⟩ := executePending_ok hone rfl hnone (by rw [hwait']; exact hok) hu
        obtain ⟨hok'', hrel''⟩ := backfill_ok hone rfl hok' hx
        exact ⟨hok'', hrel''.trans (hrel'.trans hrel)⟩
      · cases hx
    · exact backfill_ok hone rfl h hx
    · cases hx

/-- A released job that is not executed waits. -/
theorem enqueue_ok {released : List Job} (h : Ok c s.toFastState (job :: (waitingJobs s ++ released)))
    (hx : EasyBFFast2.enqueue c s job = .ok s') : Ok c s'.toFastState (waitingJobs s' ++ released) := by
  rw [EasyBFFast2.enqueue] at hx
  split at hx
  · rename_i hprio
    obtain ⟨hstate, hnew⟩ := setPriorityJob_ok hx
    rw [waitingJobs, hprio] at h
    rw [hstate, waitingJobs, hnew, hstate]
    exact h
  · rename_i p hprio
    split at hx
    · cases hx
      refine ⟨h.machines, (h.jobs.perm ?_).congr rfl rfl rfl, h.execute⟩
      simp only [waitingJobs, hprio]
      exact List.Perm.swap _ _ _
    · cases hx
      refine ⟨h.machines, (h.jobs.perm ?_).congr rfl rfl rfl, h.execute⟩
      simp only [waitingJobs, ← List.append_assoc]
      rw [← List.cons_append]
      exact (List.perm_append_singleton _ _).append_right _

/-- A released job is executed, rejected, or waits. -/
theorem releaseJob_ok (hone : c.sharePacking → ∀ m < c.nbMachines, c.coreLimit m ≤ 1) {released : List Job}
    (h : Ok c s.toFastState (waitingJobs s ++ job :: released)) (hx : EasyBFFast2.releaseJob c date s job = .ok s') :
    Ok c s'.toFastState (waitingJobs s' ++ released) := by
  have h' : Ok c s.toFastState (job :: (waitingJobs s ++ released)) :=
    ⟨h.machines, h.jobs.perm List.perm_middle.symm, h.execute⟩
  rw [EasyBFFast2.releaseJob] at hx
  split at hx
  · cases hx
    refine ⟨h.machines, h'.jobs.drop.congr rfl rfl rfl, fun id ms hmem => ?_⟩
    rw [SchedulingDecision.decisions_add, List.mem_append, List.mem_singleton] at hmem
    rcases hmem with hmem | hmem
    · exact h.execute id ms hmem
    · cases hmem
  · split at hx
    · split at hx
      · rename_i t ht
        cases hx
        obtain ⟨hok, hprio, hp, _⟩ := tryExecute_ok hone h' ht
        rw [waitingJobs, hprio, hp]
        exact hok
      · exact enqueue_ok h' hx
      · cases hx
    · exact enqueue_ok h' hx

/-- Sending the jobs to kill executes nothing. -/
theorem handleNewJobsToKill_ok (h : Ok c f waiting) :
    Ok c { f.handleNewJobsToKill with
      decision := f.handleNewJobsToKill.decision.handleResubmission f.handleNewJobsToKill.jobsKilledRecently } waiting := by
  have hkill : Ok c f.handleNewJobsToKill waiting := by
    rw [handleNewJobsToKill]
    split
    · refine ⟨h.machines, h.jobs.congr rfl rfl rfl, fun id ms hmem => ?_⟩
      rw [SchedulingDecision.decisions_add, List.mem_append, List.mem_singleton] at hmem
      rcases hmem with hmem | hmem
      · exact h.execute id ms hmem
      · cases hmem
    · exact h
  refine ⟨hkill.machines, hkill.jobs.congr rfl rfl rfl, fun id ms hmem => ?_⟩
  rw [SchedulingDecision.decisions_handleResubmission, List.mem_append] at hmem
  rcases hmem with hmem | hmem
  · exact hkill.execute id ms hmem
  · obtain ⟨_, _, hbad⟩ := List.mem_map.1 hmem
    cases hbad

/-- A pass over the messages received. -/
theorem makeDecisions_ok (hone : c.sharePacking → ∀ m < c.nbMachines, c.coreLimit m ≤ 1)
    (h : Ok c s.toFastState (waitingJobs s ++ s.jobsReleasedRecently))
    (hworking : ∀ e ∈ s.currentAllocations.entries, e.1 ∈ s.jobsEndedRecently → Disjoint e.2 s.repairMachines)
    (hx : EasyBFFast2.makeDecisions c s date = .ok s') : Ok c s'.toFastState (waitingJobs s') := by
  rw [EasyBFFast2.makeDecisions] at hx
  split at hx
  · rename_i t ht
    obtain ⟨u, hu, rfl⟩ := map_eq_ok.1 hx
    rw [EasyBFFast2.endAndExecute] at ht
    split at ht
    · rename_i v hv
      obtain ⟨hok, hprio, hp, hrel⟩ := finishJobs_ok h h.jobs.ended hworking hv
      have hkept : v.toFastState.handleNewJobsToKill.pendingJobs = v.pendingJobs ∧
          v.toFastState.handleNewJobsToKill.jobsReleasedRecently = v.jobsReleasedRecently := by
        rw [handleNewJobsToKill]
        split <;> exact ⟨rfl, rfl⟩
      have hwait : ∀ g : FastState, g.pendingJobs = s.pendingJobs → waitingJobs { v with toFastState := g } = waitingJobs s := by
        intro g hg
        simp only [waitingJobs, hprio, hg]
      obtain ⟨hok', hrel'⟩ := handleEndedJobExecution_ok hone s.jobsReleasedRecently
        ((handleNewJobsToKill_ok hok).of_eq (congrArg (· ++ s.jobsReleasedRecently) (hwait _ (hkept.1.trans hp)))) ht
      have hreleased : t.jobsReleasedRecently = s.jobsReleasedRecently := hrel'.trans (hkept.2.trans hrel)
      rw [hreleased] at hu
      have hfinal := runFrom_rest (R := fun t rest => Ok c t.toFastState (waitingJobs t ++ rest))
        (fun _ _ _ _ hok hstep => releaseJob_ok hone hok hstep) hok' hu
      rw [List.append_nil] at hfinal
      dsimp only
      rw [sendFinishedSubmittingJobs]
      split
      · refine ⟨hfinal.machines, hfinal.jobs.congr rfl rfl rfl, fun id ms hmem => ?_⟩
        rw [SchedulingDecision.decisions_add, List.mem_append, List.mem_singleton] at hmem
        rcases hmem with hmem | hmem
        · exact hfinal.execute id ms hmem
        · cases hmem
      · exact hfinal
    · cases ht
  · cases hx

/-- A requested call executes nothing. -/
theorem onRequestedCall_execute (c : FastConfig) {f : FastState} (hf : f.decision.decisions = []) (date : ℚ) (id : ℕ)
    (draws : Draws) (forWhat : CallMeLaterType) (job : String) (machines : IntervalSet) :
    Decision.executeJob job machines ∉ (f.onRequestedCall c date id draws forWhat).decision.decisions := by
  intro hmem
  rcases onRequestedCall_decisions c f date id draws forWhat hmem with hmem | ⟨_, _, _, hbad⟩
  · simp [hf] at hmem
  · cases hbad

/-- A requested call keeps one holder for each machine. -/
theorem onRequestedCall_represents {holder : ℕ → Holder} (hr : Represents c f.toFastMachines holder) {date : ℚ} {id : ℕ}
    {forWhat : CallMeLaterType} {draws : Draws} (hdraw : draws.number < c.nbMachines)
    (hdone : forWhat = .repairDone → id < c.nbMachines ∧ holder id = .free) :
    Represents c (f.onRequestedCall c date id draws forWhat).toFastMachines holder := by
  have hfailure : Represents c (f.onFailure c date draws).toFastMachines holder := by
    rw [onFailure]
    split
    · rw [onMachineInstantDownUp]
      split <;> exact hr
    · exact represents_onMachineDownForRepair hr hdraw _ _
  cases forWhat with
  | smtbf =>
    rw [onRequestedCall]
    split
    · exact hfailure
    · exact hr
  | fixedFailure =>
    rw [onRequestedCall]
    split
    · exact hfailure
    · exact hr
  | mtbf =>
    simp only [onRequestedCall, onMyKillJobNotifyEvent]
    split_ifs <;> exact hr
  | repairDone =>
    obtain ⟨hrange, hfree⟩ := hdone rfl
    exact represents_onRepairDone hr hrange hfree
  | reservationStart => exact hr
  | checkpointBatsched => exact hr
  | recoverFromCheckpoint => exact hr

/-- A step that returns working machines only. -/
theorem step_ok (hone : c.sharePacking → ∀ m < c.nbMachines, c.coreLimit m ≤ 1) {event : FastEvent}
    (h : Ok c s.toFastState (waitingJobs s ++ s.jobsReleasedRecently)) (hdraw : event.DrawsMachine c)
    (hworking : ReturnsWorking s event) (hx : EasyBFFast2.step c s event = .ok s') :
    Ok c s'.toFastState (waitingJobs s' ++ s'.jobsReleasedRecently) := by
  have hclear : Ok c { s.toFastState with decision := s.decision.clear } (waitingJobs s ++ s.jobsReleasedRecently) :=
    ⟨h.machines, h.jobs.congr rfl rfl rfl, fun id ms hmem => by simp at hmem⟩
  cases event with
  | makeDecisions date =>
    obtain ⟨t, ht, rfl⟩ := map_eq_ok.1 hx
    have hok := makeDecisions_ok (s := { s with decision := s.decision.clear }) hone hclear hworking ht
    refine ⟨hok.machines, ?_, hok.execute⟩
    simp only [clearRecentDataStructures, List.append_nil]
    exact { hok.jobs with ended := by simp }
  | jobSubmitted job =>
    obtain ⟨t, ht, rfl⟩ := step_handler (by simp) hx
    change onJobSubmitted _ job = .ok t at ht
    have hjobs := hclear.jobs.submitted ht
    rw [onJobSubmitted] at ht
    split at ht
    · cases ht
    · cases ht
      refine ⟨h.machines, hjobs.perm ?_, hclear.execute⟩
      simp only [waitingJobs, ← List.append_assoc]
      exact List.perm_append_singleton _ _
  | jobCompleted id =>
    obtain ⟨t, ht, rfl⟩ := step_handler (by simp) hx
    change onJobCompleted _ id = .ok t at ht
    have hjobs := hclear.jobs.completed ht
    rw [onJobCompleted] at ht
    split at ht
    · cases ht
      exact ⟨h.machines, hjobs, hclear.execute⟩
    · cases ht
  | jobsKilled ids =>
    obtain ⟨t, ht, rfl⟩ := step_handler (by simp) hx
    cases ht
    exact ⟨h.machines, h.jobs.congr rfl rfl rfl, hclear.execute⟩
  | requestedCall date id forWhat draws =>
    obtain ⟨t, ht, rfl⟩ := step_handler (by simp) hx
    cases ht
    obtain ⟨holder, hr⟩ := hclear.machines
    have hsame := onRequestedCall_sameJobs c { s.toFastState with decision := s.decision.clear } date id draws forWhat
    refine ⟨⟨holder, onRequestedCall_represents hr hdraw ?_⟩, ?_, fun job ms hmem => ?_⟩
    · rintro rfl
      exact free_of_unheld hr hworking.1 hworking.2
    · simp only [waitingJobs]
      rw [hsame.pending, hsame.released]
      exact h.jobs.congr hsame.workload hsame.ended hsame.allocations
    · exact absurd hmem (onRequestedCall_execute c rfl date id draws forWhat job ms)
  | machinesAvailable machines =>
    obtain ⟨t, ht, rfl⟩ := step_handler (by simp) hx
    cases ht
    obtain rfl : machines = ∅ := hworking
    refine ⟨?_, h.jobs.congr rfl rfl rfl, hclear.execute⟩
    simpa [onMachineAvailableNotifyEvent] using h.machines
  | myKillJob victim =>
    obtain ⟨t, ht, rfl⟩ := step_handler (by simp) hx
    cases ht
    rw [onMyKillJobNotifyEvent]
    split <;> exact ⟨h.machines, h.jobs.congr rfl rfl rfl, hclear.execute⟩
  | noMoreStaticJobToSubmit =>
    obtain ⟨t, ht, rfl⟩ := step_handler (by simp) hx
    cases ht
    exact ⟨h.machines, h.jobs.congr rfl rfl rfl, hclear.execute⟩

end EasyFast2Aux

open EasyFast2Aux in
/-- In every run in which no two jobs may share a machine and every step returns only machines that work and that no job holds,
no machine is oversubscribed in any state reached. -/
theorem never_oversubscribed (c : FastConfig) (date failure : ℚ) (events : List FastEvent)
    (hone : c.sharePacking → ∀ m < c.nbMachines, c.coreLimit m ≤ 1) (hdraws : ∀ event ∈ events, event.DrawsMachine c)
    (hworking : AllSteps (EasyBFFast2.step c) ReturnsWorking (EasyBFFast2.new c date failure) events) :
    Always (EasyBFFast2.step c) NeverOversubscribed (EasyBFFast2.new c date failure) events := by
  refine always_of_invariant (I := fun s => Ok c s.toFastState (waitingJobs s ++ s.jobsReleasedRecently))
    (fun s event s' h hc hx => step_ok hone h hc.2 hc.1 hx) (fun s h => neverOversubscribed hone h)
    ⟨⟨_, represents_new c date failure⟩, ?_, ?_⟩ (hworking.and (allSteps_of_forall hdraws))
  · exact ⟨by simp [EasyBFFast2.new, FastState.new], by simp [EasyBFFast2.new, FastState.new],
      by simp [EasyBFFast2.new, FastState.new], by simp [EasyBFFast2.new, FastState.new, waitingJobs],
      by simp [EasyBFFast2.new, FastState.new, waitingJobs], by simp [EasyBFFast2.new, FastState.new, waitingJobs]⟩
  · intro id machines hmem
    simp only [EasyBFFast2.new, FastState.new, FastConfig.setGenerators, SchedulingDecision.addCallMeLater] at hmem
    split_ifs at hmem <;> simp at hmem

namespace EasyBfFast2Witness

/-- Two machines, a failure every five seconds, a repair of a hundred. -/
def config : FastConfig where
  nbMachines := 2
  fixedFailures := 5
  repairTime := 100

/-- A job of one machine. -/
def job (id : String) : Job := { id := id, nbRequestedResources := 1, walltime := 50 }

/-- A job runs on machine 0, the given machine fails after five seconds, the job ends and another one is submitted. -/
def events (number : ℕ) : List FastEvent :=
  [.jobSubmitted (job "w!1"), .makeDecisions 0,
    .requestedCall 5 0 .fixedFailure { number := number, failure := 0, repair := 0, victim := "" },
    .makeDecisions 5, .jobCompleted "w!1", .jobSubmitted (job "w!2"), .makeDecisions 6]

theorem events_draw {number : ℕ} (h : number < 2) : ∀ event ∈ events number, event.DrawsMachine config := by
  simp [events, FastEvent.DrawsMachine, config]
  omega

end EasyBfFast2Witness

open EasyBfFast2Witness in
/-- The run in which the other machine fails goes through and oversubscribes nothing. -/
theorem never_oversubscribed_witness :
    abortOf (runFrom (EasyBFFast2.step config) (EasyBFFast2.new config 0 0) (events 1)) = none ∧
      Always (EasyBFFast2.step config) NeverOversubscribed (EasyBFFast2.new config 0 0) (events 1) :=
  ⟨by decide +kernel,
    never_oversubscribed config 0 0 (events 1) (by decide) (events_draw (by decide)) (by decide +kernel)⟩

open EasyBfFast2Witness in
/-- When the machine of a job fails, the end of the job makes the machine available while it is under repair, and the next job is
executed on it. -/
theorem never_oversubscribed_false :
    ¬ ∀ (c : FastConfig) (date failure : ℚ) (events : List FastEvent),
      c.sharePacking = false → (∀ event ∈ events, event.DrawsMachine c) →
      Always (EasyBFFast2.step c) NeverOversubscribed (EasyBFFast2.new c date failure) events := by
  intro h
  have halways := h config 0 0 (events 0) rfl (events_draw (by decide))
  have hend : (runFrom (EasyBFFast2.step config) (EasyBFFast2.new config 0 0) (events 0)).toOption.map
      (fun s => decide (Decision.executeJob "w!2" {0} ∈ s.decision.decisions ∧ 0 ∈ s.repairMachines)) = some true := by
    decide +kernel
  obtain ⟨s, hs, hboth⟩ := toOption_map_eq_some.1 hend
  obtain ⟨hexecute, hr⟩ := of_decide_eq_true hboth
  exact Finset.disjoint_left.1 ((halways.last hs).execute _ _ hexecute) (Finset.mem_singleton_self 0) hr

end ScheduleTest
