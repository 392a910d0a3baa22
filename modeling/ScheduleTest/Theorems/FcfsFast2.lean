import ScheduleTest.FcfsFast2
import ScheduleTest.Lemmas.FastJobs

/-!
# The machines of fcfs_fast2

Every machine is meant to be used for exactly one thing at a time: it is available, or shared by one-resource jobs, or held by
one job, or under repair. A failure puts the machine under repair whatever it is used for; the jobs on it keep it until the
simulator has killed them, and a shared machine stays in the set of the shared ones. When the last of its jobs ends it is put
back among the available machines although it is under repair, since that branch, unlike the one for the jobs that do not share,
does not subtract the unavailable machines. The accounting is right in every state of a run exactly when each machine that fails
or comes back is free at that moment.
-/

namespace ScheduleTest

open Execution FastState FastMachines

/-- What a machine may be used for. -/
inductive MachineUse where
  | available
  | shared
  | allocated (id : String)
  | underRepair
  deriving DecidableEq

/-- What the scheduler uses a machine for, as its sets and its table say. -/
def UsedFor (c : FastConfig) (s : FastState) (m : ℕ) : MachineUse → Prop
  | .available => m ∈ s.availableMachines
  | .shared => m ∈ s.availableCoreMachines
  | .allocated id => ∃ e ∈ s.currentAllocations.entries, e.1.id = id ∧ ¬ c.shares e.1 ∧ m ∈ e.2
  | .underRepair => m ∈ s.repairMachines

/-- The accounting of the machines is right. -/
structure MachinesAccounted (c : FastConfig) (s : FastState) : Prop where
  /-- Every machine is used for exactly one thing. -/
  use : ∀ m < c.nbMachines, ∃! u, UsedFor c s m u
  /-- Only machines that exist are used. -/
  exist : ∀ m u, UsedFor c s m u → m < c.nbMachines
  count : s.nbAvailableMachines = s.availableMachines.card
  /-- A job that shares is on a shared machine. -/
  placed : ∀ e ∈ s.currentAllocations.entries, c.shares e.1 → ∃ m ∈ s.availableCoreMachines, e.2 = {m}
  /-- The cores taken on a shared machine are as many as the jobs on it. -/
  occupancy : ∀ m ∈ s.availableCoreMachines, c.coreLimit m - s.coresAvailable m = sharers c s.currentAllocations m
  limit : ∀ m ∈ s.availableCoreMachines, (sharers c s.currentAllocations m : ℤ) ≤ c.coreLimit m

/-- A machine that is neither held nor shared. -/
def Idle (s : FastState) (m : ℕ) : Prop := m ∈ s.availableMachines ∨ m ∈ s.repairMachines

/-- The machine that a failure takes down is idle; the machine whose repair is reported done is idle; and no machines are
reported available from outside. -/
def KeepsAccounting (c : FastConfig) (s : FastState) : FastEvent → Prop
  | .requestedCall _ id forWhat draws =>
    match forWhat with
    | .repairDone => Idle s id
    | .smtbf => s.stillWorking → c.repairTime ≠ 0 → Idle s draws.number
    | .fixedFailure => s.stillWorking → c.repairTime ≠ 0 → Idle s draws.number
    | _ => True
  | .machinesAvailable machines => machines = ∅
  | _ => True

namespace FcfsAux

variable {c : FastConfig} {s s' : FastState} {job : Job} {waiting : List Job}

/-- Each machine has one holder, and those under repair have none. -/
def HeldOnce (c : FastConfig) (s : FastMachines) : Prop :=
  ∃ holder, Represents c s holder ∧ ∀ m ∈ s.repairMachines, holder m = .free

/-- What every step keeps. -/
structure Ok (c : FastConfig) (s : FastState) (waiting : List Job) : Prop where
  machines : HeldOnce c s.toFastMachines
  jobs : JobsOk s waiting

/-- Where each machine has one holder and none is both held and under repair, the accounting is right. -/
theorem accounted (hlimit : c.sharePacking → ∀ m < c.nbMachines, 1 ≤ c.coreLimit m) (h : HeldOnce c s.toFastMachines) :
    MachinesAccounted c s := by
  obtain ⟨holder, h, hidle⟩ := h
  have hshared : ∀ m ∈ s.availableCoreMachines, m < c.nbMachines ∧ c.sharePacking := by
    intro m hm
    have hh := (h.core m).1 hm
    obtain ⟨e, _, he⟩ := List.countP_pos_iff.1 (h.sharers_pos m hh)
    simp only [decide_eq_true_eq, FastConfig.shares, Bool.and_eq_true] at he
    exact ⟨h.inRange m (by simp [hh]), he.1.1⟩
  have hallocated : ∀ m id, UsedFor c s m (.allocated id) ↔ holder m = .own id := by
    intro m id
    constructor
    · rintro ⟨e, he, rfl, hne, hm⟩
      exact (h.own e he hne m).1 hm
    · intro hm
      obtain ⟨e, he, rfl, hne⟩ := h.owned m id hm
      exact ⟨e, he, rfl, hne, (h.own e he hne m).2 hm⟩
  constructor
  case use =>
    intro m hm
    have hav := h.available m
    have hcore := h.core m
    by_cases hr : m ∈ s.repairMachines
    · refine ⟨.underRepair, hr, fun u hu => ?_⟩
      have hfree := hidle m hr
      cases u with
      | available => exact absurd hr (hav.1 hu).2.2
      | shared => cases hfree.symm.trans (hcore.1 hu)
      | allocated id => cases hfree.symm.trans ((hallocated m id).1 hu)
      | underRepair => rfl
    · cases hh : holder m with
      | free =>
        refine ⟨.available, hav.2 ⟨hm, hh, hr⟩, fun u hu => ?_⟩
        cases u with
        | available => rfl
        | shared => cases hh.symm.trans (hcore.1 hu)
        | allocated id => cases hh.symm.trans ((hallocated m id).1 hu)
        | underRepair => exact absurd hu hr
      | shared =>
        refine ⟨.shared, hcore.2 hh, fun u hu => ?_⟩
        cases u with
        | available => cases hh.symm.trans (hav.1 hu).2.1
        | shared => rfl
        | allocated id => cases hh.symm.trans ((hallocated m id).1 hu)
        | underRepair => exact absurd hu hr
      | own id =>
        refine ⟨.allocated id, (hallocated m id).2 hh, fun u hu => ?_⟩
        cases u with
        | available => cases hh.symm.trans (hav.1 hu).2.1
        | shared => cases hh.symm.trans (hcore.1 hu)
        | allocated id' => rw [Holder.own.inj (hh.symm.trans ((hallocated m id').1 hu))]
        | underRepair => exact absurd hu hr
  case exist =>
    intro m u hu
    cases u with
    | available => exact ((h.available m).1 hu).1
    | shared => exact (hshared m hu).1
    | allocated id => exact h.inRange m (by simp [(hallocated m id).1 hu])
    | underRepair => exact h.repair m hu
  case count => exact h.count
  case placed =>
    intro e he hsh
    obtain ⟨m, hm, hh⟩ := h.placed e he hsh
    exact ⟨m, (h.core m).2 hh, hm⟩
  case occupancy =>
    intro m hm
    rw [h.cores m (hshared m hm).1]
    omega
  case limit =>
    intro m hm
    have hle := h.sharers_le m ((h.core m).1 hm)
    rwa [max_eq_right (hlimit (hshared m hm).2 m (hshared m hm).1)] at hle

/-- A job that is executed takes machines that are not under repair. -/
theorem tryExecute_ok (h : Ok c s (job :: waiting)) (hx : s.tryExecute c job = .ok (some s')) :
    ∃ machines, Executed c s job machines s' ∧ Ok c s' waiting := by
  obtain ⟨holder, hr, hidle⟩ := h.machines
  obtain ⟨machines, holder', hex, hr', hchange⟩ := FastState.tryExecute_ok hr (h.jobs.fresh job List.mem_cons_self) hx
  refine ⟨machines, hex, ⟨holder', hr', fun m hm => ?_⟩, h.jobs.executed hex⟩
  rw [hex.repair] at hm
  rcases hchange m with heq | hav
  · exact heq.trans (hidle m hm)
  · exact absurd hm ((hr.available m).1 hav).2.2

/-- A job that ends gives back its machines. -/
theorem finishJob_ok (h : Ok c s waiting) (hj : s.workload job.id = some job) (hx : FCFSFast2.finishJob c s job = .ok s') :
    Ok c s' waiting ∧ s'.workload = s.workload ∧ s'.pendingJobs = s.pendingJobs ∧
      s'.jobsReleasedRecently = s.jobsReleasedRecently := by
  obtain ⟨holder, hr, hidle⟩ := h.machines
  rw [FCFSFast2.finishJob] at hx
  split at hx
  · rename_i hshares
    rcases h.jobs.entry hj with ⟨machines, hentry⟩ | ⟨hnone, _⟩
    · obtain ⟨m, rfl, hh⟩ := hr.placed _ hentry hshares
      have hrepair : m ∉ s.repairMachines := fun hm => nomatch hh.symm.trans (hidle m hm)
      obtain ⟨holder', hr', hchange⟩ := finishOnCore_ok hr hentry hshares (fun _ => hrepair) hx
      rw [finishOnCore, find?_of_entry hentry] at hx
      simp only [Option.getD_some, firstMachine?_singleton] at hx
      cases hx
      refine ⟨⟨⟨holder', hr', fun x hx => ?_⟩, h.jobs.finished rfl rfl rfl⟩, rfl, rfl, rfl⟩
      rcases hchange x with heq | heq
      · exact heq.trans (hidle x hx)
      · exact heq
    · simp [finishOnCore, hnone, firstMachine?] at hx
  · rename_i hshares
    cases hx
    rcases h.jobs.entry hj with ⟨machines, hentry⟩ | ⟨hnone, herase⟩
    · have hr' := represents_giveBack hr hentry hshares
      have hdisj : s.availableMachines ∪ machines \ s.repairMachines =
          (s.availableMachines ∪ machines \ s.repairMachines) \ s.repairMachines := by
        ext m
        have := hr.available m
        simp only [Finset.mem_sdiff, Finset.mem_union]
        tauto
      rw [hdisj] at hr'
      refine ⟨⟨⟨fun m => if m ∈ machines then .free else holder m, ?_, fun m hm => ?_⟩, h.jobs.finished rfl rfl rfl⟩,
        rfl, rfl, rfl⟩
      · simpa only [find?_of_entry hentry, Option.getD_some, hr.unavailable] using hr'
      · dsimp only
        split
        · rfl
        · exact hidle m hm
    · refine ⟨⟨⟨holder, ?_, hidle⟩, h.jobs.finished rfl rfl rfl⟩, rfl, rfl, rfl⟩
      have hdisj : s.availableMachines \ s.unavailableMachines = s.availableMachines := by
        refine Finset.sdiff_eq_self_of_disjoint (Finset.disjoint_left.2 fun m hm => ?_)
        rw [hr.unavailable]
        exact ((hr.available m).1 hm).2.2
      simpa [hnone, herase, hdisj] using hr

/-- The jobs that ended give back their machines one after the other. -/
theorem finishJobs_ok {ended : List Job} (h : Ok c s waiting) (hj : ∀ job ∈ ended, s.workload job.id = some job)
    (hx : runFrom (FCFSFast2.finishJob c) s ended = .ok s') :
    Ok c s' waiting ∧ s'.pendingJobs = s.pendingJobs ∧ s'.jobsReleasedRecently = s.jobsReleasedRecently := by
  have hrest := runFrom_rest (R := fun t rest => (Ok c t waiting ∧ t.pendingJobs = s.pendingJobs ∧
      t.jobsReleasedRecently = s.jobsReleasedRecently) ∧ ∀ job ∈ rest, t.workload job.id = some job)
    (by
      rintro t job rest t' ⟨⟨hok, hp, hrel⟩, hknown⟩ hstep
      obtain ⟨hok', hw, hp', hrel'⟩ := finishJob_ok hok (hknown job List.mem_cons_self) hstep
      refine ⟨⟨hok', hp'.trans hp, hrel'.trans hrel⟩, fun other ho => ?_⟩
      rw [hw]
      exact hknown other (List.mem_cons_of_mem _ ho))
    ⟨⟨h, rfl, rfl⟩, hj⟩ hx
  exact hrest.1

/-- The loop over the pending jobs executes some of them. -/
theorem executePending_ok {before rest released : List Job} (hp : s.pendingJobs = before.reverse ++ rest)
    (h : Ok c s (s.pendingJobs ++ released)) (hx : FCFSFast2.executePending c s before rest = .ok s') :
    Ok c s' (s'.pendingJobs ++ released) ∧ s'.jobsReleasedRecently = s.jobsReleasedRecently := by
  induction rest generalizing s before with
  | nil =>
    cases hx
    exact ⟨h, rfl⟩
  | cons job rest ih =>
    rw [FCFSFast2.executePending] at hx
    split at hx
    · rename_i t ht
      have hperm : (job :: (before.reverse ++ rest ++ released)).Perm (s.pendingJobs ++ released) := by
        rw [hp, List.append_assoc, List.append_assoc]
        exact List.perm_middle.symm
      obtain ⟨machines, hex, hok⟩ := tryExecute_ok ⟨h.machines, h.jobs.perm hperm⟩ ht
      obtain ⟨hok', hrel⟩ := ih (s := { t with pendingJobs := before.reverse ++ rest }) rfl
        ⟨hok.machines, hok.jobs.congr rfl rfl rfl⟩ hx
      exact ⟨hok', hrel.trans hex.released⟩
    · split at hx
      · refine ih ?_ h hx
        rw [hp, List.reverse_cons, List.append_assoc, List.singleton_append]
      · cases hx
        exact ⟨h, rfl⟩
    · nomatch hx

/-- A released job is executed, rejected, or waits. -/
theorem releaseJob_ok {released : List Job} (h : Ok c s (s.pendingJobs ++ job :: released))
    (hx : FCFSFast2.releaseJob c s job = .ok s') : Ok c s' (s'.pendingJobs ++ released) := by
  have hperm : (job :: (s.pendingJobs ++ released)).Perm (s.pendingJobs ++ job :: released) := List.perm_middle.symm
  rw [FCFSFast2.releaseJob] at hx
  split at hx
  · cases hx
    exact ⟨h.machines, ((h.jobs.perm hperm).drop).congr rfl rfl rfl⟩
  · split at hx
    · rename_i hempty
      have hnil : s.pendingJobs = [] := List.isEmpty_iff.1 hempty
      split at hx
      · rename_i t ht
        cases hx
        obtain ⟨machines, hex, hok⟩ := tryExecute_ok ⟨h.machines, h.jobs.perm hperm⟩ ht
        rw [hex.pending]
        exact hok
      · cases hx
        rw [hnil] at h
        exact ⟨h.machines, h.jobs.congr rfl rfl rfl⟩
      · nomatch hx
    · split at hx
      · cases hx
        exact ⟨h.machines, (h.jobs.perm hperm).congr rfl rfl rfl⟩
      · cases hx
        refine ⟨h.machines, JobsOk.congr ?_ rfl rfl rfl (s := s)⟩
        simpa [List.append_assoc] using h.jobs

/-- The loop over the released jobs. -/
theorem releaseJobs_ok {released : List Job} (h : Ok c s (s.pendingJobs ++ released))
    (hx : runFrom (FCFSFast2.releaseJob c) s released = .ok s') : Ok c s' s'.pendingJobs := by
  have hrest := runFrom_rest (R := fun t rest => Ok c t (t.pendingJobs ++ rest))
    (fun _ _ _ _ hok hstep => releaseJob_ok hok hstep) h hx
  rwa [List.append_nil] at hrest

/-- The pending jobs are gone through at most twice. -/
theorem executeWaiting_ok (released : List Job) {jobEnded : Bool} (h : Ok c s (s.pendingJobs ++ released))
    (hx : FCFSFast2.executeWaiting c jobEnded s = .ok s') :
    Ok c s' (s'.pendingJobs ++ released) ∧ s'.jobsReleasedRecently = s.jobsReleasedRecently := by
  rw [FCFSFast2.executeWaiting] at hx
  split at hx
  · rename_i t ht
    have hfirst : Ok c t (t.pendingJobs ++ released) ∧ t.jobsReleasedRecently = s.jobsReleasedRecently := by
      split at ht
      · exact executePending_ok rfl h ht
      · cases ht
        exact ⟨h, rfl⟩
    split at hx
    · obtain ⟨hok, hrel⟩ := executePending_ok rfl hfirst.1 hx
      exact ⟨hok, hrel.trans hfirst.2⟩
    · cases hx
      exact hfirst
  · nomatch hx

/-- A pass over the messages received keeps one holder for each machine. -/
theorem makeDecisions_ok {date : ℚ} (h : Ok c s (s.pendingJobs ++ s.jobsReleasedRecently))
    (hx : FCFSFast2.makeDecisions c s date = .ok s') : Ok c s' s'.pendingJobs := by
  rw [FCFSFast2.makeDecisions] at hx
  split at hx
  · rename_i t ht
    obtain ⟨u, hu, rfl⟩ := map_eq_ok.1 hx
    rw [FCFSFast2.endAndExecute] at ht
    split at ht
    · rename_i v hv
      obtain ⟨hok, hp, hrel⟩ := finishJobs_ok h h.jobs.ended hv
      have hkill : v.handleNewJobsToKill.toFastMachines = v.toFastMachines ∧
          v.handleNewJobsToKill.workload = v.workload ∧
          v.handleNewJobsToKill.jobsEndedRecently = v.jobsEndedRecently ∧
          v.handleNewJobsToKill.pendingJobs = v.pendingJobs ∧
          v.handleNewJobsToKill.jobsReleasedRecently = v.jobsReleasedRecently := by
        rw [handleNewJobsToKill]
        split <;> exact ⟨rfl, rfl, rfl, rfl, rfl⟩
      obtain ⟨hok', hrel'⟩ := executeWaiting_ok s.jobsReleasedRecently (by
        refine ⟨?_, ?_⟩
        · exact hkill.1 ▸ hok.machines
        · dsimp only
          rw [hkill.2.2.2.1, hp]
          exact hok.jobs.congr hkill.2.1 hkill.2.2.1 (congrArg (·.currentAllocations) hkill.1)) ht
      have hreleased : t.jobsReleasedRecently = s.jobsReleasedRecently := hrel'.trans (hkill.2.2.2.2.trans hrel)
      rw [hreleased] at hu
      have hfinal := releaseJobs_ok hok' hu
      rw [sendFinishedSubmittingJobs]
      split
      · exact ⟨hfinal.machines, hfinal.jobs.congr rfl rfl rfl⟩
      · exact hfinal
    · nomatch ht
  · nomatch hx

/-- An idle machine has no holder. -/
theorem free_of_idle {holder : ℕ → Holder} (hr : Represents c s.toFastMachines holder)
    (hidle : ∀ m ∈ s.repairMachines, holder m = .free) {m : ℕ} (h : Idle s m) : m < c.nbMachines ∧ holder m = .free := by
  rcases h with h | h
  · exact ⟨((hr.available m).1 h).1, ((hr.available m).1 h).2.1⟩
  · exact ⟨hr.repair m h, hidle m h⟩

/-- An idle machine may fail. -/
theorem onFailure_ok (h : HeldOnce c s.toFastMachines) {date : ℚ} {draws : Draws}
    (hidle : c.repairTime ≠ 0 → Idle s draws.number) : HeldOnce c (s.onFailure c date draws).toFastMachines := by
  obtain ⟨holder, hr, hfree⟩ := h
  rw [onFailure]
  split
  · rw [onMachineInstantDownUp]
    split <;> exact ⟨holder, hr, hfree⟩
  · rename_i hne
    obtain ⟨hrange, hnumber⟩ := free_of_idle hr hfree (hidle hne)
    refine ⟨holder, represents_onMachineDownForRepair hr hrange _ _, fun m hm => ?_⟩
    rw [onMachineDownForRepair] at hm
    split at hm
    · exact hfree m hm
    · rcases Finset.mem_union.1 hm with hm | hm
      · exact hfree m hm
      · exact Finset.mem_singleton.1 hm ▸ hnumber

/-- A call that names an idle machine keeps one holder for each machine. -/
theorem onRequestedCall_ok (h : HeldOnce c s.toFastMachines) {date : ℚ} {id : ℕ} {forWhat : CallMeLaterType} {draws : Draws}
    (hidle : KeepsAccounting c s (.requestedCall date id forWhat draws)) :
    HeldOnce c (s.onRequestedCall c date id draws forWhat).toFastMachines := by
  cases forWhat with
  | smtbf =>
    rw [onRequestedCall]
    split
    · rename_i hwork
      exact onFailure_ok h (hidle hwork)
    · exact h
  | fixedFailure =>
    rw [onRequestedCall]
    split
    · rename_i hwork
      exact onFailure_ok h (hidle hwork)
    · exact h
  | mtbf =>
    rw [onRequestedCall]
    split
    · rw [onMyKillJobNotifyEvent]
      split <;> exact h
    · exact h
  | repairDone =>
    obtain ⟨holder, hr, hfree⟩ := h
    obtain ⟨hrange, hid⟩ := free_of_idle hr hfree hidle
    exact ⟨holder, represents_onRepairDone hr hrange hid, fun m hm => hfree m (Finset.mem_sdiff.1 hm).1⟩
  | reservationStart => exact h
  | checkpointBatsched => exact h
  | recoverFromCheckpoint => exact h

/-- A step that keeps the accounting. -/
theorem step_ok {event : FastEvent} (h : Ok c s (s.pendingJobs ++ s.jobsReleasedRecently))
    (hkeeps : KeepsAccounting c s event) (hx : FCFSFast2.step c s event = .ok s') :
    Ok c s' (s'.pendingJobs ++ s'.jobsReleasedRecently) := by
  rw [FCFSFast2.step, FastState.step] at hx
  have hclear : Ok c { s with decision := s.decision.clear } (s.pendingJobs ++ s.jobsReleasedRecently) :=
    ⟨h.machines, h.jobs.congr rfl rfl rfl⟩
  cases event with
  | jobSubmitted job =>
    change onJobSubmitted _ job = .ok s' at hx
    have hjobs := hclear.jobs.submitted hx
    rw [onJobSubmitted] at hx
    split at hx
    · cases hx
    · cases hx
      refine ⟨h.machines, hjobs.perm ?_⟩
      dsimp only
      rw [← List.append_assoc]
      exact List.perm_append_singleton _ _
  | jobCompleted id =>
    change onJobCompleted _ id = .ok s' at hx
    have hjobs := hclear.jobs.completed hx
    rw [onJobCompleted] at hx
    split at hx
    · cases hx
      exact ⟨h.machines, hjobs⟩
    · cases hx
  | jobsKilled ids =>
    cases hx
    exact ⟨h.machines, h.jobs.congr rfl rfl rfl⟩
  | requestedCall date id forWhat draws =>
    cases hx
    have hsame := onRequestedCall_sameJobs c { s with decision := s.decision.clear } date id draws forWhat
    rw [hsame.pending, hsame.released]
    exact ⟨onRequestedCall_ok hclear.machines hkeeps, h.jobs.congr hsame.workload hsame.ended hsame.allocations⟩
  | machinesAvailable machines =>
    cases hx
    obtain rfl : machines = ∅ := hkeeps
    refine ⟨?_, h.jobs.congr rfl rfl rfl⟩
    simpa [onMachineAvailableNotifyEvent] using h.machines
  | myKillJob victim =>
    cases hx
    rw [onMyKillJobNotifyEvent]
    split <;> exact ⟨h.machines, h.jobs.congr rfl rfl rfl⟩
  | noMoreStaticJobToSubmit =>
    cases hx
    exact ⟨h.machines, h.jobs.congr rfl rfl rfl⟩
  | makeDecisions date =>
    obtain ⟨t, ht, rfl⟩ := map_eq_ok.1 hx
    have hok := makeDecisions_ok hclear ht
    refine ⟨hok.machines, ?_⟩
    simp only [clearRecentDataStructures, List.append_nil]
    exact { hok.jobs with ended := by simp }

/-- A machine that is not idle is shared or held. -/
theorem used_of_not_idle (h : MachinesAccounted c s) {m : ℕ} (hm : m < c.nbMachines) (hidle : ¬ Idle s m) :
    UsedFor c s m .shared ∨ ∃ id, UsedFor c s m (.allocated id) := by
  obtain ⟨u, hu, _⟩ := h.use m hm
  cases u with
  | available => exact absurd (.inl hu) hidle
  | shared => exact .inl hu
  | allocated id => exact .inr ⟨id, hu⟩
  | underRepair => exact absurd (.inr hu) hidle

/-- A machine that was not idle and is now available or under repair is used for two things. -/
theorem not_accounted (h : MachinesAccounted c s) {m : ℕ} (hm : m < c.nbMachines) (hidle : ¬ Idle s m)
    (ha : s'.currentAllocations = s.currentAllocations) (hcore : s'.availableCoreMachines = s.availableCoreMachines)
    (hnow : Idle s' m) : ¬ MachinesAccounted c s' := by
  intro h'
  have hused : UsedFor c s' m .shared ∨ ∃ id, UsedFor c s' m (.allocated id) := by
    simp only [UsedFor, ha, hcore]
    exact used_of_not_idle h hm hidle
  have hnow' : UsedFor c s' m .available ∨ UsedFor c s' m .underRepair := hnow
  have hunique := fun u v => @(h'.use m hm).unique _ _ u v
  rcases hnow' with hnow | hnow <;> rcases hused with hused | ⟨id, hused⟩
  · exact nomatch hunique _ _ hnow hused
  · exact nomatch hunique _ _ hnow hused
  · exact nomatch hunique _ _ hnow hused
  · exact nomatch hunique _ _ hnow hused

/-- A failure of a machine that is not idle breaks the accounting. -/
theorem onFailure_breaks (date : ℚ) (h : MachinesAccounted c s) {draws : Draws} (hdraw : draws.number < c.nbMachines)
    (hrepair : c.repairTime ≠ 0) (hidle : ¬ Idle s draws.number) (ha : s'.toFastMachines = (s.onFailure c date draws).toFastMachines) :
    ¬ MachinesAccounted c s' := by
  have hnot : draws.number ∉ s.repairMachines := fun hr => hidle (.inr hr)
  have hstate : s'.currentAllocations = s.currentAllocations ∧ s'.availableCoreMachines = s.availableCoreMachines ∧
      draws.number ∈ s'.repairMachines := by
    rw [ha]
    simp [onFailure, hrepair, onMachineDownForRepair, hnot]
  exact not_accounted h hdraw hidle hstate.1 hstate.2.1 (.inr hstate.2.2)

/-- Machines that are reported available from outside break the accounting. -/
theorem machinesAvailable_breaks (h : MachinesAccounted c s) {machines : IntervalSet} (hne : machines ≠ ∅) :
    ¬ MachinesAccounted c (s.onMachineAvailableNotifyEvent machines) := by
  intro h'
  obtain ⟨m, hm⟩ := Finset.nonempty_iff_ne_empty.2 hne
  have hav : UsedFor c (s.onMachineAvailableNotifyEvent machines) m .available := Finset.mem_union_right _ hm
  have hrange := h'.exist m _ hav
  by_cases hold : m ∈ s.availableMachines
  · -- the machine is counted twice
    have hlt : 0 < (s.availableMachines ∩ machines).card := Finset.card_pos.2 ⟨m, Finset.mem_inter.2 ⟨hold, hm⟩⟩
    have hcard := Finset.card_union_add_card_inter s.availableMachines machines
    have hcount := h.count
    have hcount' : s.nbAvailableMachines + (machines.card : ℤ) = ((s.availableMachines ∪ machines).card : ℤ) := h'.count
    omega
  · obtain ⟨u, hu, _⟩ := h.use m hrange
    have hu' : u ≠ .available := fun heq => hold (by simpa [heq, UsedFor] using hu)
    have hkeep : UsedFor c (s.onMachineAvailableNotifyEvent machines) m u := by
      cases u with
      | available => exact absurd rfl hu'
      | shared => exact hu
      | allocated id => exact hu
      | underRepair => exact hu
    exact hu' ((h'.use m hrange).unique hkeep hav)

/-- A repair that is reported done for a machine that is not idle breaks the accounting. -/
theorem onRepairDone_breaks (h : MachinesAccounted c s) {id : ℕ} (hidle : ¬ Idle s id) :
    ¬ MachinesAccounted c (s.onRepairDone id) := by
  intro h'
  have hav : UsedFor c (s.onRepairDone id) id .available := Finset.mem_union_right _ (Finset.mem_singleton_self id)
  have hnot : ¬ MachinesAccounted c (s.onRepairDone id) :=
    not_accounted h (h'.exist id _ hav) hidle rfl rfl (.inl hav)
  exact hnot h'

/-- A step that does not keep the accounting goes through and breaks it. -/
theorem step_breaks {event : FastEvent} (h : MachinesAccounted c s) (hdraw : event.DrawsMachine c)
    (hnot : ¬ KeepsAccounting c s event) : ∃ s', FCFSFast2.step c s event = .ok s' ∧ ¬ MachinesAccounted c s' := by
  have hclear : MachinesAccounted c { s with decision := s.decision.clear } :=
    ⟨h.use, h.exist, h.count, h.placed, h.occupancy, h.limit⟩
  cases event with
  | requestedCall date id forWhat draws =>
    refine ⟨_, rfl, ?_⟩
    cases forWhat with
    | repairDone => exact onRepairDone_breaks hclear hnot
    | smtbf =>
      simp only [KeepsAccounting, Classical.not_imp] at hnot
      obtain ⟨hwork, hrepair, hidle⟩ := hnot
      refine onFailure_breaks date hclear hdraw hrepair hidle ?_
      simp only [onRequestedCall]
      rw [if_pos (show stillWorking { s with decision := s.decision.clear } = true from hwork)]
      rfl
    | fixedFailure =>
      simp only [KeepsAccounting, Classical.not_imp] at hnot
      obtain ⟨hwork, hrepair, hidle⟩ := hnot
      refine onFailure_breaks date hclear hdraw hrepair hidle ?_
      simp only [onRequestedCall]
      rw [if_pos (show stillWorking { s with decision := s.decision.clear } = true from hwork)]
      rfl
    | mtbf => exact absurd trivial hnot
    | reservationStart => exact absurd trivial hnot
    | checkpointBatsched => exact absurd trivial hnot
    | recoverFromCheckpoint => exact absurd trivial hnot
  | machinesAvailable machines => exact ⟨_, rfl, machinesAvailable_breaks hclear hnot⟩
  | jobSubmitted job => exact absurd trivial hnot
  | jobCompleted id => exact absurd trivial hnot
  | jobsKilled ids => exact absurd trivial hnot
  | myKillJob victim => exact absurd trivial hnot
  | noMoreStaticJobToSubmit => exact absurd trivial hnot
  | makeDecisions date => exact absurd trivial hnot

end FcfsAux

open FcfsAux in
/-- In every run in which a shared machine may take at least one job, the accounting of the machines is right in every state
reached exactly when every machine that fails, or whose repair is reported done, is idle at that moment, and no machines are
reported available from outside. -/
theorem machine_accounting_iff (c : FastConfig) (date failure : ℚ) (events : List FastEvent)
    (hlimit : c.sharePacking → ∀ m < c.nbMachines, 1 ≤ c.coreLimit m) (hdraws : ∀ event ∈ events, event.DrawsMachine c) :
    Always (FCFSFast2.step c) (MachinesAccounted c) (FastState.new c date failure) events ↔
      AllSteps (FCFSFast2.step c) (KeepsAccounting c) (FastState.new c date failure) events := by
  refine always_iff_allSteps (I := fun s => Ok c s (s.pendingJobs ++ s.jobsReleasedRecently)) (K := (·.DrawsMachine c))
    (fun s event s' h _ hkeeps hx => step_ok h hkeeps hx)
    (fun s event h hdraw hnot => step_breaks (accounted hlimit h.machines) hdraw hnot)
    (fun s h => accounted hlimit h.machines) ⟨⟨_, represents_new c date failure, ?_⟩, ?_⟩ hdraws
  · simp
  · exact ⟨by simp [FastState.new], by simp [FastState.new], by simp [FastState.new], by simp [FastState.new],
      by simp [FastState.new], by simp [FastState.new]⟩

namespace FcfsFast2Witness

/-- Two machines of two cores, shared by one-resource jobs; a failure every five seconds, a repair of a hundred. -/
def config : FastConfig where
  nbMachines := 2
  sharePacking := true
  coreCount := fun _ => 2
  fixedFailures := 5
  repairTime := 100

/-- A job that shares a machine. -/
def job : Job := { id := "w!1", nbRequestedResources := 1, walltime := 50 }

/-- The job runs on machine 0, the given machine fails after five seconds, and then the job ends. -/
def events (number : ℕ) : List FastEvent :=
  [.jobSubmitted job, .makeDecisions 0,
    .requestedCall 5 0 .fixedFailure { number := number, failure := 0, repair := 0, victim := "" },
    .makeDecisions 5, .jobCompleted "w!1", .makeDecisions 6]

theorem limit_pos : config.sharePacking → ∀ m < config.nbMachines, 1 ≤ config.coreLimit m := by
  decide +kernel

theorem events_draw {number : ℕ} (h : number < 2) : ∀ event ∈ events number, event.DrawsMachine config := by
  simp [events, FastEvent.DrawsMachine, config]
  omega

end FcfsFast2Witness

open FcfsFast2Witness in
/-- The equivalence on the run in which the other machine fails, which goes through. -/
theorem machine_accounting_iff_witness :
    abortOf (runFrom (FCFSFast2.step config) (FastState.new config 0 0) (events 1)) = none ∧
      (Always (FCFSFast2.step config) (MachinesAccounted config) (FastState.new config 0 0) (events 1) ↔
        AllSteps (FCFSFast2.step config) (KeepsAccounting config) (FastState.new config 0 0) (events 1)) :=
  ⟨by decide +kernel, machine_accounting_iff config 0 0 (events 1) limit_pos (events_draw (by decide))⟩

open FcfsFast2Witness in
/-- When the machine of a job that shares it fails, the end of the job puts the machine back among the available ones, while it
is under repair. -/
theorem machine_accounting_false :
    ¬ ∀ (c : FastConfig) (date failure : ℚ) (events : List FastEvent),
      (c.sharePacking → ∀ m < c.nbMachines, 1 ≤ c.coreLimit m) → (∀ event ∈ events, event.DrawsMachine c) →
      Always (FCFSFast2.step c) (MachinesAccounted c) (FastState.new c date failure) events := by
  intro h
  have halways := h config 0 0 (events 0) limit_pos (events_draw (by decide))
  have hend : (runFrom (FCFSFast2.step config) (FastState.new config 0 0) (events 0)).toOption.map
      (fun s => decide (0 ∈ s.availableMachines ∧ 0 ∈ s.repairMachines)) = some true := by decide +kernel
  obtain ⟨s, hs, hboth⟩ := toOption_map_eq_some.1 hend
  obtain ⟨hav, hr⟩ := of_decide_eq_true hboth
  have hunique := fun u v => @((halways.last hs).use 0 (by decide)).unique _ _ u v
  exact nomatch hunique .available .underRepair hav hr

end ScheduleTest
