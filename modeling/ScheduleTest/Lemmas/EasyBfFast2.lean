import Mathlib
import ScheduleTest.EasyBfFast2
import ScheduleTest.Lemmas.FastJobs

/-!
# What a pass of easy_bf_fast2 does

However its loops are nested, `make_decisions` does four things about the jobs that wait: it executes one that may precede the
priority job, makes one the priority job, leaves one waiting, or rejects one (`Act`). A pass is the end of some jobs, then the
priority job where it fits, then a chain of such acts (`makeDecisions_acts`), so that what each act keeps a pass keeps.
-/

namespace ScheduleTest

namespace EasyBFFast2

variable {c : FastConfig} {s s' : EasyState} {job : Job} {released : List Job} {date : ℚ}

/-- When a job executed now ends by. -/
def pointOf (f : FastState) (job : Job) (date : ℚ) : HorizonPoint where
  date := date + job.walltime
  nbReleasedMachines := job.nbRequestedResources
  machines := f.allocated job
  id := job.id

theorem insertHorizonPoint_perm (point : HorizonPoint) (points : List HorizonPoint) :
    (insertHorizonPoint point points).Perm (point :: points) := by
  induction points with
  | nil => exact .refl _
  | cons p rest ih =>
    rw [insertHorizonPoint]
    split
    · exact .refl _
    · exact (ih.cons p).trans (.swap _ _ _)

/-- What executing a job does to the scheduler's state. -/
theorem tryExecute_some (hx : tryExecute c s job date = .ok (some s')) :
    ∃ f, FastState.Started c s.toFastState job f ∧
      s' = { s with toFastState := f, horizons := insertHorizonPoint (pointOf f job date) s.horizons } := by
  rw [tryExecute] at hx
  split at hx
  · rename_i f hf
    cases hx
    exact ⟨f, FastState.started_of_tryExecute hf, rfl⟩
  · cases hx
  · cases hx

/-- A job that is not executed does not fit. -/
theorem tryExecute_none (hx : tryExecute c s job date = .ok none) :
    s.nbAvailableMachines < job.nbRequestedResources ∧ (c.shares job → s.freeCoreMachine? = none) := by
  rw [tryExecute] at hx
  split at hx
  · cases hx
  · rename_i hf
    exact FastState.tryExecute_none hf
  · cases hx

/-- The jobs that wait: the priority job and the pending ones. -/
def waitingJobs (s : EasyState) : List Job := (s.priorityJob.map (·.1)).toList ++ s.pendingJobs

/-- What `make_decisions` does about one job that waits. Beside the state are the jobs still to be released. -/
inductive Act (c : FastConfig) (date : ℚ) : EasyState × List Job → EasyState × List Job → Prop where
  /-- A job that may precede the priority job is executed. -/
  | start {s : EasyState} {job : Job} {pending released released' : List Job} {f : FastState}
      (hf : FastState.Started c s.toFastState job f) (hprecede : mayPrecede s job date) (hsub : pending ⊆ s.pendingJobs)
      (hjobs : (job :: (pending ++ released')).Perm (s.pendingJobs ++ released)) :
      Act c date (s, released) ({ s with
        toFastState := { f with pendingJobs := pending }
        horizons := insertHorizonPoint (pointOf f job date) s.horizons }, released')
  /-- The first job that does not fit becomes the priority job. -/
  | promote {s : EasyState} {job : Job} {pending released released' : List Job} {d : ℚ} (hnone : s.priorityJob = none)
      (hfit : s.nbAvailableMachines < job.nbRequestedResources) (hcore : c.shares job → s.freeCoreMachine? = none)
      (hd : earliestStart c job s.availableCoreMachines s.coresAvailable s.nbAvailableMachines s.horizons = .ok d)
      (hjobs : (job :: (pending ++ released')).Perm (s.pendingJobs ++ released)) :
      Act c date (s, released) ({ s with
        toFastState := { s.toFastState with pendingJobs := pending }
        priorityJob := some (job, d) }, released')
  /-- A job that is released waits behind the priority job. -/
  | wait {s : EasyState} {pending released released' : List Job} (hprio : s.priorityJob ≠ none)
      (hjobs : (pending ++ released').Perm (s.pendingJobs ++ released)) :
      Act c date (s, released) ({ s with toFastState := { s.toFastState with pendingJobs := pending } }, released')
  /-- A job that requests more machines than there are is rejected. -/
  | reject {s : EasyState} {job : Job} {released : List Job} (hlarge : c.nbMachines < job.nbRequestedResources) :
      Act c date (s, job :: released) ({ s with
        toFastState := { s.toFastState with decision := s.decision.add (.rejectJob job.id) } }, released)

/-- A chain of acts. -/
abbrev Acts (c : FastConfig) (date : ℚ) : EasyState × List Job → EasyState × List Job → Prop := Relation.ReflTransGen (Act c date)

/-- What no act touches. -/
structure ActFrame (s s' : EasyState) : Prop where
  repair : s'.repairMachines = s.repairMachines
  workload : s'.workload = s.workload
  released : s'.jobsReleasedRecently = s.jobsReleasedRecently
  ended : s'.jobsEndedRecently = s.jobsEndedRecently
  killed : s'.jobsKilledRecently = s.jobsKilledRecently
  kills : s'.myKillJobs = s.myKillJobs

theorem ActFrame.refl (s : EasyState) : ActFrame s s := ⟨rfl, rfl, rfl, rfl, rfl, rfl⟩

theorem ActFrame.trans {s₁ s₂ s₃ : EasyState} (h : ActFrame s₁ s₂) (h' : ActFrame s₂ s₃) : ActFrame s₁ s₃ :=
  ⟨h'.repair.trans h.repair, h'.workload.trans h.workload, h'.released.trans h.released, h'.ended.trans h.ended,
    h'.killed.trans h.killed, h'.kills.trans h.kills⟩

theorem Act.frame {a b : EasyState × List Job} (h : Act c date a b) : ActFrame a.1 b.1 := by
  cases h with
  | start hf => exact ⟨hf.frame.repair, hf.frame.workload, hf.frame.released, hf.frame.ended, hf.frame.killed, hf.frame.kills⟩
  | promote => exact ⟨rfl, rfl, rfl, rfl, rfl, rfl⟩
  | wait => exact ⟨rfl, rfl, rfl, rfl, rfl, rfl⟩
  | reject => exact ⟨rfl, rfl, rfl, rfl, rfl, rfl⟩

/-- What every act keeps, a chain of acts keeps. -/
theorem Acts.invariant {I : EasyState × List Job → Prop} (hact : ∀ a b, Act c date a b → I a → I b) {a b : EasyState × List Job}
    (h : Acts c date a b) (ha : I a) : I b := by
  induction h with
  | refl => exact ha
  | tail _ h ih => exact hact _ _ h ih

theorem Acts.frame {a b : EasyState × List Job} (h : Acts c date a b) : ActFrame a.1 b.1 :=
  Acts.invariant (I := fun x => ActFrame a.1 x.1) (fun _ _ hact hx => hx.trans hact.frame) h (.refl _)

/-- The jobs wait only behind a priority job. -/
def Idle (s : EasyState) : Prop := s.priorityJob = none → s.pendingJobs = []

/-- A job becomes the priority job. -/
theorem setPriorityJob_some (hx : setPriorityJob c s job = .ok s') :
    ∃ d, earliestStart c job s.availableCoreMachines s.coresAvailable s.nbAvailableMachines s.horizons = .ok d ∧
      s' = { s with priorityJob := some (job, d) } := by
  obtain ⟨d, hd, rfl⟩ := Execution.map_eq_ok.1 hx
  exact ⟨d, hd, rfl⟩

/-- The loop over the pending jobs after the priority job is a chain of acts, and leaves none of them without a priority job. -/
theorem executePending_acts {rest : List Job} (hnone : s.priorityJob = none) (hp : s.pendingJobs = rest)
    (hx : executePending c date s rest = .ok s') (released : List Job) : Acts c date (s, released) (s', released) ∧ Idle s' := by
  induction rest generalizing s with
  | nil =>
    cases hx
    exact ⟨.refl, fun _ => hp⟩
  | cons job rest ih =>
    have hjobs : (job :: (rest ++ released)).Perm (s.pendingJobs ++ released) := by
      rw [hp, List.cons_append]
    rw [executePending] at hx
    split at hx
    · rename_i t ht
      obtain ⟨f, hf, rfl⟩ := tryExecute_some ht
      obtain ⟨hacts, hidle⟩ := ih (by exact hnone) (by rfl) hx
      have hprecede : mayPrecede s job date := by simp [mayPrecede, hnone]
      exact ⟨.head (.start hf hprecede (by simp [hp]) hjobs) hacts, hidle⟩
    · rename_i ht
      obtain ⟨d, hd, rfl⟩ := setPriorityJob_some hx
      obtain ⟨hfit, hcore⟩ := tryExecute_none ht
      exact ⟨.single (.promote hnone hfit hcore hd hjobs), fun h => by simp at h⟩
    · cases hx

/-- The backfill loop is a chain of acts. -/
theorem backfill_acts {before rest : List Job} (hp : s.pendingJobs = before.reverse ++ rest)
    (hx : backfill c date s before rest = .ok s') (released : List Job) : Acts c date (s, released) (s', released) := by
  induction rest generalizing s before with
  | nil =>
    cases hx
    exact .refl
  | cons job rest ih =>
    have hnext : s.pendingJobs = (job :: before).reverse ++ rest := by
      rw [hp, List.reverse_cons, List.append_assoc, List.singleton_append]
    rw [backfill] at hx
    split at hx
    · rename_i hprecede
      split at hx
      · rename_i t ht
        obtain ⟨f, hf, rfl⟩ := tryExecute_some ht
        refine .head (.start hf hprecede ?_ ?_) (ih rfl hx)
        · rw [hp]
          exact List.append_subset.2 ⟨List.subset_append_left _ _, fun x hx => List.mem_append_right _ (List.mem_cons_of_mem _ hx)⟩
        · rw [hp]
          have hmiddle : (before.reverse ++ job :: (rest ++ released)).Perm (job :: (before.reverse ++ (rest ++ released))) :=
            List.perm_middle
          simpa only [List.append_assoc, List.cons_append] using hmiddle.symm
      · exact ih hnext hx
      · cases hx
    · exact ih hnext hx

/-- A job that is released and not executed waits. -/
theorem enqueue_acts (hfit : s.priorityJob = none →
      s.nbAvailableMachines < job.nbRequestedResources ∧ (c.shares job → s.freeCoreMachine? = none))
    (hx : enqueue c s job = .ok s') (released : List Job) : Acts c date (s, job :: released) (s', released) := by
  have hjobs : (job :: (s.pendingJobs ++ released)).Perm (s.pendingJobs ++ job :: released) := List.perm_middle.symm
  rw [enqueue] at hx
  split at hx
  · rename_i hnone
    obtain ⟨d, hd, rfl⟩ := setPriorityJob_some hx
    exact .single (.promote hnone (hfit hnone).1 (hfit hnone).2 hd hjobs)
  · rename_i hprio
    have hsome : s.priorityJob ≠ none := by simp [hprio]
    split at hx
    · cases hx
      exact .single (.wait hsome hjobs)
    · cases hx
      refine .single (.wait hsome ?_)
      rw [List.append_assoc, List.singleton_append]

/-- A job that is released is executed, rejected, or waits. -/
theorem releaseJob_acts (hx : releaseJob c date s job = .ok s') (released : List Job) :
    Acts c date (s, job :: released) (s', released) := by
  rw [releaseJob] at hx
  split at hx
  · rename_i hlarge
    cases hx
    exact .single (.reject hlarge)
  · split at hx
    · rename_i hprecede
      split at hx
      · rename_i t ht
        cases hx
        obtain ⟨f, hf, rfl⟩ := tryExecute_some ht
        have hjobs : (job :: (s.pendingJobs ++ released)).Perm (s.pendingJobs ++ job :: released) := List.perm_middle.symm
        have hact := Act.start (c := c) hf hprecede (List.Subset.refl _) hjobs
        rw [← hf.frame.pending] at hact
        exact .single hact
      · rename_i ht
        exact enqueue_acts (fun _ => tryExecute_none ht) hx released
      · cases hx
    · rename_i hprecede
      refine enqueue_acts (fun hnone => ?_) hx released
      simp [mayPrecede, hnone] at hprecede

/-- The released jobs are dealt with one after the other. -/
theorem releaseJobs_acts (hx : Execution.runFrom (releaseJob c date) s released = .ok s') :
    Acts c date (s, released) (s', []) := by
  induction released generalizing s with
  | nil =>
    cases hx
    exact .refl
  | cons job rest ih =>
    obtain ⟨t, ht, hrest⟩ := Execution.of_runFrom_cons hx
    exact (releaseJob_acts ht rest).trans (ih hrest)

/-- How a pass goes on when the jobs that ended are gone. -/
inductive Opening (c : FastConfig) (date : ℚ) (s : EasyState) (jobEnded : Bool) (released : List Job) : EasyState → Prop where
  /-- No job has ended, or no job is the priority job. -/
  | nothing (h : jobEnded = false ∨ s.priorityJob = none) : Opening c date s jobEnded released s
  /-- The priority job still does not fit. -/
  | blocked {job : Job} {d : ℚ} (hended : jobEnded = true) (hprio : s.priorityJob = some (job, d))
      (hfit : s.nbAvailableMachines < job.nbRequestedResources) (hcore : c.shares job → s.freeCoreMachine? = none) :
      Opening c date s jobEnded released s
  /-- The priority job is executed, and then the pending jobs up to the first that does not fit. -/
  | executed {s' : EasyState} {job : Job} {d : ℚ} {f : FastState} (hended : jobEnded = true)
      (hprio : s.priorityJob = some (job, d)) (hf : FastState.Started c s.toFastState job f)
      (hacts : Acts c date ({ s with
        toFastState := { f with runningJobs := if c.shares job then f.runningJobs else s.runningJobs }
        horizons := insertHorizonPoint (pointOf f job date) s.horizons
        priorityJob := none }, released) (s', released))
      (hidle : Idle s') : Opening c date s jobEnded released s'

/-- What is executed when jobs have ended. -/
theorem handleEndedJobExecution_acts {jobEnded : Bool} (hx : handleEndedJobExecution c s jobEnded date = .ok s')
    (released : List Job) : ∃ t, Opening c date s jobEnded released t ∧ Acts c date (t, released) (s', released) := by
  rw [handleEndedJobExecution] at hx
  split at hx
  · rename_i hnone
    cases hx
    refine ⟨s, .nothing ?_, .refl⟩
    cases jobEnded
    · exact .inl rfl
    · exact .inr hnone
  · rename_i job d hsome
    obtain ⟨hended, hprio⟩ : jobEnded = true ∧ s.priorityJob = some (job, d) := by
      split at hsome
      · rename_i h
        exact ⟨h, hsome⟩
      · cases hsome
    split at hx
    · rename_i t ht
      obtain ⟨executed, he, hmap⟩ := Execution.map_eq_ok.1 ht
      cases executed with
      | none => cases hmap
      | some u =>
        obtain ⟨f, hf, rfl⟩ := tryExecute_some he
        cases hmap
        split at hx
        · rename_i v hv
          obtain ⟨hacts, hidle⟩ := executePending_acts (by rfl) (by rfl) hv released
          exact ⟨v, .executed hended hprio hf hacts hidle, backfill_acts (by rfl) hx released⟩
        · cases hx
    · rename_i ht
      obtain ⟨executed, he, hmap⟩ := Execution.map_eq_ok.1 ht
      cases executed with
      | none =>
        obtain ⟨hfit, hcore⟩ := tryExecute_none he
        exact ⟨s, .blocked hended hprio hfit hcore, backfill_acts (by rfl) hx released⟩
      | some u => cases hmap
    · cases hx

/-- The opening of a pass touches no more than an act. -/
theorem Opening.frame {jobEnded : Bool} (h : Opening c date s jobEnded released s') : ActFrame s s' := by
  cases h with
  | nothing => exact .refl _
  | blocked => exact .refl _
  | executed _ _ hf hacts =>
    have hframe := hf.frame
    exact ActFrame.trans ⟨hframe.repair, hframe.workload, hframe.released, hframe.ended, hframe.killed, hframe.kills⟩ hacts.frame

/-- What the end of a job changes and leaves as it is, whether or not it shared its machine. -/
structure FinishedFrame (s : EasyState) (job : Job) (s' : EasyState) : Prop where
  held : ∃ machines, s.currentAllocations.find? job = some machines
  allocations : s'.currentAllocations = s.currentAllocations.erase job
  running : s'.runningJobs = s.runningJobs.erase job.id
  horizons : s'.horizons = s.horizons.filter (·.id ≠ job.id)
  kills : s.myKillJobs.erase job.id ⊆ s'.myKillJobs
  repair : s'.repairMachines = s.repairMachines
  pending : s'.pendingJobs = s.pendingJobs
  priority : s'.priorityJob = s.priorityJob
  workload : s'.workload = s.workload
  released : s'.jobsReleasedRecently = s.jobsReleasedRecently
  ended : s'.jobsEndedRecently = s.jobsEndedRecently
  killed : s'.jobsKilledRecently = s.jobsKilledRecently
  decision : s'.decision = s.decision

theorem finishJob_frame (hx : finishJob c s job = .ok s') : FinishedFrame s job s' := by
  rw [finishJob] at hx
  split at hx
  · cases hx
  · rename_i machines hfind
    split at hx
    · obtain ⟨f, hf, rfl⟩ := Execution.map_eq_ok.1 hx
      rw [FastState.finishOnCore] at hf
      dsimp only at hf
      split at hf
      · cases hf
        exact ⟨⟨machines, hfind⟩, rfl, rfl, rfl, Finset.erase_subset _ _, rfl, rfl, rfl, rfl, rfl, rfl, rfl, rfl⟩
      · cases hf
    · cases hx
      exact ⟨⟨machines, hfind⟩, rfl, rfl, rfl, Finset.Subset.refl _, rfl, rfl, rfl, rfl, rfl, rfl, rfl, rfl⟩

/-- What the end of several jobs changes and leaves as it is. -/
structure FinishedAll (s : EasyState) (ended : List Job) (s' : EasyState) : Prop where
  entries : s'.currentAllocations.entries = s.currentAllocations.entries.filter (fun e => e.1.id ∉ ended.map Job.id)
  running : ∀ id, id ∈ s'.runningJobs ↔ id ∈ s.runningJobs ∧ id ∉ ended.map Job.id
  horizons : s'.horizons = s.horizons.filter (fun point => point.id ∉ ended.map Job.id)
  kills : ∀ id ∈ s.myKillJobs, id ∉ ended.map Job.id → id ∈ s'.myKillJobs
  repair : s'.repairMachines = s.repairMachines
  pending : s'.pendingJobs = s.pendingJobs
  priority : s'.priorityJob = s.priorityJob
  workload : s'.workload = s.workload
  released : s'.jobsReleasedRecently = s.jobsReleasedRecently
  ended : s'.jobsEndedRecently = s.jobsEndedRecently
  killed : s'.jobsKilledRecently = s.jobsKilledRecently
  decision : s'.decision = s.decision

theorem finishJobs_all {ended : List Job} (hx : Execution.runFrom (finishJob c) s ended = .ok s') : FinishedAll s ended s' := by
  induction ended generalizing s with
  | nil =>
    cases hx
    constructor <;> simp
  | cons job ended ih =>
    obtain ⟨t, ht, hrest⟩ := Execution.of_runFrom_cons hx
    have hframe := finishJob_frame ht
    have hall := ih hrest
    constructor
    case entries =>
      rw [hall.entries, hframe.allocations, KeyedMap.erase, List.filter_filter]
      refine List.filter_congr fun e _ => ?_
      rw [← Bool.decide_and, decide_eq_decide, List.map_cons, List.mem_cons, not_or, and_comm]
    case running =>
      intro id
      rw [hall.running, hframe.running, Finset.mem_erase, List.map_cons, List.mem_cons]
      tauto
    case horizons =>
      rw [hall.horizons, hframe.horizons, List.filter_filter]
      refine List.filter_congr fun point _ => ?_
      rw [← Bool.decide_and, decide_eq_decide, List.map_cons, List.mem_cons, not_or, and_comm]
    case kills =>
      intro id hid hnot
      rw [List.map_cons, List.mem_cons, not_or] at hnot
      exact hall.kills id (hframe.kills (Finset.mem_erase.2 ⟨hnot.1, hid⟩)) hnot.2
    case repair => exact hall.repair.trans hframe.repair
    case pending => exact hall.pending.trans hframe.pending
    case priority => exact hall.priority.trans hframe.priority
    case workload => exact hall.workload.trans hframe.workload
    case released => exact hall.released.trans hframe.released
    case ended => exact hall.ended.trans hframe.ended
    case killed => exact hall.killed.trans hframe.killed
    case decision => exact hall.decision.trans hframe.decision

/-- The state in which the jobs to be killed and to be submitted again have been sent. -/
def sendKills (s : EasyState) : EasyState :=
  let killed := s.toFastState.handleNewJobsToKill
  { s with toFastState := { killed with decision := killed.decision.handleResubmission killed.jobsKilledRecently } }

/-- The first part of a pass: jobs end, the jobs to be killed are sent, and the priority job and those behind it are executed where
they fit. -/
theorem endAndExecute_acts (hx : endAndExecute c s date = .ok s') :
    ∃ t u, Execution.runFrom (finishJob c) s s.jobsEndedRecently = .ok t ∧
      Opening c date (sendKills t) (!s.jobsEndedRecently.isEmpty) t.jobsReleasedRecently u ∧
      Acts c date (u, t.jobsReleasedRecently) (s', t.jobsReleasedRecently) ∧
      s'.jobsReleasedRecently = t.jobsReleasedRecently := by
  rw [endAndExecute] at hx
  split at hx
  · rename_i t ht
    obtain ⟨u, hopen, hacts⟩ := handleEndedJobExecution_acts hx t.jobsReleasedRecently
    refine ⟨t, u, ht, hopen, hacts, ?_⟩
    rw [hacts.frame.released, hopen.frame.released]
    simp only [FastState.handleNewJobsToKill]
    split <;> rfl
  · cases hx

/-- A pass: the first part, and then the jobs that were released are dealt with one after the other. -/
theorem makeDecisions_acts (hx : makeDecisions c s date = .ok s') :
    ∃ t u v, Execution.runFrom (finishJob c) s s.jobsEndedRecently = .ok t ∧
      Opening c date (sendKills t) (!s.jobsEndedRecently.isEmpty) t.jobsReleasedRecently u ∧
      Acts c date (u, t.jobsReleasedRecently) (v, []) ∧
      s' = { v with toFastState := v.toFastState.sendFinishedSubmittingJobs date } := by
  rw [makeDecisions] at hx
  split at hx
  · rename_i w hw
    obtain ⟨v, hv, rfl⟩ := Execution.map_eq_ok.1 hx
    obtain ⟨t, u, ht, hopen, hacts, hreleased⟩ := endAndExecute_acts hw
    rw [hreleased] at hv
    exact ⟨t, u, v, ht, hopen, hacts.trans (releaseJobs_acts hv), rfl⟩
  · cases hx

/-- Which job holds which machines. -/
def held (s : FastState) : List (String × IntervalSet) := s.currentAllocations.entries.map fun e => (e.1.id, e.2)

/-- No job holds machines twice. -/
theorem nodup_held (f : FastState) : ((held f).map Prod.fst).Nodup := by
  simpa [held, Function.comp_def] using f.currentAllocations.nodup_key

/-- A job that is executed holds its machines from then on. -/
theorem held_started {f f' : FastState} (hf : FastState.StartedFrame f job f') (hnew : f.Fresh job) :
    (held f').Perm (held f ++ [(job.id, f'.allocated job)]) := by
  rw [held, hf.allocations]
  exact ((KeyedMap.perm_insert_of_new hnew).map _).trans (List.perm_append_singleton _ _).symm

/-- The walltime of a job of the workload. -/
def walltimeOf (s : FastState) (id : String) : ℚ := ((s.workload id).map Job.walltime).getD 0

/-- When the jobs end by, as the points have it. -/
def ends (s : EasyState) : List (String × ℚ) := s.horizons.map fun point => (point.id, point.date)

/-- What a part of a pass does about the jobs: those that it executes hold their machines, and end by a date. -/
structure Progress (date : ℚ) (a b : EasyState × List Job) (new : List (String × IntervalSet)) : Prop where
  workload : b.1.workload = a.1.workload
  jobs : FastState.JobsOk b.1.toFastState (waitingJobs b.1 ++ b.2)
  held : (held b.1.toFastState).Perm (held a.1.toFastState ++ new)
  ends : (ends b.1).Perm (ends a.1 ++ new.map fun x => (x.1, date + walltimeOf a.1.toFastState x.1))
  sent : ∃ decisions, b.1.decision.decisions = a.1.decision.decisions ++ decisions ∧ executions decisions = new ∧
    .finishedSubmittingJobs ∉ decisions

theorem Progress.refl {a : EasyState × List Job} (hj : FastState.JobsOk a.1.toFastState (waitingJobs a.1 ++ a.2)) :
    Progress date a a [] where
  workload := rfl
  jobs := hj
  held := by rw [List.append_nil]
  ends := by rw [List.map_nil, List.append_nil]
  sent := ⟨[], by simp, rfl, by simp⟩

theorem Progress.trans {a b d : EasyState × List Job} {new new' : List (String × IntervalSet)} (h : Progress date a b new)
    (h' : Progress date b d new') : Progress date a d (new ++ new') where
  workload := h'.workload.trans h.workload
  jobs := h'.jobs
  held := by
    rw [← List.append_assoc]
    exact h'.held.trans (h.held.append_right _)
  ends := by
    have hwall : walltimeOf b.1.toFastState = walltimeOf a.1.toFastState := funext fun id => by rw [walltimeOf, h.workload, walltimeOf]
    rw [List.map_append, ← List.append_assoc, ← hwall]
    have hends := h.ends
    rw [← hwall] at hends
    exact h'.ends.trans (hends.append_right _)
  sent := by
    obtain ⟨ds, hds, hex, hfin⟩ := h.sent
    obtain ⟨ds', hds', hex', hfin'⟩ := h'.sent
    refine ⟨ds ++ ds', by rw [hds', hds, List.append_assoc], by rw [executions_append, hex, hex'], ?_⟩
    rw [List.mem_append]
    exact not_or.2 ⟨hfin, hfin'⟩

/-- The jobs that wait, whichever of them is the priority job. -/
theorem waiting_perm {pending released released' : List Job}
    (hjobs : (job :: (pending ++ released')).Perm (s.pendingJobs ++ released)) :
    (job :: ((s.priorityJob.map (·.1)).toList ++ pending ++ released')).Perm (waitingJobs s ++ released) := by
  rw [waitingJobs, List.append_assoc, List.append_assoc]
  exact List.perm_middle.symm.trans (hjobs.append_left _)

/-- A job is executed before the others that wait. -/
theorem progress_started {f : FastState} {released' : List Job}
    (hj : FastState.JobsOk s.toFastState (job :: (waitingJobs s' ++ released'))) (hf : FastState.StartedFrame s.toFastState job f)
    (hw : s'.workload = f.workload) (he : s'.jobsEndedRecently = f.jobsEndedRecently)
    (ha : s'.currentAllocations = f.currentAllocations) (hd : s'.decision = f.decision)
    (hp : s'.horizons = insertHorizonPoint (pointOf f job date) s.horizons) :
    Progress date (s, released) (s', released') [(job.id, f.allocated job)] where
  workload := hw.trans hf.workload
  jobs := (hj.inserted hf.workload hf.ended hf.allocations).congr hw he ha
  held := by
    have hheld := held_started hf (hj.fresh job List.mem_cons_self)
    rwa [held, held, ← ha] at hheld
  ends := by
    have hwall : walltimeOf s.toFastState job.id = job.walltime := by
      rw [walltimeOf, hj.queued job List.mem_cons_self, Option.map_some, Option.getD_some]
    rw [ends, hp]
    refine ((insertHorizonPoint_perm _ _).map _).trans ((List.perm_append_singleton _ _).symm.trans (.of_eq ?_))
    simp [ends, pointOf, hwall]
  sent := ⟨[.executeJob job.id (f.allocated job)], by simp [hd, hf.decision], rfl, by simp⟩

/-- An act executes at most one job. -/
theorem Act.progress {a b : EasyState × List Job} (h : Act c date a b)
    (hj : FastState.JobsOk a.1.toFastState (waitingJobs a.1 ++ a.2)) : ∃ new, Progress date a b new := by
  have hnone : ∀ {x y : EasyState × List Job}, y.1.workload = x.1.workload → y.1.currentAllocations = x.1.currentAllocations →
      y.1.horizons = x.1.horizons → FastState.JobsOk y.1.toFastState (waitingJobs y.1 ++ y.2) →
      (∃ decisions, y.1.decision.decisions = x.1.decision.decisions ++ decisions ∧ executions decisions = [] ∧
        .finishedSubmittingJobs ∉ decisions) → Progress date x y [] := by
    intro x y hw ha hp hjobs hsent
    exact ⟨hw, hjobs, by simp [held, ha], by simp [ends, hp], hsent⟩
  cases h with
  | start hf hprecede hsub hjobs =>
    exact ⟨_, progress_started (hj.perm (waiting_perm hjobs)) hf.frame rfl rfl rfl rfl rfl⟩
  | promote hprio hfit hcore hd hjobs =>
    have hperm := waiting_perm hjobs
    rw [hprio] at hperm
    exact ⟨[], hnone rfl rfl rfl ((hj.perm hperm).congr rfl rfl rfl) ⟨[], by simp, rfl, by simp⟩⟩
  | wait hprio hjobs =>
    refine ⟨[], hnone rfl rfl rfl ((hj.perm ?_).congr rfl rfl rfl) ⟨[], by simp, rfl, by simp⟩⟩
    simp only [waitingJobs, List.append_assoc]
    exact hjobs.append_left _
  | @reject s job released hlarge =>
    exact ⟨[], hnone rfl rfl rfl ((hj.perm List.perm_middle.symm).drop.congr rfl rfl rfl)
      ⟨[.rejectJob job.id], by simp, rfl, by simp⟩⟩

/-- A chain of acts executes some of the jobs that wait. -/
theorem Acts.progress {a b : EasyState × List Job} (h : Acts c date a b)
    (hj : FastState.JobsOk a.1.toFastState (waitingJobs a.1 ++ a.2)) : ∃ new, Progress date a b new := by
  refine Acts.invariant (I := fun x => ∃ new, Progress date a x new) ?_ h ⟨[], .refl hj⟩
  rintro x y hact ⟨new, hx⟩
  obtain ⟨new', hy⟩ := hact.progress hx.jobs
  exact ⟨new ++ new', hx.trans hy⟩

/-- A chain of acts keeps what every act keeps as long as the jobs are in order. -/
theorem Acts.keep {I : EasyState → Prop}
    (hact : ∀ a b, Act c date a b → FastState.JobsOk a.1.toFastState (waitingJobs a.1 ++ a.2) → I a.1 → I b.1)
    {a b : EasyState × List Job} (h : Acts c date a b) (hj : FastState.JobsOk a.1.toFastState (waitingJobs a.1 ++ a.2))
    (ha : I a.1) : I b.1 := by
  refine (Acts.invariant (I := fun x => FastState.JobsOk x.1.toFastState (waitingJobs x.1 ++ x.2) ∧ I x.1) ?_ h ⟨hj, ha⟩).2
  rintro x y hxy ⟨hjobs, hx⟩
  obtain ⟨new, hprog⟩ := hxy.progress hjobs
  exact ⟨hprog.jobs, hact x y hxy hjobs hx⟩

/-- The state after the priority job has been executed. -/
theorem priorityStarted_jobs {f : FastState} {d : ℚ} (hj : FastState.JobsOk s.toFastState (waitingJobs s ++ released))
    (hprio : s.priorityJob = some (job, d)) (hf : FastState.StartedFrame s.toFastState job f) :
    s.Fresh job ∧ FastState.JobsOk f (f.pendingJobs ++ released) := by
  have hwait : waitingJobs s ++ released = job :: (f.pendingJobs ++ released) := by
    rw [waitingJobs, hprio, hf.pending]
    rfl
  rw [hwait] at hj
  exact ⟨hj.fresh job List.mem_cons_self, hj.inserted hf.workload hf.ended hf.allocations⟩

/-- The opening of a pass executes some of the jobs that wait. -/
theorem Opening.progress {jobEnded : Bool} (h : Opening c date s jobEnded released s')
    (hj : FastState.JobsOk s.toFastState (waitingJobs s ++ released)) : ∃ new, Progress date (s, released) (s', released) new := by
  cases h with
  | nothing => exact ⟨[], .refl hj⟩
  | blocked => exact ⟨[], .refl hj⟩
  | @executed _ job d f _ hprio hf hacts =>
    have hwait : waitingJobs s ++ released = job :: (s.pendingJobs ++ released) := by
      rw [waitingJobs, hprio]
      rfl
    rw [hwait, ← hf.frame.pending] at hj
    have hfirst : Progress date (s, released) ({ s with
        toFastState := { f with runningJobs := if c.shares job then f.runningJobs else s.runningJobs }
        horizons := insertHorizonPoint (pointOf f job date) s.horizons
        priorityJob := none }, released) [(job.id, f.allocated job)] := progress_started hj hf.frame rfl rfl rfl rfl rfl
    obtain ⟨new, hnext⟩ := Acts.progress hacts hfirst.jobs
    exact ⟨_, hfirst.trans hnext⟩

/-- Every other message is dealt with by the common handlers. -/
theorem step_handler {event : FastEvent} (hne : ∀ date, event ≠ .makeDecisions date) (hx : step c s event = .ok s') :
    ∃ t, s.toFastState.step c (fun t _ => .ok t) event = .ok t ∧ { s with toFastState := t } = s' := by
  rw [step] at hx
  · exact Execution.map_eq_ok.1 hx
  · exact hne

/-- The messages that tell nothing about the jobs leave them as they are. -/
theorem step_other {event : FastEvent} (hn : event.notice = .other) (hx : step c s event = .ok s') :
    FastState.SameJobs s.toFastState s'.toFastState ∧ s'.priorityJob = s.priorityJob ∧ s'.horizons = s.horizons ∧
      .finishedSubmittingJobs ∉ s'.decision.decisions := by
  cases event with
  | jobSubmitted job => cases hn
  | jobCompleted id => cases hn
  | makeDecisions date => cases hn
  | jobsKilled ids =>
    obtain ⟨t, ht, rfl⟩ := step_handler (by simp) hx
    cases ht
    exact ⟨⟨rfl, rfl, rfl, rfl, rfl, rfl, rfl, rfl⟩, rfl, rfl, by simp⟩
  | requestedCall date id forWhat draws =>
    obtain ⟨t, ht, rfl⟩ := step_handler (by simp) hx
    cases ht
    have h := FastState.onRequestedCall_sameJobs c { s.toFastState with decision := s.decision.clear } date id draws forWhat
    refine ⟨⟨h.1, h.2, h.3, h.4, h.5, h.6, h.7, h.8⟩, rfl, rfl, fun hmem => ?_⟩
    rcases FastState.onRequestedCall_decisions c _ date id draws forWhat hmem with hmem | ⟨_, _, _, hbad⟩
    · simp at hmem
    · cases hbad
  | machinesAvailable machines =>
    obtain ⟨t, ht, rfl⟩ := step_handler (by simp) hx
    cases ht
    exact ⟨⟨rfl, rfl, rfl, rfl, rfl, rfl, rfl, rfl⟩, rfl, rfl, by simp [FastState.onMachineAvailableNotifyEvent]⟩
  | myKillJob victim =>
    obtain ⟨t, ht, rfl⟩ := step_handler (by simp) hx
    cases ht
    rw [FastState.onMyKillJobNotifyEvent]
    split <;> exact ⟨⟨rfl, rfl, rfl, rfl, rfl, rfl, rfl, rfl⟩, rfl, rfl, by simp⟩
  | noMoreStaticJobToSubmit =>
    obtain ⟨t, ht, rfl⟩ := step_handler (by simp) hx
    cases ht
    exact ⟨⟨rfl, rfl, rfl, rfl, rfl, rfl, rfl, rfl⟩, rfl, rfl, by simp⟩

/-- The tables of the scheduler are those of some jobs that run: the machines they hold, and when they end by. -/
structure Tables (s : EasyState) (submitted : List Job) (running : List RunningJob) : Prop where
  submitted : ∀ job, job ∈ submitted ↔ s.workload job.id = some job
  held : (held s.toFastState).Perm (running.map fun r => (r.id, r.machines))
  ends : (ends s).Perm (running.map fun r => (r.id, r.start + walltimeOf s.toFastState r.id))

namespace Tables

variable {submitted : List Job} {running ended : List RunningJob}

/-- Only the workload, the allocations and the points matter. -/
theorem congr (h : Tables s submitted running) (hw : s'.workload = s.workload) (ha : s'.currentAllocations = s.currentAllocations)
    (hp : s'.horizons = s.horizons) : Tables s' submitted running where
  submitted := by rw [hw]; exact h.submitted
  held := by rw [EasyBFFast2.held, ha]; exact h.held
  ends := by
    have hwall : walltimeOf s'.toFastState = walltimeOf s.toFastState := funext fun id => by rw [walltimeOf, hw, walltimeOf]
    rw [EasyBFFast2.ends, hp, hwall]
    exact h.ends

/-- Which of the jobs comes first does not matter. -/
theorem perm (h : Tables s submitted running) {running' : List RunningJob} (hp : running.Perm running') :
    Tables s submitted running' where
  __ := h
  held := h.held.trans (hp.map _)
  ends := h.ends.trans (hp.map _)

/-- No job runs twice. -/
theorem nodup (h : Tables s submitted running) : (running.map (·.id)).Nodup := by
  have hids := (h.held.map Prod.fst).nodup_iff.1 (nodup_held s.toFastState)
  rwa [List.map_map] at hids

/-- What is left of a table when the jobs that ended are taken off it. -/
theorem filter_ended {β : Type} (g : RunningJob → β) (hnodup : ((running ++ ended).map (·.id)).Nodup) :
    ((running ++ ended).map fun r => (r.id, g r)).filter (fun x => x.1 ∉ ended.map (·.id)) = running.map fun r => (r.id, g r) := by
  rw [List.map_append, List.nodup_append] at hnodup
  rw [List.map_append, List.filter_append, List.filter_eq_self.2, List.filter_eq_nil_iff.2, List.append_nil]
  · intro x hx
    obtain ⟨r, hr, rfl⟩ := List.mem_map.1 hx
    simpa using ⟨r, hr, rfl⟩
  · intro x hx
    obtain ⟨r, hr, rfl⟩ := List.mem_map.1 hx
    simp only [decide_eq_true_eq]
    exact fun hmem => hnodup.2.2 r.id (List.mem_map_of_mem hr) r.id hmem rfl

/-- The jobs that ended are taken off the tables. -/
theorem finished {jobs : List Job} (h : Tables s submitted (running ++ ended)) (hall : FinishedAll s jobs s')
    (hjobs : jobs.map Job.id = ended.map (·.id)) : Tables s' submitted running where
  submitted := by rw [hall.workload]; exact h.submitted
  held := by
    have hheld := h.held.filter (fun x => x.1 ∉ ended.map (·.id))
    rw [filter_ended _ h.nodup, EasyBFFast2.held, List.filter_map] at hheld
    rw [EasyBFFast2.held, hall.entries, hjobs]
    exact hheld
  ends := by
    have hwall : walltimeOf s'.toFastState = walltimeOf s.toFastState := funext fun id => by rw [walltimeOf, hall.workload, walltimeOf]
    have hends := h.ends.filter (fun x => x.1 ∉ ended.map (·.id))
    rw [filter_ended _ h.nodup, EasyBFFast2.ends, List.filter_map] at hends
    rw [EasyBFFast2.ends, hall.horizons, hjobs, hwall]
    exact hends

/-- The jobs that are executed are entered into the tables. -/
theorem executed {a b : EasyState × List Job} {new : List (String × IntervalSet)} (h : Tables a.1 submitted running)
    (hprog : Progress date a b new) :
    Tables b.1 submitted (running ++ new.map fun e => { id := e.1, machines := e.2, start := date }) where
  submitted := by rw [hprog.workload]; exact h.submitted
  held := by
    rw [List.map_append]
    exact hprog.held.trans (h.held.append (.of_eq (by simp [Function.comp_def])))
  ends := by
    have hwall : walltimeOf b.1.toFastState = walltimeOf a.1.toFastState :=
      funext fun id => by rw [walltimeOf, hprog.workload, walltimeOf]
    rw [List.map_append, hwall]
    exact hprog.ends.trans (h.ends.append (.of_eq (by simp [Function.comp_def])))

/-- A job that runs is one of the workload. -/
theorem known (h : Tables s submitted running) {waiting : List Job} (hj : FastState.JobsOk s.toFastState waiting) {r : RunningJob}
    (hr : r ∈ running) : ∃ job, s.workload r.id = some job ∧ job.id = r.id := by
  have hmem := h.held.mem_iff.2 (List.mem_map_of_mem (f := fun r => (r.id, r.machines)) hr)
  obtain ⟨e, he, heq⟩ := List.mem_map.1 hmem
  have hid := (Prod.mk.inj heq).1
  exact ⟨e.1, hid ▸ hj.running e he, hid⟩

end Tables

/-- The jobs that the scheduler keeps are those of the platform. -/
structure Tracks (s : EasyState) (p : Platform) : Prop where
  jobs : FastState.JobsOk s.toFastState (waitingJobs s ++ s.jobsReleasedRecently)
  ended : s.jobsEndedRecently.map Job.id = p.reported.map (·.id)
  tables : Tables s p.submitted (p.running ++ p.reported)

/-- The jobs that ended are gone. -/
theorem Tracks.finished {p : Platform} (h : Tracks s p) (hall : FinishedAll s s.jobsEndedRecently s') :
    FastState.JobsOk s'.toFastState (waitingJobs s' ++ s'.jobsReleasedRecently) ∧ Tables s' p.submitted p.running := by
  refine ⟨?_, h.tables.finished hall h.ended⟩
  have hwait : waitingJobs s' ++ s'.jobsReleasedRecently = waitingJobs s ++ s.jobsReleasedRecently := by
    rw [waitingJobs, hall.priority, hall.pending, hall.released, waitingJobs]
  have hmem : ∀ {e}, e ∈ s'.currentAllocations.entries → e ∈ s.currentAllocations.entries := by
    intro e he
    rw [hall.entries] at he
    exact List.mem_of_mem_filter he
  rw [hwait]
  constructor
  case workload => rw [hall.workload]; exact h.jobs.workload
  case ended => rw [hall.workload, hall.ended]; exact h.jobs.ended
  case running => rw [hall.workload]; exact fun e he => h.jobs.running e (hmem he)
  case queued => rw [hall.workload]; exact h.jobs.queued
  case nodup => exact h.jobs.nodup
  case fresh => exact fun job hj e he => h.jobs.fresh job hj e (hmem he)

/-- The jobs to be killed are sent, nothing is executed, and nothing else changes. -/
theorem sendKills_eq (s : EasyState) :
    ∃ d : SchedulingDecision, sendKills s = { s with toFastState := { s.toFastState with decision := d, myKillJobs := ∅ } } ∧
      ∃ decisions, d.decisions = s.decision.decisions ++ decisions ∧ executions decisions = [] ∧
        .finishedSubmittingJobs ∉ decisions ∧ (s.myKillJobs.Nonempty → .killJobs s.myKillJobs ∈ decisions) := by
  have hnone : executions (s.jobsKilledRecently.map .resubmitJob) = [] := by
    simp [executions, List.filterMap_map]
  unfold sendKills FastState.handleNewJobsToKill
  split
  · exact ⟨_, rfl, .killJobs s.myKillJobs :: s.jobsKilledRecently.map .resubmitJob, by simp, hnone, by simp, by simp⟩
  · rename_i hkill
    refine ⟨s.decision.handleResubmission s.jobsKilledRecently, ?_, s.jobsKilledRecently.map .resubmitJob, by simp, hnone,
      by simp, fun h => absurd h hkill⟩
    rw [← Finset.not_nonempty_iff_eq_empty.1 hkill]

/-- The end of a pass changes nothing but what is sent. -/
theorem sendFinished_eq (f : FastState) (date : ℚ) :
    ∃ (d : SchedulingDecision) (need : Bool),
      f.sendFinishedSubmittingJobs date = { f with decision := d, needToSendFinishedSubmittingJobs := need } ∧
      ∃ decisions, d.decisions = f.decision.decisions ++ decisions ∧ executions decisions = [] ∧
        (.finishedSubmittingJobs ∈ decisions → f.runningJobs = ∅) := by
  unfold FastState.sendFinishedSubmittingJobs
  split
  · rename_i hfin
    exact ⟨_, _, rfl, [.finishedSubmittingJobs], rfl, rfl, fun _ => Finset.not_nonempty_iff_eq_empty.1 hfin.2.2.1⟩
  · exact ⟨f.decision, f.needToSendFinishedSubmittingJobs, rfl, [], by simp, rfl, by simp⟩

/-- What a pass executes, it enters into the tables and sends. -/
theorem Tracks.pass {p : Platform} {t u v : EasyState} (h : Tracks s p) (hclear : s.decision.decisions = [])
    (hfinish : Execution.runFrom (finishJob c) s s.jobsEndedRecently = .ok t)
    (hopen : Opening c date (sendKills t) (!s.jobsEndedRecently.isEmpty) t.jobsReleasedRecently u)
    (hacts : Acts c date (u, t.jobsReleasedRecently) (v, [])) :
    FastState.JobsOk v.toFastState (waitingJobs v) ∧
      Tables v p.submitted (p.running ++
        (executions v.decision.decisions).map fun e => { id := e.1, machines := e.2, start := date }) ∧
      .finishedSubmittingJobs ∉ v.decision.decisions := by
  have hall := finishJobs_all hfinish
  obtain ⟨hjobs, htables⟩ := h.finished hall
  obtain ⟨d, hkills, ds, hds, hexec, hfin, -⟩ := sendKills_eq t
  have hsent : FastState.JobsOk (sendKills t).toFastState (waitingJobs (sendKills t) ++ t.jobsReleasedRecently) := by
    rw [hkills]
    exact hjobs.congr rfl rfl rfl
  obtain ⟨new₁, h₁⟩ := hopen.progress hsent
  obtain ⟨new₂, h₂⟩ := Acts.progress hacts h₁.jobs
  have hprog := h₁.trans h₂
  obtain ⟨ds', hds', hexec', hfin'⟩ := hprog.sent
  have hdec : v.decision.decisions = ds ++ ds' := by
    rw [hds', hkills]
    simp only [hds, hall.decision, hclear, List.nil_append]
  have htables' : Tables (sendKills t) p.submitted p.running := by
    rw [hkills]
    exact htables.congr rfl rfl rfl
  refine ⟨by simpa using hprog.jobs, ?_, ?_⟩
  · rw [hdec, executions_append, hexec, hexec', List.nil_append]
    exact Tables.executed htables' hprog
  · rw [hdec, List.mem_append]
    exact not_or.2 ⟨hfin, hfin'⟩

/-- The end of a pass tracks the jobs executed. -/
theorem Tracks.sent {p : Platform} {v : EasyState} (hjobs : FastState.JobsOk v.toFastState (waitingJobs v))
    (htables : Tables v p.submitted (p.running ++
      (executions v.decision.decisions).map fun e => { id := e.1, machines := e.2, start := date })) :
    Tracks { v with toFastState := (v.toFastState.sendFinishedSubmittingJobs date).clearRecentDataStructures }
      ({ p with now := date }.send (v.toFastState.sendFinishedSubmittingJobs date).decision.decisions) := by
  obtain ⟨d, need, heq, ds, hds, hnone, -⟩ := sendFinished_eq v.toFastState date
  rw [heq]
  constructor
  case jobs =>
    simp only [FastState.clearRecentDataStructures, List.append_nil]
    exact { hjobs with ended := by simp }
  case ended => simp [FastState.clearRecentDataStructures, Platform.send]
  case tables =>
    have hnew : executions d.decisions = executions v.decision.decisions := by rw [hds, executions_append, hnone, List.append_nil]
    simp only [Platform.send, List.append_nil, hnew]
    exact htables.congr rfl rfl rfl

/-- What was sent before does not matter. -/
theorem Tracks.clear {p : Platform} (h : Tracks s p) : Tracks { s with decision := s.decision.clear } p :=
  ⟨h.jobs.congr rfl rfl rfl, h.ended, h.tables.congr rfl rfl rfl⟩

/-- A message that tells nothing about the jobs. -/
theorem Tracks.other {p : Platform} {event : FastEvent} {t : EasyState × Platform} (h : Tracks s p)
    (hn : event.notice = .other) (hx : (scheduler c).run (s, p) event = .ok t) : Tracks t.1 t.2 := by
  obtain ⟨s', hs, rfl⟩ := JobScheduler.run_other hn hx
  obtain ⟨hsame, hprio, hpoints, -⟩ := step_other hn hs
  constructor
  case jobs =>
    rw [waitingJobs, hprio, hsame.pending, hsame.released]
    exact h.jobs.congr hsame.workload hsame.ended hsame.allocations
  case ended => rw [hsame.ended, h.ended]
  case tables => exact h.tables.congr hsame.workload hsame.allocations hpoints

/-- A job is submitted. -/
theorem Tracks.submitted {p : Platform} {t : EasyState × Platform} (h : Tracks s p)
    (hx : (scheduler c).run (s, p) (.jobSubmitted job) = .ok t) : Tracks t.1 t.2 := by
  obtain ⟨s', hs, rfl⟩ := JobScheduler.run_submitted rfl hx
  change step c s (.jobSubmitted job) = .ok s' at hs
  obtain ⟨f, hf, rfl⟩ := step_handler (by simp) hs
  change FastState.onJobSubmitted _ job = .ok f at hf
  have hjobs := h.clear.jobs.submitted hf
  rw [FastState.onJobSubmitted] at hf
  split at hf
  · cases hf
  rename_i hnew
  cases hf
  have hother : ∀ r ∈ p.running ++ p.reported, r.id ≠ job.id := by
    intro r hr heq
    obtain ⟨other, ho, -⟩ := h.tables.known h.jobs hr
    rw [heq] at ho
    cases hnew.symm.trans ho
  refine ⟨hjobs.perm ?_, h.ended, ?_, h.tables.held, ?_⟩
  · simp only [waitingJobs, ← List.append_assoc]
    exact List.perm_append_singleton _ _
  · intro other
    rw [List.mem_append, List.mem_singleton, h.tables.submitted]
    by_cases hid : other.id = job.id
    · simp only [hid, Function.update_self, Option.some.injEq]
      rw [show s.workload job.id = none from hnew]
      simp [eq_comm]
    · simp only [ne_eq, hid, not_false_eq_true, Function.update_of_ne]
      exact or_iff_left fun heq => hid (heq ▸ rfl)
  · refine h.tables.ends.trans (.of_eq (List.map_congr_left fun r hr => ?_))
    simp only [walltimeOf]
    rw [Function.update_of_ne (hother r hr)]

/-- The end of a job that runs is reported. -/
theorem Tracks.completed {p : Platform} {t : EasyState × Platform} {id : String} (h : Tracks s p)
    (hx : (scheduler c).run (s, p) (.jobCompleted id) = .ok t) : Tracks t.1 t.2 := by
  obtain ⟨s', r, before, after, hs, hid, hjobs, rfl⟩ := JobScheduler.run_completed rfl hx
  change step c s (.jobCompleted id) = .ok s' at hs
  obtain ⟨f, hf, rfl⟩ := step_handler (by simp) hs
  change FastState.onJobCompleted _ id = .ok f at hf
  have hjobs' := h.clear.jobs.completed hf
  rw [FastState.onJobCompleted] at hf
  split at hf
  · rename_i job hjob
    cases hf
    have htables : Tables s p.submitted (before ++ after ++ (p.reported ++ [r])) := by
      refine h.tables.perm ?_
      rw [hjobs]
      simp only [List.append_assoc]
      refine List.Perm.append_left before ?_
      have hcomm : ([r] ++ (after ++ p.reported)).Perm (after ++ p.reported ++ [r]) := List.perm_append_comm
      simpa using hcomm
    refine ⟨hjobs', ?_, htables.congr rfl rfl rfl⟩
    simp [h.ended, hid, h.jobs.workload id job hjob]
  · cases hf

/-- A pass. -/
theorem Tracks.decided {p : Platform} {t : EasyState × Platform} (h : Tracks s p)
    (hx : (scheduler c).run (s, p) (.makeDecisions date) = .ok t) : Tracks t.1 t.2 := by
  obtain ⟨-, s', hs, rfl⟩ := JobScheduler.run_decided rfl hx
  obtain ⟨w, hw, rfl⟩ := Execution.map_eq_ok.1 hs
  obtain ⟨t, u, v, hfinish, hopen, hacts, rfl⟩ := makeDecisions_acts hw
  obtain ⟨hjobs, htables, -⟩ := h.clear.pass rfl hfinish hopen hacts
  exact Tracks.sent hjobs htables

/-- Every message keeps the jobs of the scheduler those of the platform. -/
theorem Tracks.run {p : Platform} {event : FastEvent} {t : EasyState × Platform} (h : Tracks s p)
    (hx : (scheduler c).run (s, p) event = .ok t) : Tracks t.1 t.2 := by
  cases event with
  | jobSubmitted job => exact h.submitted hx
  | jobCompleted id => exact h.completed hx
  | makeDecisions date => exact h.decided hx
  | jobsKilled ids => exact h.other rfl hx
  | requestedCall date id forWhat draws => exact h.other rfl hx
  | machinesAvailable machines => exact h.other rfl hx
  | myKillJob victim => exact h.other rfl hx
  | noMoreStaticJobToSubmit => exact h.other rfl hx

/-- At the start there are no jobs. -/
theorem tracks_new (c : FastConfig) (date failure : ℚ) : Tracks (new c date failure) (Platform.new date) where
  jobs := by constructor <;> simp [new, FastState.new, waitingJobs]
  ended := rfl
  tables := ⟨by simp [new, FastState.new, Platform.new], .refl _, .refl _⟩

end EasyBFFast2

end ScheduleTest
