import ScheduleTest.ConservativeBf

/-!
# Rejecting the jobs that can never run

At the end of a simulation `conservative_bf` rejects the jobs of the queue if none of them can run. The loop erases a job through its
iterator, takes the iterator to the next job from that, and then advances it once more. So it passes over every second job, and it
advances past the end where the number of jobs is odd.
-/

namespace ScheduleTest

open ConservativeBf

/-- The branch that rejects all remaining jobs is taken: no job is planned, nothing is to come, and no job of the queue can run. -/
def RejectsRemaining (s : ConservativeState) (date : ℚ) : Prop :=
  (!s.killedJobs && s.jobsKilledRecently.isEmpty && s.reservationQueue.isEmpty && s.schedule.size = 0 &&
    s.needToSendFinishedSubmittingJobs && s.noMoreStaticJobToSubmitReceived && ¬ date < 1) = true ∧
  s.queue ≠ [] ∧ ∃ last, s.schedule.profile.getLast? = some last ∧
    ∀ sjob ∈ s.queue, last.availableMachines.card < sjob.job.nbRequestedResources

/-- Every job of the queue is rejected once, and the queue is empty afterwards. -/
def Flushed (s : ConservativeState) (result : Except Abort ConservativeState) : Prop :=
  ∃ s' decisions, result = .ok s' ∧ s'.queue = [] ∧ s'.decision.decisions = s.decision.decisions ++ decisions ∧
    (rejections decisions).Perm (s.queue.jobs.map (·.id))

namespace RejectRemainingAux

variable {s s' : ConservativeState} {date : ℚ}

/-- In the branch the loop runs over the queue. -/
theorem finishSubmitting_eq (h : RejectsRemaining s date) :
    finishSubmitting s date = rejectQueue { s with queue := [] } s.queue := by
  obtain ⟨hidle, hne, last, hlast, hfits⟩ := h
  have hany : (s.queue.any fun sjob => sjob.job.nbRequestedResources ≤ last.availableMachines.card) = false :=
    List.any_eq_false.2 fun sjob hmem => by simpa using hfits sjob hmem
  unfold finishSubmitting
  dsimp only
  rw [if_pos hidle, if_neg (by simpa using hne), hlast]
  dsimp only
  rw [hany, if_neg Bool.false_ne_true]

/-- The loop leaves a job behind, or goes past the end. -/
theorem rejectQueue_queue_ne_nil {sjobs : List SortableJob} (hne : sjobs ≠ []) (hx : rejectQueue s sjobs = .ok s') :
    s'.queue ≠ [] := by
  cases sjobs with
  | nil => exact absurd rfl hne
  | cons sjob rest =>
    cases rest with
    | nil => cases hx
    | cons skipped rest =>
      rw [rejectQueue] at hx
      obtain ⟨t, _, rfl⟩ := Execution.map_eq_ok.1 hx
      exact List.cons_ne_nil skipped t.queue

theorem jobs_map_id (queue : Queue) : queue.jobs.map (·.id) = queue.map (·.job.id) := List.map_map

/-- Where the end is followed by the first element, every job is rejected once or is still in the queue. -/
theorem rejectQueueCircular_rejections (s : ConservativeState) (sjobs skipped : List SortableJob) :
    ∃ decisions, (rejectQueueCircular s sjobs skipped).decision.decisions = s.decision.decisions ++ decisions ∧
      (rejections decisions ++ (rejectQueueCircular s sjobs skipped).queue.jobs.map (·.id)).Perm
        ((sjobs ++ skipped).map (·.job.id)) := by
  induction s, sjobs, skipped using rejectQueueCircular.induct with
  | case1 s skipped =>
    rw [rejectQueueCircular]
    exact ⟨[], by simp, by simp [jobs_map_id]⟩
  | case2 s sjob skipped ih =>
    rw [rejectQueueCircular]
    obtain ⟨decisions, heq, hperm⟩ := ih
    refine ⟨.rejectJob sjob.job.id :: decisions, ?_, ?_⟩
    · rw [heq, SchedulingDecision.decisions_add, List.append_assoc, List.singleton_append]
    · rw [List.append_nil] at hperm
      exact hperm.cons sjob.job.id
  | case3 s sjob next rest skipped ih =>
    rw [rejectQueueCircular]
    obtain ⟨decisions, heq, hperm⟩ := ih
    refine ⟨.rejectJob sjob.job.id :: decisions, ?_, ?_⟩
    · rw [heq, SchedulingDecision.decisions_add, List.append_assoc, List.singleton_append]
    · refine (hperm.cons sjob.job.id).trans ?_
      have hmoved : (rest ++ (skipped ++ [next])).Perm (next :: (rest ++ skipped)) := by
        rw [← List.append_assoc]
        exact List.perm_append_singleton next _
      exact (hmoved.map (·.job.id)).cons sjob.job.id

/-- It empties the queue exactly when every round but the last leaves an odd number of jobs. -/
theorem rejectQueueCircular_queue_eq_nil (s : ConservativeState) (sjobs skipped : List SortableJob) :
    (rejectQueueCircular s sjobs skipped).queue = [] ↔ sjobs.length = 0 ∧ skipped.length = 0 ∨
      sjobs.length % 2 = 1 ∧ ∃ k, 2 * skipped.length + sjobs.length + 1 = 2 ^ (k + 1) := by
  induction s, sjobs, skipped using rejectQueueCircular.induct with
  | case1 s skipped =>
    rw [rejectQueueCircular]
    simp
  | case2 s sjob skipped ih =>
    rw [rejectQueueCircular, ih]
    simp only [List.length_nil, List.length_singleton, pow_succ]
    constructor
    · rintro (⟨hnone, _⟩ | ⟨_, k, hk⟩)
      · exact .inr ⟨trivial, 0, by omega⟩
      · exact .inr ⟨trivial, k + 1, by rw [pow_succ]; omega⟩
    · rintro (⟨hnone, _⟩ | ⟨_, k, hk⟩)
      · omega
      · cases k with
        | zero => exact .inl ⟨by omega, trivial⟩
        | succ k =>
          rw [pow_succ] at hk
          exact .inr ⟨by omega, k, by omega⟩
  | case3 s sjob next rest skipped ih =>
    rw [rejectQueueCircular, ih]
    simp only [List.length_cons, List.length_append, List.length_nil]
    constructor
    · rintro (⟨_, hnone⟩ | ⟨hodd, k, hk⟩)
      · omega
      · exact .inr ⟨by omega, k, by omega⟩
    · rintro (⟨hnone, _⟩ | ⟨hodd, k, hk⟩)
      · omega
      · exact .inr ⟨by omega, k, by omega⟩

end RejectRemainingAux

open RejectRemainingAux in
/-- The branch that rejects all remaining jobs never does: it leaves every second job in the queue or advances past the end. Where
the end of a list is followed by its first element, it goes on from there, and rejects all jobs exactly when their number is one less
than a power of two. -/
theorem finishSubmitting_flushes_iff (s : ConservativeState) (date : ℚ) (h : RejectsRemaining s date) :
    ¬ Flushed s (finishSubmitting s date) ∧
      (Flushed s (.ok (rejectQueueCircular { s with queue := [] } s.queue [])) ↔ ∃ k, s.queue.length + 1 = 2 ^ k) := by
  have hempty := rejectQueueCircular_queue_eq_nil { s with queue := [] } s.queue []
  have hlength : s.queue.length ≠ 0 := by simpa using h.2.1
  constructor
  · rintro ⟨s', decisions, hx, hqueue, _⟩
    rw [finishSubmitting_eq h] at hx
    exact rejectQueue_queue_ne_nil h.2.1 hx hqueue
  · simp only [List.length_nil, pow_succ] at hempty
    constructor
    · rintro ⟨s', decisions, hx, hqueue, _⟩
      rw [← Except.ok.inj hx] at hqueue
      obtain ⟨hnone, _⟩ | ⟨_, k, hk⟩ := hempty.1 hqueue
      · exact absurd hnone hlength
      · exact ⟨k + 1, by rw [pow_succ]; omega⟩
    · rintro ⟨k, hk⟩
      have hqueue : (rejectQueueCircular { s with queue := [] } s.queue []).queue = [] := by
        refine hempty.2 (.inr ?_)
        cases k with
        | zero => omega
        | succ k =>
          rw [pow_succ] at hk
          exact ⟨by omega, k, by omega⟩
      obtain ⟨decisions, heq, hperm⟩ := rejectQueueCircular_rejections { s with queue := [] } s.queue []
      refine ⟨_, decisions, rfl, hqueue, heq, ?_⟩
      simpa [hqueue, jobs_map_id] using hperm

namespace RejectRemainingWitness

/-- One machine, under repair, and jobs that wait for it, with no more to come. -/
def idle (ids : List String) : ConservativeState where
  schedule := ((Schedule.new 1 0).addRepairMachine {0}).1
  queue := ids.map fun id => { job := { id := id, nbRequestedResources := 1, walltime := 10 }, releaseDate := 0 }
  noMoreStaticJobToSubmitReceived := true

def config (pointerOrder : Sorter fun _ _ : Job => True) : ConservativeConfig where
  nbMachines := 1
  smtbf := 50
  repairTime := 100
  pointerOrder := pointerOrder

def draws : Draws where
  number := 0
  failure := 1000
  repair := 0
  victim := ""

/-- Two jobs are submitted, and the machine fails before they can start. -/
def events : List ConservativeEvent :=
  [.jobSubmitted { id := "w!1", nbRequestedResources := 1, walltime := 10 },
    .jobSubmitted { id := "w!2", nbRequestedResources := 1, walltime := 10 }, .requestedCall 2 1 .smtbf draws,
    .noMoreStaticJobToSubmit, .makeDecisions 2 2 (fun _ => draws) fun _ => draws]

end RejectRemainingWitness

open RejectRemainingWitness in
/-- Three jobs. -/
theorem finishSubmitting_flushes_iff_witness :
    ¬ Flushed (idle ["w!1", "w!2", "w!3"]) (finishSubmitting (idle ["w!1", "w!2", "w!3"]) 2) ∧
      Flushed (idle ["w!1", "w!2", "w!3"])
        (.ok (rejectQueueCircular { idle ["w!1", "w!2", "w!3"] with queue := [] } (idle ["w!1", "w!2", "w!3"]).queue [])) := by
  have hbranch : RejectsRemaining (idle ["w!1", "w!2", "w!3"]) 2 := ⟨by decide, by decide, _, rfl, by decide⟩
  obtain ⟨hnever, hiff⟩ := finishSubmitting_flushes_iff (idle ["w!1", "w!2", "w!3"]) 2 hbranch
  exact ⟨hnever, hiff.2 ⟨2, rfl⟩⟩

open RejectRemainingWitness in
/-- Of two jobs the first is rejected, and the other stays in the queue. -/
theorem finishSubmitting_flushes_false :
    ¬ ∀ (s : ConservativeState) (date : ℚ), RejectsRemaining s date → Flushed s (finishSubmitting s date) := by
  intro h
  have hbranch : RejectsRemaining (idle ["w!1", "w!2"]) 2 := ⟨by decide, by decide, _, rfl, by decide⟩
  obtain ⟨s', decisions, hx, hqueue, _⟩ := h _ _ hbranch
  have hleft : (finishSubmitting (idle ["w!1", "w!2"]) 2).toOption.map (fun s => s.queue.map (·.job.id)) = some ["w!2"] := by
    decide +kernel
  obtain ⟨t, ht, heq⟩ := Execution.toOption_map_eq_some.1 hleft
  rw [Except.ok.inj (hx.symm.trans ht)] at hqueue
  rw [hqueue] at heq
  cases heq

open RejectRemainingWitness in
/-- A run that comes to this branch with two jobs. -/
example :
    let c := config ⟨id, .refl, fun _ => List.pairwise_of_forall fun _ _ => trivial⟩
    (Execution.runFrom (ConservativeBf.step c) (ConservativeBf.new c 0 1) events).toOption.map
      (fun s => (s.queue.map (·.job.id), rejections s.decision.decisions)) = some (["w!2"], ["w!1"]) := by
  decide +kernel

end ScheduleTest
