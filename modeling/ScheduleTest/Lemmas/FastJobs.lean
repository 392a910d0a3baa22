import ScheduleTest.Lemmas.FastMachines

/-!
# The jobs of a fast scheduler

A job is submitted once, and then waits, runs, or has ended: the jobs that wait in the queues have different ids and none of them
is in the table of the allocations. So the job that a scheduler executes is never in the table already.
-/

namespace ScheduleTest.FastState

/-- The jobs of the workload and those that wait, wherever they do. -/
structure JobsOk (s : FastState) (waiting : List Job) : Prop where
  workload : ∀ id job, s.workload id = some job → job.id = id
  ended : ∀ job ∈ s.jobsEndedRecently, s.workload job.id = some job
  running : ∀ e ∈ s.currentAllocations.entries, s.workload e.1.id = some e.1
  queued : ∀ job ∈ waiting, s.workload job.id = some job
  nodup : (waiting.map Job.id).Nodup
  fresh : ∀ job ∈ waiting, s.Fresh job

variable {c : FastConfig} {s s' : FastState} {job : Job} {waiting : List Job}

/-- What a requested call leaves as it is: the jobs, and which of them run where. -/
structure SameJobs (s s' : FastState) : Prop where
  pending : s'.pendingJobs = s.pendingJobs
  released : s'.jobsReleasedRecently = s.jobsReleasedRecently
  ended : s'.jobsEndedRecently = s.jobsEndedRecently
  workload : s'.workload = s.workload
  allocations : s'.currentAllocations = s.currentAllocations
  core : s'.availableCoreMachines = s.availableCoreMachines
  running : s'.runningJobs = s.runningJobs
  cores : s'.coresAvailable = s.coresAvailable

theorem onFailure_sameJobs (c : FastConfig) (s : FastState) (date : ℚ) (draws : Draws) :
    SameJobs s (s.onFailure c date draws) := by
  simp only [onFailure, onMachineInstantDownUp, onMachineDownForRepair]
  split_ifs <;> exact ⟨rfl, rfl, rfl, rfl, rfl, rfl, rfl, rfl⟩

theorem onRequestedCall_sameJobs (c : FastConfig) (s : FastState) (date : ℚ) (id : ℕ) (draws : Draws)
    (forWhat : CallMeLaterType) : SameJobs s (s.onRequestedCall c date id draws forWhat) := by
  have hrefl : SameJobs s s := ⟨rfl, rfl, rfl, rfl, rfl, rfl, rfl, rfl⟩
  have hfailure := onFailure_sameJobs c s date draws
  cases forWhat with
  | smtbf =>
    rw [onRequestedCall]
    split
    · exact ⟨hfailure.1, hfailure.2, hfailure.3, hfailure.4, hfailure.5, hfailure.6, hfailure.7,
        hfailure.8⟩
    · exact hrefl
  | fixedFailure =>
    rw [onRequestedCall]
    split
    · exact ⟨hfailure.1, hfailure.2, hfailure.3, hfailure.4, hfailure.5, hfailure.6, hfailure.7,
        hfailure.8⟩
    · exact hrefl
  | mtbf =>
    simp only [onRequestedCall, onMyKillJobNotifyEvent]
    split_ifs <;> exact ⟨rfl, rfl, rfl, rfl, rfl, rfl, rfl, rfl⟩
  | repairDone => exact ⟨rfl, rfl, rfl, rfl, rfl, rfl, rfl, rfl⟩
  | reservationStart => exact hrefl
  | checkpointBatsched => exact hrefl
  | recoverFromCheckpoint => exact hrefl

/-- A requested call asks for more calls and sends nothing else. -/
theorem onRequestedCall_decisions (c : FastConfig) (s : FastState) (date : ℚ) (id : ℕ) (draws : Draws)
    (forWhat : CallMeLaterType) {d : Decision} (hd : d ∈ (s.onRequestedCall c date id draws forWhat).decision.decisions) :
    d ∈ s.decision.decisions ∨ ∃ what n time, d = .callMeLater what n time := by
  cases forWhat <;> simp only [onRequestedCall, onFailure, onMachineInstantDownUp, onMachineDownForRepair,
    onMyKillJobNotifyEvent, onRepairDone, askAgain, SchedulingDecision.addCallMeLater] at hd
  case smtbf => split_ifs at hd <;> grind
  case mtbf => split_ifs at hd <;> grind
  case fixedFailure => split_ifs at hd <;> grind
  all_goals exact .inl hd

namespace JobsOk

/-- The order in which jobs wait does not matter. -/
theorem perm (h : JobsOk s waiting) {waiting' : List Job} (hp : waiting'.Perm waiting) : JobsOk s waiting' where
  __ := h
  queued := fun job hj => h.queued job (hp.mem_iff.1 hj)
  nodup := (hp.map _).nodup_iff.2 h.nodup
  fresh := fun job hj => h.fresh job (hp.mem_iff.1 hj)

/-- A job may be dropped. -/
theorem drop (h : JobsOk s (job :: waiting)) : JobsOk s waiting where
  __ := h
  queued := fun job hj => h.queued job (List.mem_cons_of_mem _ hj)
  nodup := (List.nodup_cons.1 h.nodup).2
  fresh := fun job hj => h.fresh job (List.mem_cons_of_mem _ hj)

/-- Only the workload, the jobs that ended and the allocations matter. -/
theorem congr (h : JobsOk s waiting) (hw : s'.workload = s.workload) (he : s'.jobsEndedRecently = s.jobsEndedRecently)
    (ha : s'.currentAllocations = s.currentAllocations) : JobsOk s' waiting where
  workload := hw ▸ h.workload
  ended := by rw [hw, he]; exact h.ended
  running := by rw [hw, ha]; exact h.running
  queued := by rw [hw]; exact h.queued
  nodup := h.nodup
  fresh := fun job hj => by rw [Fresh, ha]; exact h.fresh job hj

/-- A waiting job that is entered into the table no longer waits. -/
theorem inserted {machines : IntervalSet} (h : JobsOk s (job :: waiting)) (hw : s'.workload = s.workload)
    (he : s'.jobsEndedRecently = s.jobsEndedRecently)
    (ha : s'.currentAllocations = s.currentAllocations.insert job machines) : JobsOk s' waiting where
  workload := hw ▸ h.workload
  ended := by rw [hw, he]; exact h.ended
  running := by
    intro e he
    rw [ha, KeyedMap.mem_insert_of_new (h.fresh job List.mem_cons_self)] at he
    rw [hw]
    rcases he with rfl | he
    · exact h.queued job List.mem_cons_self
    · exact h.running e he
  queued := by
    intro other ho
    rw [hw]
    exact h.queued other (List.mem_cons_of_mem _ ho)
  nodup := (List.nodup_cons.1 h.nodup).2
  fresh := by
    intro other ho e he
    rw [ha, KeyedMap.mem_insert_of_new (h.fresh job List.mem_cons_self)] at he
    rcases he with rfl | he
    · intro heq
      exact (List.nodup_cons.1 h.nodup).1 (List.mem_map.2 ⟨other, ho, heq.symm⟩)
    · exact h.fresh other (List.mem_cons_of_mem _ ho) e he

/-- A waiting job that is executed no longer waits. -/
theorem executed {machines : IntervalSet} (h : JobsOk s (job :: waiting)) (hx : Executed c s job machines s') :
    JobsOk s' waiting :=
  h.inserted hx.workload hx.ended hx.allocations

/-- A job that ends leaves the table. -/
theorem finished (h : JobsOk s waiting) (hw : s'.workload = s.workload) (he : s'.jobsEndedRecently = s.jobsEndedRecently)
    (ha : s'.currentAllocations = s.currentAllocations.erase job) : JobsOk s' waiting where
  workload := hw ▸ h.workload
  ended := by rw [hw, he]; exact h.ended
  running := by
    intro e hmem
    rw [ha, KeyedMap.mem_erase] at hmem
    rw [hw]
    exact h.running e hmem.1
  queued := by rw [hw]; exact h.queued
  nodup := h.nodup
  fresh := by
    intro other ho e hmem
    rw [ha, KeyedMap.mem_erase] at hmem
    exact h.fresh other ho e hmem.1

/-- A job that has ended is in the table under its id, or nothing is. -/
theorem entry (h : JobsOk s waiting) (hj : s.workload job.id = some job) :
    (∃ machines, (job, machines) ∈ s.currentAllocations.entries) ∨
      s.currentAllocations.find? job = none ∧ s.currentAllocations.erase job = s.currentAllocations := by
  by_cases hin : ∃ e ∈ s.currentAllocations.entries, e.1.id = job.id
  · obtain ⟨e, he, hid⟩ := hin
    have heq : e.1 = job := by
      have hr := h.running e he
      rw [hid, hj] at hr
      exact (Option.some.inj hr).symm
    exact .inl ⟨e.2, heq ▸ he⟩
  · have hnone : ∀ e ∈ s.currentAllocations.entries, e.1.id ≠ job.id := fun e he hid => hin ⟨e, he, hid⟩
    exact .inr ⟨KeyedMap.find?_eq_none.2 hnone, KeyedMap.erase_of_new hnone⟩

/-- A job of a new id is submitted. -/
theorem submitted (h : JobsOk s waiting) (hx : s.onJobSubmitted job = .ok s') : JobsOk s' (job :: waiting) := by
  rw [onJobSubmitted] at hx
  split at hx
  · nomatch hx
  rename_i hnew
  cases hx
  have hother : ∀ {other : Job}, s.workload other.id = some other → other.id ≠ job.id := by
    intro other ho heq
    rw [heq, hnew] at ho
    exact nomatch ho
  have hkeep : ∀ other : Job, s.workload other.id = some other →
      Function.update s.workload job.id (some job) other.id = some other := by
    intro other ho
    rw [Function.update_of_ne (hother ho), ho]
  constructor
  case workload =>
    intro id other ho
    dsimp only at ho
    by_cases hid : id = job.id
    · subst hid
      rw [Function.update_self] at ho
      exact congrArg Job.id (Option.some.inj ho).symm
    · rw [Function.update_of_ne hid] at ho
      exact h.workload id other ho
  case ended => exact fun other ho => hkeep other (h.ended other ho)
  case running => exact fun e he => hkeep e.1 (h.running e he)
  case queued =>
    intro other ho
    rcases List.mem_cons.1 ho with rfl | ho
    · exact Function.update_self ..
    · exact hkeep other (h.queued other ho)
  case nodup =>
    refine List.nodup_cons.2 ⟨fun hmem => ?_, h.nodup⟩
    obtain ⟨other, ho, heq⟩ := List.mem_map.1 hmem
    exact hother (h.queued other ho) heq
  case fresh =>
    intro other ho
    rcases List.mem_cons.1 ho with rfl | ho
    · exact fun e he => hother (h.running e he)
    · exact h.fresh other ho

/-- The end of a job is reported. -/
theorem completed (h : JobsOk s waiting) {id : String} (hx : s.onJobCompleted id = .ok s') : JobsOk s' waiting := by
  rw [onJobCompleted] at hx
  split at hx
  · rename_i job hj
    cases hx
    refine { h with ended := fun other ho => ?_ }
    rcases List.mem_append.1 ho with ho | ho
    · exact h.ended other ho
    · obtain rfl := List.mem_singleton.1 ho
      exact (h.workload id other hj).symm ▸ hj
  · nomatch hx

end JobsOk

end ScheduleTest.FastState
