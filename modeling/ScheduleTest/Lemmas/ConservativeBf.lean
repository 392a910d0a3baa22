import ScheduleTest.ConservativeBf
import ScheduleTest.Lemmas.Exclusive

/-!
# Passes of conservative_bf without reservations

`Pass` is what holds in the middle of a pass: the jobs that run when the decisions made so far are carried out, less those killed,
are in the first slice on their machines; no other job waits under their ids; and the execute decisions so far have been exclusive.
Each part of a pass places jobs, takes jobs out of the schedule that do not run, kills jobs, or takes a machine for repair.
-/

namespace ScheduleTest

open Execution

/-- What each execute decision of a step gives a job, where some jobs run already and some have been killed: as many machines as the
job requests, none under repair, and none of a job that runs and has not been killed. -/
structure ExecutesExclusively (running : List (String × IntervalSet)) (killed : Finset String) (decisions : List Decision)
    (noted : List JobExecution) : Prop where
  agree : noted.map (fun e => (e.job.id, e.machines)) = executions decisions
  size : ∀ e ∈ noted, e.machines.card = e.job.nbRequestedResources
  repair : ∀ e ∈ noted, Disjoint e.machines e.repairMachines
  exclusive : ∀ before id machines after, decisions = before ++ .executeJob id machines :: after →
    ∀ e ∈ running ++ executions before, e.1 ∉ killed ∪ kills before → Disjoint machines e.2

namespace ConservativeAux

open ConservativeBf

variable {W : NamedJobs} {c : ConservativeConfig} {s s' : ConservativeState} {base : List (String × IntervalSet)}
  {killed : Finset String} {known : String → Option Job} {released : List Job} {job : Job} {date currentDate : ℚ}

/-- The part of the state that tells which jobs run and wait. -/
structure Board where
  schedule : Schedule
  queue : Queue
  decision : SchedulingDecision
  executions : List JobExecution
  workload : String → Option Job
  jobsReleasedRecently : List Job
  resubmittedJobsReleased : List Job
  savedReservations : List ReservedTimeSlice
  savedRecentlyQueuedJobs : List Job
  startAReservation : Bool

def boardOf (s : ConservativeState) : Board where
  schedule := s.schedule
  queue := s.queue
  decision := s.decision
  executions := s.executions
  workload := s.workload
  jobsReleasedRecently := s.jobsReleasedRecently
  resubmittedJobsReleased := s.resubmittedJobsReleased
  savedReservations := s.savedReservations
  savedRecentlyQueuedJobs := s.savedRecentlyQueuedJobs
  startAReservation := s.startAReservation

variable {b : Board}

/-- No call is asked for to start a reservation. -/
def CallsOrdinary (d : SchedulingDecision) : Prop := ∀ id call, d.callMeLaters id = some call → call.forWhat ≠ .reservationStart

theorem CallsOrdinary.addCallMeLater {d : SchedulingDecision} {forWhat : CallMeLaterType} {id : ℕ} {time : ℚ} (h : CallsOrdinary d)
    (hwhat : forWhat ≠ .reservationStart) : CallsOrdinary (d.addCallMeLater forWhat id time) := by
  intro id' call hcall
  simp only [SchedulingDecision.addCallMeLater] at hcall
  by_cases heq : id' = d.nbCallMeLaters
  · subst heq
    rw [Function.update_self] at hcall
    cases hcall
    exact hwhat
  · rw [Function.update_of_ne heq] at hcall
    exact h id' call hcall

/-- The jobs that run when the decisions made so far are carried out, and have not been killed. -/
def heldBy (base : List (String × IntervalSet)) (killed : Finset String) (decisions : List Decision) : List (String × IntervalSet) :=
  (base ++ executions decisions).filter fun e => e.1 ∉ killed ∪ kills decisions

/-- The state in the middle of a pass, with the jobs released that are still to be queued. -/
structure Pass (W : NamedJobs) (known : String → Option Job) (base : List (String × IntervalSet)) (killed : Finset String)
    (released : List Job) (b : Board) : Prop where
  holds : HoldsNow W b.schedule (heldBy base killed b.decision.decisions)
  jobs : ∀ job ∈ b.queue.jobs ++ released, job ∈ W.jobs
  distinct : ((b.queue.jobs ++ released).map (·.id) ++ (base ++ executions b.decision.decisions).map (·.1)).Nodup
  executes : ExecutesExclusively base killed b.decision.decisions b.executions
  executed : ∀ e ∈ b.executions, e.job ∈ W.jobs
  workload : b.workload = known
  recent : ∀ job ∈ b.jobsReleasedRecently, job ∈ W.jobs
  resubmitted : ∀ job ∈ b.resubmittedJobsReleased, job ∈ W.jobs
  quiet : b.savedReservations = [] ∧ b.savedRecentlyQueuedJobs = [] ∧ b.startAReservation = false
  calls : CallsOrdinary b.decision

/-- A decision that neither executes nor kills jobs. -/
def IsSilent (d : Decision) : Prop := executions [d] = [] ∧ kills [d] = ∅

theorem kills_append {decisions decisions' : List Decision} : kills (decisions ++ decisions') = kills decisions ∪ kills decisions' := by
  ext id
  simp only [Finset.mem_union, mem_kills, List.mem_append]
  constructor
  · rintro ⟨ids, hd | hd, hid⟩
    · exact .inl ⟨ids, hd, hid⟩
    · exact .inr ⟨ids, hd, hid⟩
  · rintro (⟨ids, hd, hid⟩ | ⟨ids, hd, hid⟩)
    · exact ⟨ids, .inl hd, hid⟩
    · exact ⟨ids, .inr hd, hid⟩

end ConservativeAux

namespace ExecutesExclusively

open ConservativeAux

variable {running : List (String × IntervalSet)} {killed : Finset String} {decisions : List Decision} {noted : List JobExecution}

/-- The last decision of a list is the one looked at, or that one is among the others. -/
private theorem split_snoc {d x : Decision} {before after : List Decision} (h : decisions ++ [d] = before ++ x :: after) :
    (before = decisions ∧ x = d) ∨ ∃ after', decisions = before ++ x :: after' := by
  rcases List.eq_nil_or_concat after with rfl | ⟨after', y, rfl⟩
  · obtain ⟨h1, h2⟩ := List.append_inj' h rfl
    exact .inl ⟨h1.symm, (List.cons.inj h2).1.symm⟩
  · rw [List.concat_eq_append, ← List.cons_append, ← List.append_assoc] at h
    exact .inr ⟨after', (List.append_inj' h rfl).1⟩

/-- Where no job is executed, there is nothing to see. -/
theorem of_silent (h : executions decisions = []) : ExecutesExclusively running killed decisions [] where
  agree := h.symm
  size := nofun
  repair := nofun
  exclusive := by
    rintro before id machines after rfl
    simp [executions] at h

/-- A decision that does not execute a job changes nothing. -/
theorem note {d : Decision} (h : ExecutesExclusively running killed decisions noted) (hd : executions [d] = []) :
    ExecutesExclusively running killed (decisions ++ [d]) noted where
  agree := by rw [executions_append, hd, List.append_nil, h.agree]
  size := h.size
  repair := h.repair
  exclusive := by
    intro before id machines after heq
    rcases split_snoc heq with ⟨_, rfl⟩ | ⟨after', heq'⟩
    · cases hd
    · exact h.exclusive before id machines after' heq'

/-- A job is executed on machines that are free. -/
theorem execute {job : Job} {machines repair : IntervalSet} (h : ExecutesExclusively running killed decisions noted)
    (hsize : machines.card = job.nbRequestedResources) (hrepair : Disjoint machines repair)
    (hfree : ∀ e ∈ heldBy running killed decisions, Disjoint machines e.2) :
    ExecutesExclusively running killed (decisions ++ [.executeJob job.id machines])
      (noted ++ [{ job := job, machines := machines, repairMachines := repair }]) where
  agree := by simp [h.agree]
  size := by
    intro e he
    rcases List.mem_append.1 he with he | he
    · exact h.size e he
    · obtain rfl := List.mem_singleton.1 he
      exact hsize
  repair := by
    intro e he
    rcases List.mem_append.1 he with he | he
    · exact h.repair e he
    · obtain rfl := List.mem_singleton.1 he
      exact hrepair
  exclusive := by
    intro before id ms after heq e he hnot
    rcases split_snoc heq with ⟨rfl, hd⟩ | ⟨after', heq'⟩
    · cases hd
      exact hfree e (List.mem_filter.2 ⟨he, by simpa using hnot⟩)
    · exact h.exclusive before id ms after' heq' e he hnot

end ExecutesExclusively

namespace ConservativeAux

open ConservativeBf

variable {W : NamedJobs} {c : ConservativeConfig} {s s' : ConservativeState} {base : List (String × IntervalSet)}
  {killed : Finset String} {known : String → Option Job} {released : List Job} {job : Job} {date currentDate : ℚ} {b : Board}

namespace Pass

/-- A job of the queue does not run. -/
theorem notMem_held (h : Pass W known base killed released b) (hmem : job ∈ b.queue.jobs) :
    job.id ∉ (heldBy base killed b.decision.decisions).map (·.1) := by
  intro hheld
  obtain ⟨e, he, hid⟩ := List.mem_map.1 hheld
  refine (List.nodup_append.1 h.distinct).2.2 job.id
    (List.mem_map_of_mem (f := fun job : Job => job.id) (List.mem_append_left released hmem)) e.1 ?_ hid.symm
  exact List.mem_map_of_mem (List.mem_filter.1 he).1

/-- The jobs of the queue have different ids. -/
theorem nodup_queue (h : Pass W known base killed released b) : (b.queue.jobs.map (·.id)).Nodup := by
  have hdistinct := (List.nodup_append.1 h.distinct).1
  rw [List.map_append] at hdistinct
  exact (List.nodup_append.1 hdistinct).1

/-- Decisions that neither execute nor kill jobs. -/
theorem note {d : SchedulingDecision} {decision : Decision} (h : Pass W known base killed released b) (hsilent : IsSilent decision)
    (hd : d.decisions = b.decision.decisions ++ [decision])
    (hcalls : CallsOrdinary d) :
    Pass W known base killed released { b with decision := d } := by
  have hexecutions : executions d.decisions = executions b.decision.decisions := by
    rw [hd, executions_append, hsilent.1, List.append_nil]
  have hkills : kills d.decisions = kills b.decision.decisions := by
    rw [hd, kills_append, hsilent.2, Finset.union_empty]
  refine ⟨?_, h.jobs, ?_, ?_, h.executed, h.workload, h.recent, h.resubmitted, h.quiet, hcalls⟩
  · have hheld : heldBy base killed d.decisions = heldBy base killed b.decision.decisions := by
      rw [heldBy, hexecutions, hkills, heldBy]
    exact hheld ▸ h.holds
  · exact hexecutions ▸ h.distinct
  · exact hd ▸ h.executes.note hsilent.1

/-- A job that does not run leaves the schedule. -/
theorem remove {schedule : Schedule} {removed : Bool} (h : Pass W known base killed released b)
    (hfree : job.id ∉ (heldBy base killed b.decision.decisions).map (·.1))
    (hr : b.schedule.removeJobIfExists job = .ok (schedule, removed)) :
    Pass W known base killed released { b with schedule := schedule } := by
  refine ⟨?_, h.jobs, h.distinct, h.executes, h.executed, h.workload, h.recent, h.resubmitted, h.quiet, h.calls⟩
  refine (h.holds.removeIfExists hr).subset fun e he => List.mem_filter.2 ⟨he, ?_⟩
  have hne : e.1 ≠ job.id := fun heq => hfree (heq ▸ List.mem_map_of_mem he)
  simpa using hne

/-- Jobs that do not run leave the schedule. -/
theorem removeJobs {schedule : Schedule} {jobs : List Job} (h : Pass W known base killed released b)
    (hfree : ∀ job ∈ jobs, job.id ∉ (heldBy base killed b.decision.decisions).map (·.1))
    (hr : b.schedule.removeJobs jobs = .ok schedule) : Pass W known base killed released { b with schedule := schedule } := by
  induction jobs generalizing b with
  | nil =>
    cases hr
    exact h
  | cons job jobs ih =>
    rw [Schedule.removeJobs] at hr
    split at hr
    · rename_i schedule₁ removed h1
      have hremoved := h.remove (hfree job List.mem_cons_self) h1
      exact ih (b := { b with schedule := schedule₁ }) hremoved (fun other ho => hfree other (List.mem_cons_of_mem _ ho)) hr
    · cases hr

theorem removeJobsStrictly {schedule : Schedule} {jobs : List Job} (h : Pass W known base killed released b)
    (hfree : ∀ job ∈ jobs, job.id ∉ (heldBy base killed b.decision.decisions).map (·.1))
    (hr : runFrom Schedule.removeJob b.schedule jobs = .ok schedule) :
    Pass W known base killed released { b with schedule := schedule } := by
  induction jobs generalizing b with
  | nil =>
    cases hr
    exact h
  | cons job jobs ih =>
    obtain ⟨schedule₁, h1, h2⟩ := of_runFrom_cons hr
    have hremoved := h.remove (hfree job List.mem_cons_self) (Schedule.removeJob_ok h1)
    exact ih (b := { b with schedule := schedule₁ }) hremoved (fun other ho => hfree other (List.mem_cons_of_mem _ ho)) h2

/-- A job is planned. -/
theorem place {schedule : Schedule} {alloc : JobAlloc} (h : Pass W known base killed released b) (hjob : job ∈ W.jobs)
    (ha : b.schedule.addJobFirstFit job false = .ok (schedule, alloc)) :
    Pass W known base killed released { b with schedule := schedule } :=
  ⟨h.holds.place hjob ha, h.jobs, h.distinct, h.executes, h.executed, h.workload, h.recent, h.resubmitted, h.quiet, h.calls⟩

/-- The queue may be put into another order, or lose jobs. -/
theorem requeue {queue : Queue} (h : Pass W known base killed released b) (hsub : List.Subperm queue.jobs b.queue.jobs) :
    Pass W known base killed released { b with queue := queue } := by
  refine ⟨h.holds, fun job hmem => h.jobs job ?_, ?_, h.executes, h.executed, h.workload, h.recent, h.resubmitted, h.quiet, h.calls⟩
  · rcases List.mem_append.1 hmem with hmem | hmem
    · exact List.mem_append_left _ (hsub.subset hmem)
    · exact List.mem_append_right _ hmem
  · obtain ⟨jobs, hperm, hjobs⟩ := hsub
    have hids := ((hperm.append_right released).map (·.id)).append_right ((base ++ executions b.decision.decisions).map (·.1))
    refine hids.nodup_iff.1 (h.distinct.sublist ?_)
    exact List.Sublist.append_right (List.Sublist.map _ (List.Sublist.append_right hjobs _)) _

/-- A job of the queue that is placed in the first slice is executed. -/
theorem execute {schedule : Schedule} {alloc : JobAlloc} {queue : Queue} (h : Pass W known base killed released b)
    (ha : b.schedule.addJobFirstFit job false = .ok (schedule, alloc)) (hstart : alloc.startedInFirstSlice)
    (hq : b.queue.removeJob job = .ok queue) :
    Pass W known base killed released { b with
      schedule := schedule
      queue := queue
      decision := b.decision.add (.executeJob job.id alloc.usedMachines)
      executions := b.executions ++ [{ job := job, machines := alloc.usedMachines, repairMachines := schedule.repairMachines }] } := by
  obtain ⟨hmem, hjobs⟩ := Queue.jobs_removeJob hq
  have hjob := h.jobs job (List.mem_append_left _ hmem)
  obtain ⟨hsize, hrepair, hfree, hnow⟩ := h.holds.starts ha hstart
  have hkills : kills (b.decision.add (.executeJob job.id alloc.usedMachines)).decisions = kills b.decision.decisions := by
    rw [SchedulingDecision.decisions_add, kills_append]
    exact Finset.union_empty _
  have hexecutions : executions (b.decision.add (.executeJob job.id alloc.usedMachines)).decisions =
      executions b.decision.decisions ++ [(job.id, alloc.usedMachines)] := by
    simp
  have hperm := (List.perm_cons_erase hmem)
  refine ⟨?_, fun other ho => h.jobs other ?_, ?_, ?_, ?_, h.workload, h.recent, h.resubmitted, h.quiet, h.calls⟩
  · refine ((h.holds.place hjob ha).start hnow).subset fun e he => ?_
    obtain ⟨he, hnot⟩ := List.mem_filter.1 he
    rw [hkills] at hnot
    rw [hexecutions, ← List.append_assoc] at he
    rcases List.mem_append.1 he with he | he
    · exact List.mem_append_left _ (List.mem_filter.2 ⟨he, hnot⟩)
    · exact List.mem_append_right _ he
  · rcases List.mem_append.1 ho with ho | ho
    · exact List.mem_append_left _ (List.mem_of_mem_erase (hjobs ▸ ho))
    · exact List.mem_append_right _ ho
  · dsimp only
    rw [hexecutions, hjobs]
    refine (List.Perm.nodup_iff ?_).2 h.distinct
    -- the id moves from the queue to the jobs that run
    have hids := (hperm.map (·.id)).append_right (released.map (·.id) ++ (base ++ executions b.decision.decisions).map (·.1))
    simp only [List.map_append, List.map_cons, List.map_nil, List.append_assoc, List.cons_append] at hids ⊢
    refine List.Perm.trans ?_ hids.symm
    simp only [← List.append_assoc]
    exact List.perm_append_singleton _ _
  · rw [SchedulingDecision.decisions_add, (Schedule.addJobFirstFit_frame ha).2]
    exact h.executes.execute hsize hrepair hfree
  · intro e he
    rcases List.mem_append.1 he with he | he
    · exact h.executed e he
    · obtain rfl := List.mem_singleton.1 he
      exact hjob

/-- Jobs are killed. -/
theorem kill (h : Pass W known base killed released b) (ids : Finset String) :
    Pass W known base killed released { b with decision := b.decision.add (.killJobs ids) } ∧
      ∀ id ∈ ids, id ∉ (heldBy base killed (b.decision.add (.killJobs ids)).decisions).map (·.1) := by
  have hexecutions : executions (b.decision.add (.killJobs ids)).decisions = executions b.decision.decisions := by
    rw [SchedulingDecision.decisions_add, executions_append]
    exact List.append_nil _
  have hkills : kills (b.decision.add (.killJobs ids)).decisions = kills b.decision.decisions ∪ ids := by
    rw [SchedulingDecision.decisions_add, kills_append]
    ext id
    simp [mem_kills]
  refine ⟨⟨?_, h.jobs, ?_, ?_, h.executed, h.workload, h.recent, h.resubmitted, h.quiet, h.calls⟩, fun id hid hbad => ?_⟩
  · refine h.holds.subset fun e he => ?_
    obtain ⟨he, hnot⟩ := List.mem_filter.1 he
    rw [hkills] at hnot
    rw [hexecutions] at he
    refine List.mem_filter.2 ⟨he, ?_⟩
    simp only [Finset.mem_union, decide_eq_true_eq, not_or] at hnot ⊢
    exact ⟨hnot.1, hnot.2.1⟩
  · dsimp only
    rw [hexecutions]
    exact h.distinct
  · exact h.executes.note rfl
  · obtain ⟨e, he, rfl⟩ := List.mem_map.1 hbad
    obtain ⟨-, hnot⟩ := List.mem_filter.1 he
    rw [hkills] at hnot
    simp only [Finset.mem_union, decide_eq_true_eq, not_or] at hnot
    exact hnot.2.2 hid

end Pass

/-! ## Planning -/

/-- A job is planned, or executed and taken out of the queue. -/
theorem placeJob_pass {waits : Bool} (h : Pass W known base killed released (boardOf s)) (hjob : job ∈ W.jobs)
    (hx : placeJob s job = .ok (s', waits)) : Pass W known base killed released (boardOf s') ∧
      (s'.queue.jobs = s.queue.jobs ∨ s'.queue.jobs = s.queue.jobs.erase job) := by
  unfold placeJob at hx
  split at hx
  · rename_i schedule alloc ha
    dsimp only at hx
    split at hx
    · split at hx
      · rename_i hstart
        obtain ⟨queue, hq, heq⟩ := map_eq_ok.1 hx
        cases heq
        exact ⟨h.execute ha hstart hq, .inr (Queue.jobs_removeJob hq).2⟩
      · cases hx
        exact ⟨h.place hjob ha, .inl rfl⟩
    · cases hx
      exact ⟨h.place hjob ha, .inl rfl⟩
  · cases hx

theorem placeNext_pass {limit : ℤ} {t t' : ConservativeState × ℤ} (h : Pass W known base killed released (boardOf t.1))
    (hjob : job ∈ W.jobs) (hx : placeNext limit t job = .ok t') : Pass W known base killed released (boardOf t'.1) ∧
      (t'.1.queue.jobs = t.1.queue.jobs ∨ t'.1.queue.jobs = t.1.queue.jobs.erase job) := by
  unfold placeNext at hx
  split at hx
  · cases hx
    exact ⟨h, .inl rfl⟩
  · obtain ⟨⟨s', waits⟩, hplaced, rfl⟩ := map_eq_ok.1 hx
    exact placeJob_pass h hjob hplaced

/-- Jobs are planned one after the other. -/
theorem placeJobs_pass {limit scheduled : ℤ} {jobs : List Job} {t : ConservativeState × ℤ}
    (h : Pass W known base killed released (boardOf s)) (hjobs : ∀ job ∈ jobs, job ∈ W.jobs)
    (hx : placeJobs limit s scheduled jobs = .ok t) : Pass W known base killed released (boardOf t.1) := by
  unfold placeJobs at hx
  refine runFrom_invariant (I := fun t : ConservativeState × ℤ => Pass W known base killed released (boardOf t.1))
    (C := fun _ job => job ∈ W.jobs) (fun t job t' h hjob hstep => ?_) h (allSteps_of_forall hjobs) hx
  exact (placeNext_pass h hjob hstep).1

/-- In the loop over the queue, the jobs to come still wait. -/
structure Replacing (W : NamedJobs) (known : String → Option Job) (base : List (String × IntervalSet)) (killed : Finset String)
    (released : List Job) (t : ConservativeState × ℤ) (rest : List Job) : Prop where
  pass : Pass W known base killed released (boardOf t.1)
  nodup : rest.Nodup
  waiting : ∀ job ∈ rest, job ∈ t.1.queue.jobs

theorem replaceNext_pass {limit : ℤ} {t t' : ConservativeState × ℤ} {rest : List Job}
    (h : Replacing W known base killed released t (job :: rest)) (hx : replaceNext limit t job = .ok t') :
    Replacing W known base killed released t' rest := by
  obtain ⟨hpass, hnodup, hwaiting⟩ := h
  obtain ⟨hnot, hnodup⟩ := List.nodup_cons.1 hnodup
  have hmem := hwaiting job List.mem_cons_self
  unfold replaceNext at hx
  split at hx
  · cases hx
    exact ⟨hpass, hnodup, fun other ho => hwaiting other (List.mem_cons_of_mem _ ho)⟩
  · split at hx
    · rename_i schedule removed hr
      have hremoved := hpass.remove (hpass.notMem_held hmem) hr
      obtain ⟨hplaced, hqueue⟩ := placeNext_pass (t := ({ t.1 with schedule := schedule }, t.2)) hremoved
        (hpass.jobs job (List.mem_append_left _ hmem)) hx
      refine ⟨hplaced, hnodup, fun other ho => ?_⟩
      have hother := hwaiting other (List.mem_cons_of_mem _ ho)
      rcases hqueue with hqueue | hqueue
      · exact hqueue ▸ hother
      · rw [hqueue]
        refine (List.mem_erase_of_ne ?_).2 hother
        rintro rfl
        exact hnot ho
    · cases hx

/-- The queue is planned anew. -/
theorem compress_pass {limit : ℤ} (h : Pass W known base killed released (boardOf s)) (hx : compress limit s = .ok s') :
    Pass W known base killed released (boardOf s') := by
  obtain ⟨t, ht, rfl⟩ := map_eq_ok.1 hx
  exact (runFrom_rest (R := Replacing W known base killed released) (fun _ _ _ _ h hstep => replaceNext_pass h hstep)
    ⟨h, h.nodup_queue.of_map, fun _ hmem => hmem⟩ ht).pass

theorem removeJobs_pass {jobs : List Job} (h : Pass W known base killed released (boardOf s))
    (hfree : ∀ job ∈ jobs, job.id ∉ (heldBy base killed s.decision.decisions).map (·.1))
    (hx : ConservativeBf.removeJobs s jobs = .ok s') : Pass W known base killed released (boardOf s') ∧ s'.queue = s.queue := by
  obtain ⟨schedule, hr, rfl⟩ := map_eq_ok.1 hx
  exact ⟨h.removeJobs hfree hr, rfl⟩

theorem placeQueue_pass {limit : ℤ} (h : Pass W known base killed released (boardOf s)) (hx : placeQueue limit s = .ok s') :
    Pass W known base killed released (boardOf s') := by
  unfold placeQueue at hx
  split at hx
  · rename_i s₁ hr
    obtain ⟨hpass, hqueue⟩ := removeJobs_pass h (fun job hmem => h.notMem_held hmem) hr
    obtain ⟨t, ht, rfl⟩ := map_eq_ok.1 hx
    exact placeJobs_pass hpass (fun job hmem => hpass.jobs job (List.mem_append_left _ hmem)) ht
  · cases hx

theorem handleSchedule_pass {recent : List Job} (h : Pass W known base killed released (boardOf s))
    (hrecent : ∀ job ∈ recent, job ∈ W.jobs) (hx : handleSchedule c s recent = .ok s') :
    Pass W known base killed released (boardOf s') := by
  unfold handleSchedule at hx
  split at hx
  · rename_i s₁ hplaced
    have hpass : Pass W known base killed released (boardOf s₁) := by
      unfold placeRecentlyQueued at hplaced
      split at hplaced
      · split at hplaced
        · rename_i hsaved
          have hnone : s.savedRecentlyQueuedJobs = [] := h.quiet.2.1
          simp [hnone] at hsaved
        · obtain ⟨t, ht, rfl⟩ := map_eq_ok.1 hplaced
          exact placeJobs_pass h hrecent ht
      · cases hplaced
        exact h
    split at hx
    · obtain ⟨s₂, hcompressed, rfl⟩ := map_eq_ok.1 hx
      have hpass₂ := compress_pass hpass hcompressed
      exact hpass₂
    · cases hx
      exact hpass
  · cases hx

/-! ## Killed jobs and failures -/

/-- A job behind the first slice on some machines that does not run on them now does not run at all. -/
theorem affected_free {schedule : Schedule} {held : List (String × IntervalSet)} {machines : IntervalSet}
    (hW : ∀ job ∈ W.jobs, job.isReservation = false) (h : HoldsNow W schedule held)
    (hmem : job ∈ schedule.jobsAffectedOnMachines machines) : job ∈ W.jobs ∧ job.id ∉ held.map (·.1) := by
  unfold Schedule.jobsAffectedOnMachines at hmem
  split at hmem
  · cases hmem
  · rename_i first rest hprofile
    simp only [List.mem_dedup, List.mem_flatMap, List.mem_map, List.mem_filter, Bool.and_eq_true, Bool.not_eq_true',
      decide_eq_true_eq] at hmem
    obtain ⟨slice, hslice, e, ⟨he, ⟨-, hmeets⟩, hnot⟩, rfl⟩ := hmem
    have hin : slice ∈ schedule.profile := by simp [hprofile, hslice]
    refine ⟨h.exclusive.runs.known slice hin e he, fun hheld => ?_⟩
    obtain ⟨r, hr, hid⟩ := List.mem_map.1 hheld
    obtain ⟨t, rest', job', hp, hjob', hid'⟩ := h.entry hr
    obtain ⟨rfl, rfl⟩ := List.cons.inj (hprofile.symm.trans hp)
    -- the job is on the same machines in both slices
    have hfirst : some r.2 ∈ schedule.profile.map (machinesOf e.1) :=
      List.mem_map.2 ⟨first, by simp [hprofile], KeyedMap.find?_eq_some.2 ⟨job', hjob', hid'.trans hid⟩⟩
    have hlater : some e.2 ∈ schedule.profile.map (machinesOf e.1) :=
      List.mem_map.2 ⟨slice, hin, KeyedMap.find?_eq_some.2 ⟨e.1, he, rfl⟩⟩
    have hsame : r.2 = e.2 := (h.exclusive.runs.runs e.1).eq_of_mem hfirst hlater
    refine absurd hnot (Bool.not_eq_false _ ▸ List.any_eq_true.2 ⟨job', ?_, by simpa using hid'.trans hid⟩)
    refine List.mem_map.2 ⟨(job', r.2), List.mem_filter.2 ⟨hjob', ?_⟩, rfl⟩
    have hordinary := hW job' (h.exclusive.runs.known first (by simp [hprofile]) _ hjob')
    simp [hordinary, hsame, hmeets]

theorem sortOutResubmitted_pass {jobs others : List Job} (h : Pass W known base killed released (boardOf s))
    (hjobs : ∀ job ∈ jobs, job ∈ W.jobs) (hx : sortOutResubmitted s jobs = .ok (s', others)) :
    Pass W known base killed released (boardOf s') ∧ ∀ job ∈ others, job ∈ W.jobs := by
  induction jobs generalizing s others with
  | nil =>
    cases hx
    exact ⟨h, nofun⟩
  | cons job jobs ih =>
    have hrest : ∀ job ∈ jobs, job ∈ W.jobs := fun other ho => hjobs other (List.mem_cons_of_mem _ ho)
    rw [sortOutResubmitted] at hx
    split at hx
    · split at hx
      · refine ih (s := { s with
          resubmittedJobs := s.resubmittedJobs.erase job.id
          resubmittedJobsReleased := s.resubmittedJobsReleased ++ [job] }) ?_ hrest hx
        refine ⟨h.holds, h.jobs, h.distinct, h.executes, h.executed, h.workload, h.recent, fun other ho => ?_, h.quiet, h.calls⟩
        rcases List.mem_append.1 ho with ho | ho
        · exact h.resubmitted other ho
        · obtain rfl := List.mem_singleton.1 ho
          exact hjobs other List.mem_cons_self
      · cases hx
    · obtain ⟨⟨s₁, others₁⟩, hsorted, heq⟩ := map_eq_ok.1 hx
      cases heq
      obtain ⟨hpass, hothers⟩ := ih h hrest hsorted
      exact ⟨hpass, List.forall_mem_cons.2 ⟨hjobs job List.mem_cons_self, hothers⟩⟩

theorem placeResubmitted_pass (hW : ∀ job ∈ W.jobs, job.isReservation = false)
    (h : Pass W known base killed released (boardOf s)) (hx : placeResubmitted c s = .ok s') :
    Pass W known base killed released (boardOf s') := by
  unfold placeResubmitted at hx
  split at hx
  · rename_i s₁ affected hr
    unfold removeAffected at hr
    obtain ⟨s₀, hremoved, heq⟩ := map_eq_ok.1 hr
    cases heq
    have haffected : ∀ job ∈ c.pointerOrder.sort (s.schedule.jobsAffectedOnMachines s.recentlyUnderRepairMachines),
        job ∈ W.jobs ∧ job.id ∉ (heldBy base killed s.decision.decisions).map (·.1) :=
      fun job hmem => affected_free hW h.holds ((Sorter.mem_sort _).1 hmem)
    obtain ⟨hpass, -⟩ := removeJobs_pass h (fun job hmem => (haffected job hmem).2) hremoved
    have hnone : s.savedReservations = [] := h.quiet.1
    dsimp only at hx
    split at hx
    · rename_i s₂ scheduled hplaced
      have hpass₂ := placeJobs_pass hpass (fun job hmem => h.resubmitted job (((List.perm_insertionSort _ _).mem_iff).1 hmem)) hplaced
      obtain ⟨t, ht, rfl⟩ := map_eq_ok.1 hx
      refine placeJobs_pass hpass₂ (fun job hmem => ?_) ht
      have hmem' := ((List.perm_insertionSort _ _).mem_iff).1 hmem
      rw [hnone] at hmem'
      exact (haffected job (by simpa using hmem')).1
    · cases hx
  · cases hx

theorem handleKilledJobs_pass {recent others : List Job} (hW : ∀ job ∈ W.jobs, job.isReservation = false)
    (h : Pass W known base killed released (boardOf s)) (hrecent : ∀ job ∈ recent, job ∈ W.jobs)
    (hx : handleKilledJobs c date s recent = .ok (s', others)) :
    Pass W known base killed released (boardOf s') ∧ ∀ job ∈ others, job ∈ W.jobs := by
  unfold handleKilledJobs at hx
  split at hx
  · split at hx
    · rename_i s₁ others₁ hsorted
      obtain ⟨hpass, hothers⟩ := sortOutResubmitted_pass h hrecent hsorted
      have hnone : s₁.savedReservations = [] := hpass.quiet.1
      split at hx
      · obtain ⟨⟨s₂, others₂⟩, hresumed, heq⟩ := map_eq_ok.1 hx
        cases heq
        unfold resumeAfterKills at hresumed
        rw [hnone] at hresumed
        split at hresumed
        · split at hresumed
          · rename_i s₃ hplaced
            cases hresumed
            have hpass₃ := placeResubmitted_pass hW hpass hplaced
            exact ⟨⟨hpass₃.holds, hpass₃.jobs, hpass₃.distinct, hpass₃.executes, hpass₃.executed, hpass₃.workload, hpass₃.recent,
              nofun, ⟨rfl, hpass₃.quiet.2⟩, hpass₃.calls⟩, hothers⟩
          · cases hresumed
        · split at hresumed
          · rename_i s₃ hplaced
            cases hresumed
            have hpass₃ := placeQueue_pass hpass hplaced
            exact ⟨⟨hpass₃.holds, hpass₃.jobs, hpass₃.distinct, hpass₃.executes, hpass₃.executed, hpass₃.workload, hpass₃.recent,
              hpass₃.resubmitted, ⟨rfl, hpass₃.quiet.2⟩, hpass₃.calls⟩, nofun⟩
          · cases hresumed
      · cases hx
        exact ⟨hpass, hothers⟩
    · cases hx
  · cases hx
    exact ⟨h, hrecent⟩

theorem killRunning_pass {jobs : List Job} (h : Pass W known base killed released (boardOf s))
    (hx : killRunning s jobs = .ok s') : Pass W known base killed released (boardOf s') := by
  obtain ⟨hkilled, hfree⟩ := h.kill (jobs.map Job.id).toFinset
  refine (removeJobs_pass (s := { s with
    decision := s.decision.add (.killJobs (jobs.map Job.id).toFinset), killedJobs := true }) hkilled (fun job hmem => ?_) hx).1
  exact hfree job.id (List.mem_toFinset.2 (List.mem_map_of_mem hmem))

theorem onMachineInstantDownUp_pass {number : ℕ} (h : Pass W known base killed released (boardOf s))
    (hx : onMachineInstantDownUp s number = .ok s') : Pass W known base killed released (boardOf s') := by
  unfold onMachineInstantDownUp at hx
  split at hx
  · cases hx
  · dsimp only at hx
    split at hx
    · cases hx
      exact h
    · exact killRunning_pass h hx

theorem rescheduleAfterFailure_pass {number : ℕ} (hW : ∀ job ∈ W.jobs, job.isReservation = false)
    (h : Pass W known base killed released (boardOf s)) (hx : rescheduleAfterFailure c s number = .ok s') :
    Pass W known base killed released (boardOf s') := by
  unfold rescheduleAfterFailure at hx
  split at hx
  · have haffected : ∀ job ∈ c.pointerOrder.sort (s.schedule.jobsAffectedOnMachines {number}),
        job ∈ W.jobs ∧ job.id ∉ (heldBy base killed s.decision.decisions).map (·.1) :=
      fun job hmem => affected_free hW h.holds ((Sorter.mem_sort _).1 hmem)
    dsimp only at hx
    split at hx
    · rename_i s₁ hr
      obtain ⟨schedule, hremoved, rfl⟩ := map_eq_ok.1 hr
      have hpass := h.removeJobsStrictly (fun job hmem => (haffected job hmem).2) hremoved
      obtain ⟨t, ht, rfl⟩ := map_eq_ok.1 hx
      refine placeJobs_pass (s := { s with schedule := schedule }) hpass (fun job hmem => ?_) ht
      exact (haffected job (((List.perm_insertionSort _ _).mem_iff).1 hmem)).1
    · cases hx
  · exact compress_pass h hx

/-- A call is asked for. -/
theorem Pass.askCall {forWhat : CallMeLaterType} {id : ℕ} {time : ℚ} (h : Pass W known base killed released b)
    (hwhat : forWhat ≠ .reservationStart) :
    Pass W known base killed released { b with decision := b.decision.addCallMeLater forWhat id time } :=
  h.note ⟨rfl, rfl⟩ rfl (h.calls.addCallMeLater hwhat)

theorem onMachineDownForRepair_pass {draws : Draws} (hW : ∀ job ∈ W.jobs, job.isReservation = false)
    (h : Pass W known base killed released (boardOf s)) (hx : onMachineDownForRepair c s date draws = .ok s') :
    Pass W known base killed released (boardOf s') := by
  unfold onMachineDownForRepair at hx
  split at hx
  · cases hx
  · split at hx
    · unfold startRepair at hx
      have hpass : Pass W known base killed released { boardOf s with
          decision := s.decision.addCallMeLater .repairDone draws.number
            (date + BackfillState.repairTimeOf c.toBackfillConfig draws.number draws.repair) } := h.askCall (by decide)
      have hrepair : Pass W known base killed released (boardOf { s with
          schedule := (s.schedule.addRepairMachine {draws.number}).1
          recentlyUnderRepairMachines := s.recentlyUnderRepairMachines ∪ {draws.number}
          decision := s.decision.addCallMeLater .repairDone draws.number
            (date + BackfillState.repairTimeOf c.toBackfillConfig draws.number draws.repair) }) :=
        ⟨hpass.holds.addRepairMachine _, hpass.jobs, hpass.distinct, hpass.executes, hpass.executed, hpass.workload, hpass.recent,
          hpass.resubmitted, hpass.quiet, hpass.calls⟩
      dsimp only at hx
      split at hx
      · cases hx
      · split at hx
        · split at hx
          · exact rescheduleAfterFailure_pass hW hrepair hx
          · exact killRunning_pass hrepair hx
        · cases hx
          exact hrepair
    · cases hx
      exact h

theorem handleFailures_pass {instantDraws downDraws : ℕ → Draws} (hW : ∀ job ∈ W.jobs, job.isReservation = false)
    (h : Pass W known base killed released (boardOf s)) (hx : handleFailures c s date instantDraws downDraws = .ok s') :
    Pass W known base killed released (boardOf s') := by
  unfold handleFailures at hx
  split at hx
  · rename_i s₁ hinstant
    have hpass : Pass W known base killed released (boardOf s₁) :=
      runFrom_invariant (I := fun s => Pass W known base killed released (boardOf s))
        (fun _ _ _ h _ hstep => onMachineInstantDownUp_pass h hstep) h (allSteps_of_forall fun _ _ => trivial) hinstant
    obtain ⟨s₂, hdown, rfl⟩ := map_eq_ok.1 hx
    have hreset : Pass W known base killed released (boardOf { s₁ with onMachineInstantDownUps := 0 }) := hpass
    have hpass₂ : Pass W known base killed released (boardOf s₂) :=
      runFrom_invariant (I := fun s => Pass W known base killed released (boardOf s))
        (fun _ _ _ h _ hstep => onMachineDownForRepair_pass hW h hstep) hreset (allSteps_of_forall fun _ _ => trivial) hdown
    exact hpass₂
  · cases hx

/-! ## The whole pass -/

/-- A job released waits at the end of the queue, or is rejected. -/
theorem releaseJob_pass (hW : ∀ job ∈ W.jobs, job.isReservation = false)
    (h : Pass W known base killed (job :: released) (boardOf s)) :
    Pass W known base killed released (boardOf (releaseJob c currentDate s job)) := by
  have hordinary : job.isReservation = false := hW job (h.jobs job (List.mem_append_right _ List.mem_cons_self))
  have hless : Pass W known base killed released (boardOf s) := by
    refine ⟨h.holds, fun other ho => h.jobs other ?_, h.distinct.sublist ?_, h.executes, h.executed, h.workload, h.recent,
      h.resubmitted, h.quiet, h.calls⟩
    · simp only [List.mem_append, List.mem_cons] at ho ⊢
      tauto
    · refine List.Sublist.append_right (List.Sublist.map _ ?_) _
      exact List.Sublist.append_left (List.sublist_cons_self _ _) _
  unfold releaseJob
  rw [if_neg (by simp [hordinary])]
  split
  · exact hless.note ⟨rfl, rfl⟩ rfl h.calls
  · refine ⟨h.holds, fun other ho => h.jobs other ?_, ?_, h.executes, h.executed, h.workload, h.recent, h.resubmitted, h.quiet,
      h.calls⟩
    · simpa [boardOf] using ho
    · have hdistinct := h.distinct
      simp only [boardOf, Queue.jobs_appendJob, List.append_assoc, List.singleton_append] at hdistinct ⊢
      exact hdistinct

/-- Without reservations, none is started. -/
theorem startReservations_eq (h : Pass W known base killed released (boardOf s)) : startReservations s = .ok s := by
  have hnone : s.startAReservation = false := h.quiet.2.2
  unfold startReservations
  simp [hnone]

theorem prepare_pass (hW : ∀ job ∈ W.jobs, job.isReservation = false)
    (h : Pass W known base killed s.jobsReleasedRecently (boardOf s))
    (hended : ∀ job ∈ s.jobsEndedRecently, job.id ∉ (heldBy base killed s.decision.decisions).map (·.1))
    (hx : prepare c s date currentDate = .ok s') : Pass W known base killed [] (boardOf s') := by
  unfold prepare at hx
  split at hx
  · rename_i s₁ hremoved
    have hsame : s₁.jobsReleasedRecently = s.jobsReleasedRecently := by
      obtain ⟨schedule, -, rfl⟩ := map_eq_ok.1 hremoved
      rfl
    obtain ⟨hpass, -⟩ := removeJobs_pass h hended hremoved
    rw [hsame] at hx
    have hqueued : ∀ (jobs : List Job) (s₁ : ConservativeState), Pass W known base killed jobs (boardOf s₁) →
        Pass W known base killed [] (boardOf (jobs.foldl (releaseJob c currentDate) s₁)) := by
      intro jobs
      induction jobs with
      | nil => exact fun _ h => h
      | cons job jobs ih => exact fun s₁ h => ih _ (releaseJob_pass hW h)
    have hpass₂ := hqueued _ _ hpass
    generalize s.jobsReleasedRecently.foldl (releaseJob c currentDate) s₁ = s₂ at hx hpass₂
    dsimp only at hx
    split at hx
    · rename_i schedule hupdate
      have hupdated : Pass W known base killed [] (boardOf { s₂ with schedule := schedule }) :=
        ⟨hpass₂.holds.update hupdate, hpass₂.jobs, hpass₂.distinct, hpass₂.executes, hpass₂.executed, hpass₂.workload, hpass₂.recent,
          hpass₂.resubmitted, hpass₂.quiet, hpass₂.calls⟩
      rw [startReservations_eq hupdated] at hx
      cases hx
      exact hupdated.requeue (Queue.jobs_sortQueue _ _ _).subperm
    · cases hx
  · cases hx

/-- The resubmissions of killed jobs are asked for. -/
theorem Pass.handleResubmission (killedRecently : List String) (h : Pass W known base killed released b) :
    Pass W known base killed released { b with decision := b.decision.handleResubmission killedRecently } := by
  induction killedRecently generalizing b with
  | nil => simpa [SchedulingDecision.handleResubmission] using h
  | cons id rest ih =>
    have hnoted := h.note (d := b.decision.add (.resubmitJob id)) ⟨rfl, rfl⟩ rfl h.calls
    have hrest := ih hnoted
    simpa [SchedulingDecision.handleResubmission, SchedulingDecision.add] using hrest

/-- The loop that rejects jobs leaves some of them in the queue. -/
theorem rejectQueue_pass {sjobs queue : Queue} (h : Pass W known base killed released { boardOf s with queue := queue })
    (hx : rejectQueue s sjobs = .ok s') : Pass W known base killed released { boardOf s' with queue := queue } ∧
      ∃ kept, s'.queue = kept ++ s.queue ∧ kept.Sublist sjobs := by
  induction sjobs using List.twoStepInduction generalizing s s' with
  | nil =>
    cases hx
    exact ⟨h, [], rfl, .refl _⟩
  | singleton sjob => cases hx
  | cons_cons sjob skipped rest ih _ =>
    obtain ⟨s₁, hrest, rfl⟩ := map_eq_ok.1 hx
    have hnoted : Pass W known base killed released
        { boardOf { s with decision := s.decision.add (.rejectJob sjob.job.id) } with queue := queue } :=
      h.note ⟨rfl, rfl⟩ rfl h.calls
    obtain ⟨hpass, kept, hqueue, hsub⟩ := ih hnoted hrest
    exact ⟨hpass, skipped :: kept, by rw [hqueue]; rfl, (hsub.cons_cons skipped).cons sjob⟩

theorem finishSubmitting_pass (h : Pass W known base killed released (boardOf s)) (hx : finishSubmitting s date = .ok s') :
    Pass W known base killed released (boardOf s') := by
  unfold finishSubmitting at hx
  dsimp only at hx
  split at hx
  · split at hx
    · cases hx
      exact h.note ⟨rfl, rfl⟩ rfl h.calls
    · split at hx
      · cases hx
      · split at hx
        · cases hx
          exact h
        · have hstart : Pass W known base killed released { boardOf { s with queue := [] } with queue := s.queue } := h
          obtain ⟨hpass, kept, hqueue, hsub⟩ := rejectQueue_pass hstart hx
          have hkept : s'.queue = kept := hqueue.trans (List.append_nil _)
          have hsubperm : List.Subperm (Queue.jobs s'.queue) (Queue.jobs s.queue) := hkept ▸ (hsub.map _).subperm
          have hrequeued := hpass.requeue hsubperm
          exact hrequeued
  · cases hx
    exact h

theorem decide_pass {instantDraws downDraws : ℕ → Draws} (hW : ∀ job ∈ W.jobs, job.isReservation = false)
    (h : Pass W known base killed released (boardOf s)) (hx : ConservativeBf.decide c s date instantDraws downDraws = .ok s') :
    Pass W known base killed released (boardOf s') := by
  have hnone : s.jobsReleasedRecently.filter Job.isReservation = [] :=
    List.filter_eq_nil_iff.2 fun job hmem => by simp [hW job (h.recent job hmem)]
  unfold ConservativeBf.decide at hx
  dsimp only at hx
  split at hx
  · cases hx
  · rename_i s₁ hnoted
    have hpass₁ : Pass W known base killed released (boardOf s₁) := by
      refine runFrom_invariant (I := fun s => Pass W known base killed released (boardOf s)) (C := fun _ _ => True)
        (fun t id t' h _ hstep => ?_) h (allSteps_of_forall fun _ _ => trivial) hnoted
      unfold noteResubmitted at hstep
      split at hstep
      · cases hstep
        exact h
      · cases hstep
    split at hx
    · cases hx
    · rename_i s₂ others hkilled
      obtain ⟨hpass₂, hothers⟩ := handleKilledJobs_pass hW hpass₁ (fun job hmem => h.recent job (List.mem_filter.1 hmem).1) hkilled
      rw [hnone, List.isEmpty_nil, if_pos rfl] at hx
      dsimp only at hx
      split at hx
      · cases hx
      · rename_i s₄ hfailures
        have hpass₄ := handleFailures_pass hW hpass₂ hfailures
        split at hx
        · cases hx
        · rename_i s₅ hscheduled
          have hasked : Pass W known base killed released
              (boardOf { s₄ with decision := s₄.decision.handleResubmission s₄.jobsKilledRecently }) :=
            hpass₄.handleResubmission s₄.jobsKilledRecently
          exact finishSubmitting_pass (handleSchedule_pass hasked hothers hscheduled) hx

end ConservativeAux

end ScheduleTest
