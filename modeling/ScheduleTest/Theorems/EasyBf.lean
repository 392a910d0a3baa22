import ScheduleTest.Lemmas.JobsKept
import ScheduleTest.Lemmas.EasyBf

/-!
# The content of the schedule of easy_bf

Between two messages the schedule holds the jobs that run, each in the first slice on its machines, and the first job of the queue
(`schedule_content`). Slices are merged where the ids of their jobs join to the same text, commas between them. The name of a job
may hold a comma, but the name of its workload does not, and so the text still tells the jobs.
-/

namespace ScheduleTest

open Execution EasyBf

/-- What is meant to hold when the decisions about a message have been sent. -/
structure ScheduleContent (t : EasyBfState × Platform) : Prop where
  jobs : ∀ job, t.1.schedule.containsJob job ↔
    (∃ r ∈ t.2.running, r.id = job.id) ∨ ∃ first ∈ t.1.queue.firstJob?, first.id = job.id
  /-- A job that runs is in the first slice, on the machines on which it was executed. -/
  now : ∀ r ∈ t.2.running, ∃ slice rest job, t.1.schedule.profile = slice :: rest ∧
    (job, r.machines) ∈ slice.allocatedJobs.entries ∧ job.id = r.id
  waiting : ∀ job ∈ t.1.queue.jobs, t.1.queue.firstJob? ≠ some job → t.1.schedule.containsJob job = false
  disjoint : t.2.running.Pairwise fun r r' => Disjoint r.machines r'.machines

namespace EasyBfAux

variable {W : NamedJobs} {c : EasyBfConfig} {s s' : EasyBfState} {base : List (String × IntervalSet)} {released : List Job}
  {planned : List String} {job : Job} {date currentDate : ℚ} {known : String → Option Job}

/-- The jobs that run when the decisions made so far are carried out. -/
def heldBy (base : List (String × IntervalSet)) (s : EasyBfState) : List (String × IntervalSet) :=
  base ++ executions s.decision.decisions

/-- The first job of the queue, if there is one. -/
def front (s : EasyBfState) : List String := (s.queue.firstJob?.map (·.id)).toList

/-- The state in the middle of a pass, with the jobs released that are still to be queued. -/
structure Plan (W : NamedJobs) (known : String → Option Job) (base : List (String × IntervalSet)) (s : EasyBfState)
    (released : List Job) (planned : List String) : Prop where
  holds : Holds W s.schedule (heldBy base s) planned
  jobs : ∀ job ∈ s.queue.jobs ++ released, job ∈ W.jobs
  distinct : ((s.queue.jobs ++ released).map (·.id) ++ (heldBy base s).map (·.1)).Nodup
  workload : s.workload = known

theorem Plan.notMem_held (h : Plan W known base s released planned) (hmem : job ∈ s.queue.jobs) : job.id ∉ (heldBy base s).map (·.1) :=
  fun hheld => (List.nodup_append.1 h.distinct).2.2 _
    (List.mem_map_of_mem (f := fun job : Job => job.id) (List.mem_append_left released hmem)) _ hheld rfl

/-- The ids of the queue are different. -/
theorem Plan.nodup_queue (h : Plan W known base s released planned) : (s.queue.jobs.map (·.id)).Nodup := by
  have := (List.nodup_append.1 h.distinct).1
  rw [List.map_append] at this
  exact (List.nodup_append.1 this).1

/-- Another queue of the same jobs. -/
theorem Plan.requeue (h : Plan W known base s released planned) {queue : Queue} (hperm : queue.jobs.Perm s.queue.jobs) :
    Plan W known base { s with queue := queue } released planned where
  holds := h.holds
  jobs := fun job hmem => h.jobs job (((hperm.append_right released).mem_iff).1 hmem)
  distinct := ((((hperm.append_right released).map (·.id)).append_right _).nodup_iff).2 h.distinct
  workload := h.workload

/-- A job of the queue is executed where it has been placed in the first slice. -/
theorem Plan.execute {schedule : Schedule} {alloc : JobAlloc} (h : Plan W known base s released planned) (hmem : job ∈ s.queue.jobs)
    (ha : s.schedule.addJobFirstFit job = .ok (schedule, alloc)) (hstart : alloc.startedInFirstSlice)
    (hx : executeJob s schedule job alloc = .ok s') :
    Plan W known base s' released planned ∧ s'.queue.jobs = s.queue.jobs.erase job := by
  obtain ⟨queue, hq, rfl⟩ := map_eq_ok.1 hx
  obtain ⟨hmem', hjobs⟩ := Queue.jobs_removeJob hq
  obtain ⟨hplaced, hnow⟩ := h.holds.place (h.jobs job (List.mem_append_left _ hmem)) ha
  have hheld : ∀ u : EasyBfState, u.decision = s.decision.add (.executeJob job.id alloc.usedMachines) →
      heldBy base u = heldBy base s ++ [(job.id, alloc.usedMachines)] := by
    intro u hu
    simp [heldBy, hu]
  refine ⟨⟨?_, fun other ho => ?_, ?_, h.workload⟩, hjobs⟩
  · rw [hheld _ rfl]
    exact hplaced.start (hnow hstart)
  · refine h.jobs other ?_
    rcases List.mem_append.1 ho with ho | ho
    · dsimp only at ho
      rw [hjobs] at ho
      exact List.mem_append_left _ (List.mem_of_mem_erase ho)
    · exact List.mem_append_right _ ho
  · rw [hheld _ rfl]
    dsimp only
    rw [hjobs]
    refine (List.Perm.nodup_iff ?_).2 h.distinct
    -- the id moves from the queue to the jobs that run
    have hperm := ((List.perm_cons_erase hmem).map (·.id)).append_right (released.map (·.id) ++ (heldBy base s).map (·.1))
    simp only [List.map_append, List.map_cons, List.map_nil, List.append_assoc, List.cons_append] at hperm ⊢
    refine List.Perm.trans ?_ hperm.symm
    simp only [← List.append_assoc]
    exact List.perm_append_singleton _ _

/-- A job of the queue is planned where it does not start in the first slice. -/
theorem Plan.plan {schedule : Schedule} {alloc : JobAlloc} (h : Plan W known base s released planned) (hmem : job ∈ s.queue.jobs)
    (ha : s.schedule.addJobFirstFit job = .ok (schedule, alloc)) :
    Plan W known base { s with schedule := schedule } released (job.id :: planned) where
  holds := (h.holds.place (h.jobs job (List.mem_append_left _ hmem)) ha).1
  jobs := h.jobs
  distinct := h.distinct
  workload := h.workload

/-- A job that is planned is taken out of the schedule. -/
theorem Plan.takeOut {schedule : Schedule} {b : Bool} (h : Plan W known base s released planned)
    (hmem : job.id ∉ (heldBy base s).map (·.1)) (hr : s.schedule.removeJobIfExists job = .ok (schedule, b)) :
    Plan W known base { s with schedule := schedule } released (planned.filter (· ≠ job.id)) where
  holds := by
    refine (h.holds.removeIfExists hr).congr (fun e => ?_) (fun id => Iff.rfl)
    rw [List.mem_filter]
    refine ⟨fun he => ⟨he, ?_⟩, fun he => he.1⟩
    have hne : e.1 ≠ job.id := fun heq => hmem (heq ▸ List.mem_map_of_mem he)
    simpa using hne
  jobs := h.jobs
  distinct := h.distinct
  workload := h.workload

theorem Plan.congr (h : Plan W known base s released planned) {planned' : List String} (hp : ∀ id, id ∈ planned' ↔ id ∈ planned) :
    Plan W known base s released planned' :=
  ⟨h.holds.congr (fun _ => Iff.rfl) hp, h.jobs, h.distinct, h.workload⟩

/-- The loop over the first jobs of the queue leaves the first of those that cannot start planned. -/
theorem executePriorityJobs_plan {jobs : List Job} (h : Plan W known base s released []) (hq : s.queue.jobs = jobs)
    (hx : executePriorityJobs s jobs = .ok s') : Plan W known base s' released (front s') := by
  induction jobs generalizing s with
  | nil =>
    cases hx
    rw [front, Queue.firstJob?_eq_head?, hq]
    exact h
  | cons job rest ih =>
    have hmem : job ∈ s.queue.jobs := hq ▸ List.mem_cons_self
    rw [executePriorityJobs] at hx
    split at hx
    · rename_i schedule alloc ha
      split at hx
      · rename_i hstart
        split at hx
        · rename_i t ht
          obtain ⟨hplan, hjobs⟩ := h.execute hmem ha hstart ht
          refine ih hplan ?_ hx
          rw [hjobs, hq, List.erase_cons_head]
        · cases hx
      · cases hx
        have hplan := h.plan hmem ha
        rw [front, Queue.firstJob?_eq_head?]
        simpa [hq] using hplan
    · cases hx

/-- Sorting the queue leaves its first job planned. -/
theorem sortQueue_plan {before : Option Job} (h : Plan W known base s released (before.map (·.id)).toList)
    (hbefore : ∀ job ∈ before, job ∈ s.queue.jobs)
    (hx : sortQueueWhileHandlingPriorityJob c s before currentDate = .ok s') : Plan W known base s' released (front s') := by
  have hsorted := h.requeue (Queue.jobs_sortQueue s.queue c.order currentDate)
  unfold sortQueueWhileHandlingPriorityJob at hx
  dsimp only at hx
  split at hx
  · split at hx
    · rename_i schedule hr
      refine executePriorityJobs_plan ?_ rfl hx
      cases before with
      | none =>
        cases hr
        exact hsorted
      | some job =>
        obtain ⟨⟨schedule', b⟩, hr', rfl⟩ := map_eq_ok.1 hr
        have htaken := h.takeOut (h.notMem_held (hbefore job rfl)) hr'
        simpa using htaken.requeue (Queue.jobs_sortQueue s.queue c.order currentDate)
    · cases hx
  · rename_i heq
    cases hx
    rw [ne_eq, not_not] at heq
    rw [front, heq]
    exact hsorted

/-- A job that is not at the front of the queue is executed, or taken out of the schedule again. -/
theorem Plan.tryJob {schedule : Schedule} {alloc : JobAlloc} (h : Plan W known base s released (front s)) (hmem : job ∈ s.queue.jobs)
    (hfirst : some job ≠ s.queue.firstJob?) (ha : s.schedule.addJobFirstFit job = .ok (schedule, alloc)) :
    (alloc.startedInFirstSlice → ∀ s', executeJob s schedule job alloc = .ok s' → Plan W known base s' released (front s') ∧
      s'.queue.jobs = s.queue.jobs.erase job ∧ s'.queue.firstJob? = s.queue.firstJob?) ∧
    ∀ schedule', schedule.removeJob job = .ok schedule' → Plan W known base { s with schedule := schedule' } released (front s) := by
  constructor
  · intro hstart s' hx
    obtain ⟨hplan, hjobs⟩ := h.execute hmem ha hstart hx
    have hsame : s'.queue.firstJob? = s.queue.firstJob? := by
      rw [Queue.firstJob?_eq_head?] at hfirst ⊢
      rw [Queue.firstJob?_eq_head?, hjobs]
      cases hq : s.queue.jobs with
      | nil => rfl
      | cons first rest =>
        rw [hq] at hfirst
        have hne : first ≠ job := fun heq => hfirst (by simp [heq])
        rw [List.erase_cons_tail (by simpa using hne)]
        rfl
    refine ⟨?_, hjobs, hsame⟩
    rw [front, hsame]
    exact hplan
  · intro schedule' hr
    have hplan := h.plan hmem ha
    refine (hplan.takeOut (h.notMem_held hmem) (Schedule.removeJob_ok hr)).congr fun id => ?_
    have hnot : job.id ∉ front s := by
      rw [front, Queue.firstJob?_eq_head?] at *
      intro hbad
      cases hq : s.queue.jobs with
      | nil => simp [hq] at hbad
      | cons first rest =>
        rw [hq] at hfirst hmem hbad
        have hid : first.id = job.id := by simpa [eq_comm] using hbad
        have hnodup := h.nodup_queue
        rw [hq, List.map_cons, List.nodup_cons] at hnodup
        rcases List.mem_cons.1 hmem with rfl | hrest
        · exact hfirst rfl
        · exact hnodup.1 (hid ▸ List.mem_map_of_mem hrest)
    simp only [List.mem_filter, List.mem_cons, decide_eq_true_eq]
    constructor
    · exact fun hid => ⟨.inr hid, fun heq => hnot (heq ▸ hid)⟩
    · rintro ⟨rfl | hid, hne⟩
      · exact absurd rfl hne
      · exact hid

/-- Backfilling the jobs just released leaves the first job of the queue planned. -/
theorem backfillReleased_plan {priority : Option Job} {t t' : EasyBfState × ℤ}
    (h : Plan W known base t.1 [] (front t.1) ∧ t.1.queue.firstJob? = priority) (hx : backfillReleased priority t job = .ok t') :
    Plan W known base t'.1 [] (front t'.1) ∧ t'.1.queue.firstJob? = priority := by
  obtain ⟨s, nbAvailable⟩ := t
  obtain ⟨hplan, hpriority⟩ := h
  rw [backfillReleased] at hx
  dsimp only at hx hplan hpriority
  split at hx
  · rename_i hcan
    have hmem : job ∈ s.queue.jobs := Queue.containsJob_iff.1 hcan.2.1
    have hfirst : some job ≠ s.queue.firstJob? := hpriority ▸ hcan.2.2.1
    split at hx
    · rename_i schedule alloc ha
      obtain ⟨hstarts, hwaits⟩ := hplan.tryJob hmem hfirst ha
      split at hx
      · rename_i hstart
        obtain ⟨s', hs', rfl⟩ := map_eq_ok.1 hx
        obtain ⟨hplan', -, hsame⟩ := hstarts hstart s' hs'
        exact ⟨hplan', hsame.trans hpriority⟩
      · obtain ⟨schedule', hr, rfl⟩ := map_eq_ok.1 hx
        exact ⟨hwaits schedule' hr, hpriority⟩
    · cases hx
  · cases hx
    exact ⟨hplan, hpriority⟩

/-- The traversal of the queue, with the jobs passed that are left in it and those to come. Where none has been left, the first job
may not be planned yet. -/
structure Traversing (W : NamedJobs) (known : String → Option Job) (base : List (String × IntervalSet))
    (t : EasyBfState × Option Job) (rest : List Job) : Prop where
  priority : t.2 = t.1.queue.firstJob?
  plan : ∃ passed, t.1.queue.jobs = passed ++ rest ∧
    (Plan W known base t.1 [] (front t.1) ∨ passed = [] ∧ Plan W known base t.1 [] [])

/-- One job of the traversal. -/
theorem traverseJob_plan {t t' : EasyBfState × Option Job} {rest : List Job} (h : Traversing W known base t (job :: rest))
    (hx : traverseJob t job = .ok t') : Traversing W known base t' rest := by
  obtain ⟨s, priority⟩ := t
  obtain ⟨hpriority, passed, hq, hplan⟩ := h
  dsimp only at hpriority hq hplan
  subst hpriority
  have hmem : job ∈ s.queue.jobs := by
    rw [hq]
    simp
  have hheld : job.id ∉ (heldBy base s).map (·.1) := by
    rcases hplan with hplan | ⟨-, hplan⟩
    · exact hplan.notMem_held hmem
    · exact hplan.notMem_held hmem
  rw [traverseJob] at hx
  cases passed with
  | nil =>
    -- the job is at the front of the queue, and is taken out of the schedule where it is planned
    have hfirst : s.queue.firstJob? = some job := by
      rw [Queue.firstJob?_eq_head?, hq]
      rfl
    split at hx
    · rename_i without hwithout
      have hout : Plan W known base { s with schedule := without } [] [] := by
        split at hwithout
        · rcases hplan with hplan | ⟨-, hplan⟩
          · have htaken := hplan.takeOut hheld (Schedule.removeJob_ok hwithout)
            simpa [front, hfirst] using htaken
          · simpa using hplan.takeOut hheld (Schedule.removeJob_ok hwithout)
        · rename_i hnot
          cases hwithout
          rcases hplan with hplan | ⟨-, hplan⟩
          · refine absurd (hplan.holds.containsJob_iff.2 (.inr ?_)) hnot
            simp [front, hfirst]
          · exact hplan
      split at hx
      · rename_i schedule alloc ha
        split at hx
        · rename_i hstart
          obtain ⟨s', hs', rfl⟩ := map_eq_ok.1 hx
          obtain ⟨hplan', hjobs⟩ := hout.execute hmem ha hstart hs'
          refine ⟨by simp [hfirst], [], ?_, .inr ⟨rfl, hplan'⟩⟩
          dsimp only at hjobs ⊢
          rw [hjobs, hq]
          simp
        · rw [if_pos hfirst.symm] at hx
          cases hx
          refine ⟨rfl, [job], hq, .inl ?_⟩
          have hplan' := hout.plan hmem ha
          simpa [front, hfirst] using hplan'
      · cases hx
    · cases hx
  | cons first passed =>
    have hplan' : Plan W known base s [] (front s) := by
      rcases hplan with hplan | ⟨hbad, -⟩
      · exact hplan
      · cases hbad
    have hfirst : some job ≠ s.queue.firstJob? := by
      rw [Queue.firstJob?_eq_head?, hq]
      intro heq
      have hnodup := hplan'.nodup_queue
      rw [hq, List.cons_append, List.map_cons, List.nodup_cons] at hnodup
      obtain rfl : job = first := by simpa using heq
      exact hnodup.1 (List.mem_map_of_mem (by simp))
    have hnot : s.schedule.containsJob job = false := by
      rw [← Bool.not_eq_true, hplan'.holds.containsJob_iff, not_or]
      refine ⟨hheld, fun hbad => ?_⟩
      have hid : first.id = job.id := by simpa [front, Queue.firstJob?_eq_head?, hq, eq_comm] using hbad
      have hnodup := hplan'.nodup_queue
      rw [hq, List.cons_append, List.map_cons, List.nodup_cons] at hnodup
      exact hnodup.1 (hid ▸ List.mem_map_of_mem (by simp))
    rw [if_neg (by simp [hnot])] at hx
    dsimp only at hx
    split at hx
    · rename_i schedule alloc ha
      obtain ⟨hstarts, hwaits⟩ := hplan'.tryJob hmem hfirst ha
      split at hx
      · rename_i hstart
        obtain ⟨s', hs', rfl⟩ := map_eq_ok.1 hx
        obtain ⟨hplan'', hjobs, hsame⟩ := hstarts hstart s' hs'
        refine ⟨by simp [hsame], first :: passed, ?_, .inl hplan''⟩
        have hne : first ≠ job := by
          rintro rfl
          exact hfirst (by rw [Queue.firstJob?_eq_head?, hq]; rfl)
        have hpassed : job ∉ passed := by
          intro hin
          have hnodup := hplan'.nodup_queue.of_map
          rw [hq, List.cons_append, List.nodup_cons, List.nodup_append] at hnodup
          exact hnodup.2.2.2 job hin job (by simp) rfl
        dsimp only
        rw [hjobs, hq, List.cons_append, List.erase_cons_tail (by simpa using hne), List.erase_append_right _ hpassed,
          List.erase_cons_head, List.cons_append]
      · obtain ⟨schedule', hr, rfl⟩ := map_eq_ok.1 hx
        refine ⟨rfl, first :: passed ++ [job], ?_, .inl (hwaits schedule' hr)⟩
        simp [hq]
    · cases hx

/-- A job released waits at the end of the queue, or is rejected. -/
theorem releaseJob_plan (c : EasyBfConfig) (currentDate : ℚ) (h : Plan W known base s (job :: released) planned) :
    Plan W known base (releaseJob c currentDate s job) released planned ∧
      ∀ other ∈ s.queue.jobs, other ∈ (releaseJob c currentDate s job).queue.jobs := by
  unfold releaseJob
  split
  · have hheld : heldBy base { s with decision := s.decision.add (.rejectJob job.id) } = heldBy base s := by
      simp [heldBy]
    refine ⟨⟨?_, fun other ho => ?_, ?_, h.workload⟩, fun other ho => ho⟩
    · rw [hheld]
      exact h.holds
    · refine h.jobs other ?_
      simp only [List.mem_append, List.mem_cons] at ho ⊢
      tauto
    · rw [hheld]
      refine h.distinct.sublist (List.Sublist.append_right (List.Sublist.map _ ?_) _)
      exact List.Sublist.append_left (List.sublist_cons_self _ _) _
  · refine ⟨⟨h.holds, fun other ho => ?_, ?_, h.workload⟩, fun other ho => ?_⟩
    · refine h.jobs other ?_
      simpa using ho
    · dsimp only
      rw [Queue.jobs_appendJob, List.append_assoc]
      exact h.distinct
    · simp only [Queue.jobs_appendJob, List.mem_append]
      exact .inl ho

/-- The jobs released are queued one after the other. -/
theorem releaseJobs_plan (c : EasyBfConfig) (currentDate : ℚ) (h : Plan W known base s released planned) :
    Plan W known base (released.foldl (releaseJob c currentDate) s) [] planned ∧
      ∀ other ∈ s.queue.jobs, other ∈ (released.foldl (releaseJob c currentDate) s).queue.jobs := by
  induction released generalizing s with
  | nil => exact ⟨h, fun other ho => ho⟩
  | cons job rest ih =>
    obtain ⟨hplan, hkept⟩ := releaseJob_plan c currentDate h
    obtain ⟨hplan', hkept'⟩ := ih hplan
    exact ⟨hplan', fun other ho => hkept' other (hkept other ho)⟩

/-- What a running job says about the schedule. -/
def pair (r : RunningJob) : String × IntervalSet := (r.id, r.machines)

/-- The jobs that ended leave the schedule one after the other. -/
theorem finishJobs_holds {schedule schedule' : Schedule} {ended : List Job} {reported : List RunningJob}
    (hids : ended.map (·.id) = reported.map (·.id)) (h : Holds W schedule (base ++ reported.map pair) planned)
    (hdistinct : ((base ++ reported.map pair).map (·.1)).Nodup) (hplanned : ∀ r ∈ reported, r.id ∉ planned)
    (hx : runFrom Schedule.removeJob schedule ended = .ok schedule') : Holds W schedule' base planned := by
  induction ended generalizing schedule reported with
  | nil =>
    obtain rfl : reported = [] := by simpa using hids
    cases hx
    simpa using h
  | cons job ended ih =>
    cases reported with
    | nil => cases hids
    | cons r reported =>
      obtain ⟨hid, hids⟩ : job.id = r.id ∧ ended.map (·.id) = reported.map (·.id) := List.cons.inj hids
      obtain ⟨schedule₁, hr, hrest⟩ := of_runFrom_cons hx
      have hmiddle : ((base ++ pair r :: reported.map pair).map (·.1)).Nodup := hdistinct
      rw [List.map_append, List.map_cons, List.nodup_middle, List.nodup_cons, ← List.map_append] at hmiddle
      refine ih hids ((h.remove hr).congr (fun e => ?_) (fun id => ?_)) hmiddle.2
        (fun r' hr' => hplanned r' (List.mem_cons_of_mem _ hr')) hrest
      · have hne : e ∈ base ++ reported.map pair → e.1 ≠ job.id := by
          rintro he heq
          have hself : e.1 = (pair r).1 := heq.trans hid
          exact hmiddle.1 (hself ▸ List.mem_map_of_mem he)
        have hself : (pair r).1 = job.id := hid.symm
        simp only [List.map_cons, List.mem_filter, List.mem_append, List.mem_cons, decide_eq_true_eq] at hne ⊢
        constructor
        · exact fun he => ⟨he.imp_right .inr, hne he⟩
        · rintro ⟨he | rfl | he, hne'⟩
          · exact .inl he
          · exact absurd hself hne'
          · exact .inr he
      · simp only [List.mem_filter, decide_eq_true_eq]
        refine ⟨fun hmem => ⟨hmem, ?_⟩, fun hmem => hmem.1⟩
        rintro rfl
        exact hplanned r List.mem_cons_self (hid ▸ hmem)

/-- What every step keeps: the schedule holds the jobs that run or whose ends are being reported, and the first job of the queue. -/
structure Kept (t : EasyBfState × Platform) : Prop where
  holds : Holds (.registered t.1.workload) t.1.schedule ((t.2.running ++ t.2.reported).map pair) (front t.1)
  jobs : ∀ job ∈ t.1.queue.jobs ++ t.1.jobsReleasedRecently, job ∈ (NamedJobs.registered t.1.workload).jobs
  distinct : ((t.1.queue.jobs ++ t.1.jobsReleasedRecently).map (·.id) ++ (t.2.running ++ t.2.reported).map (·.id)).Nodup
  ended : t.1.jobsEndedRecently.map (·.id) = t.2.reported.map (·.id)
  workload : ∀ id job, t.1.workload id = some job → job.id = id

/-- When the jobs that ended have left the schedule, it holds the jobs that run and the first of the queue. -/
theorem Kept.finished {p : Platform} {schedule : Schedule} (h : Kept (s, p))
    (hx : runFrom Schedule.removeJob s.schedule s.jobsEndedRecently = .ok schedule) :
    Plan (.registered s.workload) s.workload (p.running.map pair) { s with decision := s.decision.clear, schedule := schedule }
      s.jobsReleasedRecently (front s) := by
  have hids : ((p.running ++ p.reported).map pair).map (·.1) = (p.running ++ p.reported).map (·.id) := by
    simp [pair, Function.comp_def]
  have hfront : ∀ r ∈ p.running ++ p.reported, r.id ∉ front s := by
    intro r hr hbad
    obtain ⟨job, hjob, hid⟩ : ∃ job ∈ s.queue.firstJob?, job.id = r.id := by simpa [front] using hbad
    rw [Queue.firstJob?_eq_head?] at hjob
    exact (List.nodup_append.1 h.distinct).2.2 job.id (List.mem_map_of_mem (List.mem_append_left _ (List.mem_of_mem_head? hjob)))
      r.id (List.mem_map_of_mem hr) hid
  have hholds : Holds (.registered s.workload) schedule (p.running.map pair) (front s) := by
    refine finishJobs_holds h.ended ?_ ?_ (fun r hr => hfront r (List.mem_append_right _ hr)) hx
    · rw [← List.map_append]
      exact h.holds
    · rw [← List.map_append, hids]
      exact (List.nodup_append.1 h.distinct).2.1
  refine ⟨by simpa [heldBy] using hholds, h.jobs, ?_, rfl⟩
  refine h.distinct.sublist (List.Sublist.append_left ?_ _)
  simp only [heldBy, SchedulingDecision.decisions_clear, executions_nil, List.append_nil, List.map_map]
  exact (List.sublist_append_left _ _).map _

/-- A pass leaves the jobs that run and the first job of the queue in the schedule. -/
theorem makeDecisions_plan {p : Platform} (h : Kept (s, p))
    (hx : makeDecisions c { s with decision := s.decision.clear } date currentDate = .ok s') :
    Plan (.registered s.workload) s.workload (p.running.map pair) s' [] (front s') := by
  unfold makeDecisions prepare handleJobs at hx
  dsimp only at hx
  split at hx
  · rename_i t ht
    split at ht
    · rename_i u hu
      obtain ⟨schedule, hfinish, rfl⟩ := map_eq_ok.1 hu
      obtain ⟨hqueued, hkept⟩ := releaseJobs_plan c currentDate (h.finished hfinish)
      generalize s.jobsReleasedRecently.foldl _ _ = queued at hqueued hkept ht
      split at ht
      · rename_i schedule' hupdate
        have hupdated : Plan (.registered s.workload) s.workload (p.running.map pair)
            { queued with schedule := schedule' } [] (front s) :=
          ⟨hqueued.holds.update hupdate, hqueued.jobs, hqueued.distinct, hqueued.workload⟩
        have hplan : Plan (.registered s.workload) s.workload (p.running.map pair) t [] (front t) := by
          refine sortQueue_plan hupdated (fun job hjob => ?_) ht
          · rw [Queue.firstJob?_eq_head?] at hjob
            exact hkept job (List.mem_of_mem_head? hjob)
        split at hx
        · obtain ⟨v, hv, rfl⟩ := map_eq_ok.1 hx
          exact (runFrom_invariant 
            (I := fun t' : EasyBfState × ℤ => Plan (.registered s.workload) s.workload (p.running.map pair) t'.1 [] (front t'.1) ∧
              t'.1.queue.firstJob? = t.queue.firstJob?)
            (fun _ _ _ hinv _ hstep => backfillReleased_plan hinv hstep) ⟨hplan, rfl⟩ (allSteps_of_forall fun _ _ => trivial) hv).1
        · split at hx
          · obtain ⟨v, hv, rfl⟩ := map_eq_ok.1 hx
            have htraversed := runFrom_rest (R := Traversing (.registered s.workload) s.workload (p.running.map pair))
              (fun _ _ _ _ hinv hstep => traverseJob_plan hinv hstep) ⟨rfl, [], rfl, .inl hplan⟩ hv
            obtain ⟨passed, hq, hfinal | ⟨rfl, hfinal⟩⟩ := htraversed.plan
            · exact hfinal
            · rw [front, Queue.firstJob?_eq_head?, hq]
              exact hfinal
          · cases hx
            exact hplan
      · cases ht
    · cases ht
  · cases hx

/-- The jobs of the schedule are registered. -/
theorem Kept.isKnown {p : Platform} (h : Kept (s, p)) {r : RunningJob} (hr : r ∈ p.running ++ p.reported) : s.workload r.id ≠ none := by
  have hmem : r.id ∈ ((p.running ++ p.reported).map pair).map (·.1) := by
    rw [List.map_map]
    exact List.mem_map_of_mem (f := fun r : RunningJob => r.id) hr
  obtain ⟨slice, hslice, hcontains⟩ := (h.holds.present { id := r.id, nbRequestedResources := 0, walltime := 0 }).2 (.inl hmem)
  obtain ⟨e, he, hid⟩ := KeyedMap.contains_iff.1 hcontains
  have hjob : s.workload e.1.id = some e.1 := (h.holds.exclusive.runs.known slice hslice e he).1
  rw [show e.1.id = r.id from hid] at hjob
  simp [hjob]

theorem Kept.new (c : EasyBfConfig) (date : ℚ) : Kept (EasyBf.new c date, Platform.new date) where
  holds := by
    have hnew := Holds.new (.registered fun _ => none) c.nbMachines date
    simpa [Platform.new, EasyBf.new, front, Queue.firstJob?_eq_head?, Queue.jobs] using hnew
  jobs := by simp [EasyBf.new, Queue.jobs]
  distinct := by simp [EasyBf.new, Platform.new, Queue.jobs]
  ended := rfl
  workload := by simp [EasyBf.new]

/-- What is kept of the jobs. -/
theorem Kept.jobsKept {p : Platform} (h : Kept (s, p)) :
    JobsKept s.workload (s.queue.jobs ++ s.jobsReleasedRecently) s.jobsEndedRecently p :=
  ⟨h.jobs, h.distinct, h.ended, h.workload, fun _ hr => h.isKnown hr⟩

/-- A job submitted is registered. -/
theorem Kept.submit {p : Platform} (h : Kept (s, p)) (hid : ∃ i : JobIdentifier, job.id = i.representation)
    (hnew : s.workload job.id = none) :
    Kept ({ s with
      workload := Function.update s.workload job.id (some job)
      jobsReleasedRecently := s.jobsReleasedRecently ++ [job] }, { p with submitted := p.submitted ++ [job] }) := by
  obtain ⟨hjobs, hdistinct, hended, hnamed, _⟩ := h.jobsKept.submit hid hnew
  rw [List.append_assoc] at hjobs hdistinct
  exact ⟨h.holds.mono (JobsKept.registered_subset hnew), hjobs, hdistinct, hended, hnamed⟩

/-- The end of a job that runs is reported. -/
theorem Kept.complete {p : Platform} {r : RunningJob} {before after : List RunningJob} (h : Kept (s, p))
    (hrunning : p.running = before ++ r :: after) (hid : job.id = r.id) :
    Kept ({ s with jobsEndedRecently := s.jobsEndedRecently ++ [job] },
      { p with running := before ++ after, reported := p.reported ++ [r] }) := by
  obtain ⟨hjobs, hdistinct, hended, hnamed, _⟩ := h.jobsKept.complete hrunning hid
  have hperm := (JobsKept.perm_complete hrunning).map pair
  exact ⟨h.holds.congr (fun _ => hperm.mem_iff) (fun _ => Iff.rfl), hjobs, hdistinct, hended, hnamed⟩

/-- A job executed runs from the date of the message on. -/
def startedAt (date : ℚ) (e : String × IntervalSet) : RunningJob := { id := e.1, machines := e.2, start := date }

/-- The decisions of a pass are sent. -/
theorem Kept.decide {p : Platform} (h : Kept (s, p))
    (hx : makeDecisions c { s with decision := s.decision.clear } date currentDate = .ok s') :
    Kept ({ s' with jobsReleasedRecently := [], jobsEndedRecently := [] },
      ({ p with now := date } : Platform).send s'.decision.decisions) := by
  have hplan := makeDecisions_plan h hx
  have hheld : (p.running ++ (executions s'.decision.decisions).map (startedAt date) ++ []).map pair =
      heldBy (p.running.map pair) s' := by
    simp [heldBy, pair, startedAt, Function.comp_def]
  have hids : (p.running ++ (executions s'.decision.decisions).map (startedAt date) ++ []).map RunningJob.id =
      (heldBy (p.running.map pair) s').map (·.1) := by
    rw [← hheld, List.map_map]
    rfl
  refine ⟨?_, fun job hjob => ?_, ?_, rfl, ?_⟩
  · change Holds (.registered s'.workload) _ (List.map pair _) _
    rw [hplan.workload]
    exact hheld ▸ hplan.holds
  · change job ∈ (NamedJobs.registered s'.workload).jobs
    rw [hplan.workload]
    exact hplan.jobs job hjob
  · exact hids ▸ hplan.distinct
  · change ∀ id job, s'.workload id = some job → job.id = id
    rw [hplan.workload]
    exact h.workload

/-- What an event does. -/
theorem run_cases {p : Platform} {t : EasyBfState × Platform} {event : EasyBf3Event} (hx : (scheduler c).run (s, p) event = .ok t) :
    (∃ job, event = .jobSubmitted job ∧ s.workload job.id = none ∧
      t = ({ s with
        workload := Function.update s.workload job.id (some job)
        jobsReleasedRecently := s.jobsReleasedRecently ++ [job] }, { p with submitted := p.submitted ++ [job] })) ∨
    (∃ id job r before after, event = .jobCompleted id ∧ s.workload id = some job ∧ r.id = id ∧ p.running = before ++ r :: after ∧
      t = ({ s with jobsEndedRecently := s.jobsEndedRecently ++ [job] },
        { p with running := before ++ after, reported := p.reported ++ [r] })) ∨
    (∃ now currentDate s', event = .makeDecisions now currentDate ∧ p.now ≤ now ∧
      makeDecisions c { s with decision := s.decision.clear } now currentDate = .ok s' ∧
      t = ({ s' with jobsReleasedRecently := [], jobsEndedRecently := [] },
        ({ p with now := now } : Platform).send s'.decision.decisions)) := by
  cases event with
  | jobSubmitted job =>
    obtain ⟨s', hs, rfl⟩ := JobScheduler.run_submitted rfl hx
    simp only [scheduler, step] at hs
    split at hs
    · cases hs
    · rename_i hnew
      cases hs
      exact .inl ⟨job, rfl, hnew, rfl⟩
  | jobCompleted id =>
    obtain ⟨s', r, before, after, hs, hr, hrunning, rfl⟩ := JobScheduler.run_completed rfl hx
    simp only [scheduler, step] at hs
    split at hs
    · rename_i job hjob
      cases hs
      exact .inr (.inl ⟨id, job, r, before, after, rfl, hjob, hr, hrunning, rfl⟩)
    · cases hs
  | makeDecisions now currentDate =>
    obtain ⟨hle, s', hs, rfl⟩ := JobScheduler.run_decided rfl hx
    obtain ⟨s'', hmade, rfl⟩ := map_eq_ok.1 hs
    exact .inr (.inr ⟨now, currentDate, s'', rfl, hle, hmade, rfl⟩)

/-- Every event keeps what the schedule holds, if the jobs submitted are named as Batsim names them. -/
theorem kept_step {t t' : EasyBfState × Platform} {event : EasyBf3Event} (h : Kept t)
    (hid : ∀ job, event = .jobSubmitted job → ∃ i : JobIdentifier, job.id = i.representation)
    (hx : (scheduler c).run t event = .ok t') :
    Kept t' ∧ ∀ now currentDate, event = .makeDecisions now currentDate → t'.2.reported = [] := by
  rcases run_cases hx with ⟨job, rfl, hnew, rfl⟩ | ⟨id, job, r, before, after, rfl, hjob, hr, hrunning, rfl⟩ |
    ⟨now, currentDate, s', rfl, -, hmade, rfl⟩
  · exact ⟨h.submit (hid job rfl) hnew, nofun⟩
  · exact ⟨h.complete hrunning ((h.workload id job hjob).trans hr.symm), nofun⟩
  · exact ⟨h.decide hmade, fun _ _ _ => rfl⟩

/-- When no ends are being reported, the schedule is as it is meant to be. -/
theorem Kept.content {p : Platform} (h : Kept (s, p)) (hreported : p.reported = []) : ScheduleContent (s, p) := by
  have hholds := h.holds
  have hdistinct := h.distinct
  dsimp only at hholds hdistinct
  rw [hreported, List.append_nil] at hholds hdistinct
  have hids : (p.running.map pair).map (·.1) = p.running.map (·.id) := by
    simp [pair, Function.comp_def]
  have hcontains : ∀ job, s.schedule.containsJob job ↔
      (∃ r ∈ p.running, r.id = job.id) ∨ ∃ first ∈ s.queue.firstJob?, first.id = job.id := by
    intro job
    rw [hholds.containsJob_iff, hids, List.mem_map]
    simp [front]
  refine ⟨hcontains, fun r hr => ?_, fun job hjob hfirst => ?_, ?_⟩
  · obtain ⟨slice, rest, job, hprofile, hmem, hid⟩ := hholds.entry (List.mem_map_of_mem (f := pair) hr)
    exact ⟨slice, rest, job, hprofile, hmem, hid⟩
  · rw [← Bool.not_eq_true, hcontains, not_or]
    constructor
    · rintro ⟨r, hr, heq⟩
      exact (List.nodup_append.1 hdistinct).2.2 job.id (List.mem_map_of_mem (List.mem_append_left _ hjob)) r.id
        (List.mem_map_of_mem hr) heq.symm
    · rintro ⟨first, hmem, heq⟩
      have hnodup := (List.nodup_append.1 hdistinct).1
      rw [List.map_append] at hnodup
      have hqueue : first ∈ s.queue.jobs := by
        rw [Queue.firstJob?_eq_head?] at hmem
        exact List.mem_of_mem_head? hmem
      have hsame := List.inj_on_of_nodup_map (List.nodup_append.1 hnodup).1 hqueue hjob heq
      exact hfirst (hsame ▸ hmem)
  · have hnodup := List.pairwise_map.1 (List.nodup_append.1 hdistinct).2.1
    refine hnodup.imp_of_mem fun hr hr' hne => ?_
    exact hholds.disjoint (List.mem_map_of_mem (f := pair) hr) (List.mem_map_of_mem (f := pair) hr') hne

end EasyBfAux

open EasyBfAux in
/-- Whenever the decisions about a message have been sent, the schedule holds the jobs that run, each in the first slice on the
machines on which it was executed, and the first job of the queue. No two of the jobs that run share a machine. -/
theorem schedule_content (c : EasyBfConfig) (date : ℚ) (events : List EasyBf3Event)
    (hsubmitted : ∀ job, .jobSubmitted job ∈ events → ∃ i : JobIdentifier, job.id = i.representation) (now currentDate : ℚ)
    (t : EasyBfState × Platform)
    (hrun : runFrom (scheduler c).run (EasyBf.new c date, Platform.new date) (events ++ [.makeDecisions now currentDate]) = .ok t) :
    ScheduleContent t := by
  obtain ⟨t₁, hevents, hlast⟩ := of_runFrom_append hrun
  have hkept : Kept t₁ := by
    refine runFrom_invariant (fun _ _ _ h hid hx => (kept_step h hid hx).1) (Kept.new c date) ?_ hevents
    refine allSteps_of_forall fun event hmem job heq => ?_
    subst heq
    exact hsubmitted job hmem
  obtain ⟨t₂, hstep, hend⟩ := of_runFrom_cons hlast
  cases hend
  obtain ⟨hkept', hreported⟩ := kept_step hkept (by rintro job ⟨⟩) hstep
  exact hkept'.content (hreported now currentDate rfl)

namespace EasyBfAux

private def identifier : JobIdentifier where
  workloadName := "w0"
  jobName := "1,2"
  workloadName_valid := by decide
  jobName_valid := by decide

private def identifier' : JobIdentifier := { identifier with jobName := "3", jobName_valid := by decide }

/-- Two jobs of which only one can run, and its end. -/
private def events : List EasyBf3Event :=
  [.jobSubmitted { id := "w0!1,2", nbRequestedResources := 2, walltime := 10 },
    .jobSubmitted { id := "w0!3", nbRequestedResources := 3, walltime := 10 },
    .makeDecisions 0 0, .jobCompleted "w0!1,2"]

end EasyBfAux

open EasyBfAux in
/-- On three machines the second job starts when the first has ended. -/
theorem schedule_content_witness :
    ∃ t, runFrom (scheduler { nbMachines := 3 }).run (EasyBf.new { nbMachines := 3 } 0, Platform.new 0)
      (events ++ [.makeDecisions 5 5]) = .ok t ∧ t.2.running.map (·.id) = ["w0!3"] ∧ ScheduleContent t := by
  have hok : (runFrom (scheduler { nbMachines := 3 }).run (EasyBf.new { nbMachines := 3 } 0, Platform.new 0)
      (events ++ [.makeDecisions 5 5])).toOption.map (fun t => t.2.running.map (·.id)) = some ["w0!3"] := by
    decide +kernel
  obtain ⟨t, ht, hrunning⟩ := toOption_map_eq_some.1 hok
  refine ⟨t, ht, hrunning, schedule_content { nbMachines := 3 } 0 events (fun job hjob => ?_) 5 5 t ht⟩
  simp only [events, List.mem_cons, EasyBf3Event.jobSubmitted.injEq, reduceCtorEq, List.not_mem_nil, or_false] at hjob
  rcases hjob with rfl | rfl
  · exact ⟨identifier, rfl⟩
  · exact ⟨identifier', rfl⟩

end ScheduleTest
