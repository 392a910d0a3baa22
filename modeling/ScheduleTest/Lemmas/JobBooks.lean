import ScheduleTest.Lib.Divided
import ScheduleTest.Platform

/-!
# The books of a scheduler that divides its machines among jobs

Which jobs run on which machines, which wait, and which were just released, in the middle of a pass (`JobBooks`). What a scheduler does
with a job keeps the books: it comes to its end, waits, is rejected or is executed.
-/

namespace ScheduleTest

namespace JobBooks

/-- The jobs that can be executed, in their order. -/
def accepted (nbMachines : ℕ) (jobs : List Job) : List Job := jobs.filter (·.nbRequestedResources ≤ nbMachines)

/-- The jobs that request too many machines, in their order. -/
def tooLarge (nbMachines : ℕ) (jobs : List Job) : List Job := jobs.filter (nbMachines < ·.nbRequestedResources)

variable {n : ℕ} {job : Job} {jobs : List Job}

@[simp] theorem accepted_append (jobs' : List Job) : accepted n (jobs ++ jobs') = accepted n jobs ++ accepted n jobs' :=
  List.filter_append ..

@[simp] theorem tooLarge_append (jobs' : List Job) : tooLarge n (jobs ++ jobs') = tooLarge n jobs ++ tooLarge n jobs' :=
  List.filter_append ..

theorem accepted_cons_of_le (h : job.nbRequestedResources ≤ n) : accepted n (job :: jobs) = job :: accepted n jobs :=
  List.filter_cons_of_pos (by simpa using h)

theorem accepted_cons_of_lt (h : n < job.nbRequestedResources) : accepted n (job :: jobs) = accepted n jobs :=
  List.filter_cons_of_neg (by simpa using h)

theorem tooLarge_cons_of_le (h : job.nbRequestedResources ≤ n) : tooLarge n (job :: jobs) = tooLarge n jobs :=
  List.filter_cons_of_neg (by simpa using h)

theorem tooLarge_cons_of_lt (h : n < job.nbRequestedResources) : tooLarge n (job :: jobs) = job :: tooLarge n jobs :=
  List.filter_cons_of_pos (by simpa using h)

end JobBooks

open JobBooks

/-- The books, with the jobs that run when the decisions made so far are carried out, and the jobs that wait. -/
structure JobBooks (n : ℕ) (p : Platform) (running : List (String × IntervalSet)) (decisions : List Decision)
    (queue released : List Job) (available : IntervalSet) (allocations : KeyedMap (fun id : String => id) IntervalSet)
    (workload : String → Option Job) : Prop where
  divided : Divided (Finset.range n) available (running.map (·.2))
  allocated : ∀ e, e ∈ allocations.entries ↔ e ∈ running
  distinct : (running.map (·.1) ++ (queue ++ released).map (·.id)).Nodup
  known : ∀ job ∈ queue ++ released, workload job.id = some job
  started : ∀ e ∈ running, ∃ job, workload e.1 = some job
  fits : ∀ job ∈ queue, job.nbRequestedResources ≤ n
  accounted : (p.executed ++ (executions decisions).map (·.1) ++ (queue ++ accepted n released).map (·.id)).Perm
    ((accepted n p.submitted).map (·.id))
  rejected : p.rejected ++ rejections decisions ++ (tooLarge n released).map (·.id) = (tooLarge n p.submitted).map (·.id)

namespace JobBooks

variable {n : ℕ} {p : Platform} {running : List (String × IntervalSet)} {decisions : List Decision} {queue released : List Job}
  {available machines : IntervalSet} {allocations : KeyedMap (fun id : String => id) IntervalSet} {workload : String → Option Job}
  {job : Job} {e : String × IntervalSet}

theorem new (n : ℕ) (date : ℚ) : JobBooks n (Platform.new date) [] [] [] [] (Finset.range n) KeyedMap.empty fun _ => none where
  divided := Divided.new _
  allocated := by simp
  distinct := .nil
  known := nofun
  started := nofun
  fits := nofun
  accounted := .refl _
  rejected := rfl

/-- The order of the jobs that wait does not matter. -/
theorem perm_queue {queue' : List Job} (h : JobBooks n p running decisions queue released available allocations workload)
    (hperm : queue'.Perm queue) : JobBooks n p running decisions queue' released available allocations workload where
  __ := h
  distinct := ((((hperm.append_right _).map _).append_left _).nodup_iff).2 h.distinct
  known := fun other ho => h.known other ((hperm.append_right _).mem_iff.1 ho)
  fits := fun other ho => h.fits other (hperm.mem_iff.1 ho)
  accounted := (((hperm.append_right _).map _).append_left _).trans h.accounted

/-- The order of the jobs that run does not matter. -/
theorem perm_running {running' : List (String × IntervalSet)}
    (h : JobBooks n p running decisions queue released available allocations workload) (hperm : running'.Perm running) :
    JobBooks n p running' decisions queue released available allocations workload where
  __ := h
  divided := h.divided.perm (hperm.map _)
  allocated := fun e => (h.allocated e).trans hperm.mem_iff.symm
  distinct := (((hperm.map _).append_right _).nodup_iff).2 h.distinct
  started := fun e he => h.started e (hperm.mem_iff.1 he)

/-- A job that runs is found among the allocations. -/
theorem find?_eq (h : JobBooks n p running decisions queue released available allocations workload) (he : e ∈ running) :
    allocations.find? e.1 = some e.2 :=
  KeyedMap.find?_eq_some.2 ⟨e.1, (h.allocated e).2 he, rfl⟩

/-- A job that has ended gives its machines back. -/
theorem finish (h : JobBooks n p (e :: running) decisions queue released available allocations workload) :
    JobBooks n p running decisions queue released (available ∪ e.2) (allocations.erase e.1) workload := by
  have hdistinct : (e.1 :: (running.map (·.1) ++ (queue ++ released).map (·.id))).Nodup := h.distinct
  obtain ⟨hfresh, hrest⟩ := List.nodup_cons.1 hdistinct
  refine { h with
    divided := h.divided.giveBack
    allocated := fun e' => ?_
    distinct := hrest
    started := fun e' he' => h.started e' (List.mem_cons_of_mem _ he') }
  rw [KeyedMap.mem_erase, h.allocated e']
  constructor
  · rintro ⟨he', hne⟩
    exact (List.mem_cons.1 he').resolve_left fun heq => hne (congrArg Prod.fst heq)
  · intro he'
    refine ⟨List.mem_cons_of_mem _ he', fun heq => hfresh (List.mem_append_left _ ?_)⟩
    exact heq ▸ List.mem_map_of_mem he'

/-- A job released waits. -/
theorem wait (h : JobBooks n p running decisions queue (job :: released) available allocations workload)
    (hle : job.nbRequestedResources ≤ n) : JobBooks n p running decisions (queue ++ [job]) released available allocations workload := by
  have hshift : queue ++ job :: released = queue ++ [job] ++ released := by simp
  exact {
    h with
    distinct := hshift ▸ h.distinct
    known := hshift ▸ h.known
    fits := fun other ho => (List.mem_append.1 ho).elim (h.fits other) fun ho => List.mem_singleton.1 ho ▸ hle
    accounted := by
      have haccounted := h.accounted
      rw [accepted_cons_of_le hle] at haccounted
      simpa using haccounted
    rejected := by
      have hrejected := h.rejected
      rwa [tooLarge_cons_of_le hle] at hrejected }

/-- A job released that cannot be executed is rejected. -/
theorem reject (h : JobBooks n p running decisions queue (job :: released) available allocations workload)
    (hlt : n < job.nbRequestedResources) :
    JobBooks n p running (decisions ++ [.rejectJob job.id]) queue released available allocations workload := by
  have hsub : (queue ++ released).Sublist (queue ++ job :: released) := (List.sublist_cons_self _ _).append_left _
  exact {
    h with
    distinct := h.distinct.sublist ((hsub.map _).append_left _)
    known := fun other ho => h.known other (hsub.subset ho)
    accounted := by
      have haccounted := h.accounted
      rw [accepted_cons_of_lt hlt] at haccounted
      simpa using haccounted
    rejected := by
      have hrejected := h.rejected
      rw [tooLarge_cons_of_lt hlt] at hrejected
      simpa using hrejected }

/-- A job that waits is executed on machines that are available. -/
theorem execute (h : JobBooks n p running decisions (job :: queue) released available allocations workload)
    (hsub : machines ⊆ available) :
    JobBooks n p (running ++ [(job.id, machines)]) (decisions ++ [.executeJob job.id machines]) queue released (available \ machines)
      (allocations.insert job.id machines) workload := by
  have hperm := List.perm_append_singleton (job.id, machines) running
  have hdistinct : (running.map (·.1) ++ job.id :: (queue ++ released).map (·.id)).Nodup := h.distinct
  have hnew : ∀ e ∈ allocations.entries, e.1 ≠ job.id := fun e he heq =>
    (List.nodup_append.1 hdistinct).2.2 e.1 (List.mem_map_of_mem ((h.allocated e).1 he)) job.id List.mem_cons_self heq
  constructor
  case divided => exact (h.divided.take hsub).perm (hperm.map _)
  case allocated =>
    intro e
    rw [KeyedMap.mem_insert_of_new hnew, h.allocated e, List.mem_append, List.mem_singleton, or_comm]
  case distinct => simpa using hdistinct
  case known => exact fun other ho => h.known other (List.mem_cons_of_mem _ ho)
  case started =>
    intro e he
    rcases List.mem_append.1 he with he | he
    · exact h.started e he
    · obtain rfl := List.mem_singleton.1 he
      exact ⟨job, h.known job List.mem_cons_self⟩
  case fits => exact fun other ho => h.fits other (List.mem_cons_of_mem _ ho)
  case accounted =>
    have haccounted := h.accounted
    simp only [executions_append, executions_executeJob, List.map_append, List.map_cons, List.map_nil, List.append_assoc,
      List.cons_append, List.nil_append] at haccounted ⊢
    exact haccounted
  case rejected =>
    have hrejected := h.rejected
    simpa using hrejected

/-- A job that is known stays known. -/
theorem update_of_known {other : Job} {id : String} (hnew : workload job.id = none) (ho : workload id = some other) :
    Function.update workload job.id (some job) id = some other := by
  rw [Function.update_of_ne, ho]
  rintro rfl
  rw [hnew] at ho
  cases ho

/-- A job submitted is one that is not known yet. -/
theorem submit (h : JobBooks n p running decisions queue released available allocations workload) (hnew : workload job.id = none) :
    JobBooks n { p with submitted := p.submitted ++ [job] } running decisions queue (released ++ [job]) available allocations
      (Function.update workload job.id (some job)) := by
  have hfresh : job.id ∉ running.map (·.1) ++ (queue ++ released).map (·.id) := by
    intro hbad
    rcases List.mem_append.1 hbad with hbad | hbad
    · obtain ⟨e, he, hid⟩ := List.mem_map.1 hbad
      obtain ⟨other, ho⟩ := h.started e he
      rw [hid, hnew] at ho
      cases ho
    · obtain ⟨other, ho, hid⟩ := List.mem_map.1 hbad
      have hknown := h.known other ho
      rw [hid, hnew] at hknown
      cases hknown
  constructor
  case divided => exact h.divided
  case allocated => exact h.allocated
  case distinct =>
    have hnodup := (List.perm_append_singleton _ _).nodup_iff.2 (List.nodup_cons.2 ⟨hfresh, h.distinct⟩)
    simpa using hnodup
  case known =>
    intro other ho
    rw [← List.append_assoc, List.mem_append, List.mem_singleton] at ho
    rcases ho with ho | rfl
    · exact update_of_known hnew (h.known other ho)
    · exact Function.update_self ..
  case started =>
    intro e he
    obtain ⟨other, ho⟩ := h.started e he
    exact ⟨other, update_of_known hnew ho⟩
  case fits => exact h.fits
  case accounted =>
    have haccounted := h.accounted.append_right ((accepted n [job]).map (·.id))
    simpa using haccounted
  case rejected =>
    have hrejected := congrArg (· ++ (tooLarge n [job]).map (·.id)) h.rejected
    simpa using hrejected

/-- The decisions are sent. -/
theorem send (h : JobBooks n p running decisions queue [] available allocations workload) (date : ℚ) :
    JobBooks n (({ p with now := date } : Platform).send decisions) running [] queue [] available allocations workload where
  __ := h
  accounted := by
    have haccounted := h.accounted
    simpa [Platform.send] using haccounted
  rejected := by
    have hrejected := h.rejected
    simpa [Platform.send] using hrejected

/-- What a running job says about the allocations. -/
def allocation (r : RunningJob) : String × IntervalSet := (r.id, r.machines)

/-- The workload holds the jobs submitted by their ids, each of which is submitted once. -/
structure Listed (workload : String → Option Job) (submitted : List Job) : Prop where
  iff : ∀ id job, workload id = some job ↔ job ∈ submitted ∧ job.id = id
  once : (submitted.map (·.id)).Nodup

theorem Listed.new : Listed (fun _ => none) [] := ⟨by simp, .nil⟩

theorem Listed.submit {submitted : List Job} (h : Listed workload submitted) (hnew : workload job.id = none) :
    Listed (Function.update workload job.id (some job)) (submitted ++ [job]) := by
  have hnone : ∀ other ∈ submitted, other.id ≠ job.id := by
    intro other ho heq
    have hwork := (h.iff other.id other).2 ⟨ho, rfl⟩
    rw [heq, hnew] at hwork
    cases hwork
  constructor
  · intro id other
    by_cases hid : id = job.id
    · subst hid
      rw [Function.update_self, List.mem_append, List.mem_singleton]
      constructor
      · intro ho
        exact ⟨.inr (Option.some.inj ho).symm, congrArg Job.id (Option.some.inj ho).symm⟩
      · rintro ⟨ho | rfl, heq⟩
        · exact absurd heq (hnone other ho)
        · rfl
    · rw [Function.update_of_ne hid, h.iff id other, List.mem_append, List.mem_singleton]
      refine and_congr_left fun heq => ⟨.inl, fun ho => ho.resolve_right ?_⟩
      rintro rfl
      exact hid heq.symm
  · rw [List.map_append, List.map_singleton]
    refine (List.perm_append_singleton _ _).nodup_iff.2 (List.nodup_cons.2 ⟨fun hmem => ?_, h.once⟩)
    obtain ⟨other, ho, heq⟩ := List.mem_map.1 hmem
    exact hnone other ho heq

end JobBooks

/-- The end that is reported is that of a job that runs. -/
theorem Platform.receive_completed {p p' : Platform} {id : String} (h : p.receive (.completed id) = .ok p') :
    ∃ r before after, r.id = id ∧ p.running = before ++ r :: after ∧
      p' = { p with running := before ++ after, reported := p.reported ++ [r] } := by
  simp only [receive] at h
  split at h
  · rename_i r hfind
    obtain rfl := Except.ok.inj h
    obtain ⟨hid, before, after, hjobs, hbefore⟩ := List.find?_eq_some_iff_append.1 hfind
    have herase : p.running.eraseP (·.id = id) = before ++ after := by
      rw [hjobs, List.eraseP_append_right _ (by simpa using hbefore), List.eraseP_cons_of_pos (by exact hid)]
    exact ⟨r, before, after, of_decide_eq_true hid, hjobs, by rw [herase]⟩
  · cases h

/-- The platform refuses only what the simulator does not send. -/
theorem Platform.receive_error {p : Platform} {notice : Notice} {reason : Abort} (h : p.receive notice = .error reason) :
    reason = .impossibleMessage := by
  cases notice with
  | submitted job => cases h
  | completed id =>
    simp only [receive] at h
    split at h
    · cases h
    · exact (Except.error.inj h).symm
  | decided date =>
    simp only [receive] at h
    split at h
    · cases h
    · exact (Except.error.inj h).symm
  | other => cases h

end ScheduleTest
