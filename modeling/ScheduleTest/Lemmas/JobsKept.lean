import ScheduleTest.Platform

/-!
# The jobs a scheduler and its platform agree about

Of every backfilling scheduler: the jobs that wait or have just been released are registered, and they, the jobs that run and those
whose ends are being reported are different jobs (`JobsKept`). Submitting a job and reporting the end of one keep this.
-/

namespace ScheduleTest

/-- What a running job says about a schedule. -/
def RunningJob.pair (r : RunningJob) : String × IntervalSet := (r.id, r.machines)

@[simp] theorem map_pair_fst (l : List RunningJob) : (l.map RunningJob.pair).map (·.1) = l.map (·.id) := by
  simp [RunningJob.pair, Function.comp_def]

/-- The jobs waiting or just released, those whose ends have just been reported, and the jobs of the platform. -/
structure JobsKept (workload : String → Option Job) (waiting ended : List Job) (p : Platform) : Prop where
  jobs : ∀ job ∈ waiting, job ∈ (NamedJobs.registered workload).jobs
  distinct : (waiting.map (·.id) ++ (p.running ++ p.reported).map (·.id)).Nodup
  ends : ended.map (·.id) = p.reported.map (·.id)
  named : ∀ id job, workload id = some job → job.id = id
  isKnown : ∀ r ∈ p.running ++ p.reported, workload r.id ≠ none

namespace JobsKept

variable {workload : String → Option Job} {waiting ended : List Job} {p : Platform} {job : Job}

/-- A job not registered before may be registered. -/
theorem registered_subset (hnew : workload job.id = none) :
    (NamedJobs.registered workload).jobs ⊆ (NamedJobs.registered (Function.update workload job.id (some job))).jobs := by
  rintro other ⟨hother, hi⟩
  refine ⟨?_, hi⟩
  rw [Function.update_of_ne, hother]
  intro heq
  rw [heq, hnew] at hother
  cases hother

/-- A job submitted is registered, and waits behind the others. -/
theorem submit (h : JobsKept workload waiting ended p) (hid : ∃ i : JobIdentifier, job.id = i.representation)
    (hnew : workload job.id = none) : JobsKept (Function.update workload job.id (some job)) (waiting ++ [job]) ended
      { p with submitted := p.submitted ++ [job] } where
  jobs := by
    intro other ho
    rcases List.mem_append.1 ho with ho | ho
    · exact registered_subset hnew (h.jobs other ho)
    · obtain rfl := List.mem_singleton.1 ho
      exact ⟨Function.update_self .., hid⟩
  distinct := by
    have hfresh : job.id ∉ waiting.map (·.id) ++ (p.running ++ p.reported).map (·.id) := by
      intro hbad
      rcases List.mem_append.1 hbad with hbad | hbad
      · obtain ⟨other, ho, heq⟩ := List.mem_map.1 hbad
        have hknown := (h.jobs other ho).1
        rw [heq, hnew] at hknown
        cases hknown
      · obtain ⟨r, hr, heq⟩ := List.mem_map.1 hbad
        exact h.isKnown r hr (heq ▸ hnew)
    have hnodup := List.nodup_cons.2 ⟨hfresh, h.distinct⟩
    refine (List.Perm.nodup_iff ?_).1 hnodup
    have hsplit : (waiting ++ [job]).map (·.id) = waiting.map (·.id) ++ [job.id] := by
      simp
    rw [hsplit, List.append_assoc]
    exact List.perm_middle.symm
  ends := h.ends
  named := by
    intro id other ho
    by_cases heq : id = job.id
    · subst heq
      rw [Function.update_self] at ho
      cases ho
      rfl
    · rw [Function.update_of_ne heq] at ho
      exact h.named id other ho
  isKnown := by
    intro r hr
    have hknown := h.isKnown r hr
    rwa [Function.update_of_ne]
    intro heq
    exact hknown (heq ▸ hnew)

/-- The jobs that run and those whose ends are being reported are the same after one more end has been reported. -/
theorem perm_complete {r : RunningJob} {before after : List RunningJob} (hrunning : p.running = before ++ r :: after) :
    (before ++ after ++ (p.reported ++ [r])).Perm (p.running ++ p.reported) := by
  rw [hrunning]
  calc before ++ after ++ (p.reported ++ [r])
      |>.Perm (r :: (before ++ after ++ p.reported)) := by
        rw [← List.append_assoc]
        exact List.perm_append_singleton _ _
    _ |>.Perm (before ++ r :: after ++ p.reported) := List.perm_middle.symm.append_right _

/-- The end of a job that runs is reported. -/
theorem complete {r : RunningJob} {before after : List RunningJob} (h : JobsKept workload waiting ended p)
    (hrunning : p.running = before ++ r :: after) (hid : job.id = r.id) : JobsKept workload waiting (ended ++ [job])
      { p with running := before ++ after, reported := p.reported ++ [r] } where
  jobs := h.jobs
  distinct := ((((perm_complete hrunning).map (·.id)).append_left _).nodup_iff).2 h.distinct
  ends := by simp [h.ends, hid]
  named := h.named
  isKnown := fun r' hr' => h.isKnown r' ((perm_complete hrunning).mem_iff.1 hr')

end JobsKept

end ScheduleTest
