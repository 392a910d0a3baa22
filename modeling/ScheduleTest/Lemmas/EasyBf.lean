import Mathlib
import ScheduleTest.EasyBf
import ScheduleTest.Lemmas.Exclusive

/-!
# What the schedule of easy_bf holds

`Holds` says that some jobs run now on given machines, that some others are planned somewhere, and that no others are in the
schedule. Placing a job plans it, or lets it run where it starts in the first slice; removing one takes it out.
-/

namespace ScheduleTest

/-- The jobs held run in the first slice on their machines, and no jobs are in the schedule but them and those planned. -/
structure Holds (W : NamedJobs) (s : Schedule) (held : List (String × IntervalSet)) (planned : List String) : Prop extends
    HoldsNow W s held where
  present : ∀ job, Present job s.profile ↔ job.id ∈ held.map (·.1) ∨ job.id ∈ planned

namespace Holds

variable {W : NamedJobs} {s s' : Schedule} {held held' : List (String × IntervalSet)} {planned planned' : List String}
  {job : Job} {alloc : JobAlloc}

/-- More jobs may be named. -/
theorem mono {V : NamedJobs} (h : Holds W s held planned) (hsub : W.jobs ⊆ V.jobs) : Holds V s held planned :=
  ⟨h.toHoldsNow.mono hsub, h.present⟩

/-- The order in which the jobs are listed does not matter. -/
theorem congr (h : Holds W s held planned) (hheld : ∀ e, e ∈ held' ↔ e ∈ held) (hplanned : ∀ id, id ∈ planned' ↔ id ∈ planned) :
    Holds W s held' planned' where
  toHoldsNow := h.toHoldsNow.subset fun e he => (hheld e).1 he
  present := by
    intro job
    rw [h.present job, hplanned]
    simp only [List.mem_map, hheld]

theorem containsJob_iff (h : Holds W s held planned) : s.containsJob job ↔ job.id ∈ held.map (·.1) ∨ job.id ∈ planned := by
  rw [containsJob_iff_present, h.present]

/-- A schedule in which nothing is placed. -/
theorem new (W : NamedJobs) (n : ℕ) (date : ℚ) : Holds W (Schedule.new n date) [] [] where
  exclusive := Exclusive.new W n date
  now := by simp
  present := by simp [Present, Schedule.new, TimeSlice.containsJob, KeyedMap.contains]

/-- Placing a job puts it into the schedule, and where it starts in the first slice, that slice gives it its machines. -/
theorem place (h : Holds W s held planned) (hjob : job ∈ W.jobs) (ha : s.addJobFirstFit job = .ok (s', alloc)) :
    Holds W s' held (job.id :: planned) ∧
      (alloc.startedInFirstSlice → ∀ job', job'.id = job.id → machinesNow job' s'.profile = some alloc.usedMachines) := by
  refine ⟨⟨h.toHoldsNow.place hjob ha, fun job' => ?_⟩, fun hstart => (h.starts ha hstart).2.2.2⟩
  unfold Schedule.addJobFirstFit at ha
  split at ha
  · cases ha
  · unfold Schedule.addJobFirstFitAfterTimeSlice at ha
    split at ha
    · rename_i a hanchor
      cases ha
      change Present job' (Schedule.placeAt job a _) ↔ _
      rw [present_placeAt, Schedule.findAnchor_shape hanchor, h.present, List.mem_cons]
      tauto
    · cases ha

/-- A job placed that starts in the first slice runs. -/
theorem start (h : Holds W s held (job.id :: planned)) {ms : IntervalSet}
    (hnow : ∀ job', job'.id = job.id → machinesNow job' s.profile = some ms) : Holds W s (held ++ [(job.id, ms)]) planned where
  toHoldsNow := h.toHoldsNow.start hnow
  present := by
    intro job'
    rw [h.present]
    simp only [List.map_append, List.map_cons, List.map_nil, List.mem_append, List.mem_cons, List.not_mem_nil, or_false]
    tauto

/-- A job that is removed is in the schedule no longer. -/
theorem removeIfExists {b : Bool} (h : Holds W s held planned) (hr : s.removeJobIfExists job = .ok (s', b)) :
    Holds W s' (held.filter (·.1 ≠ job.id)) (planned.filter (· ≠ job.id)) where
  toHoldsNow := h.toHoldsNow.removeIfExists hr
  present := by
    intro job'
    rw [present_removeJobIfExists h.exclusive.runs hr, h.present]
    simp only [List.mem_map, List.mem_filter, decide_eq_true_eq]
    grind

/-- `remove_job`. -/
theorem remove (h : Holds W s held planned) (hr : s.removeJob job = .ok s') :
    Holds W s' (held.filter (·.1 ≠ job.id)) (planned.filter (· ≠ job.id)) :=
  h.removeIfExists (Schedule.removeJob_ok hr)

/-- The first slice may begin now. -/
theorem update {date : ℚ} (h : Holds W s held planned) (hu : s.updateFirstSlice date = .ok s') : Holds W s' held planned where
  toHoldsNow := h.toHoldsNow.update hu
  present := by
    intro job
    obtain ⟨slice, rest, hprofile, hprofile', _⟩ := Schedule.updateFirstSlice_ok hu
    rw [← h.present job, hprofile, hprofile']
    simp [Present, TimeSlice.retime, TimeSlice.containsJob]

end Holds

end ScheduleTest
