import ScheduleTest.Lemmas.FirstFit

/-!
# The allocation that `add_job_first_fit` returns

The two branches of the search fill in the allocation field by field. The branch for a job that fits in one slice does not set its
end.
-/

namespace ScheduleTest

/-- The allocation describes where the job has been placed, and is recorded in the job. -/
structure DescribesPlacement (s s' : Schedule) (job : Job) (alloc : JobAlloc) : Prop where
  beginDate : ∀ t ∈ s'.profile.find? (·.containsJob job), alloc.beginDate = t.beginDate
  present : (s'.profile.find? (·.containsJob job)).isSome
  endDate : alloc.endDate = alloc.beginDate + if job.hasWalltime then job.walltime else s.infiniteHorizon - alloc.beginDate
  usedMachines : ∀ t ∈ s'.profile, t.containsJob job = true → t.allocatedJobs.find? job = some alloc.usedMachines
  startedInFirstSlice : alloc.startedInFirstSlice = true ↔ ∃ t ∈ s'.profile.head?, t.containsJob job = true
  ofJob : alloc.job = some job
  recorded : s'.allocations job.id alloc.beginDate = some alloc

/-- The job is placed in a slice that is long enough for all of it, and does not end at the default date. -/
def EndUnset (s : Schedule) (selector : ResourceSelector) (job : Job) : Prop :=
  ∃ a ∈ s.findAnchorWith selector job, a.covered = [] ∧ s.endDateAt job a ≠ 0

namespace AllocationAux

variable {s : Schedule} {selector : ResourceSelector} {job : Job} {a : Anchor}

/-- The allocation describes the placement, but for its end. -/
theorem describes_placedAt (hshape : a.before.reverse ++ (a.covered ++ a.last :: a.rest) = s.profile)
    (hc : s.containsJob job = false) (hend : (s.allocAt job a).endDate = s.endDateAt job a) :
    DescribesPlacement s (s.placedAt job a) job (s.allocAt job a) := by
  obtain ⟨first, more, after, hparts, hbegin, hheld, hbefore, hafter⟩ := placeAt_parts hshape hc (s.endDateAt job a)
  have hprofile : (s.placedAt job a).profile = a.before.reverse ++ (first :: more ++ after) := hparts
  have hfirst : first.containsJob job = true := by
    rw [containsJob_eq_isSome, machinesOf, hheld first List.mem_cons_self]
    rfl
  have hfind : (s.placedAt job a).profile.find? (·.containsJob job) = some first := by
    have hnone : a.before.reverse.find? (·.containsJob job) = none :=
      List.find?_eq_none.2 fun t ht => by simp [hbefore t (List.mem_reverse.1 ht)]
    rw [hprofile, List.find?_append, hnone, Option.none_or, List.cons_append, List.find?_cons_of_pos (by exact hfirst)]
  constructor
  · intro t ht
    rw [hfind] at ht
    cases ht
    exact hbegin.symm
  · rw [hfind]
    rfl
  · rw [hend, Schedule.endDateAt_eq]
    rfl
  · intro t ht hct
    rw [hprofile] at ht
    rcases List.mem_append.1 ht with ht | ht
    · rw [hbefore t (List.mem_reverse.1 ht)] at hct
      cases hct
    · rcases List.mem_append.1 ht with ht | ht
      · exact hheld t ht
      · rw [hafter t ht] at hct
        cases hct
  · rw [hprofile]
    change a.before.isEmpty = true ↔ _
    rcases List.eq_nil_or_concat a.before with hb | ⟨older, t, hb⟩
    · simp [hb, hfirst]
    · simp [hb, hbefore t (by simp [hb])]
  · rfl
  · simp [Schedule.placedAt, Schedule.setAllocation, Schedule.allocAt]

/-- The end is unset where the allocation does not have the end of the placement, and is then the default date. -/
theorem endUnset_iff (ha : s.findAnchorWith selector job = some a) :
    EndUnset s selector job ↔ (s.allocAt job a).endDate ≠ s.endDateAt job a := by
  rw [EndUnset, ha]
  simp only [Option.mem_some, exists_eq_left', Schedule.allocAt, List.isEmpty_iff]
  split
  · rename_i hcovered
    simp [hcovered, eq_comm]
  · rename_i hcovered
    simp [hcovered]

theorem endDate_of_unset (h : (s.allocAt job a).endDate ≠ s.endDateAt job a) : (s.allocAt job a).endDate = 0 := by
  simp only [Schedule.allocAt] at h ⊢
  split at h
  · rename_i hcovered
    rw [if_pos hcovered]
  · exact absurd rfl h

end AllocationAux

open AllocationAux in
/-- For every schedule, selector and job that `add_job_first_fit` places, the allocation returned describes the placement exactly
where its end has been set. Two placements of a job that begin and end at the same dates, on the same machines and both in the
first slice or both later, have the same allocation exactly where the end of both has been set or of none. -/
theorem allocation_describes_iff (s s' : Schedule) (selector : ResourceSelector) (job : Job) (b : Bool) (alloc : JobAlloc)
    (h : s.addJobFirstFitWith selector job b = .ok (s', alloc)) (hin : alloc.hasBeenInserted = true) :
    (DescribesPlacement s s' job alloc ↔ ¬ EndUnset s selector job) ∧
      ∀ (r r' : Schedule) (selector' : ResourceSelector) (b' : Bool) (alloc' : JobAlloc),
        r.addJobFirstFitWith selector' job b' = .ok (r', alloc') → alloc'.hasBeenInserted = true →
        alloc'.beginDate = alloc.beginDate → (job.hasWalltime = false → r.infiniteHorizon = s.infiniteHorizon) →
        alloc'.usedMachines = alloc.usedMachines → alloc'.startedInFirstSlice = alloc.startedInFirstSlice →
        (alloc' = alloc ↔ (EndUnset r selector' job ↔ EndUnset s selector job)) := by
  obtain ⟨a, ha⟩ := Option.isSome_iff_exists.1 ((Schedule.addJobFirstFitWith_inserted h).1 hin)
  obtain ⟨hc, ⟨hnone, _⟩ | ⟨a', ha', rfl, rfl⟩⟩ := Schedule.addJobFirstFitWith_ok h
  · rw [ha] at hnone
    nomatch hnone
  obtain rfl : a' = a := Option.some.inj (ha'.symm.trans ha)
  have hunset := endUnset_iff ha
  constructor
  · rw [hunset, not_not]
    refine ⟨fun hd => hd.endDate, fun hend => ?_⟩
    exact describes_placedAt (Schedule.findAnchorWith_ok ha).1 hc hend
  · intro r r' selector' b' alloc' h' hin' hbegin hhorizon hused hstarted
    obtain ⟨d, hd⟩ := Option.isSome_iff_exists.1 ((Schedule.addJobFirstFitWith_inserted h').1 hin')
    obtain ⟨_, ⟨hnone, _⟩ | ⟨d', hd', rfl, rfl⟩⟩ := Schedule.addJobFirstFitWith_ok h'
    · rw [hd] at hnone
      nomatch hnone
    obtain rfl : d' = d := Option.some.inj (hd'.symm.trans hd)
    have hunset' := endUnset_iff hd
    -- both placements end at the same date
    have hends : r.endDateAt job d' = s.endDateAt job a' := by
      have hbegin' : d'.beginDate = a'.beginDate := hbegin
      rw [Schedule.endDateAt_eq, Schedule.endDateAt_eq, hbegin']
      cases hw : job.hasWalltime with
      | true => rfl
      | false => rw [hhorizon hw]
    have heq : r.allocAt job d' = s.allocAt job a' ↔ (r.allocAt job d').endDate = (s.allocAt job a').endDate := by
      refine ⟨fun heq => by rw [heq], fun hend => ?_⟩
      simp only [Schedule.allocAt, JobAlloc.mk.injEq] at hbegin hused hstarted hend ⊢
      exact ⟨hbegin, hend, hstarted, trivial, trivial, hused⟩
    rw [heq, hunset, hunset', hends]
    by_cases hu : (s.allocAt job a').endDate = s.endDateAt job a'
    · simp [hu]
    · by_cases hu' : (r.allocAt job d').endDate = r.endDateAt job d'
      · have := endDate_of_unset hu
        rw [hends] at hu'
        simp only [hu', hu, ne_eq, not_true_eq_false, not_false_eq_true, iff_true, iff_false]
        exact fun heq => hu heq.symm
      · have h0 := endDate_of_unset hu
        have h0' := endDate_of_unset hu'
        rw [hends] at hu'
        simp only [hu, hu', ne_eq, not_false_eq_true, iff_true]
        rw [h0, h0']

namespace AllocationWitness

/-- A job of ten seconds on one machine. -/
def job : Job := { id := "w!1", nbRequestedResources := 1, walltime := 10 }

/-- A longer job on one machine. -/
def longJob : Job := { id := "w!2", nbRequestedResources := 1, walltime := 20 }

/-- Two machines, one of which has a job for ten seconds. -/
def schedule : Schedule :=
  match (Schedule.new 2 0).addJobFirstFitWith .basic job true with
  | .ok (s, _) => s
  | .error _ => Schedule.new 2 0

end AllocationWitness

open AllocationWitness in
/-- The longer job takes two slices, and its allocation describes where it has been placed. -/
theorem allocation_describes_iff_witness :
    ∃ s' alloc, schedule.addJobFirstFitWith .basic longJob true = .ok (s', alloc) ∧
      (DescribesPlacement schedule s' longJob alloc ↔ ¬ EndUnset schedule .basic longJob) ∧ alloc.endDate = 20 := by
  have hrun : (schedule.addJobFirstFitWith .basic longJob true).toOption.map (fun x => (x.2.hasBeenInserted, x.2.endDate)) =
      some (true, 20) := by decide +kernel
  obtain ⟨⟨s', alloc⟩, h, hvalue⟩ := Execution.toOption_map_eq_some.1 hrun
  obtain ⟨hin, hend⟩ := Prod.mk.inj hvalue
  exact ⟨s', alloc, h, (allocation_describes_iff schedule s' .basic longJob true alloc h hin).1, hend⟩

open AllocationWitness in
/-- The allocation of a job that is placed in one slice ends at date zero. -/
theorem allocation_describes_false :
    ¬ (∀ (s s' : Schedule) (selector : ResourceSelector) (job : Job) (b : Bool) (alloc : JobAlloc),
      s.addJobFirstFitWith selector job b = .ok (s', alloc) → alloc.hasBeenInserted = true →
        DescribesPlacement s s' job alloc) := by
  intro h
  have hrun : ((Schedule.new 1 0).addJobFirstFitWith .basic job true).toOption.map (fun x => x.2) =
      some { beginDate := 0, endDate := 0, startedInFirstSlice := true, job := some job, usedMachines := {0} } := by
    decide +kernel
  obtain ⟨⟨s', alloc⟩, hok, hvalue⟩ := Execution.toOption_map_eq_some.1 hrun
  dsimp only at hvalue
  have hend := (h _ s' .basic job true alloc hok (by rw [hvalue])).endDate
  rw [hvalue] at hend
  revert hend
  decide +kernel

end ScheduleTest
