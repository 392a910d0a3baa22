import ScheduleTest.Fcfs
import ScheduleTest.Theorems.FcfsFast

/-!
# fcfs decides as fcfs_fast does

With the basic selector the two schedulers have the same runs (`fcfs_decides_as_fcfs_fast`): `fcfs.cpp` looks at the machines that are
available where `fcfs_fast.cpp` looks at their number, and the number is right.
-/

namespace ScheduleTest

open Execution

namespace FCFSAux

open FCFSFastAux

variable {n : ℕ} {s : FCFSState} {p : Platform} {t : FCFSState × Platform} {job : Job}

/-- Where the number is right, a job fits exactly where it is small enough. -/
theorem fit_eq (hcount : s.nbAvailableMachines = s.availableMachines.card) : ResourceSelector.basic.fit job s.availableMachines =
    if (job.nbRequestedResources : ℤ) ≤ s.nbAvailableMachines then some (s.availableMachines.leftmost job.nbRequestedResources)
    else none := by
  simp [ResourceSelector.fit, BasicResourceSelector.fit, hcount]

/-- The number stays right. -/
theorem count_execute (hcount : s.nbAvailableMachines = s.availableMachines.card)
    (hfits : (job.nbRequestedResources : ℤ) ≤ s.nbAvailableMachines) :
    (FCFSFast.execute s job).nbAvailableMachines = (FCFSFast.execute s job).availableMachines.card := by
  have hle : job.nbRequestedResources ≤ s.availableMachines.card := by omega
  have hsub := s.availableMachines.leftmost_subset job.nbRequestedResources
  dsimp only [FCFSFast.execute]
  rw [Divided.card_take hsub, Finset.card_leftmost_of_le hle, hcount]

theorem executePending_eq {jobs : List Job} (hcount : s.nbAvailableMachines = s.availableMachines.card) :
    FCFS.executePending .basic s jobs = FCFSFast.executePending s jobs := by
  induction jobs generalizing s with
  | nil => rfl
  | cons job rest ih =>
    rw [FCFS.executePending, FCFSFast.executePending, fit_eq hcount]
    by_cases hfits : (job.nbRequestedResources : ℤ) ≤ s.nbAvailableMachines
    · rw [if_pos hfits, if_pos hfits]
      exact ih (count_execute hcount hfits)
    · rw [if_neg hfits, if_neg hfits]

theorem makeDecisions_eq (h : Kept n (s, p)) : FCFS.makeDecisions .basic n { s with decision := s.decision.clear } =
    FCFSFast.makeDecisions n { s with decision := s.decision.clear } := by
  unfold FCFS.makeDecisions FCFSFast.makeDecisions
  cases hfinished : runFrom FCFSFast.finishJob { s with decision := s.decision.clear } s.jobsEndedRecently with
  | error e => rfl
  | ok s₁ =>
    have hended : s.jobsEndedRecently = (p.reported.map allocation).map (·.1) := by
      rw [List.map_map]
      exact h.ended
    have hbooks := h.books
    dsimp only at hbooks
    rw [List.map_append] at hbooks
    have hfinished' : runFrom FCFSFast.finishJob { s with decision := s.decision.clear } ((p.reported.map allocation).map (·.1)) =
        .ok s₁ := hended ▸ hfinished
    obtain ⟨hbooks₁, -, -⟩ := finishJobs_books hbooks hfinished'
    simp only [Except.map, executePending_eq hbooks₁.count]

theorem run_eq (h : Kept n t) (event : EasyBf3Event) :
    (FCFS.scheduler .basic n).run t event = (FCFSFast.scheduler n).run t event := by
  obtain ⟨s, p⟩ := t
  have hstep : FCFS.step .basic n s event = FCFSFast.step n s event := by
    cases event with
    | jobSubmitted job => rfl
    | jobCompleted id => rfl
    | makeDecisions date currentDate => simp only [FCFS.step, FCFSFast.step, makeDecisions_eq h]
  have hnotice : (FCFS.scheduler .basic n).notice event = (FCFSFast.scheduler n).notice event := by
    cases event <;> rfl
  exact JobScheduler.run_congr hstep hnotice rfl

end FCFSAux

open FCFSAux FCFSFastAux

/-- With the basic selector, `fcfs` makes the decisions of `fcfs_fast` in every run, and aborts where it does. -/
theorem fcfs_decides_as_fcfs_fast (nbMachines : ℕ) (date : ℚ) (events : List EasyBf3Event) :
    runFrom (FCFS.scheduler .basic nbMachines).run (FCFSFast.new nbMachines, Platform.new date) events =
      runFrom (FCFSFast.scheduler nbMachines).run (FCFSFast.new nbMachines, Platform.new date) events :=
  runFrom_congr (fun _ event h => run_eq h event) (fun _ _ _ h hx => kept_step h hx) (Kept.new nbMachines date) events

end ScheduleTest
