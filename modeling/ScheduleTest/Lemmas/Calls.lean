import ScheduleTest.Lemmas.Operations
import ScheduleTest.ScheduleCall

/-!
# Calls that keep the machine accounting

`AccountedCall` is the condition on a call, in the schedule it is made on, under which the accounting of the machines goes
through it: the job added is of the workload, and machines are taken for repair only where they are free in every slice.
-/

namespace ScheduleTest

open Execution

/-- The calls that keep the machine accounting. -/
def AccountedCall (W : NamedJobs) (s : Schedule) : ScheduleCall → Prop
  | .addJobFirstFit job _ => job ∈ W.jobs
  | .addRepairMachine machine => ∀ t ∈ s.profile, machine \ s.repairMachines ⊆ t.availableMachines
  | _ => True

namespace MachinesOk

variable {W : NamedJobs} {s s' : Schedule} {call : ScheduleCall}

/-- A call under its condition keeps the accounting. -/
theorem runCall (h : MachinesOk W s) (hcall : AccountedCall W s call) (hrun : call.run s = .ok s') : MachinesOk W s' := by
  cases call with
  | addJobFirstFit job b =>
    obtain ⟨⟨s1, alloc⟩, ha, rfl⟩ := map_eq_ok.1 hrun
    exact h.addJobFirstFit hcall ha
  | removeJob job => exact h.removeJobIfExists (Schedule.removeJob_ok hrun)
  | removeJobIfExists job =>
    obtain ⟨⟨s1, b⟩, ha, rfl⟩ := map_eq_ok.1 hrun
    exact h.removeJobIfExists ha
  | updateFirstSlice t => exact h.updateFirstSlice hrun
  | addRepairMachine m =>
    cases hrun
    exact h.addRepairMachine hcall
  | removeRepairMachines m =>
    cases hrun
    exact h.removeRepairMachines m

/-- The assertion on merged slices holds in every call. -/
theorem runCall_error (h : MachinesOk W s) {e : Abort} (hrun : call.run s = .error e) : e ≠ .mergeMismatch := by
  have total : ∀ job, s.removeJobIfExists job ≠ .error e := by
    intro job heq
    obtain ⟨s1, b, hok⟩ := h.removeJobIfExists_total job
    rw [hok] at heq
    nomatch heq
  cases call with
  | addJobFirstFit job b =>
    rcases Schedule.addJobFirstFit_error (map_eq_error.1 hrun) with rfl | rfl <;> nofun
  | removeJob job =>
    rcases Schedule.removeJob_error hrun with rfl | hr
    · nofun
    · exact absurd hr (total job)
  | removeJobIfExists job => exact absurd (map_eq_error.1 hrun) (total job)
  | updateFirstSlice t => rcases Schedule.updateFirstSlice_error hrun with rfl | rfl <;> nofun
  | addRepairMachine m => nomatch hrun
  | removeRepairMachines m => nomatch hrun

end MachinesOk

end ScheduleTest
