import ScheduleTest.Lemmas.Calls

/-!
# Machines under repair

A schedule is meant to lose no machine to a repair: in every slice the available machines are those that no job holds and that
are not under repair. `add_repair_machine` subtracts the number of the machines from every slice's count whether or not the
slice has them available, and `remove_job_internal` does not take the machines under repair out of the allocated ones, so a
machine that fails while a job holds it, or is planned on it, breaks the accounting at once and is lost when it comes back. A
run keeps the accounting exactly when every machine that fails is free in every slice at that moment.
-/

namespace ScheduleTest

open Execution

/-- The machines of a slice, and its redundant fields, as they are meant to be: what is neither held by a job of the slice nor
under repair is available and counted, and the allocated machines are those of the jobs. -/
structure Accounts (s : Schedule) : Prop where
  available : ∀ t ∈ s.profile, ∀ x, x ∈ t.availableMachines ↔
    x < s.nbMachines ∧ (∀ e ∈ t.allocatedJobs.entries, x ∉ e.2) ∧ x ∉ s.repairMachines
  count : ∀ t ∈ s.profile, t.nbAvailableMachines = t.availableMachines.card
  allocated : ∀ t ∈ s.profile, ∀ x, x ∈ t.allocatedMachines ↔ ∃ e ∈ t.allocatedJobs.entries, x ∈ e.2
  cached : ∀ t ∈ s.profile,
    t.allocatedMachines = Schedule.whichMachinesAreAllocatedInTimeSlice t (Finset.range s.nbMachines)

/-- The machines that a call puts under repair are free in every slice of the schedule. -/
def FreeForRepair (s : Schedule) : ScheduleCall → Prop
  | .addRepairMachine machine => ∀ t ∈ s.profile, machine \ s.repairMachines ⊆ t.availableMachines
  | _ => True

namespace RepairAux

/-- The machines of the jobs of a slice among given ones. -/
theorem mem_whichMachinesAreAllocated (t : TimeSlice) (machines : IntervalSet) (x : ℕ) :
    x ∈ Schedule.whichMachinesAreAllocatedInTimeSlice t machines ↔
      x ∈ machines ∧ ∃ e ∈ t.allocatedJobs.entries, x ∈ e.2 := by
  have hgen : ∀ (l : List (Job × IntervalSet)) (acc : IntervalSet),
      x ∈ l.foldl (fun allocated entry => allocated ∪ (entry.2 ∩ machines)) acc ↔
        x ∈ acc ∨ x ∈ machines ∧ ∃ e ∈ l, x ∈ e.2 := by
    intro l
    induction l with
    | nil => simp
    | cons e l ih =>
      intro acc
      rw [List.foldl_cons, ih]
      simp only [Finset.mem_union, Finset.mem_inter, List.mem_cons, exists_eq_or_imp]
      tauto
  rw [Schedule.whichMachinesAreAllocatedInTimeSlice, hgen]
  simp

/-- The accounting of the machines is what it is meant to be. -/
theorem accounts_of_machinesOk {W : Workload} {s : Schedule} (h : MachinesOk W s) : Accounts s where
  available := by
    intro t ht x
    rw [(h.slices t ht).available]
    tauto
  count := fun t ht => (h.slices t ht).count
  allocated := fun t ht => (h.slices t ht).allocated
  cached := by
    intro t ht
    ext x
    rw [(h.slices t ht).allocated, mem_whichMachinesAreAllocated, Finset.mem_range]
    exact ⟨fun ⟨e, he, hx⟩ => ⟨((h.slices t ht).inRange e he x hx).1, e, he, hx⟩, fun hx => hx.2⟩

/-- Taking a machine that is not available in some slice breaks that slice's count. -/
theorem not_accounts_of_not_free {W : Workload} {s : Schedule} (h : MachinesOk W s) {machine : IntervalSet} {t : TimeSlice}
    (ht : t ∈ s.profile) (hnot : ¬ machine \ s.repairMachines ⊆ t.availableMachines) :
    ¬ Accounts (s.addRepairMachine machine).1 := by
  intro hacc
  have hcount := hacc.count _ (List.mem_map_of_mem ht)
  have hold := (h.slices t ht).count
  -- fewer machines go than are subtracted
  have hlt : (t.availableMachines ∩ (machine \ s.repairMachines)).card < (machine \ s.repairMachines).card := by
    refine Finset.card_lt_card ⟨Finset.inter_subset_right, fun hsub => hnot ?_⟩
    exact hsub.trans Finset.inter_subset_left
  have hcard := Finset.card_sdiff_add_card_inter t.availableMachines (machine \ s.repairMachines)
  dsimp only at hcount
  omega

end RepairAux

open RepairAux in
/-- In a run of calls on jobs of a workload, the accounting is right in every state reached and no assertion on merged slices
fails exactly when every machine that goes under repair is free in every slice when it does. -/
theorem repair_accounting_iff (W : Workload) (n : ℕ) (t0 : ℚ) (calls : List ScheduleCall)
    (hjobs : ∀ call ∈ calls, ∀ job ∈ call.addedJob, job ∈ W.jobs) :
    (Always ScheduleCall.run Accounts (Schedule.new n t0) calls ∧
        runFrom ScheduleCall.run (Schedule.new n t0) calls ≠ .error .mergeMismatch) ↔
      AllSteps ScheduleCall.run FreeForRepair (Schedule.new n t0) calls := by
  have accounted : ∀ (s : Schedule) (call : ScheduleCall), (∀ job ∈ call.addedJob, job ∈ W.jobs) → FreeForRepair s call →
      AccountedCall W s call := by
    intro s call hjob hfree
    cases call with
    | addJobFirstFit job b => exact hjob job rfl
    | addRepairMachine m => exact hfree
    | removeJob job => trivial
    | removeJobIfExists job => trivial
    | updateFirstSlice t => trivial
    | removeRepairMachines m => trivial
  have halways : Always ScheduleCall.run Accounts (Schedule.new n t0) calls ↔
      AllSteps ScheduleCall.run FreeForRepair (Schedule.new n t0) calls := by
    refine always_iff_allSteps (I := MachinesOk W) (K := fun call => ∀ job ∈ call.addedJob, job ∈ W.jobs)
      (fun s call s' h hok hfree hr => h.runCall (accounted s call hok hfree) hr) ?_
      (fun s h => accounts_of_machinesOk h) (MachinesOk.new W n t0) hjobs
    intro s call h _ hnot
    cases call with
    | addRepairMachine m =>
      simp only [FreeForRepair, not_forall] at hnot
      obtain ⟨t, ht, hnot⟩ := hnot
      exact ⟨_, rfl, not_accounts_of_not_free h ht hnot⟩
    | addJobFirstFit job b => exact absurd trivial hnot
    | removeJob job => exact absurd trivial hnot
    | removeJobIfExists job => exact absurd trivial hnot
    | updateFirstSlice t => exact absurd trivial hnot
    | removeRepairMachines m => exact absurd trivial hnot
  constructor
  · exact fun h => halways.1 h.1
  · intro h
    refine ⟨halways.2 h, fun herr => ?_⟩
    have hboth : AllSteps ScheduleCall.run (AccountedCall W) (Schedule.new n t0) calls :=
      (h.and (allSteps_of_forall hjobs)).imp fun s call hc => accounted s call hc.2 hc.1
    exact runFrom_error (I := MachinesOk W) (P := (· ≠ .mergeMismatch)) (fun s call s' h hc hr => h.runCall hc hr)
      (fun s call e h _ hr => h.runCall_error hr) (MachinesOk.new W n t0) hboth herr rfl

namespace RepairWitness

/-- A job of one machine for ten seconds. -/
def jobA : Job := { id := "w!1", nbRequestedResources := 1, walltime := 10 }

/-- Another job of one machine for ten seconds. -/
def jobB : Job := { id := "w!2", nbRequestedResources := 1, walltime := 10 }

/-- A workload of two jobs. -/
def workload : Workload := Workload.ofList [jobA, jobB] (by decide) (by decide)

/-- The free machine fails while two jobs run on the others, the first ends, and the machine is repaired. -/
def calls : List ScheduleCall :=
  [.addJobFirstFit jobA true, .addJobFirstFit jobB true, .addRepairMachine {2}, .removeJob jobA, .removeRepairMachines {2}]

/-- The machine of the first of two jobs fails while they run, the job ends, and the machine is repaired. -/
def losingCalls : List ScheduleCall :=
  [.addJobFirstFit jobA true, .addJobFirstFit jobB true, .addRepairMachine {0}, .removeJob jobA, .removeRepairMachines {0}]

/-- Machine 0 is lost: it is not under repair, and some slice neither has it available nor gives it to a job. -/
def LostMachine (s : Schedule) : Prop :=
  0 < s.nbMachines ∧ 0 ∉ s.repairMachines ∧
    ∃ t ∈ s.profile, (∀ e ∈ t.allocatedJobs.entries, 0 ∉ e.2) ∧ 0 ∉ t.availableMachines

instance (s : Schedule) : Decidable (LostMachine s) :=
  inferInstanceAs (Decidable (0 < s.nbMachines ∧ 0 ∉ s.repairMachines ∧
    ∃ t ∈ s.profile, (∀ e ∈ t.allocatedJobs.entries, 0 ∉ e.2) ∧ 0 ∉ t.availableMachines))

/-- The jobs of the runs are of the workload. -/
theorem jobs_known {l : List ScheduleCall} (h : l.filterMap ScheduleCall.addedJob = [jobA, jobB]) :
    ∀ call ∈ l, ∀ j ∈ call.addedJob, j ∈ workload.jobs := by
  intro call hcall j hj
  have hmem : j ∈ l.filterMap ScheduleCall.addedJob := List.mem_filterMap.2 ⟨call, hcall, hj⟩
  rwa [h] at hmem

end RepairWitness

open RepairWitness in
/-- On the run in which the free machine fails the equivalence holds, and the run goes through. -/
theorem repair_accounting_iff_witness :
    abortOf (runFrom ScheduleCall.run (Schedule.new 3 0) calls) = none ∧
      ((Always ScheduleCall.run Accounts (Schedule.new 3 0) calls ∧
          runFrom ScheduleCall.run (Schedule.new 3 0) calls ≠ .error .mergeMismatch) ↔
        AllSteps ScheduleCall.run FreeForRepair (Schedule.new 3 0) calls) :=
  ⟨by decide +kernel, repair_accounting_iff workload 3 0 calls (jobs_known rfl)⟩

open RepairWitness in
/-- The accounting is lost when the machine of a job fails: after the job has ended and the machine has been repaired, no job
holds the machine and it is not under repair, but it is not available either. -/
theorem repair_accounting_false :
    ¬ ∀ (W : Workload) (n : ℕ) (t0 : ℚ) (calls : List ScheduleCall),
      (∀ call ∈ calls, ∀ job ∈ call.addedJob, job ∈ W.jobs) →
      Always ScheduleCall.run Accounts (Schedule.new n t0) calls ∧
        runFrom ScheduleCall.run (Schedule.new n t0) calls ≠ .error .mergeMismatch := by
  intro h
  have halways := (h workload 3 0 losingCalls (jobs_known rfl)).1
  have hend : (runFrom ScheduleCall.run (Schedule.new 3 0) losingCalls).toOption.map (fun s => decide (LostMachine s)) =
      some true := by decide +kernel
  obtain ⟨s, hs, hlost⟩ := toOption_map_eq_some.1 hend
  obtain ⟨hn, hr, t, ht, hjobs, hnot⟩ := of_decide_eq_true hlost
  exact hnot (((halways.last hs).available t ht 0).2 ⟨hn, hjobs, hr⟩)

end ScheduleTest
