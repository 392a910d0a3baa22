import ScheduleTest.Lemmas.Calls

/-!
# Taking a machine for repair and giving it back

`add_repair_machine` takes one machine off the count of every slice, whether or not the slice has it available;
`remove_repair_machines` gives it back only to the slices that have not allocated it. The second undoes the first exactly where the
machine is free in every slice.
-/

namespace ScheduleTest

/-- What a slice says of the machines. -/
def TimeSlice.machineContent (t : TimeSlice) : IntervalSet × ℤ × IntervalSet :=
  (t.availableMachines, t.nbAvailableMachines, t.allocatedMachines)

/-- A machine that goes under repair and comes back leaves every slice as it was, and in between no slice has it available and every
slice counts what it has. -/
structure RepairUndone (s : Schedule) (m : ℕ) : Prop where
  restored : ((s.addRepairMachine {m}).1.removeRepairMachines {m}).1.profile.map TimeSlice.machineContent =
    s.profile.map TimeSlice.machineContent
  unavailable : ∀ t ∈ (s.addRepairMachine {m}).1.profile, m ∉ t.availableMachines
  counted : ∀ t ∈ (s.addRepairMachine {m}).1.profile, t.nbAvailableMachines = t.availableMachines.card

/-- A machine is free in a slice, which counts what it has available. -/
structure FreeAndCounted (m : ℕ) (t : TimeSlice) : Prop where
  available : m ∈ t.availableMachines
  notAllocated : m ∉ t.allocatedMachines
  count : t.nbAvailableMachines = t.availableMachines.card

namespace RepairInverseAux

variable {s : Schedule} {m : ℕ}

/-- A slice while the machine is under repair. -/
def during (m : ℕ) (t : TimeSlice) : TimeSlice :=
  { t with nbAvailableMachines := t.nbAvailableMachines - 1, availableMachines := t.availableMachines \ {m} }

/-- A slice after the machine has come back. -/
def after (m : ℕ) (t : TimeSlice) : TimeSlice :=
  { t with
    nbAvailableMachines := t.nbAvailableMachines - 1 + (1 - (t.allocatedMachines ∩ {m}).card)
    availableMachines := (t.availableMachines \ {m}) ∪ ({m} \ (t.allocatedMachines ∩ {m})) }

theorem profile_addRepairMachine (hm : m ∉ s.repairMachines) :
    (s.addRepairMachine {m}).1.profile = s.profile.map (during m) := by
  unfold Schedule.addRepairMachine
  dsimp only
  rw [Finset.sdiff_eq_self_of_disjoint (Finset.disjoint_singleton_left.2 hm), Finset.card_singleton]
  rfl

theorem profile_removeRepairMachines (hm : m ∉ s.repairMachines) :
    ((s.addRepairMachine {m}).1.removeRepairMachines {m}).1.profile = s.profile.map (after m) := by
  have hrepair : (s.addRepairMachine {m}).1.repairMachines ∩ {m} = {m} :=
    Finset.inter_eq_right.2 (Finset.singleton_subset_iff.2 (Finset.mem_union_right _ (Finset.mem_singleton_self m)))
  unfold Schedule.removeRepairMachines
  dsimp only
  rw [hrepair, profile_addRepairMachine hm, List.map_map, Finset.card_singleton]
  rfl

/-- A slice is as it was after the repair where the machine is free in it, and nowhere else. -/
theorem after_eq_iff (t : TimeSlice) :
    (after m t).machineContent = t.machineContent ↔ m ∈ t.availableMachines ∧ m ∉ t.allocatedMachines := by
  unfold TimeSlice.machineContent after
  dsimp only
  by_cases halloc : m ∈ t.allocatedMachines
  · refine iff_of_false (fun h => ?_) fun h => h.2 halloc
    have hcount := (Prod.mk.inj (Prod.mk.inj h).2).1
    rw [Finset.inter_singleton_of_mem halloc, Finset.card_singleton] at hcount
    omega
  · rw [Finset.inter_singleton_of_notMem halloc, Finset.sdiff_empty, Finset.sdiff_union_self_eq_union]
    constructor
    · intro h
      have havailable : t.availableMachines ∪ {m} = t.availableMachines := (Prod.mk.inj h).1
      exact ⟨havailable ▸ Finset.mem_union_right _ (Finset.mem_singleton_self m), halloc⟩
    · rintro ⟨havailable, _⟩
      rw [Finset.union_eq_left.2 (Finset.singleton_subset_iff.2 havailable), Finset.card_empty]
      simp

end RepairInverseAux

open RepairInverseAux in
/-- For every schedule and every machine that is not under repair: the repair is undone exactly where the machine is free in every
slice, and every slice counts what it has available. -/
theorem repair_undone_iff (s : Schedule) (m : ℕ) (hm : m ∉ s.repairMachines) :
    RepairUndone s m ↔ ∀ t ∈ s.profile, FreeAndCounted m t := by
  constructor
  · intro h t ht
    have hrestored := h.restored
    have hcounted := h.counted
    rw [profile_removeRepairMachines hm, List.map_map] at hrestored
    rw [profile_addRepairMachine hm] at hcounted
    obtain ⟨havailable, hnot⟩ := (after_eq_iff t).1 (List.map_inj_left.1 hrestored t ht)
    refine ⟨havailable, hnot, ?_⟩
    have hcount := hcounted _ (List.mem_map_of_mem ht)
    have hcard := Finset.card_sdiff_add_card_inter t.availableMachines {m}
    rw [Finset.inter_singleton_of_mem havailable, Finset.card_singleton] at hcard
    unfold during at hcount
    dsimp only at hcount
    omega
  · intro h
    refine ⟨?_, ?_, ?_⟩
    · rw [profile_removeRepairMachines hm, List.map_map]
      exact List.map_inj_left.2 fun t ht => (after_eq_iff t).2 ⟨(h t ht).available, (h t ht).notAllocated⟩
    · rw [profile_addRepairMachine hm]
      intro t ht
      obtain ⟨u, _, rfl⟩ := List.mem_map.1 ht
      exact fun hbad => (Finset.mem_sdiff.1 hbad).2 (Finset.mem_singleton_self m)
    · rw [profile_addRepairMachine hm]
      intro t ht
      obtain ⟨u, hu, rfl⟩ := List.mem_map.1 ht
      have hcard := Finset.card_sdiff_add_card_inter u.availableMachines {m}
      rw [Finset.inter_singleton_of_mem (h u hu).available, Finset.card_singleton] at hcard
      have hcount := (h u hu).count
      unfold during
      dsimp only
      omega

/-- Where the machines are accounted for, a machine that is not under repair is free exactly where no job holds it. -/
theorem freeAndCounted_iff {W : Workload} {s : Schedule} (h : MachinesOk W s) {m : ℕ} (hm : m ∉ s.repairMachines) {t : TimeSlice}
    (ht : t ∈ s.profile) : FreeAndCounted m t ↔ m < s.nbMachines ∧ ∀ e ∈ t.allocatedJobs.entries, m ∉ e.2 := by
  have hslice := h.slices t ht
  constructor
  · intro hfree
    obtain ⟨hlt, _, hunheld⟩ := (hslice.available m).1 hfree.available
    exact ⟨hlt, hunheld⟩
  · rintro ⟨hlt, hunheld⟩
    refine ⟨(hslice.available m).2 ⟨hlt, hm, hunheld⟩, fun halloc => ?_, hslice.count⟩
    obtain ⟨e, he, hmem⟩ := (hslice.allocated m).1 halloc
    exact hunheld e he hmem

namespace RepairInverseWitness

/-- A job of one machine for ten seconds. -/
def job : Job := { id := "w!1", nbRequestedResources := 1, walltime := 10 }

/-- Two machines, of which the job has one. -/
def calls : List ScheduleCall := [.addJobFirstFit job true]

end RepairInverseWitness

open RepairInverseWitness Execution in
/-- The machine that the job does not have goes under repair and comes back. -/
theorem repair_undone_iff_witness :
    ∃ s, runFrom ScheduleCall.run (Schedule.new 2 0) calls = .ok s ∧ RepairUndone s 1 := by
  have hrun : (runFrom ScheduleCall.run (Schedule.new 2 0) calls).toOption.map (fun s =>
      decide (1 ∉ s.repairMachines ∧ ∀ t ∈ s.profile, 1 ∈ t.availableMachines ∧ 1 ∉ t.allocatedMachines ∧
        t.nbAvailableMachines = t.availableMachines.card)) = some true := by decide +kernel
  obtain ⟨s, hs, hfree⟩ := toOption_map_eq_some.1 hrun
  obtain ⟨hnot, hslices⟩ := of_decide_eq_true hfree
  refine ⟨s, hs, (repair_undone_iff s 1 hnot).2 fun t ht => ?_⟩
  obtain ⟨havailable, halloc, hcount⟩ := hslices t ht
  exact ⟨havailable, halloc, hcount⟩

open RepairInverseWitness Execution in
/-- The machine that the job has goes under repair and comes back: in between the job's slice counts no machine, and has one
available; after it the slice still counts none. -/
theorem repair_undone_false :
    (¬ ∀ (calls : List ScheduleCall) (n : ℕ) (t0 : ℚ) (s : Schedule) (m : ℕ),
      runFrom ScheduleCall.run (Schedule.new n t0) calls = .ok s → m < n → m ∉ s.repairMachines → RepairUndone s m) ∧
    (runFrom ScheduleCall.run (Schedule.new 2 0) calls).toOption.map (fun s => s.profile.map TimeSlice.machineContent) =
      some [({1}, 1, {0}), ({0, 1}, 2, ∅)] ∧
    (runFrom ScheduleCall.run (Schedule.new 2 0) calls).toOption.map (fun s =>
      (s.addRepairMachine {0}).1.profile.map TimeSlice.machineContent) = some [({1}, 0, {0}), ({1}, 1, ∅)] ∧
    (runFrom ScheduleCall.run (Schedule.new 2 0) calls).toOption.map (fun s =>
      ((s.addRepairMachine {0}).1.removeRepairMachines {0}).1.profile.map TimeSlice.machineContent) =
      some [({1}, 0, {0}), ({0, 1}, 2, ∅)] := by
  have hbefore : (runFrom ScheduleCall.run (Schedule.new 2 0) calls).toOption.map (fun s =>
      s.profile.map TimeSlice.machineContent) = some [({1}, 1, {0}), ({0, 1}, 2, ∅)] := by decide +kernel
  have hafter : (runFrom ScheduleCall.run (Schedule.new 2 0) calls).toOption.map (fun s =>
      ((s.addRepairMachine {0}).1.removeRepairMachines {0}).1.profile.map TimeSlice.machineContent) =
      some [({1}, 0, {0}), ({0, 1}, 2, ∅)] := by decide +kernel
  have hnone : (runFrom ScheduleCall.run (Schedule.new 2 0) calls).toOption.map (fun s => decide (0 ∉ s.repairMachines)) =
      some true := by decide +kernel
  refine ⟨fun h => ?_, hbefore, by decide +kernel, hafter⟩
  obtain ⟨s, hs, hnot⟩ := toOption_map_eq_some.1 hnone
  have hrestored := (h calls 2 0 s 0 hs (by decide) (of_decide_eq_true hnot)).restored
  rw [hs] at hbefore hafter
  have hsame := (Option.some.inj hafter).symm.trans (hrestored.trans (Option.some.inj hbefore))
  exact absurd hsame (by decide)

end ScheduleTest
