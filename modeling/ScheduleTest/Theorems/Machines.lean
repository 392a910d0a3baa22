import ScheduleTest.Machines
import Mathlib.Tactic.Ring

/-!
# The counters of the machines' states

A change of one machine's state moves a counter with it, so the difference between the counters and what they count never changes
(`drift`). It is what it was when the machines were created, where the machines that are storage are idle but not counted.
-/

namespace ScheduleTest

open Execution

namespace Machines

variable {ms ms' ms'' : Machines} {date : ℚ} {id : ℕ} {ids : List ℕ} {job : String} {P : Machine → Prop} {f g : Machine → Machine}

/-- How many machines are in a state. -/
def nbMachinesIn (ms : Machines) (state : MachineState) : ℕ := ms.machines.countP (·.state = state)

/-- By how much each counter is above what it counts. -/
def drift (ms : Machines) (state : MachineState) : ℤ := ms.nbMachinesInEachState state - ms.nbMachinesIn state

/-- Some machines have been changed, each of which was there and as `P` says, and the counters with them. -/
structure Changes (P : Machine → Prop) (f : Machine → Machine) (ids : List ℕ) (ms ms' : Machines) : Prop where
  get : ∀ i, ms'.machines[i]? = if i ∈ ids then (ms.machines[i]?).map f else ms.machines[i]?
  visited : ∀ i ∈ ids, ∃ machine, ms.machines[i]? = some machine ∧ P machine
  drift : ms'.drift = ms.drift

/-! ## One machine -/

/-- Counting after one element has been changed. -/
theorem countP_modify {machines : List Machine} {machine : Machine} (p : Machine → Bool) (h : machines[id]? = some machine) :
    ((machines.modify id f).countP p : ℤ) =
      machines.countP p - (if p machine then 1 else 0) + (if p (f machine) then 1 else 0) := by
  induction machines generalizing id with
  | nil => simp at h
  | cons head machines ih =>
    cases id with
    | zero =>
      obtain rfl : head = machine := by simpa using h
      simp only [List.modify_zero_cons, List.countP_cons]
      split_ifs <;> push_cast <;> omega
    | succ id =>
      have hrest : machines[id]? = some machine := by simpa using h
      simp only [List.modify_succ_cons, List.countP_cons]
      push_cast
      rw [ih hrest]
      ring

theorem get_modify (i : ℕ) :
    (ms.machines.modify id f)[i]? = if i ∈ [id] then (ms.machines[i]?).map f else ms.machines[i]? := by
  by_cases hi : i = id
  · subst hi
    simp
  · rw [if_neg (by simpa using hi), List.getElem?_modify_ne _ _ (Ne.symm hi)]

/-- A change that is not one of the state. -/
theorem Changes.modify {machine : Machine} (hget : ms.machines[id]? = some machine) (hP : P machine)
    (hstate : (f machine).state = machine.state) : Changes P f [id] ms (ms.modify id f) where
  get := get_modify
  visited := by
    intro i hi
    obtain rfl : i = id := by simpa using hi
    exact ⟨machine, hget, hP⟩
  drift := by
    funext state
    unfold Machines.drift nbMachinesIn Machines.modify
    dsimp only
    rw [countP_modify _ hget, hstate]
    ring

/-- `update_machine_state`. -/
theorem updateMachineState_ok {newState : MachineState} (h : ms.updateMachineState date id newState = .ok ms') :
    Changes (·.lastStateChangeDate ≤ date) (Machine.changeState date newState) [id] ms ms' := by
  unfold updateMachineState at h
  split at h
  · nomatch h
  · rename_i machine hget
    split at h
    · nomatch h
    · rename_i hdate
      cases h
      refine ⟨get_modify, ?_, ?_⟩
      · intro i hi
        obtain rfl : i = id := by simpa using hi
        exact ⟨machine, hget, not_lt.1 hdate⟩
      · funext state
        unfold drift nbMachinesIn updateNbMachinesInEachState
        dsimp only
        rw [countP_modify _ hget]
        simp only [decide_eq_true_eq, Machine.changeState, Function.update_apply, eq_comm (a := state)]
        split_ifs <;> first | omega | simp_all

/-! ## Some machines -/

/-- A change of a machine after a change of the same machine. -/
theorem Changes.comp {Q : Machine → Prop} (h : Changes P f [id] ms ms') (h' : Changes Q g [id] ms' ms'') :
    Changes (fun machine => P machine ∧ Q (f machine)) (g ∘ f) [id] ms ms'' where
  get := by
    intro i
    rw [h'.get i, h.get i]
    by_cases hi : i ∈ [id]
    · simp only [hi, if_true, Option.map_map]
    · simp only [hi, if_false]
  visited := by
    intro i hi
    obtain ⟨machine, hget, hP⟩ := h.visited i hi
    obtain ⟨machine', hget', hQ⟩ := h'.visited i hi
    have hf : ms'.machines[i]? = some (f machine) := by rw [h.get i, if_pos hi, hget, Option.map_some]
    obtain rfl : f machine = machine' := Option.some.inj (hf ▸ hget')
    exact ⟨machine, hget, hP, hQ⟩
  drift := h'.drift.trans h.drift

/-- A change that does the same to every machine as `P` says. -/
theorem Changes.congr {Q : Machine → Prop} (h : Changes P f [id] ms ms')
    (hfg : ∀ machine, ms.machines[id]? = some machine → P machine → Q machine ∧ f machine = g machine) :
    Changes Q g [id] ms ms' where
  get := by
    intro i
    rw [h.get i]
    by_cases hi : i ∈ [id]
    · obtain ⟨machine, hget, hP⟩ := h.visited i hi
      obtain rfl : i = id := by simpa using hi
      simp only [hi, if_true, hget, Option.map_some, (hfg machine hget hP).2]
    · simp only [hi, if_false]
  visited := by
    intro i hi
    obtain ⟨machine, hget, hP⟩ := h.visited i hi
    obtain rfl : i = id := by simpa using hi
    exact ⟨machine, hget, (hfg machine hget hP).1⟩
  drift := h.drift

/-- A loop over machines that changes each of them. -/
theorem changes_runFrom {op : Machines → ℕ → Except SimAbort Machines}
    (hop : ∀ ms id ms', op ms id = .ok ms' → Changes P f [id] ms ms') (hnodup : ids.Nodup) (h : runFrom op ms ids = .ok ms') :
    Changes P f ids ms ms' := by
  induction ids generalizing ms with
  | nil =>
    obtain rfl : ms = ms' := Except.ok.inj h
    exact ⟨by simp, by simp, rfl⟩
  | cons id ids ih =>
    obtain ⟨ms₁, h1, h2⟩ := of_runFrom_cons h
    obtain ⟨hnot, hnodup⟩ := List.nodup_cons.1 hnodup
    have hfirst := hop ms id ms₁ h1
    have hrest := ih hnodup h2
    refine ⟨fun i => ?_, fun i hi => ?_, hrest.drift.trans hfirst.drift⟩
    · rw [hrest.get i, hfirst.get i]
      by_cases hi : i = id
      · subst hi
        simp [hnot]
      · simp [hi]
    · rcases List.mem_cons.1 hi with rfl | hi
      · exact hfirst.visited i (List.mem_singleton.2 rfl)
      · obtain ⟨machine, hget, hP⟩ := hrest.visited i hi
        have hne : i ≠ id := fun heq => hnot (heq ▸ hi)
        rw [hfirst.get i, if_neg (by simpa using hne)] at hget
        exact ⟨machine, hget, hP⟩

/-- A job begins on a machine. -/
def runOn (date : ℚ) (job : String) (machine : Machine) : Machine := (machine.changeState date .computing).insertJob job

/-- A job ends on a machine. -/
def endOn (date : ℚ) (job : String) (machine : Machine) : Machine :=
  if machine.jobsBeingComputed.erase job = ∅ ∧ machine.state ≠ .unavailable then (machine.eraseJob job).changeState date .idle
  else machine.eraseJob job

theorem runOnMachine_ok (ms : Machines) (id : ℕ) (ms' : Machines) (h : runOnMachine date job ms id = .ok ms') :
    Changes (·.lastStateChangeDate ≤ date) (runOn date job) [id] ms ms' := by
  obtain ⟨ms₁, h1, rfl⟩ := map_eq_ok.1 h
  have hstate := updateMachineState_ok h1
  obtain ⟨machine, hget, -⟩ := hstate.visited id (List.mem_singleton.2 rfl)
  have hget₁ : ms₁.machines[id]? = some (machine.changeState date .computing) := by
    rw [hstate.get id, if_pos (List.mem_singleton.2 rfl), hget, Option.map_some]
  refine (hstate.comp (Changes.modify (P := fun _ => True) (f := Machine.insertJob job) hget₁ trivial rfl)).congr ?_
  exact fun _ _ h => ⟨h.1, rfl⟩

theorem endOnMachine_ok (ms : Machines) (id : ℕ) (ms' : Machines) (h : endOnMachine date job ms id = .ok ms') :
    Changes (job ∈ ·.jobsBeingComputed) (endOn date job) [id] ms ms' := by
  unfold endOnMachine at h
  split at h
  · nomatch h
  · rename_i machine hget
    split at h
    · nomatch h
    · split at h
      · nomatch h
      · rename_i hmem
        have hmem : job ∈ machine.jobsBeingComputed := not_not.1 hmem
        have herase : Changes (job ∈ ·.jobsBeingComputed) (Machine.eraseJob job) [id] ms (ms.modify id (Machine.eraseJob job)) :=
          Changes.modify hget hmem rfl
        dsimp only at h
        split at h
        · rename_i hlast
          refine (herase.comp (updateMachineState_ok h)).congr fun machine' hget' h' => ⟨h'.1, ?_⟩
          obtain rfl : machine = machine' := Option.some.inj (hget ▸ hget')
          rw [endOn, if_pos hlast]
          rfl
        · rename_i hlast
          cases h
          refine herase.congr fun machine' hget' h' => ⟨h', ?_⟩
          obtain rfl : machine = machine' := Option.some.inj (hget ▸ hget')
          rw [endOn, if_neg hlast]

theorem updateMachinesOnJobRun_ok {usedMachines : IntervalSet} (h : ms.updateMachinesOnJobRun date job usedMachines = .ok ms') :
    Changes (·.lastStateChangeDate ≤ date) (runOn date job) usedMachines.sort ms ms' :=
  changes_runFrom runOnMachine_ok (Finset.sort_nodup _ _) h

theorem updateMachinesOnJobEnd_ok {usedMachines : IntervalSet} (h : ms.updateMachinesOnJobEnd date job usedMachines = .ok ms') :
    Changes (job ∈ ·.jobsBeingComputed) (endOn date job) usedMachines.sort ms ms' :=
  changes_runFrom endOnMachine_ok (Finset.sort_nodup _ _) h

/-- A job can end where it has begun. -/
theorem endOnMachine_success (h : ∀ i ∈ ids, ∃ machine, ms.machines[i]? = some machine ∧ job ∈ machine.jobsBeingComputed ∧
    machine.lastStateChangeDate ≤ date) (hnodup : ids.Nodup) : ∃ ms', runFrom (endOnMachine date job) ms ids = .ok ms' := by
  induction ids generalizing ms with
  | nil => exact ⟨ms, rfl⟩
  | cons id ids ih =>
    obtain ⟨hnot, hnodup⟩ := List.nodup_cons.1 hnodup
    obtain ⟨machine, hget, hmem, hdate⟩ := h id List.mem_cons_self
    have hone : ∃ ms₁, endOnMachine date job ms id = .ok ms₁ := by
      unfold endOnMachine
      simp only [hget]
      rw [if_neg (Finset.ne_empty_of_mem hmem), if_neg (not_not.2 hmem)]
      split
      · unfold updateMachineState Machines.modify
        simp only [List.getElem?_modify, hget]
        simp [Machine.eraseJob, not_lt.2 hdate]
      · exact ⟨_, rfl⟩
    obtain ⟨ms₁, h1⟩ := hone
    have hrest : ∀ i ∈ ids, ∃ machine, ms₁.machines[i]? = some machine ∧ job ∈ machine.jobsBeingComputed ∧
        machine.lastStateChangeDate ≤ date := fun i hi => by
      have hne : i ≠ id := fun heq => hnot (heq ▸ hi)
      obtain ⟨machine', hget', hrest⟩ := h i (List.mem_cons_of_mem _ hi)
      exact ⟨machine', by rw [(endOnMachine_ok ms id ms₁ h1).get i, if_neg (by simpa using hne), hget'], hrest⟩
    obtain ⟨ms', h2⟩ := ih hrest hnodup
    exact ⟨ms', by rw [runFrom_cons_ok h1, h2]⟩

end Machines

namespace MachinesState

open Machines

variable {c : SimConfig} {q : Prop} {d : MachineState → ℤ} {s s' : MachinesState} {ms ms' : Machines} {date : ℚ} {id : ℕ}
  {job : String} {P : Machine → Prop} {f : Machine → Machine}

/-- A machine is computing while jobs are on it, unless it is unavailable, and it is never that if `q`. -/
structure StateOk (q : Prop) (machine : Machine) : Prop where
  computing : machine.state = .computing ↔ machine.jobsBeingComputed ≠ ∅ ∧ machine.state ≠ .unavailable
  available : q → machine.state ≠ .unavailable

/-- What holds in every state of a simulation: `d` is the drift of the counters, and no machine becomes unavailable if `q`. -/
structure Inv (c : SimConfig) (q : Prop) (d : MachineState → ℤ) (s : MachinesState) : Prop where
  drift : s.machines.drift = d
  jobs : ∀ (i : ℕ) (machine : Machine), s.machines.machines[i]? = some machine →
    ∀ job, job ∈ machine.jobsBeingComputed ↔ s.jobState job = .running ∧ i ∈ s.allocation job
  state : ∀ (i : ℕ) (machine : Machine), s.machines.machines[i]? = some machine → StateOk q machine
  energy : c.energyUsed = true ∨ s.switching = []
  /-- A machine that is being switched computes nothing, and is in no power state to start. -/
  switching : ∀ switching ∈ s.switching, ∀ machine, s.machines.machines[switching.machine]? = some machine →
    machine.jobsBeingComputed = ∅ ∧ machine.pstates machine.pstate = some .transitionVirtualPstate
  switchingOnce : (s.switching.map (·.machine)).Nodup

/-- A change of one machine but of its jobs, nor of its power state while it is being switched. -/
theorem Inv.change (h : Inv c q d s) (hc : Changes P f [id] s.machines ms)
    (hjobs : ∀ machine, (f machine).jobsBeingComputed = machine.jobsBeingComputed)
    (hpstate : (∀ switching ∈ s.switching, switching.machine ≠ id) ∨
      ∀ machine, (f machine).pstates (f machine).pstate = machine.pstates machine.pstate)
    (hstate : ∀ machine, s.machines.machines[id]? = some machine → StateOk q machine → StateOk q (f machine)) :
    Inv c q d { s with machines := ms } := by
  have hold : ∀ (i : ℕ) (machine' : Machine), ms.machines[i]? = some machine' → ∃ machine, s.machines.machines[i]? = some machine ∧
      machine'.jobsBeingComputed = machine.jobsBeingComputed ∧
      ((∃ switching ∈ s.switching, switching.machine = i) → machine'.pstates machine'.pstate = machine.pstates machine.pstate) ∧
      StateOk q machine' := by
    intro i machine' hget
    rw [hc.get i] at hget
    split at hget
    · rename_i hi
      obtain rfl : i = id := by simpa using hi
      obtain ⟨machine, hwas, rfl⟩ := Option.map_eq_some_iff.1 hget
      refine ⟨machine, hwas, hjobs machine, fun hswitching => ?_, hstate machine hwas (h.state i machine hwas)⟩
      obtain ⟨switching, hmem, heq⟩ := hswitching
      exact hpstate.resolve_left (fun hne => hne switching hmem heq) machine
    · exact ⟨machine', hget, rfl, fun _ => rfl, h.state i machine' hget⟩
  refine ⟨hc.drift.trans h.drift, fun i machine' hget job => ?_, fun i machine' hget => ?_, h.energy,
    fun switching hmem machine' hget => ?_, h.switchingOnce⟩
  · obtain ⟨machine, hget, hjobs, -⟩ := hold i machine' hget
    rw [hjobs]
    exact h.jobs i machine hget job
  · obtain ⟨machine, -, -, -, hstate⟩ := hold i machine' hget
    exact hstate
  · obtain ⟨machine, hget, hjobs, hpstate, -⟩ := hold switching.machine machine' hget
    rw [hjobs, hpstate ⟨switching, hmem, rfl⟩]
    exact h.switching switching hmem machine hget

/-! ### Jobs -/

theorem checkMachine_ok (h : checkMachine c job s id = .ok s') : s' = s ∧ ∃ machine, s.machines.machines[id]? = some machine ∧
    (machine.state = .computing ∨ machine.state = .idle) ∧
    (c.energyUsed = true → machine.pstates machine.pstate = some .computationPstate) := by
  unfold checkMachine at h
  split at h
  · nomatch h
  · rename_i machine hget
    split at h
    · nomatch h
    · split at h
      · nomatch h
      · split at h
        · nomatch h
        · rename_i hstate
          split at h
          · nomatch h
          · rename_i henergy
            refine ⟨(Except.ok.inj h).symm, machine, hget, ?_, fun hused => ?_⟩
            · by_contra hne
              exact hstate ⟨fun heq => hne (.inl heq), fun heq => hne (.inr heq)⟩
            · by_contra hne
              exact henergy ⟨hused, hne⟩

theorem checkMachines_ok {ids : List ℕ} (h : runFrom (checkMachine c job) s ids = .ok s') : s' = s ∧
    ∀ i ∈ ids, ∃ machine, s.machines.machines[i]? = some machine ∧ (machine.state = .computing ∨ machine.state = .idle) ∧
      (c.energyUsed = true → machine.pstates machine.pstate = some .computationPstate) := by
  induction ids generalizing s with
  | nil => exact ⟨(Except.ok.inj h).symm, by simp⟩
  | cons id ids ih =>
    obtain ⟨s₁, h1, h2⟩ := of_runFrom_cons h
    obtain ⟨rfl, hfirst⟩ := checkMachine_ok h1
    obtain ⟨rfl, hrest⟩ := ih h2
    refine ⟨rfl, fun i hi => ?_⟩
    rcases List.mem_cons.1 hi with rfl | hi
    · exact hfirst
    · exact hrest i hi

/-- What the server lets run, and what that does. -/
theorem executeJob_ok {machines : IntervalSet} (h : s.executeJob c date job machines = .ok s') :
    s.jobState job = .submitted ∧
      (∀ i ∈ machines, ∃ machine, s.machines.machines[i]? = some machine ∧ (machine.state = .computing ∨ machine.state = .idle) ∧
        (c.energyUsed = true → machine.pstates machine.pstate = some .computationPstate)) ∧
      ∃ ms, s.machines.updateMachinesOnJobRun date job machines = .ok ms ∧ s' = { s with
        machines := ms
        jobState := Function.update s.jobState job .running
        allocation := Function.update s.allocation job machines } := by
  unfold executeJob at h
  split at h
  · nomatch h
  · rename_i hsubmitted
    split at h
    · nomatch h
    · rename_i s₁ hcheck
      obtain ⟨rfl, hmachines⟩ := checkMachines_ok hcheck
      obtain ⟨ms, hrun, rfl⟩ := map_eq_ok.1 h
      exact ⟨not_not.1 hsubmitted, fun i hi => hmachines i ((Finset.mem_sort _).2 hi), ms, hrun, rfl⟩

theorem Inv.executeJob {machines : IntervalSet} (h : Inv c q d s) (hx : s.executeJob c date job machines = .ok s') :
    Inv c q d s' := by
  obtain ⟨hsubmitted, hmachines, ms, hrun, rfl⟩ := executeJob_ok hx
  have hc := updateMachinesOnJobRun_ok hrun
  have hget : ∀ i, ms.machines[i]? =
      if i ∈ machines then (s.machines.machines[i]?).map (runOn date job) else s.machines.machines[i]? := by
    intro i
    rw [hc.get i]
    simp only [Finset.mem_sort]
  refine ⟨hc.drift.trans h.drift, fun i machine' hget' other => ?_, fun i machine' hget' => ?_, h.energy,
    fun switching hmem machine' hget' => ?_, h.switchingOnce⟩
  · dsimp only
    rw [hget i] at hget'
    by_cases hother : other = job
    · subst hother
      rw [Function.update_self, Function.update_self]
      split at hget'
      · rename_i hi
        obtain ⟨machine, -, rfl⟩ := Option.map_eq_some_iff.1 hget'
        simp [runOn, Machine.insertJob, hi]
      · rename_i hi
        rw [h.jobs i machine' hget', hsubmitted]
        simp [hi]
    · rw [Function.update_of_ne hother, Function.update_of_ne hother]
      split at hget'
      · obtain ⟨machine, hwas, rfl⟩ := Option.map_eq_some_iff.1 hget'
        rw [← h.jobs i machine hwas other]
        simp [runOn, Machine.insertJob, Machine.changeState, hother]
      · exact h.jobs i machine' hget' other
  · rw [hget i] at hget'
    split at hget'
    · obtain ⟨machine, hwas, rfl⟩ := Option.map_eq_some_iff.1 hget'
      exact ⟨by simp [runOn, Machine.insertJob, Machine.changeState], by simp [runOn, Machine.insertJob, Machine.changeState]⟩
    · exact h.state i machine' hget'
  · rw [hget switching.machine] at hget'
    split at hget'
    · -- a machine that is being switched is not in a computation power state
      rename_i hi
      obtain ⟨machine, hwas, -⟩ := Option.map_eq_some_iff.1 hget'
      obtain ⟨machine₁, hget₁, -, hpstate⟩ := hmachines _ hi
      obtain rfl : machine = machine₁ := Option.some.inj (hwas ▸ hget₁)
      have henergy : c.energyUsed = true := h.energy.resolve_right (List.ne_nil_of_mem hmem)
      rw [(h.switching switching hmem machine hwas).2] at hpstate
      nomatch hpstate henergy
    · exact h.switching switching hmem machine' hget'

/-- A running job ends. -/
theorem Inv.endJob {state : JobState} (h : Inv c q d s) (hstate : state ≠ .running) (hx : s.endJob date job state = .ok s') :
    Inv c q d s' := by
  obtain ⟨ms, hend, rfl⟩ := map_eq_ok.1 hx
  have hc := updateMachinesOnJobEnd_ok hend
  have hget : ∀ i, ms.machines[i]? =
      if i ∈ s.allocation job then (s.machines.machines[i]?).map (endOn date job) else s.machines.machines[i]? := by
    intro i
    rw [hc.get i]
    simp only [Finset.mem_sort]
  have hjobs : ∀ machine : Machine, (endOn date job machine).jobsBeingComputed = machine.jobsBeingComputed.erase job := by
    intro machine
    unfold endOn
    split <;> rfl
  refine ⟨hc.drift.trans h.drift, fun i machine' hget' other => ?_, fun i machine' hget' => ?_, h.energy,
    fun switching hmem machine' hget' => ?_, h.switchingOnce⟩
  · dsimp only
    rw [hget i] at hget'
    by_cases hother : other = job
    · subst hother
      rw [Function.update_self]
      split at hget'
      · obtain ⟨machine, -, rfl⟩ := Option.map_eq_some_iff.1 hget'
        rw [hjobs]
        simp [hstate]
      · rename_i hi
        rw [h.jobs i machine' hget']
        simp [hi]
    · rw [Function.update_of_ne hother]
      split at hget'
      · obtain ⟨machine, hwas, rfl⟩ := Option.map_eq_some_iff.1 hget'
        rw [← h.jobs i machine hwas other, hjobs]
        simp [hother]
      · exact h.jobs i machine' hget' other
  · rw [hget i] at hget'
    split at hget'
    · obtain ⟨machine, hwas, rfl⟩ := Option.map_eq_some_iff.1 hget'
      have hok := h.state i machine hwas
      unfold endOn
      split
      · rename_i hlast
        exact ⟨by simp [Machine.changeState, Machine.eraseJob, hlast.1], by simp [Machine.changeState]⟩
      · rename_i hlast
        refine ⟨?_, hok.available⟩
        obtain ⟨machine₁, hget₁, hmem⟩ := hc.visited i (by simp only [Finset.mem_sort]; assumption)
        obtain rfl : machine = machine₁ := Option.some.inj (hwas ▸ hget₁)
        change machine.state = .computing ↔ machine.jobsBeingComputed.erase job ≠ ∅ ∧ machine.state ≠ .unavailable
        rw [hok.computing]
        constructor
        · exact fun hne => ⟨fun hempty => hlast ⟨hempty, hne.2⟩, hne.2⟩
        · exact fun hne => ⟨Finset.ne_empty_of_mem hmem, hne.2⟩
    · exact h.state i machine' hget'
  · rw [hget switching.machine] at hget'
    split at hget'
    · rename_i hi
      obtain ⟨machine, hwas, -⟩ := Option.map_eq_some_iff.1 hget'
      obtain ⟨machine₁, hget₁, hmem'⟩ := hc.visited _ ((Finset.mem_sort _).2 hi)
      obtain rfl : machine = machine₁ := Option.some.inj (hwas ▸ hget₁)
      rw [(h.switching switching hmem machine hwas).1] at hmem'
      simp at hmem'
    · exact h.switching switching hmem machine' hget'

/-! ### Power states -/

theorem setPstate_ok {machine : Machine} {ps : ℕ} (hget : s.machines.machines[id]? = some machine)
    (h : s.setPstate machine id ps = .ok ms) : Changes (fun _ => True) (Machine.setPstate ps) [id] s.machines ms := by
  unfold MachinesState.setPstate at h
  split at h
  · nomatch h
  · cases h
    exact Changes.modify hget trivial rfl

/-- A machine whose power state is no virtual one is not being switched. -/
theorem Inv.notSwitching {machine : Machine} (h : Inv c q d s) (hget : s.machines.machines[id]? = some machine)
    (hpstate : machine.pstates machine.pstate ≠ some .transitionVirtualPstate) : ∀ switching ∈ s.switching, switching.machine ≠ id := by
  rintro switching hmem rfl
  exact hpstate (h.switching switching hmem machine hget).2

/-- A machine begins to be switched, to a virtual power state. -/
theorem Inv.startSwitching {machine : Machine} {switching : Switching} {virtual? : Option ℕ} {transition : MachineState}
    (h : Inv c q d s) (henergy : c.energyUsed = true) (hget : s.machines.machines[switching.machine]? = some machine)
    (hpstate : machine.pstates machine.pstate ≠ some .transitionVirtualPstate)
    (hvirtual : ∀ ps, virtual? = some ps → machine.pstates ps = some .transitionVirtualPstate)
    (htransition : transition ≠ .computing ∧ transition ≠ .unavailable)
    (hx : s.machines.updateMachineState date switching.machine transition = .ok ms)
    (hs : MachinesState.startSwitching s ms machine switching virtual? = .ok s') : Inv c q d s' := by
  unfold MachinesState.startSwitching at hs
  split at hs
  · nomatch hs
  · rename_i ps
    split at hs
    · nomatch hs
    · rename_i hempty
      have hempty : machine.jobsBeingComputed = ∅ := not_not.1 hempty
      cases hs
      have hstate := updateMachineState_ok hx
      have hone : ms.machines[switching.machine]? = some (machine.changeState date transition) := by
        rw [hstate.get, if_pos (List.mem_singleton.2 rfl), hget, Option.map_some]
      have hc := hstate.comp (Changes.modify (P := fun _ => True) (f := Machine.setPstate ps) hone trivial rfl)
      have hnot := h.notSwitching hget hpstate
      have hinv := h.change hc (fun _ => rfl) (.inl hnot) fun machine' hget' hok => by
        obtain rfl : machine = machine' := Option.some.inj (hget ▸ hget')
        refine ⟨?_, fun _ => htransition.2⟩
        change transition = .computing ↔ machine.jobsBeingComputed ≠ ∅ ∧ transition ≠ .unavailable
        simp [htransition.1, hempty]
      refine ⟨hinv.drift, hinv.jobs, hinv.state, .inl henergy, fun other hmem machine' hget' => ?_, ?_⟩
      · rcases List.mem_cons.1 hmem with rfl | hmem
        · rw [hc.get, if_pos (List.mem_singleton.2 rfl), hget, Option.map_some] at hget'
          cases hget'
          exact ⟨hempty, hvirtual ps rfl⟩
        · exact hinv.switching other hmem machine' hget'
      · refine List.nodup_cons.2 ⟨fun hmem => ?_, h.switchingOnce⟩
        obtain ⟨other, hother, heq⟩ := List.mem_map.1 hmem
        exact hnot other hother heq

theorem Inv.modifyPstate {newPstate : ℕ} (h : Inv c q d s) (henergy : c.energyUsed = true)
    (hx : modifyPstate date newPstate s id = .ok s') : Inv c q d s' := by
  unfold MachinesState.modifyPstate at hx
  split at hx
  · nomatch hx
  · rename_i machine hget
    split at hx
    · rename_i hcurrent _
      obtain ⟨ms, hset, rfl⟩ := map_eq_ok.1 hx
      have hpstate : machine.pstates machine.pstate ≠ some .transitionVirtualPstate := fun heq => by simp [heq] at hcurrent
      exact h.change (setPstate_ok hget hset) (fun _ => rfl) (.inl (h.notSwitching hget hpstate)) fun _ _ hok => ⟨hok.1, hok.2⟩
    · rename_i hcurrent _
      have hpstate : machine.pstates machine.pstate ≠ some .transitionVirtualPstate := fun heq => by simp [heq] at hcurrent
      split at hx
      · nomatch hx
      · rename_i ms hms
        refine h.startSwitching henergy hget hpstate (fun ps heq => ?_) ⟨by decide, by decide⟩ hms hx
        obtain ⟨sleep, hsleep, rfl⟩ := Option.map_eq_some_iff.1 heq
        exact (machine.virtualPstates _ sleep hsleep).2
    · rename_i hcurrent _
      have hpstate : machine.pstates machine.pstate ≠ some .transitionVirtualPstate := fun heq => by simp [heq] at hcurrent
      split at hx
      · nomatch hx
      · rename_i ms hms
        refine h.startSwitching henergy hget hpstate (fun ps heq => ?_) ⟨by decide, by decide⟩ hms hx
        obtain ⟨sleep, hsleep, rfl⟩ := Option.map_eq_some_iff.1 heq
        exact (machine.virtualPstates _ sleep hsleep).1
    · nomatch hx
    · cases hx
      exact h
    · cases hx
      exact h

theorem Inv.onPstateModification {machines : IntervalSet} {newPstate : ℕ} (h : Inv c q d s)
    (hx : s.onPstateModification c date machines newPstate = .ok s') : Inv c q d s' := by
  unfold MachinesState.onPstateModification at hx
  split at hx
  · rename_i henergy
    exact runFrom_invariant (I := Inv c q d) (C := fun _ _ => True) (fun _ _ _ hinv _ hstep => hinv.modifyPstate henergy hstep) h
      (allSteps_of_forall fun _ _ => trivial) hx
  · nomatch hx

theorem Inv.onSwitched {switching : Switching} (h : Inv c q d s) (hx : s.onSwitched date switching = .ok s') : Inv c q d s' := by
  unfold MachinesState.onSwitched at hx
  split at hx
  · rename_i hmem
    split at hx
    · nomatch hx
    · rename_i machine hget
      split at hx
      · nomatch hx
      · rename_i ms hset
        obtain ⟨ms', hms, rfl⟩ := map_eq_ok.1 hx
        obtain ⟨hempty, -⟩ := h.switching switching hmem machine hget
        have hnodup : s.switching.Nodup := h.switchingOnce.of_map
        have hrest : Inv c q d { s with switching := s.switching.erase switching } :=
          ⟨h.drift, h.jobs, h.state, h.energy.imp_right fun hnil => by rw [hnil, List.erase_nil],
            fun other hother => h.switching other (List.mem_of_mem_erase hother),
            h.switchingOnce.sublist (List.erase_sublist.map _)⟩
        refine hrest.change ((setPstate_ok hget hset).comp (updateMachineState_ok hms)) (fun _ => rfl) (.inl ?_) ?_
        · intro other hother heq
          rw [hnodup.mem_erase_iff] at hother
          exact hother.1 (List.inj_on_of_nodup_map h.switchingOnce hother.2 hmem heq)
        · intro machine' hget' hok
          obtain rfl : machine = machine' := Option.some.inj (hget ▸ hget')
          refine ⟨?_, fun _ => ?_⟩
          · change (if switching.isOn then MachineState.idle else .sleeping) = .computing ↔ machine.jobsBeingComputed ≠ ∅ ∧ _
            rw [hempty]
            split <;> simp
          · change (if switching.isOn then MachineState.idle else .sleeping) ≠ .unavailable
            split <;> nofun
  · nomatch hx

/-! ### Machines that become unavailable and available -/

theorem Inv.makeUnavailable (hq : ¬q) (h : Inv c q d { s with machines := ms }) (hx : makeUnavailable date ms id = .ok ms') :
    Inv c q d { s with machines := ms' } := by
  unfold MachinesState.makeUnavailable at hx
  split at hx
  · nomatch hx
  · split at hx
    · nomatch hx
    · exact h.change (updateMachineState_ok hx) (fun _ => rfl) (.inr fun _ => rfl) fun machine _ _ =>
        ⟨by simp [Machine.changeState], fun hbad => absurd hbad hq⟩

theorem Inv.makeAvailable (h : Inv c q d { s with machines := ms }) (hx : makeAvailable date ms id = .ok ms') :
    Inv c q d { s with machines := ms' } := by
  unfold MachinesState.makeAvailable at hx
  split at hx
  · nomatch hx
  · rename_i machine hget
    split at hx
    · nomatch hx
    · split at hx
      · rename_i hempty
        refine h.change (updateMachineState_ok hx) (fun _ => rfl) (.inr fun _ => rfl) fun machine' hget' _ => ?_
        obtain rfl : machine = machine' := Option.some.inj (hget ▸ hget')
        exact ⟨by simp [Machine.changeState, hempty], fun _ => nofun⟩
      · rename_i hjobs
        refine h.change (updateMachineState_ok hx) (fun _ => rfl) (.inr fun _ => rfl) fun machine' hget' _ => ?_
        obtain rfl : machine = machine' := Option.some.inj (hget ▸ hget')
        exact ⟨by simp [Machine.changeState, hjobs], fun _ => nofun⟩

/-! ### Runs -/

theorem stateOfReturnCode_ne (returnCode : ℤ) : stateOfReturnCode returnCode ≠ .running := by
  unfold stateOfReturnCode
  split_ifs <;> nofun

/-- Whatever happens, if it is no failure of a machine where there are none. -/
theorem Inv.step {event : ℚ × MachinesEvent} (h : Inv c q d s) (hq : q → ∀ machines, event.2 ≠ .machineUnavailable machines)
    (hx : step c s event = .ok s') : Inv c q d s' := by
  obtain ⟨date, event⟩ := event
  cases event with
  | submitJob job =>
    simp only [MachinesState.step] at hx
    split at hx
    · rename_i hnot
      cases hx
      refine ⟨h.drift, fun i machine hget other => ?_, h.state, h.energy, h.switching, h.switchingOnce⟩
      rw [h.jobs i machine hget other]
      by_cases hother : other = job
      · subst hother
        simp [hnot]
      · simp [Function.update_of_ne hother]
    · cases hx
      exact h
  | executeJob job machines => exact h.executeJob hx
  | returned job returnCode =>
    change s.onReturned date job returnCode = .ok s' at hx
    unfold onReturned at hx
    split at hx
    · exact h.endJob (stateOfReturnCode_ne returnCode) hx
    · nomatch hx
  | kill job runsParallelTask =>
    change s.onKill date job runsParallelTask = .ok s' at hx
    unfold onKill at hx
    split at hx
    · nomatch hx
    · split at hx
      · exact h.endJob (by decide) hx
      · cases hx
        exact h
  | pstateModification machines newPstate => exact h.onPstateModification hx
  | switched switching => exact h.onSwitched hx
  | machineUnavailable machines =>
    obtain ⟨ms, hms, rfl⟩ := map_eq_ok.1 hx
    exact runFrom_invariant (I := fun ms => Inv c q d { s with machines := ms }) (C := fun _ _ => True)
      (fun _ _ _ hinv _ hstep => hinv.makeUnavailable (fun hbad => hq hbad machines rfl) hstep) h
      (allSteps_of_forall fun _ _ => trivial) hms
  | machineAvailable machines =>
    obtain ⟨ms, hms, rfl⟩ := map_eq_ok.1 hx
    exact runFrom_invariant (I := fun ms => Inv c q d { s with machines := ms }) (C := fun _ _ => True)
      (fun _ _ _ hinv _ hstep => hinv.makeAvailable hstep) h (allSteps_of_forall fun _ _ => trivial) hms

/-! ## The machines that are created -/

theorem createMachines_ok {hosts : List Host} {limitMachineCount : ℤ} (h : createMachines hosts limitMachineCount = .ok ms) :
    ∃ computeNodes : List Host,
      ms.machines = (computeNodes ++ hosts.filter (·.permissions = .storage)).mapIdx (fun id host => { toHost := host, id := id }) ∧
      ms.nbMachinesInEachState = Function.update (fun _ => 0) .idle (computeNodes.length : ℤ) := by
  unfold createMachines at h
  split at h
  · nomatch h
  · split at h
    · nomatch h
    · split at h
      · nomatch h
      · rename_i computeNodes _
        split at h
        · nomatch h
        · cases h
          exact ⟨computeNodes, rfl, rfl⟩

theorem new_of_mem {hosts : List Host} {machine : Machine}
    (h : machine ∈ hosts.mapIdx fun id host => ({ toHost := host, id := id } : Machine)) :
    machine.state = .idle ∧ machine.jobsBeingComputed = ∅ := by
  obtain ⟨i, hi, rfl⟩ := List.mem_mapIdx.1 h
  exact ⟨rfl, rfl⟩

/-- The machines that are storage are idle, and not counted. -/
theorem drift_createMachines {hosts : List Host} {limitMachineCount : ℤ} (h : createMachines hosts limitMachineCount = .ok ms)
    (state : MachineState) :
    ms.drift state = if state = .idle then -(hosts.countP (·.permissions = .storage) : ℤ) else 0 := by
  obtain ⟨computeNodes, hmachines, hcounters⟩ := createMachines_ok h
  have hidle : ∀ machine ∈ ms.machines, machine.state = .idle := fun machine hmem => (new_of_mem (hmachines ▸ hmem)).1
  unfold drift nbMachinesIn
  rw [hcounters]
  by_cases hstate : state = .idle
  · subst hstate
    have hall : ms.machines.countP (·.state = .idle) = ms.machines.length :=
      List.countP_eq_length.2 fun machine hmem => by simpa using hidle machine hmem
    rw [hall, hmachines, Function.update_self, if_pos rfl, List.length_mapIdx, List.length_append, List.countP_eq_length_filter]
    push_cast
    ring
  · have hnone : ms.machines.countP (·.state = state) = 0 :=
      List.countP_eq_zero.2 fun machine hmem => by simpa [hidle machine hmem] using Ne.symm hstate
    rw [hnone, Function.update_of_ne hstate, if_neg hstate]
    rfl

/-- The simulation before anything has happened. -/
def new (machines : Machines) : MachinesState where
  machines := machines

theorem Inv.new {hosts : List Host} {limitMachineCount : ℤ} (h : createMachines hosts limitMachineCount = .ok ms) :
    Inv c q ms.drift (new ms) := by
  obtain ⟨computeNodes, hmachines, -⟩ := createMachines_ok h
  have hnew : ∀ (i : ℕ) (machine : Machine), ms.machines[i]? = some machine →
      machine.state = .idle ∧ machine.jobsBeingComputed = ∅ :=
    fun i machine hget => new_of_mem (hmachines ▸ List.mem_of_getElem? hget)
  refine ⟨rfl, fun i machine hget job => ?_, fun i machine hget => ?_, .inr rfl, by simp [MachinesState.new], by simp [MachinesState.new]⟩
  · rw [(hnew i machine hget).2]
    simp [MachinesState.new]
  · obtain ⟨hstate, hjobs⟩ := hnew i machine hget
    exact ⟨by simp [hstate, hjobs], fun _ => by simp [hstate]⟩

/-! ## A job that begins and ends -/

/-- What is seen of the machines but the time. -/
def seen (ms : Machines) : List (MachineState × Finset String) :=
  ms.machines.map fun machine => (machine.state, machine.jobsBeingComputed)

theorem nbMachinesIn_of_seen (h : seen ms = seen ms') (state : MachineState) : ms.nbMachinesIn state = ms'.nbMachinesIn state := by
  have hcount : ∀ ms : Machines, ms.nbMachinesIn state = (seen ms).countP (·.1 = state) := by
    intro ms
    unfold seen nbMachinesIn
    rw [List.countP_map]
    rfl
  rw [hcount, hcount, h]

/-- A job that begins on machines that can compute it, and ends, leaves them as they were. -/
theorem endOn_runOn {machine : Machine} {date' : ℚ} (hok : StateOk q machine)
    (hstate : machine.state = .computing ∨ machine.state = .idle) (hnot : job ∉ machine.jobsBeingComputed) :
    ((endOn date' job (runOn date job machine)).state, (endOn date' job (runOn date job machine)).jobsBeingComputed) =
      (machine.state, machine.jobsBeingComputed) := by
  have herase : (runOn date job machine).jobsBeingComputed.erase job = machine.jobsBeingComputed := Finset.erase_insert hnot
  unfold endOn
  rw [herase]
  rcases hstate with hstate | hstate
  · have hjobs := (hok.computing.1 hstate).1
    rw [if_neg fun hbad => hjobs hbad.1, hstate]
    exact congrArg _ herase
  · have hjobs : machine.jobsBeingComputed = ∅ := by
      by_contra hne
      have hbad := hok.computing.2 ⟨hne, by rw [hstate]; decide⟩
      rw [hstate] at hbad
      nomatch hbad
    rw [if_pos ⟨hjobs, (nofun : MachineState.computing ≠ .unavailable)⟩, hstate]
    exact congrArg _ herase

/-- `update_machines_on_job_run` and then `update_machines_on_job_end` restore the states, the jobs and the counters. -/
theorem Inv.restores {machines : IntervalSet} {date' : ℚ} (h : Inv c q d s) (hx : s.executeJob c date job machines = .ok s')
    (hdate : date ≤ date') : ∃ ms, s'.machines.updateMachinesOnJobEnd date' job machines = .ok ms ∧ seen ms = seen s.machines ∧
      ms.nbMachinesInEachState = s.machines.nbMachinesInEachState := by
  obtain ⟨hsubmitted, hmachines, ms₁, hrun, rfl⟩ := executeJob_ok hx
  have hc := updateMachinesOnJobRun_ok hrun
  have hsuccess : ∃ ms, ms₁.updateMachinesOnJobEnd date' job machines = .ok ms := by
    refine endOnMachine_success (fun i hi => ?_) (Finset.sort_nodup _ _)
    obtain ⟨machine, hget, -⟩ := hc.visited i hi
    refine ⟨runOn date job machine, by rw [hc.get i, if_pos hi, hget, Option.map_some], Finset.mem_insert_self _ _, hdate⟩
  obtain ⟨ms, hend⟩ := hsuccess
  have hc' := updateMachinesOnJobEnd_ok hend
  have hseen : seen ms = seen s.machines := by
    refine List.ext_getElem? fun i => ?_
    unfold seen
    rw [List.getElem?_map, List.getElem?_map, hc'.get i, hc.get i]
    by_cases hi : i ∈ machines.sort
    · obtain ⟨machine, hget, hstate, -⟩ := hmachines i ((Finset.mem_sort _).1 hi)
      have hnot : job ∉ machine.jobsBeingComputed := fun hmem => by
        have hrunning := ((h.jobs i machine hget job).1 hmem).1
        rw [hsubmitted] at hrunning
        nomatch hrunning
      simp only [hi, if_true, hget, Option.map_some]
      exact congrArg some (endOn_runOn (h.state i machine hget) hstate hnot)
    · simp only [hi, if_false]
  refine ⟨ms, hend, hseen, funext fun state => ?_⟩
  have hdrift := congrFun (hc'.drift.trans hc.drift) state
  unfold Machines.drift at hdrift
  rw [nbMachinesIn_of_seen hseen] at hdrift
  omega

end MachinesState

open MachinesState Machines

/-- The counters count the machines, a machine computes while jobs are on it, unless it is unavailable, and a job that begins and
ends leaves no trace of it. -/
structure CountersOk (c : SimConfig) (s : MachinesState) : Prop where
  counters : ∀ state, s.machines.nbMachinesInEachState state = s.machines.nbMachinesIn state
  computing : ∀ machine ∈ s.machines.machines,
    machine.state = .computing ↔ machine.jobsBeingComputed ≠ ∅ ∧ machine.state ≠ .unavailable
  restores : ∀ (date date' : ℚ) (job : String) (machines : IntervalSet) (s' : MachinesState),
    s.executeJob c date job machines = .ok s' → date ≤ date' →
      ∃ ms, s'.machines.updateMachinesOnJobEnd date' job machines = .ok ms ∧ seen ms = seen s.machines ∧
        ms.nbMachinesInEachState = s.machines.nbMachinesInEachState

theorem countersOk_of_inv {c : SimConfig} {q : Prop} {s : MachinesState} (h : Inv c q (fun _ => 0) s) : CountersOk c s where
  counters state := by
    have hdrift := congrFun h.drift state
    unfold Machines.drift at hdrift
    omega
  computing machine hmem := by
    obtain ⟨i, hget⟩ := List.getElem?_of_mem hmem
    exact (h.state i machine hget).computing
  restores _ _ _ _ _ hx hdate := h.restores hx hdate

/-- In every run, the counters and the states of the machines are right in every state exactly when no host is storage. Machines are
only unavailable in runs where some become so. -/
theorem machine_counters_iff (c : SimConfig) (hosts : List Host) (limitMachineCount : ℤ) (events : List (ℚ × MachinesEvent))
    (ms : Machines) (h : createMachines hosts limitMachineCount = .ok ms) :
    (Always (MachinesState.step c) (CountersOk c) (MachinesState.new ms) events ↔ ∀ host ∈ hosts, host.permissions ≠ .storage) ∧
      ((∀ event ∈ events, ∀ machines, event.2 ≠ .machineUnavailable machines) →
        Always (MachinesState.step c) (fun s => ∀ machine ∈ s.machines.machines, machine.state ≠ .unavailable)
          (MachinesState.new ms) events) := by
  refine ⟨⟨fun halways host hmem hstorage => ?_, fun hnone => ?_⟩, fun havailable => ?_⟩
  · have hok : CountersOk c (MachinesState.new ms) := by
      cases events with
      | nil => exact halways
      | cons => exact halways.1
    have hdrift := drift_createMachines h .idle
    unfold Machines.drift at hdrift
    have hcounter := hok.counters .idle
    have hpos : 0 < hosts.countP (·.permissions = .storage) := List.countP_pos_iff.2 ⟨host, hmem, by simpa using hstorage⟩
    rw [if_pos rfl] at hdrift
    change ms.nbMachinesInEachState .idle = _ at hcounter
    rw [hcounter] at hdrift
    change (ms.nbMachinesIn .idle : ℤ) - _ = _ at hdrift
    omega
  · have hzero : ms.drift = fun _ => 0 := by
      funext state
      have hcount : hosts.countP (·.permissions = .storage) = 0 :=
        List.countP_eq_zero.2 fun host hmem => by simpa using hnone host hmem
      rw [drift_createMachines h state, hcount]
      simp
    refine always_of_invariant (I := Inv c False (fun _ => 0)) (C := fun _ _ => True)
      (fun _ _ _ hinv _ hx => hinv.step (fun hbad => hbad.elim) hx) (fun _ hinv => countersOk_of_inv hinv) ?_
      (allSteps_of_forall fun _ _ => trivial)
    rw [← hzero]
    exact Inv.new h
  · refine always_of_invariant (I := Inv c True ms.drift) (C := fun _ event => ∀ machines, event.2 ≠ .machineUnavailable machines)
      (fun _ _ _ hinv hevent hx => hinv.step (fun _ => hevent) hx) (fun s hinv machine hmem => ?_) (Inv.new h)
      (allSteps_of_forall havailable)
    obtain ⟨i, hget⟩ := List.getElem?_of_mem hmem
    exact (hinv.state i machine hget).available trivial

private def hostsWithStorage : List Host := [{ permissions := .master }, { permissions := .computeNode }, { permissions := .storage }]

private def hostsWithoutStorage : List Host := [{ permissions := .master }, { permissions := .computeNode }]

/-- With one machine of either kind, the counter of idle machines is one from the beginning. -/
theorem machine_counters_false :
    ¬∀ (c : SimConfig) (hosts : List Host) (limitMachineCount : ℤ) (events : List (ℚ × MachinesEvent)) (ms : Machines),
      createMachines hosts limitMachineCount = .ok ms →
        Always (MachinesState.step c) (CountersOk c) (MachinesState.new ms) events := by
  intro hall
  have hok : CountersOk {} (MachinesState.new _) := hall {} hostsWithStorage (-1) [] _ rfl
  have hcounter := hok.counters .idle
  revert hcounter
  decide

theorem machine_counters_iff_witness :
    Always (MachinesState.step {}) (CountersOk {})
      (MachinesState.new { machines := [{ id := 0 }], nbMachinesInEachState := Function.update (fun _ => 0) .idle 1 })
      [(0, .submitJob "w0!1"), (0, .executeJob "w0!1" {0}), (5, .kill "w0!1" false)] :=
  (machine_counters_iff {} hostsWithoutStorage (-1) _ _ rfl).1.2 (by decide)

end ScheduleTest
