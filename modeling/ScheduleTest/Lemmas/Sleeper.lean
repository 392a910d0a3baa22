import ScheduleTest.SleeperPlatform
import ScheduleTest.Lib.Divided
import Mathlib.Tactic

/-!
# What the sleeper does on a message

Statements about `Sleeper.prepare` and `Sleeper.decideFirst`. The machines are where they were or where the message says, and then at
most one thing is decided about them: a job is executed, machines are put to sleep, or machines are woken up. That every machine is in
one of the five sets is said by the sum of their multisets.
-/

namespace ScheduleTest

namespace SleeperOptions

variable (o : SleeperOptions)

theorem isInt_pstate (on : Bool) : Text.IsInt (o.pstate on) := by
  cases on
  · exact o.isInt.2
  · exact o.isInt.1

theorem pstate_inj (hne : o.computePstate ≠ o.sleepPstate) {on on' : Bool} : o.pstate on = o.pstate on' ↔ on = on' := by
  cases on <;> cases on' <;> simp [pstate, hne, hne.symm]

/-- The decision to switch machines on or off. -/
def switchOrder (on : Bool) (machines : IntervalSet) : ProtocolEvent := .setResourceState machines (toString (o.pstate on : ℤ))

/-- The jobs that are not rejected. -/
def accepted (jobs : List Job) : List Job := jobs.filter (·.nbRequestedResources ≤ o.nbMachines)

/-- The jobs that request more machines than there are. -/
def refused (jobs : List Job) : List Job := jobs.filter (o.nbMachines < ·.nbRequestedResources)

end SleeperOptions

namespace SleeperState

/-- The machines that are being switched, on or off. -/
def switching (s : SleeperState) : Bool → IntervalSet
  | true => s.machinesBeingSwitchedOn
  | false => s.machinesBeingSwitchedOff

/-- The machines that may be switched on or off. -/
def resting (s : SleeperState) : Bool → IntervalSet
  | true => s.sleepingMachines
  | false => s.availableMachines

/-- A job waits for machines. -/
def waits (s : SleeperState) : Bool := !s.queue.isEmpty && s.jobBeingComputed = ""

/-- Every machine is in one of the sets, and in no two of them. -/
def Placed (n : ℕ) (s : SleeperState) : Prop :=
  s.availableMachines.val + s.computingMachines.val + s.sleepingMachines.val + s.machinesBeingSwitchedOn.val +
    s.machinesBeingSwitchedOff.val = (Finset.range n).val

end SleeperState

/-- The machines that some changes of power states are about, by the power state that they have got. -/
def changedTo (pstate : ℤ) (changes : List (ℤ × IntervalSet)) : Multiset ℕ :=
  (changes.map fun change => if change.1 = pstate then change.2.val else 0).sum

@[simp] theorem changedTo_nil (pstate : ℤ) : changedTo pstate [] = 0 := rfl

@[simp] theorem changedTo_cons (pstate : ℤ) (change : ℤ × IntervalSet) (changes : List (ℤ × IntervalSet)) :
    changedTo pstate (change :: changes) = (if change.1 = pstate then change.2.val else 0) + changedTo pstate changes := by
  simp [changedTo]

@[simp] theorem changedTo_append (pstate : ℤ) (changes changes' : List (ℤ × IntervalSet)) :
    changedTo pstate (changes ++ changes') = changedTo pstate changes + changedTo pstate changes' := by
  simp [changedTo]

theorem changedTo_eq_zero {pstate : ℤ} {changes : List (ℤ × IntervalSet)} (hne : ∀ change ∈ changes, change.1 ≠ pstate) :
    changedTo pstate changes = 0 := by
  induction changes with
  | nil => rfl
  | cons change changes ih =>
    obtain ⟨hfirst, hne⟩ := List.forall_mem_cons.1 hne
    simp [hfirst, ih hne]

namespace SleeperEvent

/-- The job that is submitted. -/
def released? : SleeperEvent → Option Job
  | jobSubmitted job => some job
  | _ => none

/-- The job that has completed. -/
def ended? : SleeperEvent → Option String
  | jobCompleted id => some id
  | _ => none

/-- The machines that have got a power state, and which. -/
def change? : SleeperEvent → Option (ℤ × IntervalSet)
  | resourceStateChanged machines newState => some (newState, machines)
  | _ => none

def isEnd : SleeperEvent → Bool
  | simulationEnds => true
  | _ => false

end SleeperEvent

namespace SleeperAux

open Sleeper

variable {o : SleeperOptions} {s s' : SleeperState} {n : ℕ} {currentDate : ℚ} {pstate : ℤ}

/-- A machine is in one set at most. -/
theorem count_le_one (hp : s.Placed n) (machine : ℕ) : s.availableMachines.val.count machine + s.computingMachines.val.count machine +
    s.sleepingMachines.val.count machine + s.machinesBeingSwitchedOn.val.count machine +
    s.machinesBeingSwitchedOff.val.count machine ≤ 1 := by
  have hone := Multiset.nodup_iff_count_le_one.1 (Finset.range n).nodup machine
  rwa [← hp, Multiset.count_add, Multiset.count_add, Multiset.count_add, Multiset.count_add] at hone

/-! ### The events of a message -/

/-- The entries of a map that are about a power state. -/
theorem changedTo_entries (map : KeyedMap (fun pstate : ℤ => pstate) IntervalSet) (pstate : ℤ) :
    changedTo pstate map.entries = ((map.find? pstate).getD ∅).val := by
  cases hfind : map.find? pstate with
  | none =>
    rw [changedTo_eq_zero (KeyedMap.find?_eq_none.1 hfind)]
    rfl
  | some machines =>
    obtain ⟨key, hmem, rfl⟩ := KeyedMap.find?_eq_some.1 hfind
    obtain ⟨before, after, hentries⟩ := List.append_of_mem hmem
    have hsorted := map.sorted
    rw [hentries, List.pairwise_append, List.pairwise_cons] at hsorted
    obtain ⟨-, ⟨hafter, -⟩, hbefore⟩ := hsorted
    rw [hentries, changedTo_append, changedTo_cons,
      changedTo_eq_zero fun change hchange => (hbefore change hchange _ List.mem_cons_self).ne,
      changedTo_eq_zero fun change hchange => (hafter change hchange).ne']
    simp

/-- Machines are added to those that have got a power state. -/
theorem changedTo_insert (map : KeyedMap (fun pstate : ℤ => pstate) IntervalSet) (pstate newState : ℤ) {machines : IntervalSet}
    (hnodup : (changedTo newState map.entries + machines.val).Nodup) :
    changedTo pstate (map.insert newState ((map.find? newState).getD ∅ ∪ machines)).entries =
      changedTo pstate map.entries + if newState = pstate then machines.val else 0 := by
  rw [changedTo_entries, KeyedMap.find?_insert]
  by_cases heq : newState = pstate
  · subst heq
    rw [changedTo_entries] at hnodup ⊢
    simp [Finset.val_union_of_nodup hnodup]
  · rw [if_neg (Ne.symm heq), if_neg heq, changedTo_entries, add_zero]

/-- What the sleeper has received of a message: the jobs that are released and those that have ended, and the machines whose power
state has changed. -/
structure Received (s : SleeperState) (events : List SleeperEvent) (s' : SleeperState) : Prop where
  frame : s' = { s with
    workload := s'.workload
    jobsReleasedRecently := s.jobsReleasedRecently ++ events.filterMap SleeperEvent.released?
    jobsEndedRecently := s.jobsEndedRecently ++ events.filterMap SleeperEvent.ended?
    machinesWhosePstateChangedRecently := s'.machinesWhosePstateChangedRecently
    simulationFinished := s.simulationFinished || events.any SleeperEvent.isEnd }
  released : ∀ job ∈ events.filterMap SleeperEvent.released?, s'.workload job.id = some job
  known : ∀ id, id ∉ (events.filterMap SleeperEvent.released?).map Job.id → s'.workload id = s.workload id
  changed : ∀ pstate, changedTo pstate s'.machinesWhosePstateChangedRecently.entries =
    changedTo pstate s.machinesWhosePstateChangedRecently.entries + changedTo pstate (events.filterMap SleeperEvent.change?)
  keys : ∀ change ∈ s'.machinesWhosePstateChangedRecently.entries,
    change.1 ∈ (s.machinesWhosePstateChangedRecently.entries ++ events.filterMap SleeperEvent.change?).map (·.1)

theorem Received.append {s₁ : SleeperState} {events events' : List SleeperEvent} (h : Received s events s₁)
    (h' : Received s₁ events' s') (hnew : ((events ++ events').filterMap SleeperEvent.released? |>.map Job.id).Nodup) :
    Received s (events ++ events') s' where
  frame := by
    rw [h'.frame, h.frame]
    simp [Bool.or_assoc]
  released := by
    intro job hjob
    rw [List.filterMap_append, List.mem_append] at hjob
    rw [List.filterMap_append, List.map_append] at hnew
    rcases hjob with hjob | hjob
    · rw [h'.known, h.released job hjob]
      exact fun hmem => (List.nodup_append.1 hnew).2.2 _ (List.mem_map_of_mem hjob) _ hmem rfl
    · exact h'.released job hjob
  known := by
    intro id hid
    rw [List.filterMap_append, List.map_append, List.mem_append, not_or] at hid
    rw [h'.known id hid.2, h.known id hid.1]
  changed := by
    intro pstate
    rw [h'.changed, h.changed, List.filterMap_append, changedTo_append, add_assoc]
  keys := by
    intro change hchange
    have hkey := h'.keys change hchange
    rw [List.map_append, List.mem_append] at hkey
    rcases hkey with hkey | hkey
    · obtain ⟨change', hchange', heq⟩ := List.mem_map.1 hkey
      have hkey' := h.keys change' hchange'
      rw [heq] at hkey'
      rw [List.map_append, List.mem_append] at hkey' ⊢
      exact hkey'.imp_right fun hmem => by rw [List.filterMap_append, List.map_append]; exact List.mem_append_left _ hmem
    · rw [List.map_append, List.filterMap_append, List.map_append]
      exact List.mem_append_right _ (List.mem_append_right _ hkey)

/-- An event is received if its job is new or known, and no machine of it has been told of before. -/
theorem receive_ok {event : SleeperEvent} (hfresh : ∀ job ∈ event.released?, s.workload job.id = none)
    (hended : ∀ id ∈ event.ended?, (s.workload id).isSome)
    (hnodup : ∀ pstate, (changedTo pstate s.machinesWhosePstateChangedRecently.entries +
      changedTo pstate event.change?.toList).Nodup) :
    ∃ s', Sleeper.receive s event = .ok s' ∧ Received s [event] s' := by
  have hkeys : ∀ (event : SleeperEvent), ∀ change ∈ s.machinesWhosePstateChangedRecently.entries,
      change.1 ∈ (s.machinesWhosePstateChangedRecently.entries ++ [event].filterMap SleeperEvent.change?).map (·.1) :=
    fun _ _ h => List.mem_map_of_mem (List.mem_append_left _ h)
  cases event with
  | simulationEnds =>
    refine ⟨{ s with simulationFinished := true }, rfl, ?_, nofun, fun _ _ => rfl, fun _ => (add_zero _).symm, hkeys _⟩
    simp [SleeperEvent.released?, SleeperEvent.ended?, SleeperEvent.isEnd, List.filterMap_cons]
  | notify =>
    refine ⟨s, rfl, ?_, nofun, fun _ _ => rfl, fun _ => (add_zero _).symm, hkeys _⟩
    simp [SleeperEvent.released?, SleeperEvent.ended?, SleeperEvent.isEnd, List.filterMap_cons]
  | jobSubmitted job =>
    refine ⟨{ s with
        workload := Function.update s.workload job.id (some job)
        jobsReleasedRecently := s.jobsReleasedRecently ++ [job] }, by simp only [Sleeper.receive, hfresh job rfl], ?_, ?_, ?_,
      fun _ => (add_zero _).symm, hkeys _⟩
    · simp [SleeperEvent.released?, SleeperEvent.ended?, SleeperEvent.isEnd, List.filterMap_cons]
    · intro job' hjob'
      obtain rfl : job' = job := by simpa [SleeperEvent.released?] using hjob'
      simp
    · intro id hid
      have hne : id ≠ job.id := by simpa [SleeperEvent.released?] using hid
      simp [Function.update_of_ne hne]
  | jobCompleted id =>
    obtain ⟨job, hjob⟩ := Option.isSome_iff_exists.1 (hended id rfl)
    refine ⟨{ s with jobsEndedRecently := s.jobsEndedRecently ++ [id] }, by simp only [Sleeper.receive, hjob], ?_, nofun, fun _ _ => rfl,
      fun _ => (add_zero _).symm, hkeys _⟩
    simp [SleeperEvent.released?, SleeperEvent.ended?, SleeperEvent.isEnd, List.filterMap_cons]
  | resourceStateChanged machines newState =>
    refine ⟨_, rfl, ?_, nofun, fun _ _ => rfl, ?_, ?_⟩
    · simp [SleeperEvent.released?, SleeperEvent.ended?, SleeperEvent.isEnd, List.filterMap_cons]
    · intro pstate
      have hmore := hnodup newState
      simp only [SleeperEvent.change?, Option.toList_some, changedTo_cons, if_true, changedTo_nil, add_zero] at hmore
      rw [changedTo_insert _ _ _ hmore]
      simp [SleeperEvent.change?]
    · intro change hchange
      rw [List.map_append, List.mem_append]
      rcases KeyedMap.of_mem_insertEntry hchange with h | h
      · exact .inl (List.mem_map_of_mem h)
      · exact .inr (by simpa [SleeperEvent.change?] using h)

/-- A message is received if its jobs are new, the jobs that have ended are known, and no machine is told of twice. -/
theorem runFrom_receive {events : List SleeperEvent} (hnew : ((events.filterMap SleeperEvent.released?).map Job.id).Nodup)
    (hfresh : ∀ job ∈ events.filterMap SleeperEvent.released?, s.workload job.id = none)
    (hended : ∀ id ∈ events.filterMap SleeperEvent.ended?, (s.workload id).isSome)
    (hnodup : ∀ pstate, (changedTo pstate s.machinesWhosePstateChangedRecently.entries +
      changedTo pstate (events.filterMap SleeperEvent.change?)).Nodup) :
    ∃ s', Execution.runFrom Sleeper.receive s events = .ok s' ∧ Received s events s' := by
  induction events using List.reverseRecOn with
  | nil => exact ⟨s, rfl, by simp, nofun, fun _ _ => rfl, fun _ => (add_zero _).symm,
      fun change h => List.mem_map_of_mem (List.mem_append_left _ h)⟩
  | append_singleton events event ih =>
    have hsplit : ∀ {β : Type} (f : SleeperEvent → Option β),
        (events ++ [event]).filterMap f = events.filterMap f ++ (f event).toList := fun f => by
      rw [List.filterMap_append]
      cases hf : f event <;> simp [hf]
    have hwhole := hnew
    simp only [hsplit, List.map_append, List.mem_append, changedTo_append] at hnew hfresh hended hnodup
    obtain ⟨s₁, hrun, h⟩ := ih (List.nodup_append.1 hnew).1 (fun job hjob => hfresh job (.inl hjob)) (fun id hid => hended id (.inl hid))
      fun pstate => Multiset.nodup_of_le (by rw [← add_assoc]; exact Multiset.le_add_right _ _) (hnodup pstate)
    have hworkload : ∀ id, (s.workload id).isSome → (s₁.workload id).isSome := by
      intro id hid
      by_cases hmem : id ∈ (events.filterMap SleeperEvent.released?).map Job.id
      · obtain ⟨job, hjob, rfl⟩ := List.mem_map.1 hmem
        rw [h.released job hjob]
        rfl
      · rwa [h.known id hmem]
    have hfirst : ∀ job ∈ event.released?, s₁.workload job.id = none := by
      intro job hjob
      have hmem : job ∈ event.released?.toList := by simpa using hjob
      rw [h.known job.id fun hin => (List.nodup_append.1 hnew).2.2 _ hin _ (List.mem_map_of_mem hmem) rfl]
      exact hfresh job (.inr hmem)
    have hlater : ∀ pstate, (changedTo pstate s₁.machinesWhosePstateChangedRecently.entries +
        changedTo pstate event.change?.toList).Nodup := by
      intro pstate
      rw [h.changed, add_assoc]
      exact hnodup pstate
    obtain ⟨s', hlast, h'⟩ := receive_ok hfirst (fun id hid => hworkload id (hended id (.inr (by simpa using hid)))) hlater
    exact ⟨s', by rw [Execution.runFrom_append hrun, Execution.runFrom_cons_ok hlast, Execution.runFrom_nil], h.append h' hwhole⟩

/-! ### The jobs and the machines of a message -/

/-- The job that has ended, if one has, is the one being computed, on as many machines as it requests. -/
def EndsOwnJob (s : SleeperState) : Prop :=
  s.jobsEndedRecently = [] ∨ s.jobsEndedRecently = [s.jobBeingComputed] ∧
    ∃ job, s.workload s.jobBeingComputed = some job ∧ job.nbRequestedResources = s.computingMachines.card

theorem finishJob_ok (h : EndsOwnJob s) : finishJob s = .ok (if s.jobsEndedRecently = [] then s else { s with
    jobBeingComputed := ""
    availableMachines := s.availableMachines ∪ s.computingMachines
    computingMachines := ∅ }) := by
  rcases h with h | ⟨h, job, hjob, hcard⟩
  · simp [finishJob, h]
  · simp [finishJob, h, hjob, hcard]

/-- The jobs that are released wait or are rejected. -/
theorem foldl_releaseJob (jobs : List Job) : jobs.foldl (releaseJob o currentDate) s = { s with
    queue := s.queue ++ (o.accepted jobs).map fun job => { job := job, releaseDate := currentDate }
    decision := s.decision ++ (o.refused jobs).map fun job => .rejectJob job.id } := by
  induction jobs generalizing s with
  | nil => simp [SleeperOptions.accepted, SleeperOptions.refused]
  | cons job jobs ih =>
    rw [List.foldl_cons, ih]
    unfold releaseJob SleeperOptions.accepted SleeperOptions.refused
    by_cases h : o.nbMachines < job.nbRequestedResources
    · simp [h, not_le.2 h]
    · simp [h, not_lt.1 h, Queue.appendJob]

/-- The machines after some changes of power states: the rest is as it was. -/
structure Changed (o : SleeperOptions) (changes : List (ℤ × IntervalSet)) (s s' : SleeperState) : Prop where
  frame : s' = { s with
    availableMachines := s'.availableMachines
    sleepingMachines := s'.sleepingMachines
    machinesBeingSwitchedOn := s'.machinesBeingSwitchedOn
    machinesBeingSwitchedOff := s'.machinesBeingSwitchedOff }
  available : s'.availableMachines.val = s.availableMachines.val + changedTo o.computePstate changes
  sleeping : s'.sleepingMachines.val = s.sleepingMachines.val + changedTo o.sleepPstate changes
  switching : ∀ on, (s'.switching on).val + changedTo (o.pstate on) changes = (s.switching on).val

/-- Every machine is still in one set. -/
theorem Changed.placed {changes : List (ℤ × IntervalSet)} (h : Changed o changes s s') (hp : s.Placed n) : s'.Placed n := by
  have hon := h.switching true
  have hoff := h.switching false
  simp only [SleeperState.switching, SleeperOptions.pstate] at hon hoff
  have hcomputing : s'.computingMachines = s.computingMachines := by rw [h.frame]
  unfold SleeperState.Placed at hp ⊢
  rw [← hp, h.available, h.sleeping, hcomputing, ← hon, ← hoff]
  abel

theorem Changed.append {s₁ : SleeperState} {changes changes' : List (ℤ × IntervalSet)} (h : Changed o changes s s₁)
    (h' : Changed o changes' s₁ s') : Changed o (changes ++ changes') s s' where
  frame := by
    rw [h'.frame, h.frame]
  available := by
    rw [h'.available, h.available, changedTo_append, add_assoc]
  sleeping := by
    rw [h'.sleeping, h.sleeping, changedTo_append, add_assoc]
  switching := by
    intro on
    rw [changedTo_append, ← h.switching on, ← h'.switching on]
    abel

/-- Machines that are being switched have been. -/
theorem changePstate_ok (hne : o.computePstate ≠ o.sleepPstate) (on : Bool) {machines : IntervalSet}
    (hsub : machines ⊆ s.switching on) (hp : s.Placed n) :
    ∃ s', changePstate o s (o.pstate on, machines) = .ok s' ∧ Changed o [(↑(o.pstate on), machines)] s s' := by
  have hin := fun machine => Multiset.le_iff_count.1 (Finset.val_le_iff.2 hsub) machine
  have hrest := Finset.val_sdiff_add_val hsub
  have hne' : (o.sleepPstate : ℤ) ≠ o.computePstate := by exact_mod_cast hne.symm
  cases on with
  | true =>
    have hmore : (s.availableMachines ∪ machines).val = s.availableMachines.val + machines.val := by
      refine Finset.val_union_of_nodup (Multiset.nodup_iff_count_le_one.2 fun machine => ?_)
      have hone := count_le_one hp machine
      have hin := hin machine
      simp only [SleeperState.switching] at hin
      rw [Multiset.count_add]
      omega
    refine ⟨{ s with
        machinesBeingSwitchedOn := s.machinesBeingSwitchedOn \ machines
        availableMachines := s.availableMachines ∪ machines }, ?_, rfl, ?_, ?_, ?_⟩
    · simp only [changePstate, SleeperOptions.pstate, if_true]
      exact if_pos hsub
    · simpa [SleeperOptions.pstate] using hmore
    · simp [SleeperOptions.pstate, hne'.symm]
    · intro on
      cases on
      · simp [SleeperOptions.pstate, SleeperState.switching, hne'.symm]
      · simpa [SleeperOptions.pstate, SleeperState.switching] using hrest
  | false =>
    have hmore : (s.sleepingMachines ∪ machines).val = s.sleepingMachines.val + machines.val := by
      refine Finset.val_union_of_nodup (Multiset.nodup_iff_count_le_one.2 fun machine => ?_)
      have hone := count_le_one hp machine
      have hin := hin machine
      simp only [SleeperState.switching] at hin
      rw [Multiset.count_add]
      omega
    refine ⟨{ s with
        machinesBeingSwitchedOff := s.machinesBeingSwitchedOff \ machines
        sleepingMachines := s.sleepingMachines ∪ machines }, ?_, rfl, ?_, ?_, ?_⟩
    · simp only [changePstate, SleeperOptions.pstate, if_neg hne', if_true]
      exact if_pos hsub
    · simp [SleeperOptions.pstate, hne']
    · simpa [SleeperOptions.pstate] using hmore
    · intro on
      cases on
      · simpa [SleeperOptions.pstate, SleeperState.switching] using hrest
      · simp [SleeperOptions.pstate, SleeperState.switching, hne']

/-- The machines that have got a power state were being switched to it. -/
theorem runFrom_changePstate (hne : o.computePstate ≠ o.sleepPstate) {changes : List (ℤ × IntervalSet)}
    (hkeys : ∀ change ∈ changes, ∃ on, change.1 = o.pstate on)
    (hle : ∀ on, changedTo (o.pstate on) changes ≤ (s.switching on).val) (hp : s.Placed n) :
    ∃ s', Execution.runFrom (changePstate o) s changes = .ok s' ∧ Changed o changes s s' := by
  induction changes generalizing s with
  | nil => exact ⟨s, rfl, rfl, by simp, by simp, by simp⟩
  | cons change changes ih =>
    obtain ⟨pstate, machines⟩ := change
    obtain ⟨⟨on, rfl⟩, hlater⟩ := List.forall_mem_cons.1 hkeys
    have hin : machines.val ≤ (s.switching on).val := (Multiset.le_add_right _ _).trans (by simpa using hle on)
    obtain ⟨s₁, hfirst, h⟩ := changePstate_ok hne on (Finset.val_le_iff.1 hin) hp
    have hrest : ∀ on, changedTo (o.pstate on) changes ≤ (s₁.switching on).val := by
      intro on'
      have hwhole := hle on'
      rw [changedTo_cons, ← h.switching on', changedTo_cons, changedTo_nil, add_zero, add_comm] at hwhole
      exact Multiset.le_of_add_le_add_right hwhole
    obtain ⟨s', hrun, h'⟩ := ih hlater hrest (h.placed hp)
    exact ⟨s', by rw [Execution.runFrom_cons_ok hfirst, hrun], h.append h'⟩

/-- The state when the queue has been sorted: the jobs and the machines of the message are where they belong. -/
structure Prepared (o : SleeperOptions) (s s' : SleeperState) : Prop where
  available : s'.availableMachines.val = s.availableMachines.val +
    changedTo o.computePstate s.machinesWhosePstateChangedRecently.entries +
    if s.jobsEndedRecently = [] then 0 else s.computingMachines.val
  computing : s'.computingMachines = if s.jobsEndedRecently = [] then s.computingMachines else ∅
  sleeping : s'.sleepingMachines.val = s.sleepingMachines.val +
    changedTo o.sleepPstate s.machinesWhosePstateChangedRecently.entries
  switching : ∀ on, (s'.switching on).val + changedTo (o.pstate on) s.machinesWhosePstateChangedRecently.entries =
    (s.switching on).val
  job : s'.jobBeingComputed = if s.jobsEndedRecently = [] then s.jobBeingComputed else ""
  queue : s'.queue.jobs.Perm (s.queue.jobs ++ o.accepted s.jobsReleasedRecently)
  decision : s'.decision = s.decision ++ (o.refused s.jobsReleasedRecently).map fun job => .rejectJob job.id
  workload : s'.workload = s.workload
  finished : s'.simulationFinished = s.simulationFinished

theorem Prepared.placed (h : Prepared o s s') (hp : s.Placed n) : s'.Placed n := by
  have hon := h.switching true
  have hoff := h.switching false
  simp only [SleeperState.switching, SleeperOptions.pstate] at hon hoff
  unfold SleeperState.Placed at hp ⊢
  rw [← hp, h.available, h.sleeping, h.computing, ← hon, ← hoff]
  split
  · abel
  · rw [Finset.empty_val]
    abel

/-- A message that tells of the job being computed, and of machines that are being switched, is no reason to abort. -/
theorem prepare_ok (hne : o.computePstate ≠ o.sleepPstate) (hended : EndsOwnJob s)
    (hkeys : ∀ change ∈ s.machinesWhosePstateChangedRecently.entries, ∃ on, change.1 = o.pstate on)
    (hle : ∀ on, changedTo (o.pstate on) s.machinesWhosePstateChangedRecently.entries ≤ (s.switching on).val) (hp : s.Placed n) :
    ∃ s', prepare o currentDate s = .ok s' ∧ Prepared o s s' := by
  have hback : (s.availableMachines ∪ s.computingMachines).val = s.availableMachines.val + s.computingMachines.val := by
    refine Finset.val_union_of_nodup (Multiset.nodup_iff_count_le_one.2 fun machine => ?_)
    have hone := count_le_one hp machine
    rw [Multiset.count_add]
    omega
  set s₁ : SleeperState := if s.jobsEndedRecently = [] then s else { s with
    jobBeingComputed := ""
    availableMachines := s.availableMachines ∪ s.computingMachines
    computingMachines := ∅ } with hs₁
  have hsame : s₁.jobsReleasedRecently = s.jobsReleasedRecently ∧ s₁.queue = s.queue ∧ s₁.decision = s.decision ∧
      s₁.workload = s.workload ∧ s₁.simulationFinished = s.simulationFinished ∧ s₁.sleepingMachines = s.sleepingMachines ∧
      s₁.switching = s.switching ∧ s₁.machinesWhosePstateChangedRecently = s.machinesWhosePstateChangedRecently := by
    rw [hs₁]
    split <;> exact ⟨rfl, rfl, rfl, rfl, rfl, rfl, rfl, rfl⟩
  obtain ⟨hreleased, hqueue, hdecision, hworkload, hfinished, hsleeping, hswitching, hchanges⟩ := hsame
  have havailable : s₁.availableMachines.val =
      s.availableMachines.val + if s.jobsEndedRecently = [] then 0 else s.computingMachines.val := by
    rw [hs₁]
    split
    · rw [add_zero]
    · exact hback
  have hcomputing : s₁.computingMachines = if s.jobsEndedRecently = [] then s.computingMachines else ∅ := by
    rw [hs₁]
    split <;> rfl
  have hjob : s₁.jobBeingComputed = if s.jobsEndedRecently = [] then s.jobBeingComputed else "" := by
    rw [hs₁]
    split <;> rfl
  have hp₁ : s₁.Placed n := by
    have hon := congrFun hswitching true
    have hoff := congrFun hswitching false
    simp only [SleeperState.switching] at hon hoff
    unfold SleeperState.Placed at hp ⊢
    rw [← hp, havailable, hcomputing, hsleeping, hon, hoff]
    split
    · abel
    · rw [Finset.empty_val]
      abel
  set s₂ : SleeperState := s₁.jobsReleasedRecently.foldl (releaseJob o currentDate) s₁ with hs₂
  rw [foldl_releaseJob] at hs₂
  have hp₂ : s₂.Placed n := by
    rw [hs₂]
    exact hp₁
  have hswitching₂ : s₂.switching = s.switching := by
    rw [hs₂]
    exact hswitching
  have hchanges₂ : s₂.machinesWhosePstateChangedRecently = s.machinesWhosePstateChangedRecently := by
    rw [hs₂]
    exact hchanges
  obtain ⟨s₃, hrun, h⟩ := runFrom_changePstate hne hkeys (s := s₂) (by rwa [hswitching₂]) hp₂
  have hframe := h.frame
  refine ⟨{ s₃ with queue := s₃.queue.sortQueue o.order currentDate }, ?_, ?_⟩
  · simp only [prepare, finishJob_ok hended, ← hs₁]
    change (Execution.runFrom (changePstate o) s₂ s₂.machinesWhosePstateChangedRecently.entries >>= _) = _
    rw [hchanges₂, hrun]
    rfl
  · constructor
    · change s₃.availableMachines.val = _
      rw [h.available, hs₂]
      change s₁.availableMachines.val + _ = _
      rw [havailable]
      abel
    · change s₃.computingMachines = _
      rw [hframe, hs₂]
      exact hcomputing
    · change s₃.sleepingMachines.val = _
      rw [h.sleeping, hs₂]
      change s₁.sleepingMachines.val + _ = _
      rw [hsleeping]
    · intro on
      change (s₃.switching on).val + _ = _
      rw [h.switching, hswitching₂]
    · change s₃.jobBeingComputed = _
      rw [hframe, hs₂]
      exact hjob
    · refine (Queue.jobs_sortQueue s₃.queue o.order currentDate).trans ?_
      rw [hframe, hs₂]
      change (Queue.jobs (s₁.queue ++ _)).Perm _
      rw [hqueue, hreleased]
      simp [Queue.jobs, Function.comp_def]
    · change s₃.decision = _
      rw [hframe, hs₂]
      change s₁.decision ++ _ = _
      rw [hdecision, hreleased]
    · change s₃.workload = _
      rw [hframe, hs₂]
      exact hworkload
    · change s₃.simulationFinished = _
      rw [hframe, hs₂]
      exact hfinished

/-! ### What is decided -/

/-- The first job of the queue is executed on machines. -/
structure Executes (job : Job) (machines : IntervalSet) (s s' : SleeperState) : Prop where
  frame : s' = { s with
    availableMachines := s'.availableMachines
    computingMachines := machines
    jobBeingComputed := job.id
    queue := s'.queue
    decision := s.decision ++ [.executeJob job.id machines []] }
  idle : s.jobBeingComputed = ""
  card : machines.card = job.nbRequestedResources
  available : s'.availableMachines.val + machines.val = s.availableMachines.val
  queue : s.queue.jobs.Perm (job :: s'.queue.jobs)

/-- Machines are switched on that sleep, or switched off that are available. -/
structure Switches (o : SleeperOptions) (on : Bool) (machines : IntervalSet) (s s' : SleeperState) : Prop where
  frame : s' = { s with
    availableMachines := s'.availableMachines
    sleepingMachines := s'.sleepingMachines
    machinesBeingSwitchedOn := s'.machinesBeingSwitchedOn
    machinesBeingSwitchedOff := s'.machinesBeingSwitchedOff
    decision := s.decision ++ [o.switchOrder on machines] }
  nonempty : machines.Nonempty
  resting : ∀ on', (s'.resting on').val + (if on' = on then machines.val else 0) = (s.resting on').val
  switching : ∀ on', (s'.switching on').val = (s.switching on').val + if on' = on then machines.val else 0

/-- What is decided about the first job, and then about the machines. -/
structure Decided (o : SleeperOptions) (s s' : SleeperState) : Prop where
  steps : ∃ s₁, (s₁ = s ∨ ∃ job machines, Executes job machines s s₁) ∧
    (s' = s₁ ∨ ∃ machines, Switches o s₁.waits machines s₁ s')
  /-- No machine is left available, unless a job waits for machines. -/
  none_available : s.simulationFinished = false → s'.waits = false → s'.availableMachines = ∅
  /-- If a job waits for machines, some are being switched. -/
  some_switching : (∀ job ∈ s.queue.jobs, job.nbRequestedResources ≤ o.nbMachines) → s'.waits = true →
    ∃ on, (s'.switching on).Nonempty

theorem Executes.placed {job : Job} {machines : IntervalSet} (h : Executes job machines s s') (hnone : s.computingMachines = ∅)
    (hp : s.Placed n) : s'.Placed n := by
  unfold SleeperState.Placed at hp ⊢
  rw [← hp, ← h.available, hnone, h.frame]
  simp only [Finset.empty_val]
  abel

theorem Switches.placed {on : Bool} {machines : IntervalSet} (h : Switches o on machines s s') (hp : s.Placed n) : s'.Placed n := by
  have hcomputing : s'.computingMachines = s.computingMachines := by rw [h.frame]
  have hsleeping := h.resting true
  have havailable := h.resting false
  have hon := h.switching true
  have hoff := h.switching false
  simp only [SleeperState.resting, SleeperState.switching] at hsleeping havailable hon hoff
  unfold SleeperState.Placed at hp ⊢
  rw [← hp, ← hsleeping, ← havailable, hon, hoff, hcomputing]
  cases on
  · simp only [if_false, if_true, reduceCtorEq]
    abel
  · simp only [if_false, if_true, reduceCtorEq]
    abel

/-- Unused machines are put to sleep, if there are any. -/
theorem sleepUnused_cases (hp : s.Placed n) : (sleepUnused o s).availableMachines = ∅ ∧
    (sleepUnused o s = s ∨ Switches o false s.availableMachines s (sleepUnused o s)) := by
  unfold sleepUnused
  by_cases hcard : 0 < s.availableMachines.card
  · have hunion : (s.machinesBeingSwitchedOff ∪ s.availableMachines).val =
        s.machinesBeingSwitchedOff.val + s.availableMachines.val := by
      refine Finset.val_union_of_nodup (Multiset.nodup_iff_count_le_one.2 fun machine => ?_)
      have hone := count_le_one hp machine
      rw [Multiset.count_add]
      omega
    rw [if_pos hcard]
    refine ⟨rfl, .inr ⟨rfl, Finset.card_pos.1 hcard, fun on => ?_, fun on => ?_⟩⟩
    · cases on <;> simp [SleeperState.resting, setResourceState]
    · cases on
      · simpa [SleeperState.switching] using hunion
      · simp [SleeperState.switching, setResourceState]
  · rw [if_neg hcard]
    exact ⟨Finset.card_eq_zero.1 (by omega), .inl rfl⟩

/-- Machines are woken up for a job if there are not enough and some sleep. -/
theorem wakeUp_cases (hp : s.Placed n) {job : Job} (hfew : s.availableMachines.card < job.nbRequestedResources)
    (hnone : s.computingMachines = ∅) : (job.nbRequestedResources ≤ n → ∃ on, ((wakeUp o s job).switching on).Nonempty) ∧
    (wakeUp o s job = s ∨ ∃ machines, Switches o true machines s (wakeUp o s job)) := by
  have hsum : s.availableMachines.card + s.sleepingMachines.card + s.machinesBeingSwitchedOn.card +
      s.machinesBeingSwitchedOff.card = n := by
    have hcard := congrArg Multiset.card hp
    simp only [Multiset.card_add, hnone, Finset.empty_val, Multiset.card_zero, Finset.card_val, Finset.card_range] at hcard
    omega
  unfold wakeUp
  dsimp only
  split
  · rename_i hmore
    split
    · rename_i hsome
      set machines := s.sleepingMachines.leftmost
        (min s.sleepingMachines.card (job.nbRequestedResources - (s.availableMachines.card + s.machinesBeingSwitchedOn.card))) with hm
      have hsub : machines ⊆ s.sleepingMachines := Finset.leftmost_subset _ _
      have hcard := Finset.card_leftmost_of_le (min_le_left s.sleepingMachines.card
        (job.nbRequestedResources - (s.availableMachines.card + s.machinesBeingSwitchedOn.card)))
      rw [← hm] at hcard
      have hne : machines.Nonempty := Finset.card_pos.1 (by omega)
      have hunion : (s.machinesBeingSwitchedOn ∪ machines).val = s.machinesBeingSwitchedOn.val + machines.val := by
        refine Finset.val_union_of_nodup (Multiset.nodup_iff_count_le_one.2 fun machine => ?_)
        have hone := count_le_one hp machine
        have hle := Multiset.le_iff_count.1 (Finset.val_le_iff.2 hsub) machine
        rw [Multiset.count_add]
        omega
      refine ⟨fun _ => ⟨true, hne.mono Finset.subset_union_right⟩, .inr ⟨machines, rfl, hne, fun on => ?_, fun on => ?_⟩⟩
      · cases on
        · simp [SleeperState.resting, setResourceState]
        · simpa [SleeperState.resting] using Finset.val_sdiff_add_val hsub
      · cases on
        · simp [SleeperState.switching, setResourceState]
        · simpa [SleeperState.switching] using hunion
    · exact ⟨fun _ => ⟨false, Finset.card_pos.1 (by change 0 < s.machinesBeingSwitchedOff.card; omega)⟩, .inl rfl⟩
  · exact ⟨fun _ => ⟨true, Finset.card_pos.1 (by change 0 < s.machinesBeingSwitchedOn.card; omega)⟩, .inl rfl⟩

/-- A job that has enough machines is executed, and the others are put to sleep. -/
theorem executeFirst_ok {job : Job} (hmem : job ∈ s.queue.jobs) (hidle : s.jobBeingComputed = "") (hnone : s.computingMachines = ∅)
    (henough : job.nbRequestedResources ≤ s.availableMachines.card) :
    ∃ machines s₁, Executes job machines s s₁ ∧ executeFirst o s job = .ok (sleepUnused o s₁) := by
  obtain ⟨queue, hqueue⟩ := Queue.removeJob_of_mem hmem
  have hsame : ∀ s : SleeperState, (sleepUnused o s).queue = s.queue := by
    intro s
    unfold sleepUnused
    split <;> rfl
  refine ⟨s.availableMachines.leftmost job.nbRequestedResources, { s with
      decision := s.decision ++ [.executeJob job.id (s.availableMachines.leftmost job.nbRequestedResources) []]
      availableMachines := s.availableMachines \ s.availableMachines.leftmost job.nbRequestedResources
      computingMachines := s.availableMachines.leftmost job.nbRequestedResources
      jobBeingComputed := job.id
      queue := queue }, ⟨rfl, hidle, ?_, ?_, ?_⟩, ?_⟩
  · exact Finset.card_leftmost_of_le henough
  · exact Finset.val_sdiff_add_val (Finset.leftmost_subset _ _)
  · change s.queue.jobs.Perm (job :: Queue.jobs queue)
    rw [(Queue.jobs_removeJob hqueue).2]
    exact List.perm_cons_erase hmem
  · simp only [executeFirst, hsame, hqueue, hnone, Finset.empty_union]
    unfold sleepUnused
    split <;> rfl

/-- No assertion about the machines of the job being computed fails. -/
theorem decideFirst_ok (hp : s.Placed o.nbMachines) (hnone : s.jobBeingComputed = "" → s.computingMachines = ∅)
    (hnames : ∀ job ∈ s.queue.jobs, job.id ≠ "") : ∃ s', decideFirst o s = .ok s' ∧ Decided o s s' := by
  have hsleep : ∀ s₁ : SleeperState, s₁.Placed o.nbMachines → s₁.waits = false →
      (s = s₁ ∨ ∃ job machines, Executes job machines s s₁) → Decided o s (sleepUnused o s₁) := by
    intro s₁ hp₁ hwaits hfirst
    have hcases := sleepUnused_cases (o := o) hp₁
    have hkept : (sleepUnused o s₁).waits = false := by
      rcases hcases.2 with heq | h
      · rwa [heq]
      · rw [h.frame]
        exact hwaits
    refine ⟨⟨s₁, hfirst.imp_left Eq.symm, ?_⟩, fun _ _ => hcases.1, fun _ hbad => nomatch hkept.symm.trans hbad⟩
    rw [hwaits]
    exact hcases.2.imp_right fun h => ⟨_, h⟩
  unfold decideFirst
  cases hfirst : s.queue.firstJob? with
  | none =>
    have hempty : s.queue = [] := by
      cases hqueue : s.queue with
      | nil => rfl
      | cons sjob queue => simp [hqueue, Queue.firstJob?] at hfirst
    have hwaits : s.waits = false := by simp [SleeperState.waits, hempty]
    cases hfinished : s.simulationFinished with
    | false => exact ⟨_, rfl, hsleep s hp hwaits (.inl rfl)⟩
    | true =>
      exact ⟨s, rfl, ⟨s, .inl rfl, .inl rfl⟩, fun hbad => (nomatch hfinished.symm.trans hbad), fun _ hbad => nomatch hwaits.symm.trans hbad⟩
  | some job =>
    have hmem : job ∈ s.queue.jobs := by
      rw [Queue.firstJob?_eq_head?] at hfirst
      exact List.mem_of_head? hfirst
    dsimp only
    split
    · rename_i hidle
      have hempty := hnone hidle
      rw [if_neg (by simp [hempty])]
      split
      · rename_i henough
        obtain ⟨machines, s₁, hexecutes, hx⟩ := executeFirst_ok (o := o) hmem hidle hempty henough
        have hwaits : s₁.waits = false := by
          rw [hexecutes.frame]
          simp [SleeperState.waits, hnames job hmem]
        exact ⟨_, hx, hsleep s₁ (hexecutes.placed hempty hp) hwaits (.inr ⟨job, machines, hexecutes⟩)⟩
      · rename_i hfew
        have hwaits : s.waits = true := by
          have hqueue : s.queue ≠ [] := fun heq => by simp [heq, Queue.jobs] at hmem
          simp [SleeperState.waits, hidle, hqueue]
        have hcases := wakeUp_cases (o := o) hp (not_le.1 hfew) hempty
        have hkept : (wakeUp o s job).waits = true := by
          rcases hcases.2 with heq | ⟨machines, h⟩
          · rwa [heq]
          · rw [h.frame]
            exact hwaits
        refine ⟨_, rfl, ⟨s, .inl rfl, ?_⟩, fun _ hbad => (nomatch hkept.symm.trans hbad), fun hfits _ => hcases.1 (hfits job hmem)⟩
        rw [hwaits]
        exact hcases.2
    · rename_i hcomputed
      exact ⟨_, rfl, hsleep s hp (by simp [SleeperState.waits, hcomputed]) (.inl rfl)⟩

/-! ### A whole message -/

/-- Nothing of an earlier message is left. -/
structure Cleared (s : SleeperState) : Prop where
  released : s.jobsReleasedRecently = []
  ended : s.jobsEndedRecently = []
  changed : s.machinesWhosePstateChangedRecently = KeyedMap.empty

/-- What a message may tell: of new jobs, of the job being computed, and of machines that are being switched. -/
structure Acceptable (o : SleeperOptions) (s : SleeperState) (events : List SleeperEvent) : Prop where
  released : ((events.filterMap SleeperEvent.released?).map Job.id).Nodup
  fresh : ∀ job ∈ events.filterMap SleeperEvent.released?, s.workload job.id = none ∧ job.id ≠ ""
  ended : events.filterMap SleeperEvent.ended? = [] ∨ events.filterMap SleeperEvent.ended? = [s.jobBeingComputed] ∧
    ∃ job, s.workload s.jobBeingComputed = some job ∧ job.nbRequestedResources = s.computingMachines.card
  keys : ∀ change ∈ events.filterMap SleeperEvent.change?, ∃ on, change.1 = o.pstate on
  changed : ∀ on, changedTo (o.pstate on) (events.filterMap SleeperEvent.change?) ≤ (s.switching on).val

/-- The sleeper once it has been told of a message, and before it decides. -/
structure Told (o : SleeperOptions) (s : SleeperState) (events : List SleeperEvent) (s' : SleeperState) : Prop where
  available : s'.availableMachines.val = s.availableMachines.val +
    changedTo o.computePstate (events.filterMap SleeperEvent.change?) +
    if events.filterMap SleeperEvent.ended? = [] then 0 else s.computingMachines.val
  computing : s'.computingMachines = if events.filterMap SleeperEvent.ended? = [] then s.computingMachines else ∅
  sleeping : s'.sleepingMachines.val = s.sleepingMachines.val +
    changedTo o.sleepPstate (events.filterMap SleeperEvent.change?)
  switching : ∀ on, (s'.switching on).val + changedTo (o.pstate on) (events.filterMap SleeperEvent.change?) = (s.switching on).val
  job : s'.jobBeingComputed = if events.filterMap SleeperEvent.ended? = [] then s.jobBeingComputed else ""
  queue : s'.queue.jobs.Perm (s.queue.jobs ++ o.accepted (events.filterMap SleeperEvent.released?))
  decision : s'.decision = (o.refused (events.filterMap SleeperEvent.released?)).map fun job => .rejectJob job.id
  released : ∀ job ∈ events.filterMap SleeperEvent.released?, s'.workload job.id = some job
  known : ∀ id, id ∉ (events.filterMap SleeperEvent.released?).map Job.id → s'.workload id = s.workload id
  finished : s'.simulationFinished = (s.simulationFinished || events.any SleeperEvent.isEnd)
  placed : s'.Placed o.nbMachines

/-- The sleeper deals with a message of the simulator without aborting. -/
theorem onMessage_ok {events : List SleeperEvent} (hne : o.computePstate ≠ o.sleepPstate) (hp : s.Placed o.nbMachines)
    (hclear : Cleared s) (hnone : s.jobBeingComputed = "" → s.computingMachines = ∅) (hnames : ∀ job ∈ s.queue.jobs, job.id ≠ "")
    (h : Acceptable o s events) : ∃ told decided, Told o s events told ∧ Decided o told decided ∧
      onMessage o currentDate s events = .ok (clearRecentDataStructures decided) := by
  have hchanged : ∀ pstate, changedTo pstate s.machinesWhosePstateChangedRecently.entries = 0 := by
    intro pstate
    rw [hclear.changed]
    rfl
  have hnodup : ∀ pstate, (changedTo pstate s.machinesWhosePstateChangedRecently.entries +
      changedTo pstate (events.filterMap SleeperEvent.change?)).Nodup := by
    intro pstate
    rw [hchanged, zero_add]
    by_cases hkey : ∃ on, pstate = o.pstate on
    · obtain ⟨on, rfl⟩ := hkey
      exact Multiset.nodup_of_le (h.changed on) (s.switching on).nodup
    · rw [changedTo_eq_zero fun change hmem hbad => ?_]
      · exact Multiset.nodup_zero
      · obtain ⟨on, heq⟩ := h.keys change hmem
        exact hkey ⟨on, hbad.symm.trans heq⟩
  have hended : ∀ id ∈ events.filterMap SleeperEvent.ended?, (s.workload id).isSome := by
    intro id hid
    rcases h.ended with heq | ⟨heq, job, hjob, -⟩
    · simp [heq] at hid
    · obtain rfl : id = s.jobBeingComputed := by simpa [heq] using hid
      rw [hjob]
      rfl
  obtain ⟨received, hreceive, hr⟩ := runFrom_receive (s := { s with decision := [] }) h.released (fun job hjob => (h.fresh job hjob).1)
    hended hnodup
  have hframe := hr.frame
  have hrecent : received.jobsReleasedRecently = events.filterMap SleeperEvent.released? := by
    rw [hframe, hclear.released]
    rfl
  have hrecently : received.jobsEndedRecently = events.filterMap SleeperEvent.ended? := by
    rw [hframe, hclear.ended]
    rfl
  have hjob : received.jobBeingComputed = s.jobBeingComputed := by rw [hframe]
  have hcomputing : received.computingMachines = s.computingMachines := by rw [hframe]
  have hswitching : received.switching = s.switching := by
    rw [hframe]
    rfl
  have hnow : ∀ pstate, changedTo pstate received.machinesWhosePstateChangedRecently.entries =
      changedTo pstate (events.filterMap SleeperEvent.change?) := by
    intro pstate
    rw [hr.changed, hchanged, zero_add]
  have hown : EndsOwnJob received := by
    unfold EndsOwnJob
    rw [hrecently, hjob, hcomputing]
    refine h.ended.imp_right fun ⟨heq, job, hknown, hcard⟩ => ⟨heq, job, ?_, hcard⟩
    rw [hr.known _ fun hmem => ?_]
    · exact hknown
    · obtain ⟨job', hjob', hid⟩ := List.mem_map.1 hmem
      have hfresh := (h.fresh job' hjob').1
      rw [hid, hknown] at hfresh
      cases hfresh
  have hkeys : ∀ change ∈ received.machinesWhosePstateChangedRecently.entries, ∃ on, change.1 = o.pstate on := by
    intro change hmem
    have hkey := hr.keys change hmem
    rw [hclear.changed] at hkey
    obtain ⟨change', hmem', heq⟩ := List.mem_map.1 hkey
    rw [← heq]
    exact h.keys change' hmem'
  obtain ⟨told, hprepare, hpr⟩ : ∃ told, prepare o currentDate received = .ok told ∧ Prepared o received told := by
    refine prepare_ok hne hown hkeys (fun on => ?_) (n := o.nbMachines) ?_
    · rw [hnow, hswitching]
      exact h.changed on
    · rw [hframe]
      exact hp
  have hplaced : told.Placed o.nbMachines := hpr.placed (by rw [hframe]; exact hp)
  have hqueue : told.queue.jobs.Perm (s.queue.jobs ++ o.accepted (events.filterMap SleeperEvent.released?)) := by
    have hperm := hpr.queue
    rwa [hrecent, hframe] at hperm
  obtain ⟨decided, hdecide, hd⟩ := decideFirst_ok hplaced (o := o) (fun hidle => by
    rw [hpr.computing, hcomputing]
    split
    · rename_i hnot
      refine hnone ?_
      rw [hpr.job, if_pos hnot, hjob] at hidle
      exact hidle
    · rfl) fun job hmem => by
      rcases List.mem_append.1 (hqueue.mem_iff.1 hmem) with hmem | hmem
      · exact hnames job hmem
      · exact (h.fresh job (List.mem_filter.1 hmem).1).2
  refine ⟨told, decided, ⟨?_, ?_, ?_, ?_, ?_, hqueue, ?_, ?_, ?_, ?_, hplaced⟩, hd, ?_⟩
  · rw [hpr.available, hnow, hrecently, hcomputing, hframe]
  · rw [hpr.computing, hrecently, hcomputing]
  · rw [hpr.sleeping, hnow, hframe]
  · intro on
    rw [← hnow, hpr.switching, hswitching]
  · rw [hpr.job, hrecently, hjob]
  · rw [hpr.decision, hrecent, hframe]
    rfl
  · intro job hmem
    rw [hpr.workload, hr.released job hmem]
  · intro id hid
    rw [hpr.workload, hr.known id hid]
  · rw [hpr.finished, hframe]
  · simp only [onMessage, hreceive, hprepare, hdecide, bind, Except.bind]

end SleeperAux

end ScheduleTest
