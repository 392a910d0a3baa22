import Mathlib.Data.Finset.Basic
import ScheduleTest.FastScheduler
import ScheduleTest.Lib.Execution

/-!
# Who holds each machine

The abstract state of a fast scheduler's machines is one function: each machine is free, shared by one-resource jobs, or held by
one job. The sets, the counter and the table of the cores that the scheduler keeps represent such a function (`Represents`), and
each operation on them changes it on the machines it names: an executed job takes free machines, a finished job frees its own.
A machine may be under repair and held at the same time, as long as it is not also available.
-/

namespace ScheduleTest

/-- Who holds a machine. -/
inductive Holder where
  | free
  | shared
  | own (id : String)
  deriving DecidableEq

/-- How many jobs share a machine. -/
def sharers (c : FastConfig) (allocations : KeyedMap Job.id IntervalSet) (machine : ℕ) : ℕ :=
  allocations.entries.countP (fun entry => c.shares entry.1 ∧ machine ∈ entry.2)

/-- The fields that tell what the machines are used for say who holds each of them. -/
structure FastMachines.Represents (c : FastConfig) (s : FastMachines) (holder : ℕ → Holder) : Prop where
  /-- The available machines are the free ones that are not under repair. -/
  available : ∀ m, m ∈ s.availableMachines ↔ m < c.nbMachines ∧ holder m = .free ∧ m ∉ s.repairMachines
  count : s.nbAvailableMachines = s.availableMachines.card
  unavailable : s.unavailableMachines = s.repairMachines
  core : ∀ m, m ∈ s.availableCoreMachines ↔ holder m = .shared
  /-- A job that does not share holds its machines alone. -/
  own : ∀ e ∈ s.currentAllocations.entries, ¬ c.shares e.1 → ∀ m, m ∈ e.2 ↔ holder m = .own e.1.id
  owned : ∀ m id, holder m = .own id → ∃ e ∈ s.currentAllocations.entries, e.1.id = id ∧ ¬ c.shares e.1
  /-- A job that shares is on one shared machine. -/
  placed : ∀ e ∈ s.currentAllocations.entries, c.shares e.1 → ∃ m, e.2 = {m} ∧ holder m = .shared
  sized : ∀ e ∈ s.currentAllocations.entries, e.2.card = e.1.nbRequestedResources
  cores : ∀ m < c.nbMachines, s.coresAvailable m = c.coreLimit m - sharers c s.currentAllocations m
  /-- A shared machine is shared by at least one job and, past the first, by no more than its limit. -/
  sharers_pos : ∀ m, holder m = .shared → 0 < sharers c s.currentAllocations m
  sharers_le : ∀ m, holder m = .shared → (sharers c s.currentAllocations m : ℤ) ≤ max 1 (c.coreLimit m)
  inRange : ∀ m, holder m ≠ .free → m < c.nbMachines
  repair : ∀ m ∈ s.repairMachines, m < c.nbMachines


theorem firstMachine?_eq_some {machines : IntervalSet} {m : ℕ} (h : firstMachine? machines = some m) : m ∈ machines := by
  rw [firstMachine?] at h
  exact (Finset.mem_sort _).1 (List.mem_of_mem_head? h)

theorem firstMachine?_singleton (m : ℕ) : firstMachine? {m} = some m := by
  simp [firstMachine?]

/-- The leftmost machine of a set that has one. -/
theorem leftmost_one_of_first {machines : IntervalSet} {m : ℕ} (h : firstMachine? (machines.leftmost 1) = some m) :
    machines.leftmost 1 = {m} := by
  have hm := firstMachine?_eq_some h
  have hcard : (machines.leftmost 1).card ≤ 1 := by
    rw [Finset.card_leftmost]
    exact min_le_left _ _
  exact Finset.eq_singleton_iff_unique_mem.2 ⟨hm, fun x hx => Finset.card_le_one.1 hcard x hx m hm⟩

section

variable {c : FastConfig} {allocations : KeyedMap Job.id IntervalSet} {job : Job} {machines : IntervalSet}

/-- Executing a job adds it to the jobs that share its machines. -/
theorem sharers_insert (hnew : ∀ e ∈ allocations.entries, e.1.id ≠ job.id) (m : ℕ) :
    sharers c (allocations.insert job machines) m =
      sharers c allocations m + if c.shares job ∧ m ∈ machines then 1 else 0 := by
  rw [sharers, (KeyedMap.perm_insert_of_new hnew).countP_eq, List.countP_cons, sharers]
  simp

/-- Finishing a job takes it off the jobs that share its machines. -/
theorem sharers_erase (h : (job, machines) ∈ allocations.entries) (m : ℕ) :
    sharers c allocations m = sharers c (allocations.erase job) m + if c.shares job ∧ m ∈ machines then 1 else 0 := by
  rw [sharers, (KeyedMap.perm_erase h rfl).countP_eq, List.countP_cons, sharers]
  simp

end

namespace FastState

open FastMachines

variable {c : FastConfig} {s : FastState} {holder : ℕ → Holder} {job : Job}

/-- A job that is in no allocation. -/
def Fresh (s : FastState) (job : Job) : Prop := ∀ e ∈ s.currentAllocations.entries, e.1.id ≠ job.id

/-- The machine found for a job that shares is a shared one with a free core. -/
theorem freeCoreMachine?_eq_some {m : ℕ} (h : s.freeCoreMachine? = some m) :
    m ∈ s.availableCoreMachines ∧ 1 ≤ s.coresAvailable m := by
  rw [freeCoreMachine?] at h
  exact ⟨(Finset.mem_sort _).1 (List.mem_of_find?_eq_some h), by simpa using List.find?_some h⟩

/-- A job that does not share takes free machines. -/
theorem represents_executeOnMachines (h : Represents c s.toFastMachines holder) (hnew : s.Fresh job)
    (hshares : ¬ c.shares job) (hfit : (job.nbRequestedResources : ℤ) ≤ s.nbAvailableMachines) :
    Represents c (s.executeOnMachines job).toFastMachines
      (fun m => if m ∈ s.availableMachines.leftmost job.nbRequestedResources then .own job.id else holder m) := by
  set machines := s.availableMachines.leftmost job.nbRequestedResources with hmachines
  have hsub : machines ⊆ s.availableMachines := Finset.leftmost_subset _ _
  have hfree : ∀ m ∈ machines, holder m = .free := fun m hm => ((h.available m).1 (hsub hm)).2.1
  have hrange : ∀ m ∈ machines, m < c.nbMachines := fun m hm => ((h.available m).1 (hsub hm)).1
  have hcard : machines.card = job.nbRequestedResources := by
    refine Finset.card_leftmost_of_le ?_
    have := h.count
    omega
  have hmem : ∀ {e}, e ∈ (s.currentAllocations.insert job machines).entries ↔
      e = (job, machines) ∨ e ∈ s.currentAllocations.entries := fun {e} => KeyedMap.mem_insert_of_new hnew
  have hsharers : ∀ m, sharers c (s.currentAllocations.insert job machines) m = sharers c s.currentAllocations m := by
    intro m
    rw [sharers_insert hnew]
    simp [hshares]
  have hshared : ∀ m, (if m ∈ machines then Holder.own job.id else holder m) = .shared ↔ holder m = .shared := by
    intro m
    by_cases hm : m ∈ machines
    · simp [hm, hfree m hm]
    · simp [hm]
  constructor
  case available =>
    intro m
    change m ∈ s.availableMachines \ machines ↔ _
    rw [Finset.mem_sdiff, h.available]
    by_cases hm : m ∈ machines <;> simp [hm, executeOnMachines, execute]
  case count =>
    change s.nbAvailableMachines - job.nbRequestedResources = ((s.availableMachines \ machines).card : ℤ)
    have := Finset.card_sdiff_add_card_eq_card hsub
    have := h.count
    omega
  case unavailable => exact h.unavailable
  case core => exact fun m => (h.core m).trans (hshared m).symm
  case own =>
    intro e he hne m
    rcases hmem.1 he with rfl | he
    · by_cases hm : m ∈ machines
      · simp [hm]
      · simp only [hm, if_false, false_iff]
        intro hown
        obtain ⟨e, he, hid, _⟩ := h.owned m _ hown
        exact hnew e he hid
    · rw [h.own e he hne]
      by_cases hm : m ∈ machines
      · simp [hm, hfree m hm, Ne.symm (hnew e he)]
      · simp [hm]
  case owned =>
    intro m id hown
    by_cases hm : m ∈ machines
    · refine ⟨(job, machines), hmem.2 (.inl rfl), ?_, hshares⟩
      simpa [hm] using hown
    · obtain ⟨e, he, hid⟩ := h.owned m id (by simpa [hm] using hown)
      exact ⟨e, hmem.2 (.inr he), hid⟩
  case placed =>
    intro e he hsh
    rcases hmem.1 he with rfl | he
    · exact absurd hsh hshares
    · obtain ⟨m, hm, hh⟩ := h.placed e he hsh
      exact ⟨m, hm, (hshared m).2 hh⟩
  case sized =>
    intro e he
    rcases hmem.1 he with rfl | he
    · exact hcard
    · exact h.sized e he
  case cores =>
    intro m hm
    change s.coresAvailable m = c.coreLimit m - sharers c (s.currentAllocations.insert job machines) m
    rw [hsharers, h.cores m hm]
  case sharers_pos =>
    intro m hm
    exact (h.sharers_pos m ((hshared m).1 hm)).trans_eq (hsharers m).symm
  case sharers_le =>
    intro m hm
    exact (Int.ofNat_le.2 (hsharers m).le).trans (h.sharers_le m ((hshared m).1 hm))
  case inRange =>
    intro m hm
    by_cases hm' : m ∈ machines
    · exact hrange m hm'
    · exact h.inRange m (by simpa [hm'] using hm)
  case repair => exact h.repair

/-- A job that shares takes a free machine, or a free core of a shared one. -/
theorem represents_share {t : FastMachines} {m : ℕ} (h : Represents c t holder)
    (hnew : ∀ e ∈ t.currentAllocations.entries, e.1.id ≠ job.id) (hshares : c.shares job)
    (hm : m ∈ t.availableMachines ∨ m ∈ t.availableCoreMachines ∧ 1 ≤ t.coresAvailable m) :
    Represents c
      { t with
        availableMachines := t.availableMachines \ {m}
        nbAvailableMachines := if m ∈ t.availableMachines then t.nbAvailableMachines - 1 else t.nbAvailableMachines
        availableCoreMachines := t.availableCoreMachines ∪ {m}
        coresAvailable := Function.update t.coresAvailable m (t.coresAvailable m - 1)
        currentAllocations := t.currentAllocations.insert job {m} }
      (Function.update holder m .shared) := by
  have hnotOwn : ∀ id, holder m ≠ .own id := by
    intro id hid
    rcases hm with hm | hm
    · rw [h.available, hid] at hm
      exact nomatch hm.2.1
    · rw [h.core, hid] at hm
      exact nomatch hm.1
  have hrange : m < c.nbMachines := by
    rcases hm with hm | hm
    · exact ((h.available m).1 hm).1
    · exact h.inRange m (by rw [(h.core m).1 hm.1]; simp)
  have hown : ∀ x id, Function.update holder m .shared x = .own id ↔ holder x = .own id := by
    intro x id
    by_cases hx : x = m
    · subst hx
      simp [hnotOwn]
    · simp [hx]
  have hmem : ∀ {e}, e ∈ (t.currentAllocations.insert job {m}).entries ↔ e = (job, {m}) ∨ e ∈ t.currentAllocations.entries :=
    fun {e} => KeyedMap.mem_insert_of_new hnew
  have hsharers : ∀ x, sharers c (t.currentAllocations.insert job {m}) x =
      sharers c t.currentAllocations x + if x = m then 1 else 0 := by
    intro x
    rw [sharers_insert hnew]
    simp [hshares]
  constructor
  case available =>
    intro x
    dsimp only
    rw [Finset.mem_sdiff, Finset.mem_singleton, h.available]
    by_cases hx : x = m <;> simp [hx]
  case count =>
    have hcount := h.count
    dsimp only
    split
    · rename_i hav
      have := Finset.card_sdiff_add_card_eq_card (Finset.singleton_subset_iff.2 hav)
      rw [Finset.card_singleton] at this
      omega
    · rename_i hav
      rw [Finset.sdiff_singleton_eq_erase, Finset.erase_eq_of_notMem hav, hcount]
  case unavailable => exact h.unavailable
  case core =>
    intro x
    dsimp only
    rw [Finset.mem_union, Finset.mem_singleton, h.core]
    by_cases hx : x = m <;> simp [hx]
  case own =>
    intro e he hne x
    rw [hown]
    rcases hmem.1 he with rfl | he
    · exact absurd hshares hne
    · exact h.own e he hne x
  case owned =>
    intro x id hx
    obtain ⟨e, he, hid⟩ := h.owned x id ((hown x id).1 hx)
    exact ⟨e, hmem.2 (.inr he), hid⟩
  case placed =>
    intro e he hsh
    rcases hmem.1 he with rfl | he
    · exact ⟨m, rfl, by simp⟩
    · obtain ⟨x, hx, hh⟩ := h.placed e he hsh
      refine ⟨x, hx, ?_⟩
      by_cases hxm : x = m <;> simp [hxm, hh]
  case sized =>
    intro e he
    rcases hmem.1 he with rfl | he
    · have hone : job.nbRequestedResources = 1 := by
        simp only [FastConfig.shares, Bool.and_eq_true, beq_iff_eq] at hshares
        exact hshares.2
      exact (Finset.card_singleton m).trans hone.symm
    · exact h.sized e he
  case cores =>
    intro x hx
    dsimp only
    rw [hsharers]
    by_cases hxm : x = m
    · subst hxm
      have := h.cores x hx
      simp only [Function.update_self, if_true]
      push_cast
      omega
    · simpa [hxm] using h.cores x hx
  case sharers_pos =>
    intro x hx
    dsimp only
    rw [hsharers]
    by_cases hxm : x = m
    · simp [hxm]
    · exact Nat.lt_add_right _ (h.sharers_pos x (by simpa [hxm] using hx))
  case sharers_le =>
    intro x hx
    dsimp only
    rw [hsharers]
    by_cases hxm : x = m
    · subst hxm
      have hcores := h.cores x hrange
      rcases hm with hm | hm
      · -- a free machine is shared by none
        have hzero : sharers c t.currentAllocations x = 0 := by
          refine List.countP_eq_zero.2 fun e he hbad => ?_
          simp only [decide_eq_true_eq] at hbad
          obtain ⟨y, hy, hh⟩ := h.placed e he hbad.1
          rw [hy, Finset.mem_singleton] at hbad
          rw [h.available, hbad.2, hh] at hm
          exact nomatch hm.2.1
        simp [hzero]
      · simp only [if_true]
        push_cast
        omega
    · simpa [hxm] using h.sharers_le x (by simpa [hxm] using hx)
  case inRange =>
    intro x hx
    by_cases hxm : x = m
    · exact hxm ▸ hrange
    · exact h.inRange x (by simpa [hxm] using hx)
  case repair => exact h.repair

/-- The three ways in which a job is executed. -/
inductive Started (c : FastConfig) (s : FastState) (job : Job) : FastState → Prop where
  | onCore {m : ℕ} (hshares : c.shares job) (hm : m ∈ s.availableCoreMachines) (hcores : 1 ≤ s.coresAvailable m) :
      Started c s job (s.executeOnCore job m)
  | onNewCoreMachine {m : ℕ} (hshares : c.shares job) (hnone : s.freeCoreMachine? = none) (hpos : 0 < s.nbAvailableMachines)
      (hm : m ∈ s.availableMachines) :
      Started c s job { s.execute job {m} with
        coresAvailable := Function.update s.coresAvailable m (s.coresAvailable m - 1)
        availableCoreMachines := s.availableCoreMachines ∪ {m}
        availableMachines := s.availableMachines \ {m}
        nbAvailableMachines := s.nbAvailableMachines - 1
        runningJobs := insert job.id s.runningJobs }
  | onMachines (hshares : ¬ c.shares job) (hfit : (job.nbRequestedResources : ℤ) ≤ s.nbAvailableMachines) :
      Started c s job (s.executeOnMachines job)

/-- A job that is executed is executed in one of the three ways. -/
theorem started_of_tryExecute {s' : FastState} (hx : s.tryExecute c job = .ok (some s')) : Started c s job s' := by
  rw [tryExecute] at hx
  split at hx
  · rename_i hshares
    split at hx
    · rename_i m hm
      obtain ⟨hcore, hcores⟩ := freeCoreMachine?_eq_some hm
      cases hx
      exact .onCore hshares hcore hcores
    · rename_i hnone
      split at hx
      · rename_i hpos
        obtain ⟨t, ht, hsome⟩ := Execution.map_eq_ok.1 hx
        cases hsome
        rw [executeOnNewCoreMachine] at ht
        dsimp only at ht
        split at ht
        · rename_i m hm
          have hleft := leftmost_one_of_first hm
          have hav : m ∈ s.availableMachines := Finset.leftmost_subset _ 1 (hleft ▸ Finset.mem_singleton_self m)
          cases ht
          rw [hleft]
          exact .onNewCoreMachine hshares hnone hpos hav
        · cases ht
      · cases hx
  · rename_i hshares
    split at hx
    · rename_i hfit
      cases hx
      exact .onMachines hshares hfit
    · cases hx

/-- A job that is not executed does not fit: it requests more machines than are available, and a job that shares finds no free
core either. -/
theorem tryExecute_none (hx : s.tryExecute c job = .ok none) :
    s.nbAvailableMachines < job.nbRequestedResources ∧ (c.shares job → s.freeCoreMachine? = none) := by
  rw [tryExecute] at hx
  split at hx
  · rename_i hshares
    split at hx
    · cases hx
    · rename_i hnone
      split at hx
      · obtain ⟨t, -, hbad⟩ := Execution.map_eq_ok.1 hx
        cases hbad
      · rename_i hpos
        have hone : job.nbRequestedResources = 1 := by simpa [FastConfig.shares] using (Bool.and_eq_true_iff.1 hshares).2
        exact ⟨by omega, fun _ => hnone⟩
  · rename_i hshares
    split at hx
    · cases hx
    · rename_i hfit
      exact ⟨by omega, fun h => absurd h hshares⟩

/-- The machines of a job that has just been executed. -/
def allocated (s : FastState) (job : Job) : IntervalSet := (s.currentAllocations.find? job).getD ∅

/-- What executing a job leaves as it is and what it adds, whichever way it is done. -/
structure StartedFrame (s : FastState) (job : Job) (s' : FastState) : Prop where
  allocations : s'.currentAllocations = s.currentAllocations.insert job (s'.allocated job)
  decision : s'.decision = s.decision.add (.executeJob job.id (s'.allocated job))
  running : s'.runningJobs = insert job.id s.runningJobs
  available : s'.nbAvailableMachines ≤ s.nbAvailableMachines
  repair : s'.repairMachines = s.repairMachines
  pending : s'.pendingJobs = s.pendingJobs
  workload : s'.workload = s.workload
  released : s'.jobsReleasedRecently = s.jobsReleasedRecently
  ended : s'.jobsEndedRecently = s.jobsEndedRecently
  killed : s'.jobsKilledRecently = s.jobsKilledRecently
  kills : s'.myKillJobs = s.myKillJobs

theorem allocated_insert {t : FastState} {machines : IntervalSet}
    (h : t.currentAllocations = s.currentAllocations.insert job machines) : t.allocated job = machines := by
  simp [allocated, h, KeyedMap.find?_insert]

theorem Started.frame {s' : FastState} (h : Started c s job s') : StartedFrame s job s' := by
  cases h with
  | @onCore m hshares hm hcores =>
    have ha : (s.executeOnCore job m).allocated job = {m} := allocated_insert rfl
    exact ⟨by rw [ha]; rfl, by rw [ha]; rfl, rfl, le_rfl, rfl, rfl, rfl, rfl, rfl, rfl, rfl⟩
  | @onNewCoreMachine m hshares hnone hpos hm =>
    constructor
    case allocations => rw [allocated_insert rfl]; rfl
    case decision => rw [allocated_insert rfl]; rfl
    case available => simp
    all_goals rfl
  | onMachines hshares hfit =>
    constructor
    case allocations => rw [allocated_insert rfl]; rfl
    case decision => rw [allocated_insert rfl]; rfl
    case available => simp [executeOnMachines]
    all_goals rfl

/-- What executing a job changes, and where its machines come from. -/
structure Executed (c : FastConfig) (s : FastState) (job : Job) (machines : IntervalSet) (s' : FastState) : Prop where
  allocations : s'.currentAllocations = s.currentAllocations.insert job machines
  decision : s'.decision = s.decision.add (.executeJob job.id machines)
  repair : s'.repairMachines = s.repairMachines
  pending : s'.pendingJobs = s.pendingJobs
  workload : s'.workload = s.workload
  released : s'.jobsReleasedRecently = s.jobsReleasedRecently
  ended : s'.jobsEndedRecently = s.jobsEndedRecently
  source : machines ⊆ s.availableMachines ∨ ∃ m ∈ s.availableCoreMachines, machines = {m} ∧ 1 ≤ s.coresAvailable m

/-- A job that is executed takes machines that were available, or a core of a shared one, and each machine still has one holder. -/
theorem Started.represents {s' : FastState} (hs : Started c s job s') (h : Represents c s.toFastMachines holder)
    (hnew : s.Fresh job) :
    ∃ holder', Represents c s'.toFastMachines holder' ∧ ∀ m, holder' m = holder m ∨ m ∈ s.availableMachines := by
  cases hs with
  | @onCore m hshares hcore hcores =>
    have hav : m ∉ s.availableMachines := by
      rw [h.available, (h.core m).1 hcore]
      simp
    have hr := represents_share h hnew hshares (.inr ⟨hcore, hcores⟩)
    rw [Finset.sdiff_singleton_eq_erase, Finset.erase_eq_of_notMem hav, if_neg hav,
      Finset.union_eq_left.2 (Finset.singleton_subset_iff.2 hcore)] at hr
    refine ⟨_, hr, fun x => .inl ?_⟩
    by_cases hx : x = m <;> simp [hx, (h.core m).1 hcore]
  | @onNewCoreMachine m hshares hnone hpos hav =>
    have hr := represents_share h hnew hshares (.inl hav)
    rw [if_pos hav] at hr
    refine ⟨_, hr, fun x => ?_⟩
    by_cases hx : x = m
    · exact .inr (hx ▸ hav)
    · exact .inl (by simp [hx])
  | onMachines hshares hfit =>
    refine ⟨_, represents_executeOnMachines h hnew hshares hfit, fun x => ?_⟩
    by_cases hx : x ∈ s.availableMachines.leftmost job.nbRequestedResources
    · exact .inr (Finset.leftmost_subset _ _ hx)
    · exact .inl (by simp [hx])

/-- Where the machines of a job that is executed come from. -/
theorem Started.source {s' : FastState} (hs : Started c s job s') : s'.allocated job ⊆ s.availableMachines ∨
    ∃ m ∈ s.availableCoreMachines, s'.allocated job = {m} ∧ 1 ≤ s.coresAvailable m := by
  cases hs with
  | @onCore m hshares hcore hcores => exact .inr ⟨m, hcore, allocated_insert rfl, hcores⟩
  | @onNewCoreMachine m hshares hnone hpos hav =>
    refine .inl ?_
    rw [allocated_insert rfl]
    exact Finset.singleton_subset_iff.2 hav
  | onMachines hshares hfit =>
    refine .inl ?_
    rw [allocated_insert rfl]
    exact Finset.leftmost_subset _ _

/-- A job is executed where it fits, and then each machine still has one holder: those that change it were available. -/
theorem tryExecute_ok {s' : FastState} (h : Represents c s.toFastMachines holder) (hnew : s.Fresh job)
    (hx : s.tryExecute c job = .ok (some s')) :
    ∃ machines holder', Executed c s job machines s' ∧ Represents c s'.toFastMachines holder' ∧
      ∀ m, holder' m = holder m ∨ m ∈ s.availableMachines := by
  have hs := started_of_tryExecute hx
  have hframe := hs.frame
  obtain ⟨holder', hr, hholder⟩ := hs.represents h hnew
  exact ⟨_, holder', ⟨hframe.allocations, hframe.decision, hframe.repair, hframe.pending, hframe.workload, hframe.released,
    hframe.ended, hs.source⟩, hr, hholder⟩

/-- A job that shared a machine leaves it; with the last of them the machine is free. -/
theorem represents_unshare {t : FastMachines} {m : ℕ} (h : Represents c t holder)
    (hentry : (job, {m}) ∈ t.currentAllocations.entries) (hshares : c.shares job)
    (hrepair : t.coresAvailable m + 1 = c.coreLimit m → m ∉ t.repairMachines) :
    Represents c
      { t with
        coresAvailable := Function.update t.coresAvailable m (t.coresAvailable m + 1)
        availableCoreMachines := if t.coresAvailable m + 1 = c.coreLimit m then t.availableCoreMachines \ {m}
          else t.availableCoreMachines
        availableMachines := if t.coresAvailable m + 1 = c.coreLimit m then t.availableMachines ∪ {m}
          else t.availableMachines
        nbAvailableMachines := if t.coresAvailable m + 1 = c.coreLimit m then t.nbAvailableMachines + 1
          else t.nbAvailableMachines
        currentAllocations := t.currentAllocations.erase job }
      (if t.coresAvailable m + 1 = c.coreLimit m then Function.update holder m .free else holder) := by
  have hholder : holder m = .shared := by
    obtain ⟨x, hx, hh⟩ := h.placed _ hentry hshares
    exact (Finset.singleton_injective hx) ▸ hh
  have hrange : m < c.nbMachines := h.inRange m (by simp [hholder])
  have hnotAv : m ∉ t.availableMachines := by
    rw [h.available, hholder]
    simp
  have hsharers : ∀ x, sharers c t.currentAllocations x =
      sharers c (t.currentAllocations.erase job) x + if x = m then 1 else 0 := by
    intro x
    rw [sharers_erase hentry]
    simp [hshares]
  have hcores := h.cores m hrange
  have hlast : t.coresAvailable m + 1 = c.coreLimit m ↔ sharers c (t.currentAllocations.erase job) m = 0 := by
    have := hsharers m
    rw [if_pos rfl] at this
    omega
  have hown : ∀ x id, (if t.coresAvailable m + 1 = c.coreLimit m then Function.update holder m .free else holder) x = .own id ↔
      holder x = .own id := by
    intro x id
    by_cases hx : x = m
    · subst hx
      split <;> simp [hholder]
    · split <;> simp [hx]
  have hshared : ∀ x, (if t.coresAvailable m + 1 = c.coreLimit m then Function.update holder m .free else holder) x = .shared ↔
      holder x = .shared ∧ ¬ (x = m ∧ t.coresAvailable m + 1 = c.coreLimit m) := by
    intro x
    by_cases hx : x = m
    · subst hx
      split <;> simp_all
    · split <;> simp [hx]
  have hmem : ∀ {e}, e ∈ (t.currentAllocations.erase job).entries ↔ e ∈ t.currentAllocations.entries ∧ e.1.id ≠ job.id :=
    fun {e} => KeyedMap.mem_erase
  constructor
  case available =>
    intro x
    dsimp only
    by_cases hl : t.coresAvailable m + 1 = c.coreLimit m
    · rw [if_pos hl, if_pos hl, Finset.mem_union, Finset.mem_singleton, h.available]
      by_cases hx : x = m
      · simp [hx, hrange, hrepair hl]
      · simp [hx]
    · rw [if_neg hl, if_neg hl, h.available]
  case count =>
    have hcount := h.count
    dsimp only
    split
    · rw [Finset.union_comm, ← Finset.insert_eq, Finset.card_insert_of_notMem hnotAv]
      push_cast
      omega
    · exact hcount
  case unavailable => exact h.unavailable
  case core =>
    intro x
    dsimp only
    rw [hshared]
    split
    · rename_i hl
      rw [Finset.mem_sdiff, Finset.mem_singleton, h.core]
      simp [hl]
    · rename_i hl
      rw [h.core]
      simp [hl]
  case own =>
    intro e he hne x
    rw [hown]
    exact h.own e (hmem.1 he).1 hne x
  case owned =>
    intro x id hx
    obtain ⟨e, he, hid, hne⟩ := h.owned x id ((hown x id).1 hx)
    refine ⟨e, hmem.2 ⟨he, fun heq => hne ?_⟩, hid, hne⟩
    rw [KeyedMap.entry_unique he hentry heq]
    exact hshares
  case placed =>
    intro e he hsh
    obtain ⟨x, hx, hh⟩ := h.placed e (hmem.1 he).1 hsh
    refine ⟨x, hx, (hshared x).2 ⟨hh, fun hl => ?_⟩⟩
    -- the job left behind would share the machine
    refine List.countP_eq_zero.1 (hlast.1 hl.2) e he ?_
    simp [hsh, hx, hl.1]
  case sized => exact fun e he => h.sized e (hmem.1 he).1
  case cores =>
    intro x hx
    dsimp only
    have hsh := hsharers x
    by_cases hxm : x = m
    · subst hxm
      rw [Function.update_self]
      simp only [if_true] at hsh
      omega
    · rw [Function.update_of_ne hxm, h.cores x hx]
      simp only [hxm, if_false] at hsh
      omega
  case sharers_pos =>
    intro x hx
    obtain ⟨hh, hne⟩ := (hshared x).1 hx
    have hpos := h.sharers_pos x hh
    have hsh := hsharers x
    by_cases hxm : x = m
    · subst hxm
      have : ¬ sharers c (t.currentAllocations.erase job) x = 0 := fun hz => hne ⟨rfl, hlast.2 hz⟩
      exact Nat.pos_of_ne_zero this
    · simp only [hxm, if_false] at hsh
      exact hpos.trans_eq hsh
  case sharers_le =>
    intro x hx
    have hle := h.sharers_le x ((hshared x).1 hx).1
    have hsh := hsharers x
    dsimp only
    omega
  case inRange =>
    intro x hx
    by_cases hxm : x = m
    · exact hxm ▸ hrange
    · refine h.inRange x ?_
      split at hx
      · simpa [hxm] using hx
      · exact hx
  case repair => exact h.repair

/-- A job gives back the machines it held alone, to the available ones where they are not under repair. -/
theorem represents_giveBack {t : FastMachines} {machines : IntervalSet} (h : Represents c t holder)
    (hentry : (job, machines) ∈ t.currentAllocations.entries) (hshares : ¬ c.shares job) :
    Represents c
      { t with
        availableMachines := t.availableMachines ∪ (machines \ t.repairMachines)
        nbAvailableMachines := t.nbAvailableMachines + (machines \ t.repairMachines).card
        currentAllocations := t.currentAllocations.erase job }
      (fun m => if m ∈ machines then .free else holder m) := by
  have hholder : ∀ m ∈ machines, holder m = .own job.id := fun m hm => (h.own _ hentry hshares m).1 hm
  have hrange : ∀ m ∈ machines, m < c.nbMachines := fun m hm => h.inRange m (by simp [hholder m hm])
  have hmem : ∀ {e}, e ∈ (t.currentAllocations.erase job).entries ↔ e ∈ t.currentAllocations.entries ∧ e.1.id ≠ job.id :=
    fun {e} => KeyedMap.mem_erase
  have hsharers : ∀ x, sharers c (t.currentAllocations.erase job) x = sharers c t.currentAllocations x := by
    intro x
    rw [sharers_erase hentry]
    simp [hshares]
  have hshared : ∀ m, (if m ∈ machines then Holder.free else holder m) = .shared ↔ holder m = .shared := by
    intro m
    by_cases hm : m ∈ machines
    · simp [hm, hholder m hm]
    · simp [hm]
  constructor
  case available =>
    intro m
    dsimp only
    rw [Finset.mem_union, Finset.mem_sdiff, h.available]
    by_cases hm : m ∈ machines
    · simp [hm, hholder m hm, hrange m hm]
    · simp [hm]
  case count =>
    have hcount := h.count
    dsimp only
    rw [Finset.card_union_of_disjoint]
    · push_cast
      omega
    · refine Finset.disjoint_left.2 fun m hm hm' => ?_
      rw [h.available, hholder m (Finset.mem_sdiff.1 hm').1] at hm
      exact nomatch hm.2.1
  case unavailable => exact h.unavailable
  case core => exact fun m => (h.core m).trans (hshared m).symm
  case own =>
    intro e he hne m
    rw [h.own e (hmem.1 he).1 hne]
    by_cases hm : m ∈ machines
    · simp [hm, hholder m hm, (hmem.1 he).2.symm]
    · simp [hm]
  case owned =>
    intro m id hown
    by_cases hm : m ∈ machines
    · simp [hm] at hown
    · rw [if_neg hm] at hown
      obtain ⟨e, he, hid, hne⟩ := h.owned m id hown
      refine ⟨e, hmem.2 ⟨he, fun heq => hm ?_⟩, hid, hne⟩
      rw [KeyedMap.entry_unique he hentry heq] at hid
      exact (h.own _ hentry hshares m).2 (hown.trans (congrArg _ hid.symm))
  case placed =>
    intro e he hsh
    obtain ⟨m, hm, hh⟩ := h.placed e (hmem.1 he).1 hsh
    exact ⟨m, hm, (hshared m).2 hh⟩
  case sized => exact fun e he => h.sized e (hmem.1 he).1
  case cores =>
    intro m hm
    dsimp only
    rw [hsharers, h.cores m hm]
  case sharers_pos =>
    intro m hm
    exact (h.sharers_pos m ((hshared m).1 hm)).trans_eq (hsharers m).symm
  case sharers_le =>
    intro m hm
    exact (Int.ofNat_le.2 (hsharers m).le).trans (h.sharers_le m ((hshared m).1 hm))
  case inRange =>
    intro m hm
    by_cases hm' : m ∈ machines
    · exact hrange m hm'
    · exact h.inRange m (by simpa [hm'] using hm)
  case repair => exact h.repair

/-- The machines of a job in the table are those of its entry. -/
theorem find?_of_entry {allocations : KeyedMap Job.id IntervalSet} {machines : IntervalSet}
    (h : (job, machines) ∈ allocations.entries) : allocations.find? job = some machines :=
  KeyedMap.find?_eq_some.2 ⟨job, h, rfl⟩

/-- What is left when a job that shared a machine has ended. -/
theorem finishOnCore_ok {s' : FastState} (h : Represents c s.toFastMachines holder) {m : ℕ}
    (hentry : (job, {m}) ∈ s.currentAllocations.entries) (hshares : c.shares job)
    (hrepair : s.coresAvailable m + 1 = c.coreLimit m → m ∉ s.repairMachines) (hx : s.finishOnCore c job = .ok s') :
    ∃ holder', Represents c s'.toFastMachines holder' ∧ ∀ x, holder' x = holder x ∨ holder' x = .free := by
  rw [finishOnCore, find?_of_entry hentry] at hx
  simp only [Option.getD_some, firstMachine?_singleton] at hx
  cases hx
  refine ⟨_, represents_unshare h hentry hshares hrepair, fun x => ?_⟩
  split
  · by_cases hx : x = m <;> simp [hx]
  · exact .inl rfl

/-- A machine that is under repair or available, and that no job holds, is free. -/
theorem free_of_unheld {t : FastMachines} (hr : Represents c t holder) {m : ℕ}
    (h : m ∈ t.repairMachines ∨ m ∈ t.availableMachines) (hheld : ∀ e ∈ t.currentAllocations.entries, m ∉ e.2) :
    m < c.nbMachines ∧ holder m = .free := by
  refine ⟨h.elim (hr.repair m) (fun hm => ((hr.available m).1 hm).1), ?_⟩
  cases hh : holder m with
  | free => rfl
  | shared =>
    obtain ⟨e, he, hsh⟩ := List.countP_pos_iff.1 (hr.sharers_pos m hh)
    simp only [decide_eq_true_eq] at hsh
    exact absurd hsh.2 (hheld e he)
  | own id =>
    obtain ⟨e, he, rfl, hne⟩ := hr.owned m id hh
    exact absurd ((hr.own e he hne m).2 hh) (hheld e he)

/-- A machine that goes down is no longer available. -/
theorem represents_onMachineDownForRepair (h : Represents c s.toFastMachines holder) {number : ℕ}
    (hnumber : number < c.nbMachines) (date repair : ℚ) :
    Represents c (s.onMachineDownForRepair c date number repair).toFastMachines holder := by
  rw [onMachineDownForRepair]
  split
  · exact h
  · exact {
      h with
      available := by
        intro m
        simp only [Finset.mem_sdiff, Finset.mem_singleton, Finset.mem_union, h.available]
        tauto
      count := rfl
      unavailable := by
        simp only [h.unavailable]
      repair := by
        intro m hm
        rcases Finset.mem_union.1 hm with hm | hm
        · exact h.repair m hm
        · exact Finset.mem_singleton.1 hm ▸ hnumber }

/-- A machine whose repair is done is available again, if no job holds it. -/
theorem represents_onRepairDone (h : Represents c s.toFastMachines holder) {id : ℕ} (hrange : id < c.nbMachines)
    (hfree : holder id = .free) : Represents c (s.onRepairDone id).toFastMachines holder where
  __ := h
  available := by
    intro m
    simp only [onRepairDone, Finset.mem_union, Finset.mem_singleton, Finset.mem_sdiff, h.available]
    by_cases hm : m = id
    · simp [hm, hrange, hfree]
    · simp [hm]
  count := rfl
  unavailable := by
    simp only [onRepairDone, h.unavailable]
  repair := fun m hm => h.repair m (Finset.mem_sdiff.1 hm).1

/-- At the start every machine is free. -/
theorem represents_new (c : FastConfig) (date failure : ℚ) :
    Represents c (FastState.new c date failure).toFastMachines (fun _ => .free) where
  available := by simp [FastState.new]
  count := by simp [FastState.new]
  unavailable := rfl
  core := by simp [FastState.new]
  own := by simp [FastState.new]
  owned := by simp
  placed := by simp [FastState.new]
  sized := by simp [FastState.new]
  cores := by simp [FastState.new, sharers]
  sharers_pos := by simp
  sharers_le := by simp
  inRange := by simp
  repair := by simp [FastState.new]

end FastState

end ScheduleTest
