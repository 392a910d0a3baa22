import Mathlib
import ScheduleTest.EasyBfFast2Holdback
import ScheduleTest.Lemmas.FastJobs

/-!
# The machines that are held back and the others

Seen by the jobs that may not use them, the machines that are held back are machines out of service (`FastMachines.ordinary`). So
what is known of the machines of a scheduler that holds none back (`Represents`) is known of the others here, and what is left to
say is that a machine that is held back only ever has jobs that share it (`Regimes`).
-/

namespace ScheduleTest

/-- The machines that are not held back: those that are count as under repair, with all their cores free, and the jobs on them are
left out of the allocations. -/
def FastMachines.ordinary (c : FastConfig) (held : IntervalSet) (t : FastMachines) : FastMachines :=
  { t with
    repairMachines := t.repairMachines ∪ held
    coresAvailable := fun m => if m ∈ held then c.coreLimit m else t.coresAvailable m
    currentAllocations := t.currentAllocations.filter (fun e => Disjoint e.2 held) }

/-- Every machine keeps to its regime: those that are not held back have one holder each, and those that are have jobs that share
them, as many as their cores allow. -/
structure FastMachines.Regimes (c : FastConfig) (held : IntervalSet) (t : FastMachines) : Prop where
  ordinary : ∃ holder, FastMachines.Represents c (t.ordinary c held) holder
  placed : ∀ e ∈ t.currentAllocations.entries, ¬ Disjoint e.2 held → c.shares e.1 ∧ ∃ m ∈ held, e.2 = {m}
  cores : ∀ m ∈ held, t.coresAvailable m = c.coreLimit m - sharers c t.currentAllocations m ∧ 0 ≤ t.coresAvailable m
  inRange : ∀ m ∈ held, m < c.nbMachines

namespace FastMachines

open FastState

variable {c : FastConfig} {held machines : IntervalSet} {s t : FastMachines} {f f' : FastState} {job : Job} {m : ℕ}

theorem cores_update (hm : m ∉ held) (limit cores : ℕ → ℤ) (v : ℤ) :
    (fun x => if x ∈ held then limit x else Function.update cores m v x) =
      Function.update (fun x => if x ∈ held then limit x else cores x) m v := by
  funext x
  by_cases hx : x = m
  · subst hx
    simp [hm]
  · simp [hx]

theorem cores_update_held (hm : m ∈ held) (limit cores : ℕ → ℤ) (v : ℤ) :
    (fun x => if x ∈ held then limit x else Function.update cores m v x) = fun x => if x ∈ held then limit x else cores x := by
  funext x
  by_cases hx : x = m
  · subst hx
    simp [hm]
  · simp [hx]

/-- The jobs on machines that are not held back are those of the ordinary machines. -/
theorem filter_insert_disjoint (hnew : ∀ e ∈ t.currentAllocations.entries, e.1.id ≠ job.id) (hd : Disjoint machines held) :
    (t.currentAllocations.insert job machines).filter (fun e => Disjoint e.2 held) =
      (t.currentAllocations.filter (fun e => Disjoint e.2 held)).insert job machines := by
  rw [KeyedMap.filter_insert_of_new hnew, if_pos (by simpa using hd)]

/-- A job on a machine that is held back is none of the ordinary machines' jobs. -/
theorem filter_insert_held (hnew : ∀ e ∈ t.currentAllocations.entries, e.1.id ≠ job.id) (hm : m ∈ held) :
    (t.currentAllocations.insert job {m}).filter (fun e => Disjoint e.2 held) =
      t.currentAllocations.filter (fun e => Disjoint e.2 held) := by
  rw [KeyedMap.filter_insert_of_new hnew, if_neg (by simpa using hm)]

/-- A machine that is not held back is shared by the jobs that the ordinary machines say. -/
theorem sharers_ordinary (h : Regimes c held t) (hm : m ∉ held) :
    sharers c (t.ordinary c held).currentAllocations m = sharers c t.currentAllocations m := by
  unfold sharers ordinary KeyedMap.filter
  rw [List.countP_filter]
  refine List.countP_congr fun e he => ?_
  by_cases hd : Disjoint e.2 held
  · simp [hd]
  · obtain ⟨-, x, hx, hxe⟩ := h.placed e he hd
    have hne : m ≠ x := fun heq => hm (heq ▸ hx)
    simp [hxe, hne, hx]

/-- A shared machine is not held back. -/
theorem notMem_held_of_core {holder : ℕ → Holder} (h : Represents c (t.ordinary c held) holder)
    (hm : m ∈ t.availableCoreMachines) : m ∉ held := by
  obtain ⟨e, he, hsh⟩ := List.countP_pos_iff.1 (h.sharers_pos m ((h.core m).1 hm))
  have hd : Disjoint e.2 held := by simpa using (KeyedMap.mem_filter.1 he).2
  simp only [decide_eq_true_eq] at hsh
  exact Finset.disjoint_left.1 hd hsh.2

/-- An available machine is not held back. -/
theorem notMem_held_of_available {holder : ℕ → Holder} (h : Represents c (t.ordinary c held) holder)
    (hm : m ∈ t.availableMachines) : m ∉ held :=
  fun hheld => ((h.available m).1 hm).2.2 (Finset.mem_union_right _ hheld)

/-- The machines of an ordinary job are changed and those that are held back are not. -/
theorem Regimes.ordinary_changes (h : Regimes c held t) (hord : ∃ holder, Represents c (s.ordinary c held) holder)
    (hcores : ∀ m ∈ held, s.coresAvailable m = t.coresAvailable m)
    (hmem : ∀ e, ¬ Disjoint e.2 held → (e ∈ s.currentAllocations.entries ↔ e ∈ t.currentAllocations.entries)) :
    Regimes c held s := by
  have hsharers : ∀ m ∈ held, sharers c s.currentAllocations m = sharers c t.currentAllocations m := by
    intro m hm
    unfold sharers
    rw [List.countP_eq_length_filter, List.countP_eq_length_filter]
    refine List.Perm.length_eq ((List.perm_ext_iff_of_nodup (s.currentAllocations.nodup_entries.filter _)
      (t.currentAllocations.nodup_entries.filter _)).2 fun e => ?_)
    simp only [List.mem_filter, decide_eq_true_eq]
    refine and_congr_left fun hsh => hmem e ?_
    exact Finset.not_disjoint_iff.2 ⟨m, hsh.2, hm⟩
  constructor
  case ordinary => exact hord
  case placed => exact fun e he hd => h.placed e ((hmem e hd).1 he) hd
  case cores =>
    intro m hm
    rw [hcores m hm, hsharers m hm]
    exact h.cores m hm
  case inRange => exact h.inRange

/-- A job is executed on machines that are not held back. -/
theorem Regimes.started (h : Regimes c held f.toFastMachines) (hnew : f.Fresh job) (hs : Started c f job f') :
    Regimes c held f'.toFastMachines := by
  obtain ⟨holder, hr⟩ := h.ordinary
  have hnew' : ∀ e ∈ (f.toFastMachines.ordinary c held).currentAllocations.entries, e.1.id ≠ job.id :=
    fun e he => hnew e (KeyedMap.mem_filter.1 he).1
  have hmem : ∀ {machines : IntervalSet}, Disjoint machines held → ∀ e : Job × IntervalSet, ¬ Disjoint e.2 held →
      (e ∈ (f.currentAllocations.insert job machines).entries ↔ e ∈ f.currentAllocations.entries) := by
    intro machines hd e he
    rw [KeyedMap.mem_insert_of_new hnew]
    exact ⟨fun h => h.resolve_left fun heq => he (heq ▸ hd), .inr⟩
  cases hs with
  | @onCore m hshares hcore hcores =>
    have hm : m ∉ held := notMem_held_of_core hr hcore
    have hav : m ∉ f.availableMachines := by
      intro hav
      have := ((hr.available m).1 hav).2.1
      rw [(hr.core m).1 hcore] at this
      cases this
    refine h.ordinary_changes ⟨Function.update holder m .shared, ?_⟩ (fun x hx => ?_)
      (hmem (Finset.disjoint_singleton_left.2 hm))
    · have hr' := represents_share (m := m) hr hnew' hshares (.inr ⟨hcore, by simpa [FastMachines.ordinary, hm] using hcores⟩)
      rw [if_neg (show m ∉ (f.toFastMachines.ordinary c held).availableMachines from hav)] at hr'
      convert hr' using 1
      have hav' : f.availableMachines \ {m} = f.availableMachines := by
        rw [Finset.sdiff_singleton_eq_erase, Finset.erase_eq_of_notMem hav]
      have hcore' : f.availableCoreMachines ∪ {m} = f.availableCoreMachines :=
        Finset.union_eq_left.2 (Finset.singleton_subset_iff.2 hcore)
      simp only [FastMachines.ordinary, executeOnCore, execute, filter_insert_disjoint hnew (Finset.disjoint_singleton_left.2 hm),
        cores_update hm, hav', hcore', if_neg hm]
    · have hne : x ≠ m := fun heq => hm (heq ▸ hx)
      simp [executeOnCore, execute, hne]
  | @onNewCoreMachine m hshares hnone hpos hav =>
    have hm : m ∉ held := notMem_held_of_available hr hav
    refine h.ordinary_changes ⟨Function.update holder m .shared, ?_⟩ (fun x hx => ?_)
      (hmem (Finset.disjoint_singleton_left.2 hm))
    · have hr' := represents_share (m := m) hr hnew' hshares (.inl hav)
      rw [if_pos (show m ∈ (f.toFastMachines.ordinary c held).availableMachines from hav)] at hr'
      convert hr' using 1
      simp only [FastMachines.ordinary, execute, filter_insert_disjoint hnew (Finset.disjoint_singleton_left.2 hm), cores_update hm,
        if_neg hm]
    · have hne : x ≠ m := fun heq => hm (heq ▸ hx)
      simp [hne]
  | onMachines hshares hfit =>
    have hd : Disjoint (f.availableMachines.leftmost job.nbRequestedResources) held :=
      Finset.disjoint_left.2 fun m hm => notMem_held_of_available hr (Finset.leftmost_subset _ _ hm)
    refine h.ordinary_changes
      ⟨fun m => if m ∈ f.availableMachines.leftmost job.nbRequestedResources then .own job.id else holder m, ?_⟩
      (fun _ _ => rfl) (hmem hd)
    have hr' := represents_executeOnMachines (s := { f with toFastMachines := f.toFastMachines.ordinary c held }) hr hnew'
      hshares hfit
    change Represents c (FastMachines.ordinary c held _) _
    unfold FastMachines.ordinary at hr' ⊢
    simp only [executeOnMachines, execute, filter_insert_disjoint hnew hd] at hr' ⊢
    exact hr'

/-- A job is executed on a core of a machine that is held back. -/
theorem Regimes.started_held (h : Regimes c held f.toFastMachines) (hnew : f.Fresh job) (hshares : c.shares job) (hm : m ∈ held)
    (hcores : 1 ≤ f.coresAvailable m) : Regimes c held (f.executeOnCore job m).toFastMachines := by
  have hmem : ∀ {e}, e ∈ (f.currentAllocations.insert job {m}).entries ↔ e = (job, {m}) ∨ e ∈ f.currentAllocations.entries :=
    fun {e} => KeyedMap.mem_insert_of_new hnew
  have hord : (f.executeOnCore job m).toFastMachines.ordinary c held = f.toFastMachines.ordinary c held := by
    simp only [FastMachines.ordinary, executeOnCore, execute, filter_insert_held hnew hm, cores_update_held hm]
  constructor
  case ordinary =>
    rw [hord]
    exact h.ordinary
  case placed =>
    intro e he hd
    rcases hmem.1 he with rfl | he
    · exact ⟨hshares, m, hm, rfl⟩
    · exact h.placed e he hd
  case cores =>
    intro x hx
    change Function.update f.coresAvailable m (f.coresAvailable m - 1) x =
      c.coreLimit x - sharers c (f.currentAllocations.insert job {m}) x ∧
        0 ≤ Function.update f.coresAvailable m (f.coresAvailable m - 1) x
    rw [sharers_insert hnew]
    have hold := h.cores x hx
    by_cases hxm : x = m
    · subst hxm
      simp only [Function.update_self, hshares, Finset.mem_singleton, and_self, if_true]
      push_cast
      omega
    · simpa [hxm] using hold
  case inRange => exact h.inRange

/-- A job on a machine that is held back ends. -/
theorem Regimes.finished_held (h : Regimes c held t) (hentry : (job, {m}) ∈ t.currentAllocations.entries)
    (hshares : c.shares job) (hm : m ∈ held) :
    Regimes c held { t with
      coresAvailable := Function.update t.coresAvailable m (t.coresAvailable m + 1)
      currentAllocations := t.currentAllocations.erase job } := by
  have hord : FastMachines.ordinary c held { t with
      coresAvailable := Function.update t.coresAvailable m (t.coresAvailable m + 1)
      currentAllocations := t.currentAllocations.erase job } = t.ordinary c held := by
    have hnone : ∀ e ∈ (t.currentAllocations.filter (fun e => Disjoint e.2 held)).entries, e.1.id ≠ job.id := by
      intro e he hid
      obtain ⟨hmem, hd⟩ := KeyedMap.mem_filter.1 he
      rw [KeyedMap.entry_unique hmem hentry hid] at hd
      simp [hm] at hd
    simp only [FastMachines.ordinary, KeyedMap.filter_erase, KeyedMap.erase_of_new hnone, cores_update_held hm]
  constructor
  case ordinary =>
    rw [hord]
    exact h.ordinary
  case placed => exact fun e he hd => h.placed e (KeyedMap.mem_erase.1 he).1 hd
  case cores =>
    intro x hx
    have hold := h.cores x hx
    have hsh := sharers_erase (c := c) hentry x
    dsimp only
    by_cases hxm : x = m
    · subst hxm
      simp only [hshares, Finset.mem_singleton, and_self, if_true] at hsh
      rw [Function.update_self]
      omega
    · simp only [Finset.mem_singleton, hxm, and_false, if_false] at hsh
      rw [Function.update_of_ne hxm]
      omega
  case inRange => exact h.inRange

/-- The entry of a job that is on no machine held back is one of the ordinary machines. -/
theorem entry_ordinary (hentry : (job, machines) ∈ t.currentAllocations.entries) (hd : Disjoint machines held) :
    (job, machines) ∈ (t.ordinary c held).currentAllocations.entries :=
  KeyedMap.mem_filter.2 ⟨hentry, by simpa using hd⟩

/-- Removing a job that is on no machine held back leaves those that are. -/
theorem mem_erase_held (hentry : (job, machines) ∈ t.currentAllocations.entries) (hd : Disjoint machines held)
    (e : Job × IntervalSet) (he : ¬ Disjoint e.2 held) :
    e ∈ (t.currentAllocations.erase job).entries ↔ e ∈ t.currentAllocations.entries := by
  rw [KeyedMap.mem_erase, and_iff_left_iff_imp]
  intro hmem hid
  rw [KeyedMap.entry_unique hmem hentry hid] at he
  exact he hd

/-- A job that shared a machine that is not held back ends. Unless the machine works, another job still shares it. -/
theorem Regimes.finishedOnCore (h : Regimes c held f.toFastMachines) (hentry : (job, {m}) ∈ f.currentAllocations.entries)
    (hshares : c.shares job) (hm : m ∉ held)
    (hrepair : m ∈ f.repairMachines → ∃ e ∈ f.currentAllocations.entries, c.shares e.1 ∧ m ∈ e.2 ∧ e.1.id ≠ job.id)
    (hx : f.finishOnCore c job = .ok f') : Regimes c held f'.toFastMachines := by
  obtain ⟨holder, hr⟩ := h.ordinary
  have hd : Disjoint ({m} : IntervalSet) held := Finset.disjoint_singleton_left.2 hm
  have hentry' := entry_ordinary (c := c) hentry hd
  have hcores : (f.toFastMachines.ordinary c held).coresAvailable m = f.coresAvailable m := by
    simp [FastMachines.ordinary, hm]
  have hlast : (f.toFastMachines.ordinary c held).coresAvailable m + 1 = c.coreLimit m →
      m ∉ (f.toFastMachines.ordinary c held).repairMachines := by
    intro hlimit hbroken
    obtain ⟨e, he, hsh, hme, hid⟩ := hrepair ((Finset.mem_union.1 hbroken).resolve_right hm)
    obtain ⟨x, _, hholder⟩ := hr.placed _ hentry' hshares
    have hrange : m < c.nbMachines := by
      rename_i hxm
      exact hr.inRange m (by simp [Finset.singleton_injective hxm, hholder])
    have hpos : 0 < sharers c (f.currentAllocations.erase job) m :=
      List.countP_pos_iff.2 ⟨e, KeyedMap.mem_erase.2 ⟨he, hid⟩, by simp [hsh, hme]⟩
    have hcount := hr.cores m hrange
    rw [sharers_ordinary h hm, sharers_erase (c := c) hentry m] at hcount
    simp only [hshares, Finset.mem_singleton, and_self, if_true] at hcount
    push_cast at hcount
    omega
  have hr' := represents_unshare hr hentry' hshares hlast
  rw [FastState.finishOnCore, find?_of_entry hentry] at hx
  simp only [Option.getD_some, firstMachine?_singleton] at hx
  cases hx
  refine h.ordinary_changes ⟨if f.coresAvailable m + 1 = c.coreLimit m then Function.update holder m .free else holder, ?_⟩
    (fun x hx => ?_) (mem_erase_held hentry hd)
  rotate_left
  · have hne : x ≠ m := fun heq => hm (heq ▸ hx)
    simp [hne]
  rw [hcores] at hr'
  simp only [FastMachines.ordinary, KeyedMap.filter_erase, cores_update hm] at hr' ⊢
  exact hr'

/-- A job gives back working machines of its own. -/
theorem Regimes.givenBack (h : Regimes c held t) (hentry : (job, machines) ∈ t.currentAllocations.entries)
    (hshares : ¬ c.shares job) (hrepair : Disjoint machines t.repairMachines) :
    Regimes c held { t with
      availableMachines := t.availableMachines ∪ machines
      nbAvailableMachines := t.nbAvailableMachines + job.nbRequestedResources
      currentAllocations := t.currentAllocations.erase job } := by
  obtain ⟨holder, hr⟩ := h.ordinary
  have hd : Disjoint machines held := by
    by_contra hd
    exact hshares (h.placed _ hentry hd).1
  have hentry' := entry_ordinary (c := c) hentry hd
  have hr' := represents_giveBack hr hentry' hshares
  have hworking : machines \ (t.repairMachines ∪ held) = machines :=
    Finset.sdiff_eq_self_of_disjoint (Finset.disjoint_union_right.2 ⟨hrepair, hd⟩)
  have hcard : machines.card = job.nbRequestedResources := hr.sized _ hentry'
  refine h.ordinary_changes ⟨fun m => if m ∈ machines then .free else holder m, ?_⟩ (fun _ _ => rfl) (mem_erase_held hentry hd)
  simp only [FastMachines.ordinary, KeyedMap.filter_erase, hworking, hcard] at hr' ⊢
  exact hr'

/-- A machine goes down. One that is held back was out of service for the others already. -/
theorem Regimes.down (h : Regimes c held f.toFastMachines) {number : ℕ} (hnumber : number < c.nbMachines) (date repair : ℚ) :
    Regimes c held (f.onMachineDownForRepair c date number repair).toFastMachines := by
  obtain ⟨holder, hr⟩ := h.ordinary
  by_cases hbroken : number ∈ f.repairMachines
  · rw [onMachineDownForRepair, if_pos hbroken]
    exact h
  · by_cases hheld : number ∈ held
    · refine h.ordinary_changes ⟨holder, ?_⟩ (fun x _ => ?_) (fun e _ => ?_)
      · have hav : f.availableMachines \ {number} = f.availableMachines := by
          rw [Finset.sdiff_singleton_eq_erase, Finset.erase_eq_of_notMem fun hav => notMem_held_of_available hr hav hheld]
        have hunavailable : f.unavailableMachines = f.repairMachines ∪ held := hr.unavailable
        have hcount : f.nbAvailableMachines = f.availableMachines.card := hr.count
        have hout : f.repairMachines ∪ held ∪ {number} = f.repairMachines ∪ held :=
          Finset.union_eq_left.2 (Finset.singleton_subset_iff.2 (Finset.mem_union_right _ hheld))
        have hout' : f.repairMachines ∪ {number} ∪ held = f.repairMachines ∪ held := by
          rw [Finset.union_right_comm, hout]
        rw [onMachineDownForRepair, if_neg hbroken]
        simp only [FastMachines.ordinary, hav, hout', hunavailable, hout, ← hcount]
        simpa only [FastMachines.ordinary, hunavailable] using hr
      · rw [onMachineDownForRepair, if_neg hbroken]
      · rw [onMachineDownForRepair, if_neg hbroken]
    · have hnot : number ∉ (f.toFastMachines.ordinary c held).repairMachines := by
        simp [FastMachines.ordinary, hbroken, hheld]
      have hr' := represents_onMachineDownForRepair (s := { f with toFastMachines := f.toFastMachines.ordinary c held }) hr hnumber
        date repair
      rw [onMachineDownForRepair, if_neg hnot] at hr'
      rw [onMachineDownForRepair, if_neg hbroken]
      refine h.ordinary_changes ⟨holder, ?_⟩ (fun _ _ => rfl) (fun _ _ => Iff.rfl)
      simp only [FastMachines.ordinary] at hr' ⊢
      rw [Finset.union_right_comm]
      exact hr'

/-- The repair of a machine that is not held back and that no job holds is done. -/
theorem Regimes.repaired (h : Regimes c held f.toFastMachines) {id : ℕ} (hbroken : id ∈ f.repairMachines) (hheld : id ∉ held)
    (hnone : ∀ e ∈ f.currentAllocations.entries, id ∉ e.2) : Regimes c held (f.onRepairDone id).toFastMachines := by
  obtain ⟨holder, hr⟩ := h.ordinary
  obtain ⟨hrange, hfree⟩ := free_of_unheld hr (.inl (Finset.mem_union_left _ hbroken))
    (fun e he => hnone e (KeyedMap.mem_filter.1 he).1)
  have hr' := represents_onRepairDone (s := { f with toFastMachines := f.toFastMachines.ordinary c held }) hr hrange hfree
  refine h.ordinary_changes ⟨holder, ?_⟩ (fun _ _ => rfl) (fun _ _ => Iff.rfl)
  have hout : (f.repairMachines ∪ held) \ {id} = f.repairMachines \ {id} ∪ held := by
    rw [Finset.union_sdiff_distrib, Finset.sdiff_singleton_eq_erase id held, Finset.erase_eq_of_notMem hheld]
  simp only [FastMachines.ordinary, onRepairDone, hout] at hr' ⊢
  exact hr'

end FastMachines

open FastMachines in
/-- At the start the machines that are held back have no jobs and the others are available. -/
theorem EasyBFFast2Holdback.regimes_new (c : HoldbackConfig) (hheld : c.sharePackingHoldback ≤ c.nbMachines)
    (hlimit : ∀ m < c.nbMachines, 0 ≤ c.coreLimit m) (date failure : ℚ) :
    Regimes c.toFastConfig (new c date failure).heldbackMachines (new c date failure).toFastMachines := by
  unfold new
  split
  · rename_i hpos
    set held := (Finset.range c.nbMachines).leftmost c.sharePackingHoldback.toNat with hdef
    have hsub : held ⊆ Finset.range c.nbMachines := Finset.leftmost_subset _ _
    have hcard : held.card = c.sharePackingHoldback.toNat := by
      refine Finset.card_leftmost_of_le ?_
      rw [Finset.card_range]
      omega
    have hrange : ∀ m ∈ held, m < c.nbMachines := fun m hm => Finset.mem_range.1 (hsub hm)
    constructor
    case ordinary =>
      refine ⟨fun _ => .free, ?_⟩
      have hr := FastState.represents_new c.toFastConfig date failure
      constructor
      case available =>
        intro m
        simp [EasyBFFast2.new, FastState.new, FastMachines.ordinary]
      case count =>
        have := Finset.card_sdiff_add_card_eq_card hsub
        simp only [EasyBFFast2.new, FastState.new, FastMachines.ordinary]
        rw [← hdef]
        rw [Finset.card_range] at this
        omega
      case unavailable => rfl
      case cores =>
        intro m hm
        simp [EasyBFFast2.new, FastState.new, FastMachines.ordinary, sharers, KeyedMap.filter]
        exact ite_self _
      case repair =>
        intro m hm
        simp only [EasyBFFast2.new, FastState.new, FastMachines.ordinary, Finset.empty_union] at hm
        exact hrange m hm
      all_goals simp [EasyBFFast2.new, FastState.new, FastMachines.ordinary]
    case placed => simp [EasyBFFast2.new, FastState.new]
    case cores =>
      intro m hm
      have := hlimit m (hrange m hm)
      simpa [EasyBFFast2.new, FastState.new, sharers] using this
    case inRange => exact hrange
  · have hr := FastState.represents_new c.toFastConfig date failure
    have hord : (EasyBFFast2.new c.toFastConfig date failure).toFastMachines.ordinary c.toFastConfig ∅ =
        (FastState.new c.toFastConfig date failure).toFastMachines := by
      simp [FastMachines.ordinary, EasyBFFast2.new, FastState.new, KeyedMap.filter, KeyedMap.empty]
    exact ⟨⟨_, hord ▸ hr⟩, by simp [EasyBFFast2.new, FastState.new], by simp, by simp⟩

end ScheduleTest
