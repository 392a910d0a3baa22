import ScheduleTest.MachineNumbering
import ScheduleTest.Theorems.MachineNames

/-!
# The numbers of the machines and their names

The compute machines get their numbers in the order in which `get_all_hosts` returns the hosts. This is the order of their names only
where the hosts are returned in it.
-/

namespace ScheduleTest

open MachineNames

namespace NumberedMachines

variable {s : MachineSort} {hosts hosts' : List NamedHost} {limitMachineCount : ℤ} {ms ms' : NumberedMachines}
  {machines sorted : List NumberedMachine} {id : ℕ}

/-- A name comes before another one. -/
def Before (name name' : List Int8) : Prop := machineComparatorName name name' = some true

/-- The names of the compute hosts, in the order of `get_all_hosts`. -/
def computeNames (hosts : List NamedHost) : List (List Int8) := (hosts.filter (·.permissions = .computeNode)).map (·.name)

/-- The names of the hosts that are kept: all, or the first ones. -/
def keptNames (hosts : List NamedHost) (limitMachineCount : ℤ) : List (List Int8) :=
  if 0 < limitMachineCount then (computeNames hosts).take limitMachineCount.toNat else computeNames hosts

/-- The numbers follow the order of the names. -/
structure NumberedByName (hosts : List NamedHost) (limitMachineCount : ℤ) (ms : NumberedMachines) : Prop where
  /-- The numbers are 0, 1, 2, and so on. -/
  ids : ms.computeNodes.map (·.id) = (List.range ms.computeNodes.length).map fun id : ℕ => (id : ℤ)
  /-- No host has two numbers. -/
  once : (ms.computeNodes.map (·.name)).Subperm (computeNames hosts)
  /-- All compute hosts have one, or as many as are asked for. -/
  count : (ms.computeNodes.length : ℤ) = if 0 < limitMachineCount then limitMachineCount else ((computeNames hosts).length : ℤ)
  ascending : ∀ m ∈ ms.computeNodes, ∀ m' ∈ ms.computeNodes, m.id < m'.id → Before m.name m'.name
  /-- Those that are left out come after the others. -/
  leftOut : ∀ name ∈ computeNames hosts, name ∉ ms.computeNodes.map (·.name) → ∀ m ∈ ms.computeNodes, Before m.name name

/-- `get_all_hosts` has the hosts that are kept in the order of their names, and before those that come after them. -/
def ListedByName (hosts : List NamedHost) (limitMachineCount : ℤ) : Prop :=
  (keptNames hosts limitMachineCount).Pairwise Before ∧
    ∀ name ∈ computeNames hosts, name ∉ keptNames hosts limitMachineCount →
      ∀ name' ∈ keptNames hosts limitMachineCount, Before name' name

/-! ## What is created -/

@[simp] theorem length_number : (number id machines).length = machines.length := List.length_mapIdx

@[simp] theorem map_name_number : (number id machines).map (·.name) = machines.map (·.name) :=
  List.ext_getElem (by simp) fun i _ _ => by simp [number]

@[simp] theorem id_number {i : ℕ} (h : i < (number id machines).length) : (number id machines)[i].id = id + i := by
  simp [number]

@[simp] theorem map_name_ofRole (permissions : Permissions) :
    (ofRole hosts permissions).map (·.name) = (hosts.filter (·.permissions = permissions)).map (·.name) := by
  simp [ofRole]

/-- The sort leaves the vector as it is, but for the numbers of the machines. -/
theorem map_name_of_sort (h : sortMachinesByAscendingName s machines = some sorted) :
    sorted.map (·.name) = machines.map (·.name) := by
  obtain ⟨names, -, rfl⟩ := Option.map_eq_some_iff.1 h
  simp

theorem limitMachines_ok {computeNodes : List NumberedMachine} (h : limitMachines machines limitMachineCount = .ok computeNodes) :
    (0 < limitMachineCount → limitMachineCount ≤ machines.length) ∧
      computeNodes = if 0 < limitMachineCount then machines.take limitMachineCount.toNat else machines := by
  unfold limitMachines at h
  split at h
  · rename_i hlimit
    split at h
    · rename_i hle
      exact ⟨fun _ => hle, by rw [if_pos hlimit, Except.ok.inj h]⟩
    · cases h
  · rename_i hlimit
    exact ⟨fun hpos => absurd hpos hlimit, by rw [if_neg hlimit, Except.ok.inj h]⟩

/-- Everything that is known of the machines that are created. -/
theorem createMachines_ok (h : createMachines s hosts limitMachineCount = .ok ms) :
    (0 < limitMachineCount → limitMachineCount ≤ (computeNames hosts).length) ∧
      ∃ nodes : List NumberedMachine, ms.computeNodes = number 0 nodes ∧ nodes.map (·.name) = keptNames hosts limitMachineCount ∧
        ms.storageNodes = number nodes.length (ofRole hosts .storage) := by
  unfold createMachines at h
  split at h
  · cases h
  split at h
  · cases h
  split at h
  · cases h
  rename_i sorted hsorted
  have hnames := map_name_of_sort hsorted
  rw [map_name_ofRole] at hnames
  split at h
  · cases h
  rename_i nodes hnodes
  obtain ⟨hlimit, hkept⟩ := limitMachines_ok hnodes
  split at h
  · cases h
  cases h
  refine ⟨?_, nodes, rfl, ?_, rfl⟩
  · rwa [computeNames, ← hnames, List.length_map]
  · unfold keptNames computeNames
    rw [hkept, ← hnames]
    split
    · exact List.map_take
    · rfl

/-- The compute machines are numbered in the order of the list. -/
theorem ids_computeNodes (h : createMachines s hosts limitMachineCount = .ok ms) :
    ms.computeNodes.map (·.id) = (List.range ms.computeNodes.length).map fun id : ℕ => (id : ℤ) := by
  obtain ⟨-, nodes, hnodes, -, -⟩ := createMachines_ok h
  rw [hnodes]
  exact List.ext_getElem (by simp) fun i hi _ => by simp

theorem names_computeNodes (h : createMachines s hosts limitMachineCount = .ok ms) :
    ms.computeNodes.map (·.name) = keptNames hosts limitMachineCount := by
  obtain ⟨-, nodes, hnodes, hnames, -⟩ := createMachines_ok h
  rw [hnodes, map_name_number, hnames]

theorem keptNames_sublist : (keptNames hosts limitMachineCount).Sublist (computeNames hosts) := by
  unfold keptNames
  split
  · exact List.take_sublist _ _
  · exact List.Sublist.refl _

/-- Numbers from 0 on ascend with the names if and only if the names are in order. -/
theorem ascending_iff {nodes : List NumberedMachine}
    (hids : nodes.map (·.id) = (List.range nodes.length).map fun id : ℕ => (id : ℤ)) :
    (∀ m ∈ nodes, ∀ m' ∈ nodes, m.id < m'.id → Before m.name m'.name) ↔ (nodes.map (·.name)).Pairwise Before := by
  have hid : ∀ i, ∀ hi : i < nodes.length, nodes[i].id = i := by
    intro i hi
    have hget := List.getElem_of_eq hids (by simpa using hi : i < (nodes.map (·.id)).length)
    simpa using hget
  rw [List.pairwise_map, List.pairwise_iff_getElem]
  constructor
  · intro hascending i j hi hj hlt
    refine hascending _ (List.getElem_mem hi) _ (List.getElem_mem hj) ?_
    rw [hid i hi, hid j hj]
    exact_mod_cast hlt
  · intro hpairwise m hm m' hm' hlt
    obtain ⟨i, hi, rfl⟩ := List.getElem_of_mem hm
    obtain ⟨j, hj, rfl⟩ := List.getElem_of_mem hm'
    rw [hid i hi, hid j hj] at hlt
    exact hpairwise i j hi hj (by exact_mod_cast hlt)

/-- The hosts and the numbers of machines that are numbered from a number on. -/
theorem map_host_number : (number id machines).map (fun machine => (machine.toHost, machine.id)) =
    (machines.map (·.toHost)).mapIdx fun i host => (host, ((i + id : ℕ) : ℤ)) :=
  List.ext_getElem (by simp) fun i _ _ => by simp [number, add_comm]

/-- Apart from the names, the machines are those of `Machines.createMachines`. -/
theorem createMachines_machines (h : createMachines s hosts limitMachineCount = .ok ms) :
    ∃ ms', Machines.createMachines (hosts.map (·.toHost)) limitMachineCount = .ok ms' ∧
      ms'.machines.map (fun machine => (machine.toHost, (machine.id : ℤ))) =
        ms.machines.map fun machine => (machine.toHost, machine.id) := by
  have hcount : ∀ permissions, (hosts.map (·.toHost)).countP (·.permissions = permissions) =
      hosts.countP (·.permissions = permissions) := fun permissions => by rw [List.countP_map]; rfl
  have hfilter : ∀ permissions, (hosts.map (·.toHost)).filter (·.permissions = permissions) =
      (ofRole hosts permissions).map (·.toHost) := fun permissions => by rw [List.filter_map, ofRole, List.map_map]; rfl
  unfold createMachines at h
  split at h
  · cases h
  rename_i hlimit
  split at h
  · cases h
  rename_i hseveral
  split at h
  · cases h
  rename_i sorted hsorted
  obtain ⟨names, -, rfl⟩ := Option.map_eq_some_iff.1 hsorted
  split at h
  · cases h
  rename_i nodes hnodes
  obtain ⟨hle, hkept⟩ := limitMachines_ok hnodes
  rw [List.length_map] at hle
  split at h
  · cases h
  rename_i hmaster
  cases h
  have hlimited : Machines.limitMachines ((ofRole hosts .computeNode).map (·.toHost)) limitMachineCount =
      .ok (nodes.map (·.toHost)) := by
    rw [hkept, Machines.limitMachines]
    split
    · rename_i hpos
      rw [List.length_map, if_pos (hle hpos), List.map_take, List.map_map]
      rfl
    · rw [List.map_map]
      rfl
  rw [Machines.createMachines, if_neg hlimit, hcount, if_neg hseveral, hfilter, hlimited]
  refine ⟨_, if_neg hmaster, ?_⟩
  rw [machines, List.map_append, map_host_number, map_host_number, hfilter, List.mapIdx_append, List.map_append, List.length_map]
  congr 1
  · exact List.ext_getElem (by simp) fun i _ _ => by simp
  · exact List.ext_getElem (by simp) fun i _ _ => by simp

/-! ## The order of the platform does not matter to the order of the names -/

theorem strcmp_swap (a b : List Int8) : strcmp b a = -strcmp a b := by
  induction a generalizing b with
  | nil => cases b <;> simp [strcmp]
  | cons c a ih =>
    cases b with
    | nil => simp [strcmp]
    | cons d b =>
      by_cases hne : c = d
      · subst hne
        by_cases hzero : c = 0
        · simp [strcmp, hzero]
        · simp [strcmp, hzero, ih]
      · simp [strcmp, hne, Ne.symm hne]

/-- Strings without a null character that compare equal are the same. -/
theorem eq_of_strcmp {a b : List Int8} (ha : 0 ∉ a) (hb : 0 ∉ b) (h : strcmp a b = 0) : a = b := by
  have hne : ∀ c d : Int8, c ≠ d → (c.toUInt8.toNat : ℤ) ≠ d.toUInt8.toNat := by
    intro c d hcd heq
    have hsame : c.toUInt8 = d.toUInt8 := UInt8.toNat_inj.1 (by exact_mod_cast heq)
    exact hcd (congrArg UInt8.toInt8 hsame)
  induction a generalizing b with
  | nil =>
    cases b with
    | nil => rfl
    | cons d b =>
      have hcode := hne d 0 fun heq => hb (heq ▸ List.mem_cons_self)
      exact absurd (neg_eq_zero.1 h) hcode
  | cons c a ih =>
    cases b with
    | nil =>
      have hcode := hne c 0 fun heq => ha (heq ▸ List.mem_cons_self)
      exact absurd h hcode
    | cons d b =>
      rw [List.mem_cons, not_or] at ha hb
      rw [strcmp] at h
      split at h
      · rename_i hcd
        exact absurd (sub_eq_zero.1 h) (hne c d hcd)
      · rename_i hcd
        rw [if_neg (Ne.symm ha.1)] at h
        rw [not_not.1 hcd, ih ha.2 hb.2 h]

/-- Two names that come before each other are the same, where no number in them is cut off. -/
theorem Before.antisymm {a b : List Int8} (hnarrow : Narrow a b) (ha : 0 ∉ a) (hb : 0 ∉ b) (h : Before a b) (h' : Before b a) :
    a = b := by
  have hbefore : ∀ {a b : List Int8} {r : ℤ}, stringNumericComparator a b = some r → Before a b →
      r ≤ 0 ∧ (r = 0 → strcmp a b ≤ 0) := by
    intro a b r hr h
    rw [Before, machineComparatorName, hr] at h
    have hle := of_decide_eq_true (Option.some.inj h)
    split at hle
    · rename_i hzero
      exact ⟨hzero.le, fun _ => hle⟩
    · rename_i hzero
      exact ⟨hle, fun h => absurd h hzero⟩
  obtain ⟨r, hr, hagrees⟩ := comparator_agrees hnarrow
  obtain ⟨r', hr', hagrees'⟩ := comparator_agrees hnarrow.symm
  obtain ⟨hle, hcmp⟩ := hbefore hr h
  obtain ⟨hle', hcmp'⟩ := hbefore hr' h'
  have hsymbols : symbols a = symbols b := le_antisymm (hagrees.nonpos_iff.1 hle) (hagrees'.nonpos_iff.1 hle')
  have hfirst := hcmp (hagrees.eq_zero_iff.2 hsymbols)
  have hsecond := hcmp' (hagrees'.eq_zero_iff.2 hsymbols.symm)
  rw [strcmp_swap] at hsecond
  exact eq_of_strcmp ha hb (by omega)

/-- A host that is listed once gets one number. -/
theorem NumberedByName.nodup (h : NumberedByName hosts limitMachineCount ms) (hnodup : (computeNames hosts).Nodup) :
    (ms.computeNodes.map (·.name)).Nodup := by
  obtain ⟨names, hperm, hsublist⟩ := h.once
  exact hperm.nodup_iff.1 (hnodup.sublist hsublist)

/-- As many machines are numbered for any list of the same hosts. -/
theorem NumberedByName.length_eq (hperm : (computeNames hosts).Perm (computeNames hosts'))
    (h : NumberedByName hosts limitMachineCount ms) (h' : NumberedByName hosts' limitMachineCount ms') :
    (ms.computeNodes.map (·.name)).length = (ms'.computeNodes.map (·.name)).length := by
  have hcount := h.count
  have hcount' := h'.count
  rw [hperm.length_eq] at hcount
  rw [List.length_map, List.length_map]
  omega

/-- Another list of the hosts keeps the same ones: one that was left out would come before and after another one. -/
theorem NumberedByName.subset (hperm : (computeNames hosts).Perm (computeNames hosts'))
    (hnodup : (computeNames hosts).Nodup)
    (hantisymm : ∀ a ∈ computeNames hosts, ∀ b ∈ computeNames hosts, Before a b → Before b a → a = b)
    (h : NumberedByName hosts limitMachineCount ms) (h' : NumberedByName hosts' limitMachineCount ms') :
    ms.computeNodes.map (·.name) ⊆ ms'.computeNodes.map (·.name) := by
  intro name hname
  by_contra hnot
  have hlength := h.length_eq hperm h'
  obtain ⟨name', hname', hnot'⟩ : ∃ name' ∈ ms'.computeNodes.map (·.name), name' ∉ ms.computeNodes.map (·.name) := by
    by_contra hall
    push Not at hall
    have hsubperm := List.subperm_of_subset (h'.nodup (hperm.nodup_iff.1 hnodup)) hall
    exact hnot ((hsubperm.perm_of_length_le hlength.le).mem_iff.2 hname)
  have hcompute := h.once.subset hname
  have hcompute' := hperm.mem_iff.2 (h'.once.subset hname')
  obtain ⟨m, hm, rfl⟩ := List.mem_map.1 hname
  obtain ⟨m', hm', rfl⟩ := List.mem_map.1 hname'
  have hbefore := h.leftOut _ hcompute' hnot' m hm
  have hafter := h'.leftOut _ (hperm.mem_iff.1 hcompute) hnot m' hm'
  exact hnot (hantisymm _ hcompute _ hcompute' hbefore hafter ▸ hname')

/-- Numbers that follow the names are the same, in whatever order the platform lists its hosts. -/
theorem NumberedByName.unique (hperm : hosts.Perm hosts') (hnodup : (computeNames hosts).Nodup)
    (hnarrow : ∀ a ∈ computeNames hosts, ∀ b ∈ computeNames hosts, Narrow a b) (hnull : ∀ a ∈ computeNames hosts, 0 ∉ a)
    (h : NumberedByName hosts limitMachineCount ms) (h' : NumberedByName hosts' limitMachineCount ms') :
    ms.computeNodes.map (·.name) = ms'.computeNodes.map (·.name) := by
  have hantisymm : ∀ a ∈ computeNames hosts, ∀ b ∈ computeNames hosts, Before a b → Before b a → a = b :=
    fun a ha b hb => Before.antisymm (hnarrow a ha b hb) (hnull a ha) (hnull b hb)
  have hnames : (computeNames hosts).Perm (computeNames hosts') := (hperm.filter _).map _
  have hsubperm := List.subperm_of_subset (h.nodup hnodup) (h.subset hnames hnodup hantisymm h')
  have hlength := h.length_eq hnames h'
  refine (hsubperm.perm_of_length_le hlength.ge).eq_of_pairwise (fun a b ha hb => ?_) ((ascending_iff h.ids).1 h.ascending)
    ((ascending_iff h'.ids).1 h'.ascending)
  exact hantisymm a (h.once.subset ha) b (hnames.mem_iff.2 (h'.once.subset hb))

/-- The numbers follow the names exactly where the platform lists the compute hosts that are kept in the order of their names, and
before the others. -/
theorem machine_numbering_iff (s : MachineSort) (hosts : List NamedHost) (limitMachineCount : ℤ) (ms : NumberedMachines)
    (h : createMachines s hosts limitMachineCount = .ok ms) :
    NumberedByName hosts limitMachineCount ms ↔ ListedByName hosts limitMachineCount := by
  have hnames := names_computeNodes h
  have hids := ids_computeNodes h
  constructor
  · intro hnumbered
    refine ⟨hnames ▸ (ascending_iff hids).1 hnumbered.ascending, fun name hname hnot name' hname' => ?_⟩
    rw [← hnames] at hnot hname'
    obtain ⟨m, hm, rfl⟩ := List.mem_map.1 hname'
    exact hnumbered.leftOut name hname hnot m hm
  · rintro ⟨hkept, hothers⟩
    refine ⟨hids, ?_, ?_, (ascending_iff hids).2 (hnames ▸ hkept), fun name hname hnot m hm => ?_⟩
    · rw [hnames]
      exact keptNames_sublist.subperm
    · have hlength : ms.computeNodes.length = (keptNames hosts limitMachineCount).length := by rw [← hnames, List.length_map]
      rw [hlength, keptNames]
      split
      · rename_i hlimit
        have hle := (createMachines_ok h).1 hlimit
        rw [List.length_take]
        omega
      · rfl
    · rw [hnames] at hnot
      exact hothers name hname hnot m.name (hnames ▸ List.mem_map_of_mem hm)

/-- The insertion sort with the comparator. -/
def insertionSort : MachineSort where
  sort names := some (names.insertionSort fun name name' => machineComparatorName name name' = some true)
  perm := by
    intro names sorted h
    cases h
    exact List.perm_insertionSort _ names

/-- A host without power states has no sleep power state. -/
theorem no_virtualPstates (_ : ℕ) (sleep : SleepPState) (h : (none : Option SleepPState) = some sleep) :
    (none : Option PStateType) = some .transitionVirtualPstate ∧ (none : Option PStateType) = some .transitionVirtualPstate := by
  cases h

/-- A host without power states. -/
def plainHost (name : String) (permissions : Permissions) : NamedHost where
  name := ascii name
  permissions := permissions
  virtualPstates := no_virtualPstates

/-- A master and two compute hosts. `get_all_hosts` has them in the order of the texts, so that `m10` comes before `m9`. -/
def outOfOrder : List NamedHost := [plainHost "m10" .computeNode, plainHost "m9" .computeNode, plainHost "master" .master]

theorem machine_numbering_iff_witness : ∃ ms, createMachines insertionSort outOfOrder (-1) = .ok ms ∧
    (NumberedByName outOfOrder (-1) ms ↔ ListedByName outOfOrder (-1)) :=
  ⟨_, rfl, machine_numbering_iff insertionSort outOfOrder (-1) _ rfl⟩

/-- Machine `m10` gets the number 0, and `m9` the number 1. -/
theorem machine_numbering_false : ∃ ms, createMachines insertionSort outOfOrder (-1) = .ok ms ∧
    ¬NumberedByName outOfOrder (-1) ms := by
  let m10 : NumberedMachine := { toNamedHost := plainHost "m10" .computeNode, id := 0 }
  let m9 : NumberedMachine := { toNamedHost := plainHost "m9" .computeNode, id := 1 }
  refine ⟨{ computeNodes := [m10, m9], storageNodes := [] }, rfl, fun h => ?_⟩
  have hbefore : machineComparatorName (ascii "m10") (ascii "m9") = some true :=
    h.ascending m10 List.mem_cons_self m9 (List.mem_cons_of_mem _ List.mem_cons_self) (by decide)
  exact absurd hbefore (by decide +kernel)

end NumberedMachines

end ScheduleTest
