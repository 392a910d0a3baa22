import ScheduleTest.CurrentSwitches
import Mathlib.Data.List.Nodup

/-!
# No switch request is lost

The history of the requests and of the machines that have been switched says which machines each request still awaits. The switches
that are kept are the requests that await some, and a request is reported when the last machine that it awaits has been switched.
-/

namespace ScheduleTest

open Execution

namespace SwitchServer

/-- The request at a place of a history. -/
def requestAt (events : List SwitchEvent) (i : ℕ) : Option (IntervalSet × ℤ) :=
  match events[i]? with
  | some (.request machines target) => some (machines, target)
  | _ => none

/-- The machines of a request that have not been switched since. -/
def awaited (events : List SwitchEvent) (i : ℕ) : IntervalSet :=
  match requestAt events i with
  | some (machines, target) => machines.filter fun machine => .switched machine target ∉ events.drop (i + 1)
  | none => ∅

/-- Whether the request at a place is one for a power state. -/
def IsFor (events : List SwitchEvent) (i : ℕ) (target : ℤ) : Prop :=
  (requestAt events i).map (·.2) = some target

instance (events : List SwitchEvent) (i : ℕ) (target : ℤ) : Decidable (IsFor events i target) :=
  inferInstanceAs (Decidable (_ = _))

/-- What can come next: a request for machines that no request for the same power state awaits, or a machine that one awaits. -/
def CanFollow (before : List SwitchEvent) : SwitchEvent → Prop
  | .request machines target =>
    machines.Nonempty ∧ ∀ i < before.length, IsFor before i target → Disjoint machines (awaited before i)
  | .switched machine target => ∃ i < before.length, IsFor before i target ∧ machine ∈ awaited before i

instance (before : List SwitchEvent) (event : SwitchEvent) : Decidable (CanFollow before event) :=
  match event with
  | .request machines target => inferInstanceAs (Decidable (machines.Nonempty ∧
      ∀ i < before.length, IsFor before i target → Disjoint machines (awaited before i)))
  | .switched machine target =>
    inferInstanceAs (Decidable (∃ i < before.length, IsFor before i target ∧ machine ∈ awaited before i))

/-- A history: requests for machines that are not being switched, and each machine of a request switched at most once. -/
def Proper (events : List SwitchEvent) : Prop := ∀ j, ∀ hj : j < events.length, CanFollow (events.take j) events[j]

instance (events : List SwitchEvent) : Decidable (Proper events) :=
  inferInstanceAs (Decidable (∀ j, ∀ hj : j < events.length, CanFollow (events.take j) events[j]))

/-- The event at a place is the switch of the last machine of a request. -/
def IsLast (events : List SwitchEvent) (i j : ℕ) : Prop :=
  ∃ machine target, events[j]? = some (.switched machine target) ∧ IsFor (events.take j) i target ∧
    awaited (events.take j) i = {machine}

/-- The requests for a power state that await machines, as they are kept. -/
def keptSwitch (events : List SwitchEvent) (target : ℤ) (i : ℕ) : Option Switch :=
  if IsFor events i target ∧ awaited events i ≠ ∅ then
    (requestAt events i).map fun request =>
      { targetPstate := target, allMachines := request.1, switchingMachines := awaited events i }
  else none

def outstanding (events : List SwitchEvent) (target : ℤ) : List Switch :=
  (List.range events.length).filterMap (keptSwitch events target)

/-- What is known of the switches and of the answers after a history. -/
structure ReportedOnce (events : List SwitchEvent) (s : SwitchServer) : Prop where
  /-- An answer is given at the last machine of a request, with all the machines of this request. -/
  told : ∀ j allMachines, s.replies[j]? = some (some allMachines) ↔
    ∃ i, IsLast events i j ∧ (requestAt events i).map (·.1) = some allMachines
  /-- An answer is about one request. -/
  one : ∀ i i' j, IsLast events i j → IsLast events i' j → i = i'
  /-- A request all of whose machines have been switched has been answered once. -/
  once : ∀ i target, IsFor events i target → awaited events i = ∅ → ∃! j, IsLast events i j
  /-- Another one has not been answered. -/
  notYet : ∀ i, awaited events i ≠ ∅ → ∀ j, ¬IsLast events i j
  /-- What is kept is what is still awaited. -/
  kept : ∀ target, s.switches target =
    if outstanding events target = [] then none else some (outstanding events target)

variable {before events : List SwitchEvent} {event : SwitchEvent} {i i' j machine : ℕ} {target : ℤ} {machines : IntervalSet}

/-! ## Histories -/

theorem requestAt_append (hi : i < before.length) (after : List SwitchEvent) :
    requestAt (before ++ after) i = requestAt before i := by
  unfold requestAt
  rw [List.getElem?_append_left hi]

theorem isFor_append (hi : i < before.length) (after : List SwitchEvent) :
    IsFor (before ++ after) i target ↔ IsFor before i target := by
  unfold IsFor
  rw [requestAt_append hi]

/-- A request for a power state is a request for some machines. -/
theorem isFor_iff : IsFor events i target ↔ ∃ machines, requestAt events i = some (machines, target) := by
  unfold IsFor
  rw [Option.map_eq_some_iff]
  constructor
  · rintro ⟨request, hrequest, rfl⟩
    exact ⟨request.1, hrequest⟩
  · rintro ⟨machines, hrequest⟩
    exact ⟨_, hrequest, rfl⟩

theorem IsFor.lt (h : IsFor events i target) : i < events.length := by
  obtain ⟨machines, hrequest⟩ := isFor_iff.1 h
  unfold requestAt at hrequest
  by_contra hge
  rw [List.getElem?_eq_none (not_lt.1 hge)] at hrequest
  cases hrequest

theorem IsFor.unique {target' : ℤ} (h : IsFor events i target) (h' : IsFor events i target') :
    target = target' :=
  Option.some.inj (h.symm.trans h')

theorem mem_awaited : machine ∈ awaited events i ↔ ∃ machines target, requestAt events i = some (machines, target) ∧
    machine ∈ machines ∧ .switched machine target ∉ events.drop (i + 1) := by
  unfold awaited
  cases requestAt events i with
  | none => simp
  | some request =>
    obtain ⟨machines, target⟩ := request
    simp [Finset.mem_filter]

/-- A machine is awaited until it is switched. -/
theorem mem_awaited_append (hi : i < before.length) {after : List SwitchEvent} :
    machine ∈ awaited (before ++ after) i ↔
      machine ∈ awaited before i ∧ ∀ target, IsFor before i target → .switched machine target ∉ after := by
  simp only [mem_awaited, requestAt_append hi, List.drop_append_of_le_length (Nat.succ_le_of_lt hi), List.mem_append, not_or]
  constructor
  · rintro ⟨machines, target, hrequest, hmem, hbefore, hafter⟩
    refine ⟨⟨machines, target, hrequest, hmem, hbefore⟩, fun target' hfor => ?_⟩
    rwa [hfor.unique (isFor_iff.2 ⟨machines, hrequest⟩)]
  · rintro ⟨⟨machines, target, hrequest, hmem, hbefore⟩, hafter⟩
    exact ⟨machines, target, hrequest, hmem, hbefore, hafter target (isFor_iff.2 ⟨machines, hrequest⟩)⟩

/-- A request changes nothing of what is awaited. -/
theorem awaited_append_request (hi : i < before.length) :
    awaited (before ++ [.request machines target]) i = awaited before i := by
  ext machine
  simp [mem_awaited_append hi]

/-- A machine that is switched is awaited no more by the requests for this power state. -/
theorem awaited_append_switched (hi : i < before.length) (hfor : IsFor before i target) :
    awaited (before ++ [.switched machine target]) i = (awaited before i).erase machine := by
  ext machine'
  rw [mem_awaited_append hi, Finset.mem_erase, and_comm]
  refine and_congr_left fun _ => ⟨fun h heq => h target hfor (by simp [heq]), fun hne target' _ hmem => hne ?_⟩
  simp only [List.mem_singleton, SwitchEvent.switched.injEq] at hmem
  exact hmem.1

theorem awaited_append_of_not_isFor (hi : i < before.length) (hfor : ¬IsFor before i target) :
    awaited (before ++ [.switched machine target]) i = awaited before i := by
  ext machine'
  rw [mem_awaited_append hi]
  refine and_iff_left fun target' hfor' hmem => hfor ?_
  simp only [List.mem_singleton, SwitchEvent.switched.injEq] at hmem
  exact hmem.2 ▸ hfor'

/-- A request awaits all its machines at first. -/
theorem requestAt_length : requestAt (before ++ [.request machines target]) before.length = some (machines, target) := by
  simp [requestAt]

theorem awaited_length : awaited (before ++ [.request machines target]) before.length = machines := by
  ext machine
  simp [mem_awaited, requestAt_length]

/-- The place of a machine that is switched holds no request. -/
theorem requestAt_length_switched : requestAt (before ++ [.switched machine target]) before.length = none := by
  simp [requestAt]

/-- A history goes on with what can come next. -/
theorem proper_append : Proper (before ++ [event]) ↔ Proper before ∧ CanFollow before event := by
  unfold Proper
  constructor
  · intro h
    refine ⟨fun j hj => ?_, ?_⟩
    · have hfollow := h j (by simp; omega)
      rwa [List.take_append_of_le_length hj.le, List.getElem_append_left hj] at hfollow
    · have hfollow := h before.length (by simp)
      rwa [List.take_left, List.getElem_concat_length rfl] at hfollow
  · rintro ⟨h, hfollow⟩ j hj
    rw [List.length_append, List.length_singleton] at hj
    rcases Nat.lt_succ_iff_lt_or_eq.1 hj with hlt | rfl
    · rw [List.take_append_of_le_length hlt.le, List.getElem_append_left hlt]
      exact h j hlt
    · rw [List.take_left, List.getElem_concat_length rfl]
      exact hfollow

theorem Proper.take (h : Proper events) (n : ℕ) : Proper (events.take n) := by
  intro j hj
  rw [List.length_take] at hj
  rw [List.take_take, List.getElem_take, min_eq_left (by omega)]
  exact h j (by omega)

/-- No machine is awaited by two requests for one power state. -/
theorem Proper.disjoint (h : Proper events) (hfor : IsFor events i target) (hfor' : IsFor events i' target) (hne : i ≠ i') :
    Disjoint (awaited events i) (awaited events i') := by
  induction events using List.reverseRecOn generalizing i i' with
  | nil => exact absurd hfor.lt (Nat.not_lt_zero i)
  | append_singleton before event ih =>
    obtain ⟨hbefore, hfollow⟩ := proper_append.1 h
    have hstays : ∀ {i}, i < before.length → awaited (before ++ [event]) i ⊆ awaited before i :=
      fun hi _ hmem => ((mem_awaited_append hi).1 hmem).1
    -- the machines of a new request are not awaited yet
    have hnew : ∀ {i}, i < before.length → IsFor (before ++ [event]) i target →
        IsFor (before ++ [event]) before.length target →
        Disjoint (awaited (before ++ [event]) i) (awaited (before ++ [event]) before.length) := by
      intro i hi hfor hlast
      cases event with
      | request machines target' =>
        obtain rfl := hlast.unique (isFor_iff.2 ⟨machines, requestAt_length⟩)
        rw [awaited_length]
        exact ((hfollow.2 i hi ((isFor_append hi _).1 hfor)).symm).mono_left (hstays hi)
      | switched machine target' =>
        obtain ⟨machines, hrequest⟩ := isFor_iff.1 hlast
        rw [requestAt_length_switched] at hrequest
        cases hrequest
    have hlt := hfor.lt
    have hlt' := hfor'.lt
    rw [List.length_append, List.length_singleton] at hlt hlt'
    rcases Nat.lt_succ_iff_lt_or_eq.1 hlt with hi | rfl
    · rcases Nat.lt_succ_iff_lt_or_eq.1 hlt' with hi' | rfl
      · exact (ih hbefore ((isFor_append hi _).1 hfor) ((isFor_append hi' _).1 hfor') hne).mono (hstays hi) (hstays hi')
      · exact hnew hi hfor hfor'
    · exact (hnew (by omega) hfor' hfor).symm

/-! ## The last machine of a request -/

theorem isLast_append (hj : j < before.length) (after : List SwitchEvent) : IsLast (before ++ after) i j ↔ IsLast before i j := by
  unfold IsLast
  rw [List.getElem?_append_left hj, List.take_append_of_le_length hj.le]

theorem isLast_length : IsLast (before ++ [event]) i before.length ↔
    ∃ machine target, event = .switched machine target ∧ IsFor before i target ∧ awaited before i = {machine} := by
  unfold IsLast
  simp

theorem IsLast.lt (h : IsLast events i j) : j < events.length := by
  obtain ⟨machine, target, hevent, -, -⟩ := h
  exact (List.getElem?_eq_some_iff.1 hevent).1

/-- A request whose last machine has been switched awaits none. -/
theorem IsLast.awaited_eq (h : IsLast events i j) : awaited events i = ∅ := by
  induction events using List.reverseRecOn with
  | nil => exact absurd h.lt (Nat.not_lt_zero j)
  | append_singleton before event ih =>
    have hlt := h.lt
    rw [List.length_append, List.length_singleton] at hlt
    rcases Nat.lt_succ_iff_lt_or_eq.1 hlt with hj | rfl
    · have hlast := (isLast_append hj _).1 h
      have hi : i < before.length := by
        obtain ⟨_, _, _, hfor, _⟩ := hlast
        have hlt := hfor.lt
        rw [List.length_take] at hlt
        omega
      refine Finset.subset_empty.1 fun machine hmem => ?_
      rw [← ih hlast]
      exact ((mem_awaited_append hi).1 hmem).1
    · obtain ⟨machine, target, rfl, hfor, hawaited⟩ := isLast_length.1 h
      rw [awaited_append_switched hfor.lt hfor, hawaited, Finset.erase_singleton]

/-- A request has one last machine. -/
theorem IsLast.unique {j' : ℕ} (h : IsLast events i j) (h' : IsLast events i j') : j = j' := by
  have hearlier : ∀ {j j'}, IsLast events i j → IsLast events i j' → ¬j < j' := by
    intro j j' h h' hlt
    obtain ⟨machine, target, -, -, hawaited⟩ := h'
    have hlength : j < (events.take j').length := by
      have := h.lt
      rw [List.length_take]
      omega
    rw [← List.take_append_drop j' events, isLast_append hlength] at h
    rw [h.awaited_eq] at hawaited
    exact Finset.singleton_ne_empty machine hawaited.symm
  exact le_antisymm (not_lt.1 (hearlier h' h)) (not_lt.1 (hearlier h h'))

/-- A request that awaits no machine has had its last one switched. -/
theorem Proper.exists_isLast (h : Proper events) (hfor : IsFor events i target) (hawaited : awaited events i = ∅) :
    ∃ j, IsLast events i j := by
  induction events using List.reverseRecOn with
  | nil => exact absurd hfor.lt (Nat.not_lt_zero i)
  | append_singleton before event ih =>
    obtain ⟨hbefore, hfollow⟩ := proper_append.1 h
    have hlt := hfor.lt
    rw [List.length_append, List.length_singleton] at hlt
    rcases Nat.lt_succ_iff_lt_or_eq.1 hlt with hi | rfl
    · have hfor' := (isFor_append hi _).1 hfor
      by_cases hempty : awaited before i = ∅
      · obtain ⟨j, hj⟩ := ih hbefore hfor' hempty
        exact ⟨j, (isLast_append hj.lt _).2 hj⟩
      · refine ⟨before.length, isLast_length.2 ?_⟩
        cases event with
        | request machines target' => exact absurd ((awaited_append_request hi).symm.trans hawaited) hempty
        | switched machine target' =>
          by_cases htarget : IsFor before i target'
          · rw [awaited_append_switched hi htarget, Finset.erase_eq_empty_iff] at hawaited
            exact ⟨machine, target', rfl, htarget, hawaited.resolve_left hempty⟩
          · exact absurd ((awaited_append_of_not_isFor hi htarget).symm.trans hawaited) hempty
    · cases event with
      | request machines target' =>
        rw [awaited_length] at hawaited
        exact absurd hawaited hfollow.1.ne_empty
      | switched machine target' =>
        obtain ⟨machines, hrequest⟩ := isFor_iff.1 hfor
        rw [requestAt_length_switched] at hrequest
        cases hrequest

/-! ## What is kept -/

theorem keptSwitch_eq {request : IntervalSet × ℤ} (hfor : IsFor events i target) (hrequest : requestAt events i = some request)
    (hawaited : awaited events i ≠ ∅) : keptSwitch events target i =
      some { targetPstate := target, allMachines := request.1, switchingMachines := awaited events i } := by
  rw [keptSwitch, if_pos ⟨hfor, hawaited⟩, hrequest]
  rfl

/-- A request that awaits machines is kept. -/
theorem outstanding_ne_nil {request : IntervalSet × ℤ} (hfor : IsFor events i target) (hrequest : requestAt events i = some request)
    (hawaited : awaited events i ≠ ∅) : outstanding events target ≠ [] :=
  List.ne_nil_of_mem (List.mem_filterMap.2 ⟨i, List.mem_range.2 hfor.lt, keptSwitch_eq hfor hrequest hawaited⟩)

/-- A kept switch awaits what its request awaits. -/
theorem of_keptSwitch {s : Switch} (h : keptSwitch events target i = some s) :
    IsFor events i target ∧ s.switchingMachines = awaited events i := by
  unfold keptSwitch at h
  split at h
  · rename_i hkept
    obtain ⟨request, -, rfl⟩ := Option.map_eq_some_iff.1 h
    exact ⟨hkept.1, rfl⟩
  · cases h

/-- What is kept of a request stays as long as what it awaits does. -/
theorem keptSwitch_append (hi : i < before.length)
    (h : IsFor before i target → awaited (before ++ [event]) i = awaited before i) :
    keptSwitch (before ++ [event]) target i = keptSwitch before target i := by
  unfold keptSwitch
  simp only [isFor_append hi, requestAt_append hi]
  by_cases hfor : IsFor before i target
  · rw [h hfor]
  · rw [if_neg fun hkept => hfor hkept.1, if_neg fun hkept => hfor hkept.1]

theorem outstanding_append : outstanding (before ++ [event]) target =
    (List.range before.length).filterMap (keptSwitch (before ++ [event]) target) ++
      (keptSwitch (before ++ [event]) target before.length).toList := by
  rw [outstanding, List.length_append, List.length_singleton, List.range_succ, List.filterMap_append]
  cases h : keptSwitch (before ++ [event]) target before.length <;> simp [h]

/-- A new request is the last one of its list. -/
theorem outstanding_request (hmachines : machines.Nonempty) (target' : ℤ) :
    outstanding (before ++ [.request machines target]) target' = outstanding before target' ++
      if target = target' then [{ targetPstate := target, allMachines := machines, switchingMachines := machines }]
      else [] := by
  rw [outstanding_append]
  congr 1
  · refine List.filterMap_congr fun i hi => keptSwitch_append (List.mem_range.1 hi) fun _ => ?_
    exact awaited_append_request (List.mem_range.1 hi)
  · have hlast := isFor_iff.2 ⟨machines, @requestAt_length before target machines⟩
    split
    · rename_i htarget
      subst htarget
      rw [keptSwitch_eq hlast requestAt_length (by rw [awaited_length]; exact hmachines.ne_empty), awaited_length]
      rfl
    · rename_i htarget
      rw [keptSwitch, if_neg fun hkept => htarget (hlast.unique hkept.1)]
      rfl

/-- A machine that is switched starts no request. -/
theorem outstanding_switched (target' : ℤ) : outstanding (before ++ [.switched machine target]) target' =
    (List.range before.length).filterMap (keptSwitch (before ++ [.switched machine target]) target') := by
  rw [outstanding_append, keptSwitch, if_neg, Option.toList_none, List.append_nil]
  rintro ⟨hfor, -⟩
  obtain ⟨machines, hrequest⟩ := isFor_iff.1 hfor
  rw [requestAt_length_switched] at hrequest
  cases hrequest

/-- Marking a machine in a list changes the one switch that awaits it, or takes it out. -/
theorem markInList_filterMap {ι : Type*} {l : List ι} (hl : l.Nodup) {f g : ι → Option Switch} {k : ι} (hk : k ∈ l) {s : Switch}
    (hs : f k = some s) (hmachine : machine ∈ s.switchingMachines)
    (hothers : ∀ i ∈ l, i ≠ k → g i = f i ∧ ∀ s', f i = some s' → machine ∉ s'.switchingMachines) {told : Option IntervalSet}
    (hg : if s.switchingMachines.erase machine = ∅ then g k = none ∧ told = some s.allMachines
      else g k = some { s with switchingMachines := s.switchingMachines.erase machine } ∧ told = none) :
    CurrentSwitches.markInList machine (l.filterMap f) = some (l.filterMap g, told) := by
  induction l with
  | nil => exact absurd hk List.not_mem_nil
  | cons i l ih =>
    obtain ⟨hnot, hl⟩ := List.nodup_cons.1 hl
    by_cases hik : i = k
    · subst hik
      have hrest : l.filterMap g = l.filterMap f :=
        List.filterMap_congr fun i hi => (hothers i (List.mem_cons_of_mem _ hi) fun heq => hnot (heq ▸ hi)).1
      rw [List.filterMap_cons_some hs, CurrentSwitches.markInList, if_pos hmachine]
      dsimp only
      split at hg
      · rename_i hempty
        rw [if_pos (Finset.card_eq_zero.2 hempty), List.filterMap_cons_none hg.1, hrest, hg.2]
      · rename_i hempty
        rw [if_neg fun hcard => hempty (Finset.card_eq_zero.1 hcard), List.filterMap_cons_some hg.1, hrest, hg.2]
    · obtain ⟨hsame, hnotin⟩ := hothers i List.mem_cons_self hik
      have hih := ih hl ((List.mem_cons.1 hk).resolve_left (Ne.symm hik)) fun i hi => hothers i (List.mem_cons_of_mem _ hi)
      cases hf : f i with
      | none => rw [List.filterMap_cons_none hf, List.filterMap_cons_none (hsame.trans hf), hih]
      | some s' =>
        rw [List.filterMap_cons_some hf, List.filterMap_cons_some (hsame.trans hf), CurrentSwitches.markInList,
          if_neg (hnotin s' hf), hih]
        rfl

/-- A list in the map is not empty. -/
def listed (list : List Switch) : Option (List Switch) := if list = [] then none else some list

/-- The map holds what is outstanding, and each event has been answered if it is the switch of a last machine. -/
structure Tracks (events : List SwitchEvent) (s : SwitchServer) : Prop where
  kept : ∀ target, s.switches target = listed (outstanding events target)
  length : s.replies.length = events.length
  told : ∀ j allMachines, s.replies[j]? = some (some allMachines) ↔
    ∃ i, IsLast events i j ∧ (requestAt events i).map (·.1) = some allMachines

/-- The answers to the events before stay, and the last event has its own. -/
theorem Tracks.told_append {s : SwitchServer} (h : Tracks before s) {told : Option IntervalSet}
    (htold : ∀ allMachines, told = some allMachines ↔
      ∃ i, IsLast (before ++ [event]) i before.length ∧ (requestAt before i).map (·.1) = some allMachines) (j : ℕ)
    (allMachines : IntervalSet) : (s.replies ++ [told])[j]? = some (some allMachines) ↔
      ∃ i, IsLast (before ++ [event]) i j ∧ (requestAt (before ++ [event]) i).map (·.1) = some allMachines := by
  have hrequest : ∀ i j, IsLast (before ++ [event]) i j → requestAt (before ++ [event]) i = requestAt before i := by
    rintro i j hlast
    have hj := hlast.lt
    obtain ⟨_, _, _, hfor, _⟩ := hlast
    have hi := hfor.lt
    rw [List.length_append, List.length_singleton] at hj
    rw [List.length_take] at hi
    exact requestAt_append (by omega) _
  rcases lt_trichotomy j before.length with hj | rfl | hj
  · rw [List.getElem?_append_left (by rw [h.length]; exact hj), h.told]
    refine exists_congr fun i => ?_
    constructor
    · rintro ⟨hlast, hmachines⟩
      have hlast' := (isLast_append hj [event]).2 hlast
      exact ⟨hlast', by rwa [hrequest i j hlast']⟩
    · rintro ⟨hlast, hmachines⟩
      exact ⟨(isLast_append hj [event]).1 hlast, by rwa [hrequest i j hlast] at hmachines⟩
  · rw [← h.length, List.getElem?_concat_length, Option.some_inj, htold, h.length]
    refine exists_congr fun i => and_congr_right fun hlast => ?_
    rw [hrequest i _ hlast]
  · rw [List.getElem?_eq_none (by simp [h.length]; omega)]
    refine iff_of_false (fun hnone => by cases hnone) ?_
    rintro ⟨i, hlast, -⟩
    have hlt := hlast.lt
    simp at hlt
    omega

/-- A request is kept. -/
theorem Tracks.request {s : SwitchServer} (h : Tracks before s) (hmachines : machines.Nonempty) :
    ∃ s', s.step (.request machines target) = .ok s' ∧ Tracks (before ++ [.request machines target]) s' := by
  refine ⟨_, if_pos hmachines.card_pos, fun target' => ?_, by simp [h.length], h.told_append fun allMachines => ?_⟩
  · rw [outstanding_request hmachines]
    have hadd : s.switches.addSwitch machines target = Function.update s.switches target
        (some (outstanding before target ++
          [{ targetPstate := target, allMachines := machines, switchingMachines := machines }])) := by
      unfold CurrentSwitches.addSwitch
      rw [h.kept, listed]
      by_cases hnil : outstanding before target = []
      · rw [if_pos hnil, hnil]
        rfl
      · rw [if_neg hnil]
    dsimp only
    rw [hadd]
    by_cases htarget : target' = target
    · subst htarget
      rw [Function.update_self, if_pos rfl, listed, if_neg (by simp)]
    · rw [Function.update_of_ne htarget, if_neg (Ne.symm htarget), List.append_nil, h.kept]
  · refine iff_of_false (fun hnone => by cases hnone) ?_
    rintro ⟨i, hlast, -⟩
    obtain ⟨machine, target', hevent, -, -⟩ := isLast_length.1 hlast
    cases hevent

/-- Only one request for a power state awaits a machine. -/
theorem Proper.eq_of_mem (h : Proper events) (hfor : IsFor events i target) (hfor' : IsFor events i' target)
    (hmem : machine ∈ awaited events i) (hmem' : machine ∈ awaited events i') : i' = i := by
  by_contra hne
  exact Finset.disjoint_left.1 (h.disjoint hfor hfor' (Ne.symm hne)) hmem hmem'

/-- Marking a machine turns the switches outstanding before into those outstanding after, and tells of the request whose last
machine it is. -/
theorem Proper.markInList (h : Proper before) (hfor : IsFor before i target) (hmem : machine ∈ awaited before i)
    (hrequest : requestAt before i = some (machines, target)) :
    CurrentSwitches.markInList machine (outstanding before target) =
      some (outstanding (before ++ [.switched machine target]) target,
        if (awaited before i).erase machine = ∅ then some machines else none) := by
  have hi := hfor.lt
  rw [outstanding_switched]
  have hkept := keptSwitch_eq hfor hrequest (Finset.ne_empty_of_mem hmem)
  refine markInList_filterMap List.nodup_range (List.mem_range.2 hi) hkept hmem (fun i' hi' hne => ?_) ?_
  · -- the other requests for this power state do not await the machine
    have hnot : IsFor before i' target → machine ∉ awaited before i' := fun hfor' hmem' => hne (h.eq_of_mem hfor hfor' hmem hmem')
    refine ⟨keptSwitch_append (List.mem_range.1 hi') fun hfor' => ?_, fun s' hs' => ?_⟩
    · rw [awaited_append_switched (List.mem_range.1 hi') hfor', Finset.erase_eq_of_notMem (hnot hfor')]
    · obtain ⟨hfor', hawaited⟩ := of_keptSwitch hs'
      rw [hawaited]
      exact hnot hfor'
  · have hafter := @awaited_append_switched before i machine target hi hfor
    dsimp only
    split
    · rename_i hempty
      exact ⟨by rw [keptSwitch, if_neg fun hkept => hkept.2 (hafter.trans hempty)], rfl⟩
    · rename_i hempty
      refine ⟨?_, rfl⟩
      rw [keptSwitch_eq ((isFor_append hi _).2 hfor) ((requestAt_append hi _).trans hrequest) (by rwa [hafter]), hafter]

/-- A machine that a request awaits is marked in it, and the scheduler is answered if it is the last one. -/
theorem Tracks.switched {s : SwitchServer} (h : Tracks before s) (hproper : Proper before) (hfor : IsFor before i target)
    (hmem : machine ∈ awaited before i) :
    ∃ s', s.step (.switched machine target) = .ok s' ∧ Tracks (before ++ [.switched machine target]) s' := by
  obtain ⟨machines, hrequest⟩ := isFor_iff.1 hfor
  have hi := hfor.lt
  obtain ⟨list, hlist⟩ : ∃ list, outstanding (before ++ [.switched machine target]) target = list := ⟨_, rfl⟩
  have hmark := hproper.markInList hfor hmem hrequest
  rw [hlist] at hmark
  -- the map has a list for the power state, and keeps one unless it gets empty
  have hlookup : s.switches target = some (outstanding before target) := by
    rw [h.kept, listed, if_neg (outstanding_ne_nil hfor hrequest (Finset.ne_empty_of_mem hmem))]
  have hstep : s.switches.markSwitchAsDone machine target = .ok (Function.update s.switches target (listed list),
      if (awaited before i).erase machine = ∅ then some machines else none) := by
    unfold CurrentSwitches.markSwitchAsDone
    rw [hlookup]
    dsimp only
    rw [hmark]
    by_cases hempty : (awaited before i).erase machine = ∅
    · simp [hempty, listed]
    · have hkept : list ≠ [] := hlist ▸ outstanding_ne_nil ((isFor_append hi _).2 hfor) ((requestAt_append hi _).trans hrequest)
        (by rwa [awaited_append_switched hi hfor])
      simp [hempty, listed, hkept]
  refine ⟨_, by rw [SwitchServer.step, hstep]; rfl, fun target' => ?_, by simp [h.length], h.told_append fun allMachines => ?_⟩
  · dsimp only
    by_cases htarget : target' = target
    · subst htarget
      rw [Function.update_self, hlist]
    · rw [Function.update_of_ne htarget, h.kept, outstanding_switched, outstanding]
      refine congrArg listed (List.filterMap_congr fun i' hi' => (keptSwitch_append (List.mem_range.1 hi') fun hfor' => ?_).symm)
      exact awaited_append_of_not_isFor (List.mem_range.1 hi') fun hfor'' => htarget (hfor'.unique hfor'')
  · simp only [Finset.erase_eq_empty_iff, Finset.ne_empty_of_mem hmem, false_or]
    constructor
    · intro htold
      split at htold
      · rename_i hlast
        exact ⟨i, isLast_length.2 ⟨machine, target, rfl, hfor, hlast⟩, by rw [hrequest]; exact htold⟩
      · cases htold
    · rintro ⟨i', hlast, hmachines⟩
      obtain ⟨machine', target', hevent, hfor', hawaited⟩ := isLast_length.1 hlast
      obtain ⟨rfl, rfl⟩ := SwitchEvent.switched.inj hevent
      obtain rfl := hproper.eq_of_mem hfor hfor' hmem (hawaited ▸ Finset.mem_singleton_self machine)
      rw [if_pos hawaited]
      rwa [hrequest] at hmachines

/-- What can come next goes through. -/
theorem Tracks.step {s : SwitchServer} (h : Tracks before s) (hproper : Proper before) (hfollow : CanFollow before event) :
    ∃ s', s.step event = .ok s' ∧ Tracks (before ++ [event]) s' := by
  cases event with
  | request machines target => exact h.request hfollow.1
  | switched machine target =>
    obtain ⟨i, -, hfor, hmem⟩ := hfollow
    exact h.switched hproper hfor hmem

/-- A whole history goes through. -/
theorem Proper.tracks (h : Proper events) : ∃ s, runFrom step {} events = .ok s ∧ Tracks events s := by
  induction events using List.reverseRecOn with
  | nil =>
    refine ⟨{}, rfl, fun target => rfl, rfl, fun j allMachines => iff_of_false (fun hnone => ?_) ?_⟩
    · simp at hnone
    · rintro ⟨i, hlast, -⟩
      exact absurd hlast.lt (Nat.not_lt_zero j)
  | append_singleton before event ih =>
    obtain ⟨hbefore, hfollow⟩ := proper_append.1 h
    obtain ⟨s, hrun, htracks⟩ := ih hbefore
    obtain ⟨s', hstep, htracks'⟩ := htracks.step hbefore hfollow
    refine ⟨s', ?_, htracks'⟩
    rw [runFrom_append hrun, runFrom_cons_ok hstep, runFrom_nil]

/-- Whatever the order in which the machines are switched, each request is answered once, at its last machine, with its machines,
and none is kept once all its machines have been switched. -/
theorem switch_requests_reported_once (events : List SwitchEvent) (h : Proper events) :
    ∃ s, runFrom step {} events = .ok s ∧ ReportedOnce events s := by
  obtain ⟨s, hrun, htracks⟩ := h.tracks
  refine ⟨s, hrun, htracks.told, fun i i' j hlast hlast' => ?_, fun i target hfor hawaited => ?_, fun i hawaited j hlast => ?_,
    htracks.kept⟩
  · obtain ⟨machine, target, hevent, hfor, hawaited⟩ := hlast
    obtain ⟨machine', target', hevent', hfor', hawaited'⟩ := hlast'
    obtain ⟨rfl, rfl⟩ := SwitchEvent.switched.inj (Option.some.inj (hevent.symm.trans hevent'))
    have hself := Finset.mem_singleton_self machine
    exact (h.take j).eq_of_mem hfor' hfor (hawaited' ▸ hself) (hawaited ▸ hself)
  · obtain ⟨j, hlast⟩ := h.exists_isLast hfor hawaited
    exact ⟨j, hlast, fun j' hlast' => hlast'.unique hlast⟩
  · exact hawaited hlast.awaited_eq

theorem switch_requests_reported_once_witness :
    ∃ s, runFrom step {} [.request {1, 2} 0, .request {3} 0, .request {1} 5, .switched 2 0, .switched 3 0, .switched 1 5,
      .switched 1 0] = .ok s ∧ ReportedOnce [.request {1, 2} 0, .request {3} 0, .request {1} 5, .switched 2 0, .switched 3 0,
      .switched 1 5, .switched 1 0] s :=
  switch_requests_reported_once _ (by decide +kernel)

end SwitchServer

end ScheduleTest
