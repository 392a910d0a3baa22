import ScheduleTest.Lemmas.Plan
import Mathlib.Data.List.Chain

/-!
# Neighbouring slices

A slice is cut where a job ends, and slices that come to hold the same jobs are merged. So the calls of a scheduler keep
neighbouring slices different in the jobs they hold (`NeighboursDiffer`), and a slice ends where some job ends or begins.
-/

namespace ScheduleTest

open Timeline

/-- Neighbouring slices hold different jobs. -/
def NeighboursDiffer (p : List TimeSlice) : Prop := (p.map TimeSlice.allocatedJobs).IsChain (· ≠ ·)

/-- Slices of a profile that hold different jobs give different machines to some job. -/
theorem RunsOk.exists_machinesOf_ne {W : NamedJobs} {p : List TimeSlice} {t u : TimeSlice} (hruns : RunsOk W p) (ht : t ∈ p)
    (hu : u ∈ p) (hne : t.allocatedJobs ≠ u.allocatedJobs) : ∃ job ∈ W.jobs, machinesOf job t ≠ machinesOf job u := by
  by_contra hnone
  push Not at hnone
  have hside : ∀ v ∈ p, ∀ w ∈ p, (∀ job ∈ W.jobs, machinesOf job v = machinesOf job w) →
      ∀ e ∈ v.allocatedJobs.entries, e ∈ w.allocatedJobs.entries := by
    intro v hv w hw heq e he
    have hjob := hruns.known v hv e he
    have hfind : machinesOf e.1 v = some e.2 := KeyedMap.find?_eq_some.2 ⟨e.1, he, rfl⟩
    rw [heq e.1 hjob] at hfind
    obtain ⟨job, hmem, hid⟩ := KeyedMap.find?_eq_some.1 hfind
    obtain rfl := W.id_injOn (hruns.known w hw _ hmem) hjob hid
    exact hmem
  exact hne (KeyedMap.ext_mem fun e =>
    ⟨hside t ht u hu hnone e, hside u hu t ht (fun job hjob => (hnone job hjob).symm) e⟩)

/-- Slices that are not merged hold different jobs. -/
theorem allocatedJobs_ne_of_not_merged {previous pit : TimeSlice} (h : previous.mergeWithPrevious pit = .ok none) :
    previous.allocatedJobs ≠ pit.allocatedJobs := by
  intro heq
  rw [TimeSlice.mergeWithPrevious, if_pos (.inl heq)] at h
  split at h <;> cases h

namespace NeighboursDiffer

variable {W : NamedJobs} {job : Job} {ms : IntervalSet} {p p' before before' after rest : List TimeSlice} {pit : TimeSlice}

theorem reverse_iff : NeighboursDiffer p.reverse ↔ NeighboursDiffer p := by
  rw [NeighboursDiffer, List.map_reverse, List.isChain_reverse]
  exact List.IsChain.iff fun _ _ => ne_comm

/-- Two lists of slices may follow each other where the last of the one and the first of the other hold different jobs. -/
theorem append (h : NeighboursDiffer p) (h' : NeighboursDiffer p')
    (hjoin : ∀ t ∈ p.getLast?, ∀ u ∈ p'.head?, t.allocatedJobs ≠ u.allocatedJobs) : NeighboursDiffer (p ++ p') := by
  rw [NeighboursDiffer, List.map_append]
  refine List.IsChain.append h h' fun x hx y hy => ?_
  rw [List.getLast?_map] at hx
  rw [List.head?_map] at hy
  obtain ⟨t, ht, rfl⟩ := Option.map_eq_some_iff.1 hx
  obtain ⟨u, hu, rfl⟩ := Option.map_eq_some_iff.1 hy
  exact hjoin t ht u hu

theorem left (h : NeighboursDiffer (p ++ p')) : NeighboursDiffer p := by
  rw [NeighboursDiffer, List.map_append] at h
  exact h.left_of_append

theorem right (h : NeighboursDiffer (p ++ p')) : NeighboursDiffer p' := by
  rw [NeighboursDiffer, List.map_append] at h
  exact h.right_of_append

/-- A slice to which a job has been allocated holds other jobs than one without it. -/
theorem allocateJob_ne {t : TimeSlice} (ht : t.containsJob job = false) (u : TimeSlice) (ms : IntervalSet) :
    (u.allocateJob job ms).allocatedJobs ≠ t.allocatedJobs := by
  intro heq
  have hu : machinesOf job (u.allocateJob job ms) = some ms := by rw [machinesOf_allocateJob, if_pos rfl]
  rw [machinesOf, heq] at hu
  rw [containsJob_eq_isSome, machinesOf, hu] at ht
  cases ht

/-- A job allocated to slices without it leaves neighbours different. -/
theorem allocateJob (ms : IntervalSet) (h : NeighboursDiffer p) (hnew : ∀ t ∈ p, t.containsJob job = false) :
    NeighboursDiffer (p.map (TimeSlice.allocateJob job ms)) := by
  -- taking the job out again would leave the same jobs
  have hback : ∀ t ∈ p, KeyedMap.erase (t.allocateJob job ms).allocatedJobs job = t.allocatedJobs :=
    fun t ht => KeyedMap.erase_insert_of_new (KeyedMap.contains_eq_false_iff.1 (hnew t ht))
  rw [NeighboursDiffer, List.map_map, List.isChain_map]
  refine ((List.isChain_map _).1 h).imp_of_mem_imp fun t u ht hu hne heq => hne ?_
  have herase := congrArg (fun m => KeyedMap.erase m job) heq
  exact ((hback t ht).symm.trans herase).trans (hback u hu)

/-- What is behind the cut of a slice may stand for it. -/
theorem splitSlice (endDate : ℚ) (h : NeighboursDiffer (pit :: rest)) :
    NeighboursDiffer ((pit.splitSlice endDate).2.toList ++ rest) := by
  cases hs : (pit.splitSlice endDate).2 with
  | none => exact right (p := [pit]) h
  | some t =>
    obtain ⟨b, l, rfl⟩ := splitSlice_snd hs
    exact h

/-- Placing a job cuts a slice where it ends. -/
theorem placeAt {a : Anchor} (endDate : ℚ) (h : NeighboursDiffer (a.before.reverse ++ (a.covered ++ a.last :: a.rest)))
    (hnew : ∀ t ∈ a.before.reverse ++ (a.covered ++ a.last :: a.rest), t.containsJob job = false) :
    NeighboursDiffer (Schedule.placeAt job a endDate) := by
  obtain ⟨e, l, hfst⟩ := splitSlice_fst a.last endDate
  have hcovered := h.right
  rw [← List.singleton_append, ← List.append_assoc] at hcovered
  have htaken := hcovered.left.allocateJob a.usedMachines fun t ht => hnew t (by
    simp only [List.mem_append, List.mem_cons, List.not_mem_nil, or_false] at ht ⊢
    tauto)
  have htaken' : NeighboursDiffer
      ((a.covered ++ [(a.last.splitSlice endDate).1]).map (TimeSlice.allocateJob job a.usedMachines)) := by
    rw [hfst]
    simp only [NeighboursDiffer, List.map_append, List.map_cons, List.map_nil] at htaken ⊢
    exact htaken
  have hheld : ∀ t ∈ (a.covered ++ [(a.last.splitSlice endDate).1]).map (TimeSlice.allocateJob job a.usedMachines),
      ∃ u, t = TimeSlice.allocateJob job a.usedMachines u := fun t ht => (List.mem_map.1 ht).imp fun u hu => hu.2.symm
  rw [placeAt_eq]
  refine append h.left (append htaken' (splitSlice endDate h.right.right) fun t ht u hu => ?_) fun t ht u hu => ?_
  · -- the last slice of the job, and the first behind it
    obtain ⟨v, rfl⟩ := hheld t (List.mem_of_getLast? ht)
    refine allocateJob_ne ?_ v _
    rcases List.mem_append.1 (List.mem_of_mem_head? hu) with hu | hu
    · obtain ⟨b, l, rfl⟩ := splitSlice_snd (Option.mem_toList.1 hu)
      exact hnew a.last (by simp)
    · exact hnew u (by simp [hu])
  · -- the last slice before the job, and the first of it
    have hmem : u ∈ (a.covered ++ [(a.last.splitSlice endDate).1]).map (TimeSlice.allocateJob job a.usedMachines) := by
      cases hc : a.covered with
      | nil =>
        rw [hc] at hu
        obtain rfl := Option.some.inj hu
        simp
      | cons c cs =>
        rw [hc] at hu
        obtain rfl := Option.some.inj hu
        simp
    obtain ⟨v, rfl⟩ := hheld u hmem
    exact (allocateJob_ne (hnew t (List.mem_append_left _ (List.mem_of_getLast? ht))) v _).symm

/-- Putting a slice behind others merges it with the nearest where they hold the same jobs. -/
theorem appendMerging (hruns : RunsOk W (before.reverse ++ pit :: rest)) (h : NeighboursDiffer before)
    (ha : ScheduleTest.appendMerging before pit = .ok before') :
    NeighboursDiffer before' ∧ before'.head?.map TimeSlice.allocatedJobs = some pit.allocatedJobs := by
  cases before with
  | nil =>
    cases ha
    exact ⟨List.isChain_singleton _, rfl⟩
  | cons previous older =>
    rw [ScheduleTest.appendMerging] at ha
    split at ha
    · rename_i merged hm
      cases ha
      rw [List.reverse_cons, List.append_assoc, List.singleton_append] at hruns
      have heq := hruns.allocatedJobs_eq_of_merge hm
      have hmerged : merged.allocatedJobs = pit.allocatedJobs := by rw [(mergeWithPrevious_some hm).1]; rfl
      refine ⟨?_, by rw [List.head?_cons, Option.map_some, hmerged]⟩
      rw [NeighboursDiffer, List.map_cons, hmerged, ← heq]
      exact h
    · rename_i hm
      cases ha
      refine ⟨?_, rfl⟩
      rw [NeighboursDiffer, List.map_cons, List.map_cons]
      exact .cons_cons (allocatedJobs_ne_of_not_merged hm).symm h
    · cases ha

/-- Removing a job merges the slices that come to hold the same jobs. -/
theorem removeFrom (hruns : RunsOk W (before.reverse ++ after)) (hb : ∀ t ∈ before, t.containsJob job = false)
    (h : NeighboursDiffer before) (h' : NeighboursDiffer after) (hr : removeFrom job ms before after = .ok p') :
    NeighboursDiffer p' := by
  induction after generalizing before with
  | nil =>
    cases hr
    exact reverse_iff.2 h
  | cons pit rest ih =>
    rw [ScheduleTest.removeFrom] at hr
    have hrest : NeighboursDiffer rest := right (p := [pit]) h'
    split at hr
    · split at hr
      · rename_i before' ha
        have herased := @RunsOk.erase _ _ ms _ _ _ hruns fun t ht => hb t (List.mem_reverse.1 ht)
        obtain ⟨hbefore, -⟩ := appendMerging herased h ha
        have hmerged := appendMerging_rule (P := RunsOk W) (fun _ _ _ _ _ h hm => h.merge hm) herased ha
        exact ih hmerged (appendMerging_absent hb (containsJob_eraseJob job ms pit) ha) hbefore hrest hr
      · cases hr
    · split at hr
      · rename_i before' ha
        cases hr
        obtain ⟨hbefore, hhead⟩ := appendMerging hruns h ha
        refine append (reverse_iff.2 hbefore) hrest fun t ht u hu => ?_
        rw [List.getLast?_reverse] at ht
        obtain ⟨v, hv, heq⟩ := Option.map_eq_some_iff.1 hhead
        obtain rfl : v = t := Option.some.inj (hv.symm.trans ht)
        rw [heq]
        cases rest with
        | nil => cases hu
        | cons w rest =>
          obtain rfl := Option.some.inj hu
          exact ((List.isChain_cons_cons).1 h').1
      · cases hr

theorem removeJobIfExists {s s' : Schedule} {b : Bool} (hruns : RunsOk W s.profile) (h : NeighboursDiffer s.profile)
    (hr : s.removeJobIfExists job = .ok (s', b)) : NeighboursDiffer s'.profile := by
  rcases Schedule.removeJobIfExists_ok hr with ⟨_, rfl, _⟩ | ⟨_, before, pit, rest, ms, p', hprofile, hbefore, _, hp, rfl⟩
  · exact h
  · rw [hprofile] at hruns h
    rw [← List.reverse_reverse before] at hruns
    exact removeFrom hruns (fun t ht => hbefore t (List.mem_reverse.1 ht)) (reverse_iff.2 h.left) h.right hp

theorem updateFirstSlice {s s' : Schedule} {date : ℚ} (h : NeighboursDiffer s.profile) (hu : s.updateFirstSlice date = .ok s') :
    NeighboursDiffer s'.profile := by
  obtain ⟨slice, rest, hprofile, hprofile', _⟩ := Schedule.updateFirstSlice_ok hu
  rw [hprofile] at h
  rw [hprofile']
  exact h

end NeighboursDiffer

end ScheduleTest
