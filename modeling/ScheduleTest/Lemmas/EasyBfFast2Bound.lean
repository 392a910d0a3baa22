import ScheduleTest.Lemmas.EasyBfFast2Points

/-!
# Machines that are free by a date

A machine is free by a date when no point behind the date is on it. As long as no machine is under repair, the machines available and
those that the points up to a date release are free by that date (`released_le_freeBy`), so the search for a date finds one by which
the priority job can start (`Feasible`). A priority job that does not fit although it is feasible by a date waits for a point up to
that date (`exists_point`).
-/

namespace ScheduleTest

namespace EasyBFFast2

open FastMachines FastState

variable {c : FastConfig} {s : EasyState} {holder : ℕ → Holder} {job : Job} {before after : List HorizonPoint} {d : ℚ}

/-- The machines that none of some points is on. -/
def freeBy (c : FastConfig) (after : List HorizonPoint) : Finset ℕ :=
  (Finset.range c.nbMachines).filter (fun m => ∀ point ∈ after, m ∉ point.machines)

/-- When only some points are left, enough machines are free for a job; for a job that shares, a machine that no job holds alone and
that is shared by fewer jobs than may share it. -/
def Feasible (c : FastConfig) (job : Job) (after : List HorizonPoint) : Prop :=
  if c.shares job then ∃ m < c.nbMachines, (∀ point ∈ after, ¬ pointShares c point → m ∉ point.machines) ∧
    (pointSharers c after m : ℤ) < max 1 (c.coreLimit m)
  else job.nbRequestedResources ≤ (freeBy c after).card

/-- With fewer points left a job stays feasible. -/
theorem Feasible.mono {after' : List HorizonPoint} (h : Feasible c job after) (hsub : after'.Sublist after) :
    Feasible c job after' := by
  unfold Feasible at h ⊢
  split
  · rename_i hshares
    rw [if_pos hshares] at h
    obtain ⟨m, hm, hown, hlt⟩ := h
    refine ⟨m, hm, fun point hpoint => hown point (hsub.subset hpoint), lt_of_le_of_lt ?_ hlt⟩
    exact_mod_cast hsub.countP_le
  · rename_i hshares
    rw [if_neg hshares] at h
    refine h.trans (Finset.card_le_card fun m hm => ?_)
    obtain ⟨hrange, hfree⟩ := Finset.mem_filter.1 hm
    exact Finset.mem_filter.2 ⟨hrange, fun point hpoint => hfree point (hsub.subset hpoint)⟩

/-- The order of the points does not matter. -/
theorem Feasible.perm {after' : List HorizonPoint} (h : Feasible c job after) (hp : after'.Perm after) : Feasible c job after' := by
  unfold Feasible pointSharers freeBy at h ⊢
  simp only [hp.countP_eq, hp.mem_iff]
  exact h

/-- Each point is that of an entry. -/
theorem Counts.entry_of_point (h : Counts c s) {point : HorizonPoint} (hpoint : point ∈ s.horizons) :
    ∃ e ∈ s.currentAllocations.entries, e.1.id = point.id ∧ e.1.nbRequestedResources = point.nbReleasedMachines ∧
      e.2 = point.machines ∧ (c.shares e.1 ↔ pointShares c point) := by
  have hmem := h.points.mem_iff.1 (List.mem_map_of_mem (f := fun p => (p.id, p.nbReleasedMachines, p.machines)) hpoint)
  obtain ⟨e, he, heq⟩ := List.mem_map.1 hmem
  simp only [Prod.mk.injEq] at heq
  exact ⟨e, he, heq.1, heq.2.1, heq.2.2, by rw [FastConfig.shares, heq.2.1, pointShares]⟩

/-- Each entry has a point. -/
theorem Counts.point_of_entry (h : Counts c s) {e : Job × IntervalSet} (he : e ∈ s.currentAllocations.entries) :
    ∃ point ∈ s.horizons, e.1.id = point.id ∧ e.2 = point.machines ∧ (c.shares e.1 ↔ pointShares c point) := by
  have hmem := h.points.mem_iff.2 (List.mem_map_of_mem (f := fun e => (e.1.id, e.1.nbRequestedResources, e.2)) he)
  obtain ⟨point, hpoint, heq⟩ := List.mem_map.1 hmem
  simp only [Prod.mk.injEq] at heq
  exact ⟨point, hpoint, heq.1.symm, heq.2.2.symm, by rw [FastConfig.shares, ← heq.2.1, pointShares]⟩

/-- No two points are those of one job. -/
theorem Counts.nodup_points (h : Counts c s) : (s.horizons.map HorizonPoint.id).Nodup := by
  have hids := (h.points.map Prod.fst).nodup_iff.2
  rw [List.map_map, List.map_map] at hids
  exact hids s.currentAllocations.nodup_key

/-- The machines of a job that does not share are its own, and those of a job that shares one shared machine. -/
theorem holder_of_point (hr : Represents c s.toFastMachines holder) (hc : Counts c s) {point : HorizonPoint}
    (hpoint : point ∈ s.horizons) :
    (¬ pointShares c point → (∀ m, m ∈ point.machines ↔ holder m = .own point.id) ∧
      point.machines.card = point.nbReleasedMachines) ∧
    (pointShares c point → ∃ m, point.machines = {m} ∧ holder m = .shared) := by
  obtain ⟨e, he, hid, hnb, hmachines, hshares⟩ := hc.entry_of_point hpoint
  rw [← hmachines, ← hid, ← hnb, ← hshares]
  exact ⟨fun hown => ⟨hr.own e he hown, hr.sized e he⟩, hr.placed e he⟩

/-- A machine that a job holds has a point. -/
theorem point_of_holder (hr : Represents c s.toFastMachines holder) (hc : Counts c s) {m : ℕ} (hm : holder m ≠ .free) :
    ∃ point ∈ s.horizons, m ∈ point.machines ∧ (pointShares c point ↔ holder m = .shared) := by
  cases hh : holder m with
  | free => exact absurd hh hm
  | shared =>
    obtain ⟨e, he, hsh⟩ := List.countP_pos_iff.1 (hr.sharers_pos m hh)
    simp only [decide_eq_true_eq] at hsh
    obtain ⟨point, hpoint, -, hmachines, hshares⟩ := hc.point_of_entry he
    exact ⟨point, hpoint, hmachines ▸ hsh.2, by simp [← hshares, hsh.1]⟩
  | own id =>
    obtain ⟨e, he, rfl, hown⟩ := hr.owned m id hh
    obtain ⟨point, hpoint, -, hmachines, hshares⟩ := hc.point_of_entry he
    exact ⟨point, hpoint, hmachines ▸ (hr.own e he hown m).2 hh, by simp [← hshares, hown]⟩

/-- The machines of some jobs that do not share, each of which holds its own, are as many as their points release. -/
theorem card_own {points : List HorizonPoint} (hnodup : (points.map HorizonPoint.id).Nodup)
    (hown : ∀ point ∈ points, ¬ pointShares c point →
      (∀ m, m ∈ point.machines ↔ holder m = .own point.id) ∧ point.machines.card = point.nbReleasedMachines) :
    ∃ machines : Finset ℕ,
      machines.card = ((points.filter (fun point => ¬ pointShares c point)).map HorizonPoint.nbReleasedMachines).sum ∧
      ∀ m, m ∈ machines ↔ ∃ point ∈ points, ¬ pointShares c point ∧ m ∈ point.machines := by
  induction points with
  | nil => exact ⟨∅, by simp, by simp⟩
  | cons point rest ih =>
    rw [List.map_cons, List.nodup_cons] at hnodup
    obtain ⟨machines, hcard, hmem⟩ := ih hnodup.2 fun p hp => hown p (List.mem_cons_of_mem _ hp)
    by_cases hshares : pointShares c point
    · refine ⟨machines, by simp [hshares, hcard], fun m => ?_⟩
      rw [hmem]
      simp [hshares]
    · obtain ⟨hholds, hsize⟩ := hown point List.mem_cons_self hshares
      have hdisj : Disjoint point.machines machines := by
        refine Finset.disjoint_left.2 fun m hm hm' => ?_
        obtain ⟨other, ho, hne, hmo⟩ := (hmem m).1 hm'
        have hids := ((hholds m).1 hm).symm.trans (((hown other (List.mem_cons_of_mem _ ho) hne).1 m).1 hmo)
        exact hnodup.1 (List.mem_map.2 ⟨other, ho, (Holder.own.inj hids).symm⟩)
      refine ⟨point.machines ∪ machines, ?_, fun m => ?_⟩
      · rw [Finset.card_union_of_disjoint hdisj, hcard, hsize]
        simp [hshares]
      · rw [Finset.mem_union, hmem]
        simp [hshares]

/-- The machines available and those that the points behind release are free by then. -/
theorem released_le_freeBy (hr : Represents c s.toFastMachines holder) (hc : Counts c s) (hp : s.horizons = before ++ after) :
    s.nbAvailableMachines + released c s.availableCoreMachines before after ≤ (freeBy c after).card := by
  have hpoint := fun point (h : point ∈ s.horizons) => holder_of_point hr hc h
  have hbefore : ∀ {point}, point ∈ before → point ∈ s.horizons := fun h => hp ▸ List.mem_append_left _ h
  have hafter : ∀ {point}, point ∈ after → point ∈ s.horizons := fun h => hp ▸ List.mem_append_right _ h
  have hnodup := hc.nodup_points
  rw [hp, List.map_append, List.nodup_append] at hnodup
  obtain ⟨own, hcard, hmem⟩ := card_own hnodup.1 fun point h => (hpoint point (hbefore h)).1
  set core := s.availableCoreMachines.filter (fun m => 0 < pointSharers c before m ∧ pointSharers c after m = 0) with hcore
  have hshared : ∀ m ∈ core, holder m = .shared := fun m hm => (hr.core m).1 (Finset.mem_filter.1 hm).1
  have hfree : ∀ m ∈ s.availableMachines, holder m = .free := fun m hm => ((hr.available m).1 hm).2.1
  have howned : ∀ m ∈ own, ∃ point ∈ before, holder m = .own point.id := by
    intro m hm
    obtain ⟨point, hb, hne, hin⟩ := (hmem m).1 hm
    exact ⟨point, hb, (((hpoint point (hbefore hb)).1 hne).1 m).1 hin⟩
  -- a point left behind is on a machine that a job holds alone, or that it shares
  have hleft : ∀ m, ∀ point ∈ after, m ∈ point.machines →
      holder m = .own point.id ∨ holder m = .shared ∧ 0 < pointSharers c after m := by
    intro m point ha hin
    by_cases hshares : pointShares c point
    · obtain ⟨x, hx, hh⟩ := (hpoint point (hafter ha)).2 hshares
      rw [hx, Finset.mem_singleton] at hin
      subst hin
      exact .inr ⟨hh, List.countP_pos_iff.2 ⟨point, ha, by simp [hshares, hx]⟩⟩
    · exact .inl ((((hpoint point (hafter ha)).1 hshares).1 m).1 hin)
  have hsub : s.availableMachines ∪ (own ∪ core) ⊆ freeBy c after := by
    intro m hm
    refine Finset.mem_filter.2 ⟨Finset.mem_range.2 ?_, fun point ha hin => ?_⟩
    · rcases Finset.mem_union.1 hm with hm | hm
      · exact ((hr.available m).1 hm).1
      · refine hr.inRange m ?_
        rcases Finset.mem_union.1 hm with hm | hm
        · obtain ⟨point, -, hh⟩ := howned m hm
          simp [hh]
        · simp [hshared m hm]
    · rcases Finset.mem_union.1 hm with hm | hm
      · rcases hleft m point ha hin with hh | ⟨hh, -⟩ <;> cases (hfree m hm).symm.trans hh
      · rcases Finset.mem_union.1 hm with hm | hm
        · obtain ⟨other, hb, hh'⟩ := howned m hm
          rcases hleft m point ha hin with hh | ⟨hh, -⟩
          · exact hnodup.2.2 _ (List.mem_map_of_mem hb) _ (List.mem_map_of_mem ha) (Holder.own.inj (hh'.symm.trans hh))
          · cases hh'.symm.trans hh
        · rcases hleft m point ha hin with hh | ⟨-, hpos⟩
          · cases (hshared m hm).symm.trans hh
          · exact hpos.ne' (Finset.mem_filter.1 hm).2.2
  have hdisj : Disjoint own core := by
    refine Finset.disjoint_left.2 fun m hm hm' => ?_
    obtain ⟨point, -, hh⟩ := howned m hm
    cases hh.symm.trans (hshared m hm')
  have hdisj' : Disjoint s.availableMachines (own ∪ core) := by
    refine Finset.disjoint_left.2 fun m hm hm' => ?_
    rcases Finset.mem_union.1 hm' with hm' | hm'
    · obtain ⟨point, -, hh⟩ := howned m hm'
      cases (hfree m hm).symm.trans hh
    · cases (hfree m hm).symm.trans (hshared m hm')
  have hle := Finset.card_le_card hsub
  rw [Finset.card_union_of_disjoint hdisj', Finset.card_union_of_disjoint hdisj, hcard] at hle
  have hcount := hr.count
  rw [released, ← hcore]
  omega

/-- The points behind a date. -/
def pointsAfter (s : EasyState) (d : ℚ) : List HorizonPoint := s.horizons.filter (fun point => d < point.date)

/-- A job for which a date has been found can be started by then. -/
theorem feasible_of_search (hr : Represents c s.toFastMachines holder) (hc : Counts c s)
    (hfit : s.nbAvailableMachines < job.nbRequestedResources)
    (hd : earliestStart c job s.availableCoreMachines s.coresAvailable s.nbAvailableMachines s.horizons = .ok d) :
    Feasible c job (pointsAfter s d) := by
  rcases hc.search hfit with ⟨pre, point, post, hp, hfound, hstop⟩ | ⟨hfound, -⟩
  · obtain rfl : d = point.date := Except.ok.inj (hd.symm.trans hfound)
    have hsorted := hc.sorted
    rw [hp, List.pairwise_append, List.pairwise_cons] at hsorted
    -- only points after the one at which the search stops are behind the date
    have hlate : (pointsAfter s point.date).Sublist post := by
      have hpre : pre.filter (fun p => point.date < p.date) = [] :=
        List.filter_eq_nil_iff.2 fun p hpre => by simpa using hsorted.2.2 p hpre point List.mem_cons_self
      rw [pointsAfter, hp, List.filter_append, hpre, List.nil_append, List.filter_cons_of_neg (by simp)]
      exact List.filter_sublist
    refine Feasible.mono ?_ hlate
    have hp' : s.horizons = (pre ++ [point]) ++ post := by rw [hp, List.append_assoc, List.singleton_append]
    have hle := released_le_freeBy hr hc hp'
    unfold Feasible
    split
    · rename_i hshares
      have hone : job.nbRequestedResources = 1 := by simpa [FastConfig.shares] using (Bool.and_eq_true_iff.1 hshares).2
      rcases hstop with ⟨-, hpoint⟩ | hstop
      · have hmem : point ∈ s.horizons := by simp [hp]
        obtain ⟨m, hm, hh⟩ := (holder_of_point hr hc hmem).2 hpoint
        refine ⟨m, hr.inRange m (by simp [hh]), fun other ho hown hin => ?_, ?_⟩
        · have hother : other ∈ s.horizons := hp' ▸ List.mem_append_right _ ho
          cases hh.symm.trans ((((holder_of_point hr hc hother).1 hown).1 m).1 hin)
        · have hall : pointSharers c s.horizons m = pointSharers c pre m + (pointSharers c post m + 1) := by
            rw [hp, pointSharers_append, pointSharers_cons, if_pos ⟨hpoint, by simp [hm]⟩]
          rw [hc.pointSharers_eq] at hall
          have := hr.sharers_le m hh
          omega
      · rw [List.nil_append] at hstop
        obtain ⟨m, hm⟩ : (freeBy c post).Nonempty := Finset.card_pos.1 (by omega)
        obtain ⟨hrange, hfree⟩ := Finset.mem_filter.1 hm
        refine ⟨m, Finset.mem_range.1 hrange, fun other ho _ => hfree other ho, ?_⟩
        have hzero : pointSharers c post m = 0 :=
          List.countP_eq_zero.2 fun other ho hbad => hfree other ho (of_decide_eq_true hbad).2
        rw [hzero]
        simp
    · rename_i hshares
      rcases hstop with ⟨hone, hpoint⟩ | hstop
      · refine absurd ?_ hshares
        rw [FastConfig.shares, hone]
        simpa using (Bool.and_eq_true_iff.1 hpoint).1
      · rw [List.nil_append] at hstop
        omega
  · cases hd.symm.trans hfound

/-- A machine that may be shared by one more job has a free core. -/
theorem cores_of_freeCoreMachine?_none {f : FastState} (h : f.freeCoreMachine? = none) {m : ℕ} (hm : m ∈ f.availableCoreMachines) :
    f.coresAvailable m < 1 := by
  rw [freeCoreMachine?, List.find?_eq_none] at h
  simpa using h m ((Finset.mem_sort _).2 hm)

/-- A job that does not fit and can be started by a date waits for a point up to that date. -/
theorem exists_point (hr : Represents c s.toFastMachines holder) (hc : Counts c s) (hrepair : s.repairMachines = ∅)
    (hfit : s.nbAvailableMachines < job.nbRequestedResources) (hcore : c.shares job → s.freeCoreMachine? = none)
    (hfeasible : Feasible c job (pointsAfter s d)) : ∃ point ∈ s.horizons, point.date ≤ d := by
  by_contra hnone
  push Not at hnone
  have hall : pointsAfter s d = s.horizons := List.filter_eq_self.2 fun point hpoint => by simpa using hnone point hpoint
  rw [hall] at hfeasible
  have hav : ∀ m, m < c.nbMachines → holder m = .free → m ∈ s.availableMachines :=
    fun m hm hfree => (hr.available m).2 ⟨hm, hfree, by simp [hrepair]⟩
  have hcount := hr.count
  unfold Feasible at hfeasible
  split at hfeasible
  · rename_i hshares
    have hone : job.nbRequestedResources = 1 := by simpa [FastConfig.shares] using (Bool.and_eq_true_iff.1 hshares).2
    obtain ⟨m, hm, hown, hlt⟩ := hfeasible
    cases hh : holder m with
    | free =>
      have hpos := Finset.card_pos.2 ⟨m, hav m hm hh⟩
      omega
    | own id =>
      obtain ⟨point, hpoint, hin, hsh⟩ := point_of_holder hr hc (m := m) (by simp [hh])
      exact hown point hpoint (fun hbad => by simp [hsh.1 hbad] at hh) hin
    | shared =>
      have hcores := cores_of_freeCoreMachine?_none (hcore hshares) ((hr.core m).2 hh)
      rw [hc.cores] at hcores
      rw [hc.pointSharers_eq] at hlt
      have hpos := hr.sharers_pos m hh
      omega
  · have hsub : freeBy c s.horizons ⊆ s.availableMachines := by
      intro m hm
      obtain ⟨hrange, hfree⟩ := Finset.mem_filter.1 hm
      refine hav m (Finset.mem_range.1 hrange) ?_
      by_contra hne
      obtain ⟨point, hpoint, hin, -⟩ := point_of_holder hr hc hne
      exact hfree point hpoint hin
    have hle := Finset.card_le_card hsub
    omega

end EasyBFFast2

end ScheduleTest
