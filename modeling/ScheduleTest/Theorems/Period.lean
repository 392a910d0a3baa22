import ScheduleTest.Lemmas.Period

/-!
# The machines available during a period

`available_machines_during_period` is meant to give the machines that are available at every date of a period. Its search begins
with the first slice that begins at the begin of the period or later, and so it passes over a slice inside which the period begins.
-/

namespace ScheduleTest

open PeriodAux

/-- A machine is available at every date of a period. -/
def Schedule.AvailableThroughout (s : Schedule) (beginDate endDate : ℚ) (m : ℕ) : Prop :=
  ∀ x, beginDate ≤ x → x < endDate → ∀ content ∈ s.atDate x, m ∈ content.availableMachines

/-- The search gives the machines that are available at every date of the period. -/
def Schedule.ExactDuring (s : Schedule) (beginDate endDate : ℚ) : Prop :=
  ∃ machines, s.availableMachinesDuringPeriod beginDate endDate = .ok machines ∧
    ∀ m, m ∈ machines ↔ s.AvailableThroughout beginDate endDate m

/-- A machine is available in all of some slices that begin before a date. -/
def AvailableIn (slices : List TimeSlice) (endDate : ℚ) (m : ℕ) : Prop :=
  ∀ t ∈ slices, t.beginDate < endDate → m ∈ t.availableMachines

/-- What the search passes over, or looks at beside the period, makes no difference. Where the period begins with the first slice,
that slice may take no time: then what is available from the period's begin to its end is so in that slice too. Where it begins
with no slice, there is a next slice: if that is in the period, what is available in the slices that begin in the period is so in
the slice in which the period begins, and if not, the two have the same machines available. -/
def Schedule.SeesPeriod (s : Schedule) (beginDate endDate : ℚ) : Prop :=
  ∃ before inside after, s.profile = before ++ inside :: after ∧ inside.beginDate ≤ beginDate ∧ beginDate < inside.endDate ∧
    if s.firstSliceBegin = beginDate then
      ∀ m, AvailableIn (inside :: after) endDate m → ∀ t ∈ before, m ∈ t.availableMachines
    else inside.beginDate = beginDate ∨ ∃ next ∈ after.head?,
      if next.beginDate < endDate then ∀ m, AvailableIn after endDate m → m ∈ inside.availableMachines
      else next.availableMachines = inside.availableMachines

namespace PeriodAux

variable {s : Schedule} {b e : ℚ} {before after : List TimeSlice} {inside : TimeSlice}

/-- What the search finds in the slices around the begin of a period. -/
theorem Around.exactDuring_iff (h : Around s b before inside after) (hb : s.firstSliceBegin ≤ b) (hlt : b < e)
    (he : e ≤ s.infiniteHorizon) : s.ExactDuring b e ↔
      if s.firstSliceBegin = b then ∀ m, AvailableIn (inside :: after) e m → ∀ t ∈ before, m ∈ t.availableMachines
      else inside.beginDate = b ∨ ∃ next ∈ after.head?,
        if next.beginDate < e then ∀ m, AvailableIn after e m → m ∈ inside.availableMachines
        else next.availableMachines = inside.availableMachines := by
  have hthrough := h.availableThroughout_iff hlt
  -- a result is what it is
  have hresult : ∀ {machines : IntervalSet}, s.availableMachinesDuringPeriod b e = .ok machines →
      (s.ExactDuring b e ↔ ∀ m, m ∈ machines ↔ AvailableIn (inside :: after) e m) := by
    intro machines hok
    constructor
    · rintro ⟨machines', hok', hexact⟩ m
      cases hok.symm.trans hok'
      exact (hexact m).trans (hthrough m)
    · exact fun hexact => ⟨machines, hok, fun m => (hexact m).trans (hthrough m).symm⟩
  split
  · rename_i hfirst
    obtain ⟨machines, hok, hmem⟩ := h.search_first hfirst hlt he
    rw [hresult hok]
    refine forall_congr' fun m => ?_
    rw [hmem m]
    exact ⟨fun hiff hall => (hiff.2 hall).1, fun himp => ⟨fun hboth => hboth.2, fun hall => ⟨himp hall, hall⟩⟩⟩
  · rename_i hne
    have hfirst := lt_of_le_of_ne hb hne
    rcases h.begins.eq_or_lt with hinside | hinside
    · obtain ⟨machines, hok, hmem⟩ := h.search_begin hfirst hinside hlt he
      exact iff_of_true ((hresult hok).2 hmem) (Or.inl hinside)
    · rw [or_iff_right hinside.ne]
      cases hafter : after with
      | nil =>
        refine iff_of_false ?_ (by simp)
        rintro ⟨machines, hok, _⟩
        exact h.search_last hfirst hinside hafter machines hok
      | cons next rest =>
        obtain ⟨machines, hok, hmem⟩ := h.search_inside hfirst hinside hafter he
        rw [hresult hok]
        simp only [List.head?_cons, Option.mem_def, Option.some.injEq, exists_eq_left']
        rw [← hafter]
        have hsplit : ∀ m, AvailableIn (inside :: after) e m ↔ m ∈ inside.availableMachines ∧ AvailableIn after e m := by
          intro m
          unfold AvailableIn
          rw [List.forall_mem_cons]
          exact and_congr_left' ⟨fun himp => himp (hinside.trans hlt), fun hin _ => hin⟩
        split
        · rename_i hnext
          refine forall_congr' fun m => ?_
          rw [hmem m, hsplit m]
          constructor
          · intro hiff hall
            exact (hiff.1 ⟨hall next (hafter ▸ List.mem_cons_self) hnext, hall⟩).1
          · intro himp
            exact ⟨fun hboth => ⟨himp hboth.2, hboth.2⟩, fun hboth => ⟨hboth.2 next (hafter ▸ List.mem_cons_self) hnext, hboth.2⟩⟩
        · rename_i hnext
          -- no slice begins in the period
          have hnone : ∀ m, AvailableIn after e m := by
            intro m t ht hte
            refine absurd hte (not_lt.2 ((not_lt.1 hnext).trans ?_))
            obtain ⟨c, htiling⟩ := h.tiling
            rw [hafter] at htiling ht
            rcases List.mem_cons.1 ht with rfl | ht
            · exact le_rfl
            · exact htiling.2.1.le.trans (htiling.2.2.bounds ht).1
          rw [Finset.ext_iff]
          refine forall_congr' fun m => ?_
          rw [(hmem m).trans (and_iff_left (hnone m)), (hsplit m).trans (and_iff_left (hnone m))]

end PeriodAux

/-- For every schedule whose slices follow each other, and every period from its begin on up to its horizon: the search is exact
where what it passes over, or looks at beside the period, makes no difference, and nowhere else. -/
theorem period_exact_iff (s : Schedule) (ht : Timed s.profile) (beginDate endDate : ℚ) (hb : s.firstSliceBegin ≤ beginDate)
    (hlt : beginDate < endDate) (he : endDate ≤ s.infiniteHorizon) :
    s.ExactDuring beginDate endDate ↔ s.SeesPeriod beginDate endDate := by
  obtain ⟨before, inside, after, h⟩ := exists_around ht hb (hlt.trans_le he)
  constructor
  · exact fun hexact => ⟨before, inside, after, h.profile, h.begins, h.ends, (h.exactDuring_iff hb hlt he).1 hexact⟩
  · rintro ⟨before', inside', after', hprofile, hbegin, hend, hsees⟩
    exact ((Around.mk ht hprofile hbegin hend).exactDuring_iff hb hlt he).2 hsees

namespace PeriodWitness

/-- A job of one machine for ten seconds. -/
def job : Job := { id := "w!1", nbRequestedResources := 1, walltime := 10 }

/-- Two machines, of which the job has machine 0 up to date 10. -/
def added : Option Schedule := ((Schedule.new 2 0).addJobFirstFit job).toOption.map Prod.fst

/-- The schedule with the job, and what it says of its times. -/
theorem exists_added {β : Type*} {f : Schedule → β} {b : β} (h : added.map f = some b) :
    ∃ s alloc, (Schedule.new 2 0).addJobFirstFit job = .ok (s, alloc) ∧ Timed s.profile ∧ f s = b := by
  unfold added at h
  rw [Option.map_map] at h
  obtain ⟨⟨s, alloc⟩, hs, hvalue⟩ := Execution.toOption_map_eq_some.1 h
  exact ⟨s, alloc, hs, (Timed.new 2 0).addJobFirstFit hs, hvalue⟩

end PeriodWitness

open PeriodWitness in
/-- A period that begins with the slice after the job. -/
theorem period_exact_iff_witness :
    ∃ s alloc, (Schedule.new 2 0).addJobFirstFit job = .ok (s, alloc) ∧ s.ExactDuring 10 20 := by
  have hvalue : added.map (fun s => (s.profile.map (fun t => (t.beginDate, t.endDate)), decide (20 ≤ s.infiniteHorizon))) =
      some ([(0, 10), (10, horizon)], true) := by decide +kernel
  obtain ⟨s, alloc, hs, ht, hvalue⟩ := exists_added hvalue
  obtain ⟨hdates, hhorizon⟩ := Prod.mk.inj hvalue
  have hfirst : s.firstSliceBegin = 0 := by
    have hhead := congrArg List.head? hdates
    rw [List.head?_map] at hhead
    obtain ⟨t, ht, hdate⟩ := Option.map_eq_some_iff.1 hhead
    unfold Schedule.firstSliceBegin
    rw [ht]
    exact (Prod.mk.inj hdate).1
  refine ⟨s, alloc, hs, (period_exact_iff s ht 10 20 (hfirst.trans_le (by decide)) (by decide) (of_decide_eq_true hhorizon)).2 ?_⟩
  obtain ⟨first, l, hprofile, hbegin, hl⟩ := List.map_eq_cons_iff.1 hdates
  obtain ⟨second, l', rfl, hinside, hl'⟩ := List.map_eq_cons_iff.1 hl
  rw [List.map_eq_nil_iff.1 hl'] at hprofile
  obtain ⟨hbegin, hend⟩ := Prod.mk.inj hinside
  refine ⟨[first], second, [], hprofile, hbegin.le, ?_, ?_⟩
  · rw [hend]
    decide +kernel
  · rw [hfirst, if_neg (by decide)]
    exact Or.inl hbegin

open PeriodWitness in
/-- From date 5 to date 15 only machine 1 is available throughout, and the search finds both machines; from date 15 to date 20 it
finds no slice. -/
theorem period_exact_false :
    (¬ ∀ (s : Schedule) (beginDate endDate : ℚ), Timed s.profile → s.firstSliceBegin ≤ beginDate → beginDate < endDate →
      endDate ≤ s.infiniteHorizon → s.ExactDuring beginDate endDate) ∧
    added.map (fun s => ((s.availableMachinesDuringPeriod 5 15).toOption, (s.atDate 5).map SliceContent.availableMachines)) =
      some (some {0, 1}, some {1}) ∧
    added.map (fun s => (s.availableMachinesDuringPeriod 15 20).toOption) = some none := by
  have hvalue : added.map (fun s => (decide (s.firstSliceBegin ≤ 5 ∧ 15 ≤ s.infiniteHorizon),
      (s.availableMachinesDuringPeriod 5 15).toOption, (s.atDate 5).map SliceContent.availableMachines)) =
      some (true, some {0, 1}, some {1}) := by decide +kernel
  refine ⟨fun h => ?_, by decide +kernel, by decide +kernel⟩
  obtain ⟨s, _, _, ht, hvalue⟩ := exists_added hvalue
  obtain ⟨hbounds, hvalue⟩ := Prod.mk.inj hvalue
  obtain ⟨hfound, havailable⟩ := Prod.mk.inj hvalue
  obtain ⟨hfirst, hhorizon⟩ := of_decide_eq_true hbounds
  obtain ⟨machines, hok, hexact⟩ := h s 5 15 ht hfirst (by decide) hhorizon
  rw [hok] at hfound
  obtain ⟨content, hcontent, hmachines⟩ := Option.map_eq_some_iff.1 havailable
  have hzero := (hexact 0).1 (by rw [Option.some.inj hfound]; decide) 5 le_rfl (by decide) content hcontent
  rw [hmachines] at hzero
  exact absurd hzero (by decide)

end ScheduleTest
