import ScheduleTest.Lemmas.AtDate

/-!
# What the search of a period finds

`available_machines_during_period` looks at the slices from the first one that begins at the begin of the period or later, up to the
end of the period. Where the period begins inside a slice, that slice is passed over; where the first slice begins with the period
and takes no time, it is looked at though no date of the period lies in it.
-/

namespace ScheduleTest

open Timeline

/-- The machines available in several slices. -/
theorem mem_foldl_inter {m : ℕ} (l : List TimeSlice) (machines : IntervalSet) :
    m ∈ l.foldl (fun available slice => available ∩ slice.availableMachines) machines ↔
      m ∈ machines ∧ ∀ t ∈ l, m ∈ t.availableMachines := by
  induction l generalizing machines with
  | nil => simp
  | cons t l ih =>
    rw [List.foldl_cons, ih, Finset.mem_inter, List.forall_mem_cons, and_assoc]

namespace PeriodAux

variable {s : Schedule} {b e : ℚ} {before after : List TimeSlice} {inside : TimeSlice}

/-- The slices of a schedule around a date. -/
structure Around (s : Schedule) (b : ℚ) (before : List TimeSlice) (inside : TimeSlice) (after : List TimeSlice) : Prop where
  timed : Timed s.profile
  profile : s.profile = before ++ inside :: after
  begins : inside.beginDate ≤ b
  ends : b < inside.endDate

theorem exists_around (ht : Timed s.profile) (hb : s.firstSliceBegin ≤ b) (hlt : b < s.infiniteHorizon) :
    ∃ before inside after, Around s b before inside after := by
  obtain ⟨first, rest, hprofile, hfirst, hchain⟩ := exists_chain ht
  obtain ⟨inside, hinside⟩ := hchain.lookup_isSome (hfirst ▸ hb) hlt
  obtain ⟨hmem, hwithin⟩ := mem_of_lookup hinside
  obtain ⟨before, after, hparts⟩ := List.append_of_mem hmem
  exact ⟨before, inside, after, ht, hprofile.trans hparts, hwithin.1, hwithin.2⟩

namespace Around

/-- The slices before one that a date lies in have ended by that date. -/
theorem ended (h : Around s b before inside after) {t : TimeSlice} (hmem : t ∈ before) : t.endDate ≤ b := by
  obtain ⟨_, hchain⟩ := h.timed.chained
  rw [h.profile] at hchain
  exact (hchain.order.1 t hmem).trans h.begins

theorem tiling (h : Around s b before inside after) :
    ∃ c, Tiling TimeSlice.beginDate TimeSlice.endDate inside.endDate c after := by
  obtain ⟨c, hchain⟩ := h.timed.chained
  rw [h.profile] at hchain
  exact ⟨c, (chained_append_cons.1 hchain).1⟩

/-- The slices after one that a date lies in begin later. -/
theorem later (h : Around s b before inside after) {t : TimeSlice} (hmem : t ∈ after) : b < t.beginDate ∧ t.beginDate < t.endDate := by
  obtain ⟨c, htiling⟩ := h.tiling
  obtain ⟨hle, hlt, _⟩ := htiling.bounds hmem
  exact ⟨h.ends.trans_le hle, hlt⟩

/-- The slices before one that a date lies in begin before it, the first one at the date at the latest. -/
theorem begun (h : Around s b before inside after) {t : TimeSlice} (hmem : t ∈ before) :
    t.beginDate < b ∨ t.beginDate = s.firstSliceBegin := by
  obtain ⟨c, hchain⟩ := h.timed.chained
  have hprofile := h.profile
  cases before with
  | nil => exact absurd hmem List.not_mem_nil
  | cons first rest =>
    rw [h.profile] at hchain
    rcases List.mem_cons.1 hmem with rfl | hmem'
    · right
      unfold Schedule.firstSliceBegin
      rw [hprofile]
      rfl
    · left
      have hbounds := Tiling.bounds hchain (List.mem_append_left _ hmem')
      exact hbounds.2.1.trans_le (h.ended hmem)

/-- A slice that begins in a period that begins in another slice. -/
theorem mem_takeWhile (h : Around s b before inside after) {t : TimeSlice} :
    t ∈ (inside :: after).takeWhile (fun slice => decide (slice.beginDate < e)) ↔ t ∈ inside :: after ∧ t.beginDate < e := by
  obtain ⟨c, htiling⟩ := h.tiling
  have hinside : Tiling TimeSlice.beginDate TimeSlice.endDate inside.beginDate c (inside :: after) :=
    ⟨rfl, h.begins.trans_lt h.ends, htiling⟩
  exact hinside.mem_takeWhile

end Around

/-- The search, once the first slice is known that begins with the period or later. -/
theorem search_ok {slice : TimeSlice} {rest : List TimeSlice} (hb : s.firstSliceBegin ≤ b) (he : e ≤ s.infiniteHorizon)
    (hdrop : s.profile.dropWhile (fun slice => decide (slice.beginDate < b)) = slice :: rest) :
    ∃ machines, s.availableMachinesDuringPeriod b e = .ok machines ∧ ∀ m, m ∈ machines ↔ m ∈ slice.availableMachines ∧
      ∀ t ∈ (slice :: rest).takeWhile (fun slice => decide (slice.beginDate < e)), m ∈ t.availableMachines := by
  unfold Schedule.availableMachinesDuringPeriod
  unfold Schedule.firstSliceBegin at hb
  cases hprofile : s.profile with
  | nil =>
    rw [hprofile] at hdrop
    cases hdrop
  | cons first tail =>
    rw [hprofile] at hb hdrop
    dsimp only
    rw [if_pos ⟨hb, he⟩, hdrop]
    exact ⟨_, rfl, fun m => mem_foldl_inter _ _⟩

theorem search_error (hdrop : s.profile.dropWhile (fun slice => decide (slice.beginDate < b)) = []) (machines : IntervalSet) :
    s.availableMachinesDuringPeriod b e ≠ .ok machines := by
  intro h
  unfold Schedule.availableMachinesDuringPeriod at h
  split at h
  · cases h
  · rename_i first tail hprofile
    rw [hdrop] at h
    split at h
    · cases h
    · cases h

namespace Around

/-- The slices before the date begin before it, unless the first one begins at it. -/
theorem dropWhile_before (h : Around s b before inside after) (hb : s.firstSliceBegin < b) :
    s.profile.dropWhile (fun slice => decide (slice.beginDate < b)) =
      (inside :: after).dropWhile (fun slice => decide (slice.beginDate < b)) := by
  rw [h.profile]
  refine List.dropWhile_append_of_pos fun t ht => decide_eq_true ?_
  rcases h.begun ht with hlt | heq
  · exact hlt
  · exact heq ▸ hb

/-- A period that begins with the first slice. -/
theorem search_first (h : Around s b before inside after) (hb : s.firstSliceBegin = b) (hlt : b < e) (he : e ≤ s.infiniteHorizon) :
    ∃ machines, s.availableMachinesDuringPeriod b e = .ok machines ∧ ∀ m, m ∈ machines ↔
      (∀ t ∈ before, m ∈ t.availableMachines) ∧ ∀ t ∈ inside :: after, t.beginDate < e → m ∈ t.availableMachines := by
  obtain ⟨first, rest, hprofile, hfirst, _⟩ := exists_chain h.timed
  have hdrop : s.profile.dropWhile (fun slice => decide (slice.beginDate < b)) = first :: rest := by
    rw [hprofile]
    exact List.dropWhile_cons_of_neg (by rw [hfirst, hb]; simp)
  obtain ⟨machines, hok, hmem⟩ := search_ok hb.le he hdrop
  refine ⟨machines, hok, fun m => (hmem m).trans ?_⟩
  have hbefore : ∀ t ∈ before, t.beginDate < e := by
    intro t ht
    rcases h.begun ht with hbegun | heq
    · exact hbegun.trans hlt
    · rw [heq, hb]
      exact hlt
  have htake : (first :: rest).takeWhile (fun slice => decide (slice.beginDate < e)) =
      before ++ (inside :: after).takeWhile (fun slice => decide (slice.beginDate < e)) := by
    rw [← hprofile, h.profile]
    exact List.takeWhile_append_of_pos fun t ht => decide_eq_true (hbefore t ht)
  have hhead : first ∈ (first :: rest).takeWhile (fun slice => decide (slice.beginDate < e)) := by
    rw [List.takeWhile_cons_of_pos (by rw [hfirst, hb]; exact decide_eq_true hlt)]
    exact List.mem_cons_self
  rw [htake] at hhead ⊢
  constructor
  · rintro ⟨_, hall⟩
    refine ⟨fun t ht => hall t (List.mem_append_left _ ht), fun t ht hte => hall t (List.mem_append_right _ ?_)⟩
    exact h.mem_takeWhile.2 ⟨ht, hte⟩
  · rintro ⟨hall, hall'⟩
    have hlooked : ∀ t ∈ before ++ (inside :: after).takeWhile (fun slice => decide (slice.beginDate < e)),
        m ∈ t.availableMachines := by
      intro t ht
      rcases List.mem_append.1 ht with ht | ht
      · exact hall t ht
      · obtain ⟨hmem, hte⟩ := h.mem_takeWhile.1 ht
        exact hall' t hmem hte
    exact ⟨hlooked first hhead, hlooked⟩

/-- A period that begins with a later slice. -/
theorem search_begin (h : Around s b before inside after) (hb : s.firstSliceBegin < b) (hinside : inside.beginDate = b) (hlt : b < e)
    (he : e ≤ s.infiniteHorizon) : ∃ machines, s.availableMachinesDuringPeriod b e = .ok machines ∧ ∀ m, m ∈ machines ↔
      ∀ t ∈ inside :: after, t.beginDate < e → m ∈ t.availableMachines := by
  have hdrop : s.profile.dropWhile (fun slice => decide (slice.beginDate < b)) = inside :: after := by
    rw [h.dropWhile_before hb]
    exact List.dropWhile_cons_of_neg (by rw [hinside]; simp)
  obtain ⟨machines, hok, hmem⟩ := search_ok hb.le he hdrop
  refine ⟨machines, hok, fun m => (hmem m).trans ?_⟩
  constructor
  · rintro ⟨_, hall⟩ t ht hte
    exact hall t (h.mem_takeWhile.2 ⟨ht, hte⟩)
  · intro hall
    refine ⟨hall inside List.mem_cons_self (hinside ▸ hlt), fun t ht => ?_⟩
    obtain ⟨hmem, hte⟩ := h.mem_takeWhile.1 ht
    exact hall t hmem hte

theorem dropWhile_inside (h : Around s b before inside after) (hb : s.firstSliceBegin < b) (hinside : inside.beginDate < b) :
    s.profile.dropWhile (fun slice => decide (slice.beginDate < b)) = after := by
  have hpast : (inside :: after).dropWhile (fun slice => decide (slice.beginDate < b)) =
      after.dropWhile (fun slice => decide (slice.beginDate < b)) := List.dropWhile_cons_of_pos (by simpa using hinside)
  rw [h.dropWhile_before hb, hpast]
  cases after with
  | nil => rfl
  | cons next rest =>
    have hnext := (h.later List.mem_cons_self).1
    exact List.dropWhile_cons_of_neg (by simpa using hnext.le)

/-- A period that begins inside a slice, which is passed over. -/
theorem search_inside (h : Around s b before inside after) (hb : s.firstSliceBegin < b) (hinside : inside.beginDate < b)
    {next : TimeSlice} {rest : List TimeSlice} (hafter : after = next :: rest)
    (he : e ≤ s.infiniteHorizon) : ∃ machines, s.availableMachinesDuringPeriod b e = .ok machines ∧ ∀ m, m ∈ machines ↔
      m ∈ next.availableMachines ∧ ∀ t ∈ after, t.beginDate < e → m ∈ t.availableMachines := by
  obtain ⟨machines, hok, hmem⟩ := search_ok hb.le he ((h.dropWhile_inside hb hinside).trans hafter)
  obtain ⟨c, htiling⟩ := h.tiling
  rw [hafter] at htiling ⊢
  refine ⟨machines, hok, fun m => (hmem m).trans (and_congr_right fun _ => ?_)⟩
  constructor
  · exact fun hall t ht hte => hall t (htiling.mem_takeWhile.2 ⟨ht, hte⟩)
  · intro hall t ht
    obtain ⟨hmem, hte⟩ := htiling.mem_takeWhile.1 ht
    exact hall t hmem hte

/-- A period that begins inside the last slice. -/
theorem search_last (h : Around s b before inside after) (hb : s.firstSliceBegin < b) (hinside : inside.beginDate < b)
    (hafter : after = []) (machines : IntervalSet) : s.availableMachinesDuringPeriod b e ≠ .ok machines :=
  search_error ((h.dropWhile_inside hb hinside).trans hafter) machines

/-- What is available at every date of a period is available in every slice from the one in which the period begins up to its
end. -/
theorem availableThroughout_iff (h : Around s b before inside after) (hlt : b < e) (m : ℕ) :
    (∀ x, b ≤ x → x < e → ∀ content ∈ s.atDate x, m ∈ content.availableMachines) ↔
      ∀ t ∈ inside :: after, t.beginDate < e → m ∈ t.availableMachines := by
  obtain ⟨c, hchain⟩ := h.timed.chained
  constructor
  · intro hall t ht hte
    have hwithin : t.beginDate ≤ max b t.beginDate ∧ max b t.beginDate < t.endDate := by
      refine ⟨le_max_right _ _, ?_⟩
      rcases List.mem_cons.1 ht with rfl | hlater
      · rw [max_eq_left h.begins]
        exact h.ends
      · obtain ⟨hbegin, hpos⟩ := h.later hlater
        rw [max_eq_right hbegin.le]
        exact hpos
    have hmem : t ∈ s.profile := by
      rw [h.profile]
      exact List.mem_append_right _ ht
    have hat : sliceAt s.profile (max b t.beginDate) = some t := hchain.lookup_eq_some.2 ⟨hmem, hwithin⟩
    refine hall (max b t.beginDate) (le_max_left _ _) (max_lt hlt hte) t.content ?_
    unfold Schedule.atDate contentAt
    rw [hat]
    rfl
  · intro hall x hbx hxe content hcontent
    unfold Schedule.atDate contentAt at hcontent
    obtain ⟨t, hat, rfl⟩ := Option.map_eq_some_iff.1 hcontent
    obtain ⟨hmem, hwithin⟩ := mem_of_lookup hat
    have hnot : t ∉ before := fun hbefore => absurd (hwithin.2.trans_le (h.ended hbefore)) (not_lt.2 hbx)
    rw [h.profile] at hmem
    exact hall t ((List.mem_append.1 hmem).resolve_left hnot) (hwithin.1.trans_lt hxe)

end Around

end PeriodAux

end ScheduleTest
