import ScheduleTest.Lemmas.Removal

/-!
# The invariants of a profile

Three invariants of a profile, each kept by a placement and by the two kinds of steps of a removal: every job of a slice is of
the workload and occupies one run of slices with one set of machines (`RunsOk`); in every slice the machines in range that are
neither under repair nor held by a job are the available ones, and the redundant fields agree (`SliceOk`); the slices tile the
time up to the horizon and only the first may be empty (`TimesOk`).
-/

namespace ScheduleTest

/-! ## Runs -/

/-- The jobs of the profile are of the workload, and each occupies one run of slices with one set of machines. -/
structure RunsOk (W : NamedJobs) (p : List TimeSlice) : Prop where
  known : ∀ s ∈ p, ∀ e ∈ s.allocatedJobs.entries, e.1 ∈ W.jobs
  runs : ∀ job, (p.map (machinesOf job)).OneRun

namespace RunsOk

variable {W : NamedJobs} {job : Job}

/-- More jobs may be named. -/
theorem mono {V : NamedJobs} {p : List TimeSlice} (h : RunsOk W p) (hsub : W.jobs ⊆ V.jobs) : RunsOk V p where
  known := fun s hs e he => hsub (h.known s hs e he)
  runs := h.runs

/-- Slices of the profile that hold the same job ids hold the same jobs on the same machines. -/
theorem allocatedJobs_eq {p : List TimeSlice} (h : RunsOk W p) {s t : TimeSlice} (hs : s ∈ p) (ht : t ∈ p)
    (hids : s.jobString = t.jobString) : s.allocatedJobs = t.allocatedJobs := by
  have good : ∀ u ∈ p, ∀ job ∈ u.allocatedJobs.keys, job ∈ W.jobs := by
    intro u hu job hjob
    obtain ⟨e, he, rfl⟩ := List.mem_map.1 hjob
    exact h.known u hu e he
  have hkeys : s.allocatedJobs.keys.map Job.id = t.allocatedJobs.keys.map Job.id :=
    W.join_inj _ _ (good s hs) (good t ht) hids
  -- an entry of one slice is an entry of the other: same id, so same job, and one run, so same machines
  have sub : ∀ u ∈ p, ∀ v ∈ p, u.allocatedJobs.keys.map Job.id = v.allocatedJobs.keys.map Job.id →
      ∀ e ∈ u.allocatedJobs.entries, e ∈ v.allocatedJobs.entries := by
    intro u hu v hv huv e he
    have hid : e.1.id ∈ v.allocatedJobs.keys.map Job.id := by
      rw [← huv]
      exact List.mem_map_of_mem (List.mem_map_of_mem he)
    simp only [KeyedMap.keys, List.map_map, List.mem_map, Function.comp_apply] at hid
    obtain ⟨e', he', hid'⟩ := hid
    have hjob : e'.1 = e.1 := W.id_injOn (h.known v hv e' he') (h.known u hu e he) hid'
    have hu' : some e.2 ∈ p.map (machinesOf e.1) :=
      List.mem_map.2 ⟨u, hu, KeyedMap.find?_eq_some.2 ⟨e.1, he, rfl⟩⟩
    have hv' : some e'.2 ∈ p.map (machinesOf e.1) :=
      List.mem_map.2 ⟨v, hv, KeyedMap.find?_eq_some.2 ⟨e'.1, he', by rw [hjob]⟩⟩
    have hms : e.2 = e'.2 := (h.runs e.1).eq_of_mem hu' hv'
    have : e = e' := Prod.ext hjob.symm hms
    exact this ▸ he'
  exact KeyedMap.ext_mem fun e => ⟨sub s hs t ht hkeys e, sub t ht s hs hkeys.symm e⟩

/-- Neighbours that are merged hold the same jobs on the same machines. -/
theorem allocatedJobs_eq_of_merge {l r : List TimeSlice} {previous pit merged : TimeSlice}
    (h : RunsOk W (l ++ previous :: pit :: r)) (hm : previous.mergeWithPrevious pit = .ok (some merged)) :
    previous.allocatedJobs = pit.allocatedJobs := by
  rcases (mergeWithPrevious_some hm).2.1 with heq | heq
  · exact heq
  · exact h.allocatedJobs_eq (by simp) (by simp) heq

/-- A schedule without jobs keeps every job in one run. -/
theorem of_no_jobs {p : List TimeSlice} (h : ∀ s ∈ p, s.allocatedJobs = KeyedMap.empty) : RunsOk W p where
  known := by
    intro s hs e he
    rw [h s hs] at he
    nomatch he
  runs := by
    intro job
    refine List.oneRun_of_all_none ?_
    intro x hx
    obtain ⟨s, hs, rfl⟩ := List.mem_map.1 hx
    rw [machinesOf, h s hs]
    rfl

theorem placeAt {a : Anchor} (endDate : ℚ) (hjob : job ∈ W.jobs)
    (h : RunsOk W (a.before.reverse ++ (a.covered ++ a.last :: a.rest)))
    (hnew : ∀ s ∈ a.before.reverse ++ (a.covered ++ a.last :: a.rest), s.containsJob job = false) :
    RunsOk W (Schedule.placeAt job a endDate) where
  known := by
    refine forall_placeAt (fun s b e l hs => hs) h.known ?_
    intro s hs b e l e' he'
    have hs' : s ∈ a.before.reverse ++ (a.covered ++ a.last :: a.rest) := by
      simp only [Anchor.slices, List.mem_append, List.mem_cons, List.mem_reverse, List.not_mem_nil, or_false] at hs ⊢
      tauto
    rcases (KeyedMap.mem_insert_of_new (KeyedMap.contains_eq_false_iff.1 (hnew s hs'))).1 he' with rfl | he'
    · exact hjob
    · exact h.known s hs' e' he'
  runs := fun job' => oneRun_placeAt endDate (h.runs job') hnew

theorem erase {ms : IntervalSet} {l r : List TimeSlice} {pit : TimeSlice} (h : RunsOk W (l ++ pit :: r))
    (hl : ∀ s ∈ l, s.containsJob job = false) : RunsOk W (l ++ pit.eraseJob job ms :: r) where
  known := by
    intro s hs e he
    rcases List.mem_append.1 hs with hs | hs
    · exact h.known s (List.mem_append_left _ hs) e he
    · rcases List.mem_cons.1 hs with rfl | hs
      · exact h.known pit (by simp) e (KeyedMap.mem_erase.1 he).1
      · exact h.known s (by simp [hs]) e he
  runs := by
    intro job'
    have hrun := h.runs job'
    rw [List.map_append, List.map_cons] at hrun ⊢
    rw [machinesOf_eraseJob]
    split
    · rename_i hid
      have hnone : ∀ x ∈ l.map (machinesOf job'), x = none := by
        intro x hx
        obtain ⟨s, hs, rfl⟩ := List.mem_map.1 hx
        have := machinesOf_eq_none (hl s hs)
        rwa [machinesOf, KeyedMap.find?_eq_none, ← hid, ← KeyedMap.find?_eq_none] at this
      rw [List.oneRun_append_none _ hnone] at hrun ⊢
      exact hrun.none_cons
    · exact hrun

theorem merge {l r : List TimeSlice} {previous pit merged : TimeSlice} (h : RunsOk W (l ++ previous :: pit :: r))
    (hm : previous.mergeWithPrevious pit = .ok (some merged)) : RunsOk W (l ++ merged :: r) where
  known := by
    intro s hs
    rcases List.mem_append.1 hs with hs | hs
    · exact h.known s (List.mem_append_left _ hs)
    · rcases List.mem_cons.1 hs with rfl | hs
      · rw [(mergeWithPrevious_some hm).1]
        exact h.known pit (by simp)
      · exact h.known s (by simp [hs])
  runs := by
    intro job'
    have hrun := h.runs job'
    have heq : machinesOf job' previous = machinesOf job' pit := by
      rw [machinesOf, h.allocatedJobs_eq_of_merge hm, machinesOf]
    rw [List.map_append, List.map_cons, List.map_cons, heq, List.oneRun_stutter] at hrun
    rw [(mergeWithPrevious_some hm).1, List.map_append, List.map_cons]
    exact hrun

/-- Removing a job keeps every job in one run. -/
theorem removeFrom {ms : IntervalSet} {before after p' : List TimeSlice} (h : RunsOk W (before.reverse ++ after))
    (hb : ∀ s ∈ before, s.containsJob job = false) (hr : removeFrom job ms before after = .ok p') : RunsOk W p' :=
  removeFrom_rule (fun _ _ _ h hl _ => h.erase hl) (fun _ _ _ _ _ h hm => h.merge hm) hb h hr

end RunsOk

/-! ## Machines -/

/-- The machines of a slice: disjoint sets for its jobs, all in range and none under repair; the rest of the range that is not
under repair is available; and the allocated machines and the count of the available ones are what they say. -/
structure SliceOk (nbMachines : ℕ) (repair : IntervalSet) (s : TimeSlice) : Prop where
  disjoint : ∀ e ∈ s.allocatedJobs.entries, ∀ e' ∈ s.allocatedJobs.entries, e ≠ e' → Disjoint e.2 e'.2
  inRange : ∀ e ∈ s.allocatedJobs.entries, ∀ x ∈ e.2, x < nbMachines ∧ x ∉ repair
  available : ∀ x, x ∈ s.availableMachines ↔ x < nbMachines ∧ x ∉ repair ∧ ∀ e ∈ s.allocatedJobs.entries, x ∉ e.2
  allocated : ∀ x, x ∈ s.allocatedMachines ↔ ∃ e ∈ s.allocatedJobs.entries, x ∈ e.2
  count : s.nbAvailableMachines = s.availableMachines.card

namespace SliceOk

variable {n : ℕ} {R : IntervalSet} {job : Job}

theorem timeless : Timeless (SliceOk n R) := fun _ _ _ _ h => ⟨h.disjoint, h.inRange, h.available, h.allocated, h.count⟩

/-- Machines that are available can be given to a job that is not in the slice. -/
theorem allocateJob {s : TimeSlice} (h : SliceOk n R s) {used : IntervalSet} (hused : used ⊆ s.availableMachines)
    (hcard : used.card = job.nbRequestedResources) (hnew : s.containsJob job = false) :
    SliceOk n R (s.allocateJob job used) := by
  have hmem : ∀ e, e ∈ (s.allocateJob job used).allocatedJobs.entries ↔ e = (job, used) ∨ e ∈ s.allocatedJobs.entries :=
    fun e => KeyedMap.mem_insert_of_new (KeyedMap.contains_eq_false_iff.1 hnew)
  -- the machines given are in range, not under repair and held by no job
  have hfree : ∀ x ∈ used, x < n ∧ x ∉ R ∧ ∀ e ∈ s.allocatedJobs.entries, x ∉ e.2 := fun x hx => (h.available x).1 (hused hx)
  constructor
  · intro e he e' he' hne
    rcases (hmem e).1 he with rfl | he
    · rcases (hmem e').1 he' with rfl | he'
      · exact absurd rfl hne
      · exact Finset.disjoint_left.2 fun x hx => (hfree x hx).2.2 e' he'
    · rcases (hmem e').1 he' with rfl | he'
      · exact Finset.disjoint_right.2 fun x hx => (hfree x hx).2.2 e he
      · exact h.disjoint e he e' he' hne
  · intro e he x hx
    rcases (hmem e).1 he with rfl | he
    · exact ⟨(hfree x hx).1, (hfree x hx).2.1⟩
    · exact h.inRange e he x hx
  · intro x
    simp only [hmem, forall_eq_or_imp]
    rw [TimeSlice.allocateJob, Finset.mem_sdiff, h.available]
    tauto
  · intro x
    simp only [hmem, exists_eq_or_imp]
    rw [TimeSlice.allocateJob, Finset.mem_union, h.allocated, or_comm]
  · have := Finset.card_sdiff_add_card_eq_card hused
    simp only [TimeSlice.allocateJob, h.count]
    omega

/-- Taking a job out of the slice and giving back its machines. -/
theorem eraseJob {s : TimeSlice} (h : SliceOk n R s) {ms : IntervalSet} (hms : machinesOf job s = some ms) :
    SliceOk n R (s.eraseJob job (ms \ R)) := by
  obtain ⟨job', hmem, hid⟩ := KeyedMap.find?_eq_some.1 hms
  have hsdiff : ms \ R = ms := Finset.sdiff_eq_self_of_disjoint
    (Finset.disjoint_left.2 fun x hx => (h.inRange _ hmem x hx).2)
  rw [hsdiff]
  -- the entries that stay are the others, so their machines are not the job's
  have hother : ∀ e, e ∈ (s.eraseJob job ms).allocatedJobs.entries ↔ e ∈ s.allocatedJobs.entries ∧ e ≠ (job', ms) := by
    intro e
    refine KeyedMap.mem_erase.trans (and_congr_right fun he => ?_)
    constructor
    · rintro hne rfl
      exact hne hid
    · intro hne hk
      exact hne (KeyedMap.entry_unique he hmem (hk.trans hid.symm))
  have hdisj : ∀ e ∈ s.allocatedJobs.entries, e ≠ (job', ms) → ∀ x ∈ ms, x ∉ e.2 := fun e he hne x hx hx' =>
    Finset.disjoint_left.1 (h.disjoint e he _ hmem hne) hx' hx
  constructor
  · intro e he e' he' hne
    exact h.disjoint e ((hother e).1 he).1 e' ((hother e').1 he').1 hne
  · intro e he
    exact h.inRange e ((hother e).1 he).1
  · intro x
    rw [TimeSlice.eraseJob, Finset.mem_union, h.available]
    constructor
    · rintro (⟨h1, h2, h3⟩ | hx)
      · exact ⟨h1, h2, fun e he => h3 e ((hother e).1 he).1⟩
      · exact ⟨(h.inRange _ hmem x hx).1, (h.inRange _ hmem x hx).2,
          fun e he => hdisj e ((hother e).1 he).1 ((hother e).1 he).2 x hx⟩
    · rintro ⟨h1, h2, h3⟩
      by_cases hx : x ∈ ms
      · exact Or.inr hx
      · refine Or.inl ⟨h1, h2, fun e he => ?_⟩
        by_cases heq : e = (job', ms)
        · rwa [heq]
        · exact h3 e ((hother e).2 ⟨he, heq⟩)
  · intro x
    rw [TimeSlice.eraseJob, Finset.mem_sdiff, h.allocated]
    constructor
    · rintro ⟨⟨e, he, hx⟩, hnot⟩
      exact ⟨e, (hother e).2 ⟨he, fun heq => hnot (by rwa [heq] at hx)⟩, hx⟩
    · rintro ⟨e, he, hx⟩
      have he' := (hother e).1 he
      exact ⟨⟨e, he'.1, hx⟩, fun hx' => hdisj e he'.1 he'.2 x hx' hx⟩
  · have hdisj' : Disjoint s.availableMachines ms :=
      Finset.disjoint_left.2 fun x hx hx' => ((h.available x).1 hx).2.2 _ hmem hx'
    rw [TimeSlice.eraseJob, Finset.card_union_of_disjoint hdisj', h.count]
    push_cast
    rfl

/-- Slices with the same jobs on the same machines have the same machines available. -/
theorem availableMachines_eq {s t : TimeSlice} (hs : SliceOk n R s) (ht : SliceOk n R t)
    (heq : s.allocatedJobs = t.allocatedJobs) : s.availableMachines = t.availableMachines := by
  ext x
  rw [hs.available, ht.available, heq]

end SliceOk

/-! ## Times -/

/-- The dates of a slice. -/
def TimeSlice.dates (s : TimeSlice) : ℚ × ℚ := (s.beginDate, s.endDate)

/-- The slices tile the time from some date to the horizon, and none but the first may be empty. -/
structure TimesOk (p : List TimeSlice) : Prop where
  nonempty : p ≠ []
  tiles : ∃ b, Tiles horizon b p
  positive : ∀ d ∈ (p.map TimeSlice.dates).tail, d.1 < d.2

namespace TimesOk

variable {job : Job}

theorem placeAt {a : Anchor} (endDate : ℚ) (h : TimesOk (a.before.reverse ++ (a.covered ++ a.last :: a.rest))) :
    TimesOk (Schedule.placeAt job a endDate) where
  nonempty := by simp [Schedule.placeAt]
  tiles := by
    obtain ⟨b, hb⟩ := h.tiles
    exact ⟨b, tiles_placeAt endDate hb⟩
  positive := by
    -- only the dates of the slice that is split change, and both its parts have positive length
    have hdates : (Schedule.placeAt job a endDate).map TimeSlice.dates =
        (a.before.reverse ++ a.covered).map TimeSlice.dates ++
          ((a.last.splitSlice endDate).1.dates ::
            ((a.last.splitSlice endDate).2.toList.map TimeSlice.dates ++ a.rest.map TimeSlice.dates)) := by
      simp only [Schedule.placeAt, List.map_append, List.map_cons, List.map_map]
      rfl
    have hsplit : ((a.last.splitSlice endDate).1.dates = a.last.dates ∨
          (a.last.splitSlice endDate).1.dates.1 < (a.last.splitSlice endDate).1.dates.2) ∧
        ∀ d ∈ (a.last.splitSlice endDate).2.toList.map TimeSlice.dates, d.1 < d.2 := by
      rw [TimeSlice.splitSlice]
      split
      · rename_i hd
        exact ⟨Or.inr hd.1, by simpa [TimeSlice.dates] using hd.2⟩
      · exact ⟨Or.inl rfl, fun d hd => absurd hd (List.not_mem_nil)⟩
    have hold := h.positive
    rw [← List.append_assoc, List.map_append, List.map_cons] at hold
    rw [hdates]
    generalize (a.before.reverse ++ a.covered).map TimeSlice.dates = pre at hold
    cases pre with
    | nil =>
      intro d hd
      rcases List.mem_append.1 hd with hd | hd
      · exact hsplit.2 d hd
      · exact hold d hd
    | cons d0 pre =>
      intro d hd
      simp only [List.cons_append, List.tail_cons, List.mem_append, List.mem_cons] at hd hold
      rcases hd with hd | rfl | hd | hd
      · exact hold d (Or.inl hd)
      · rcases hsplit.1 with heq | hlt
        · exact hold _ (Or.inr (Or.inl heq))
        · exact hlt
      · exact hsplit.2 d hd
      · exact hold d (Or.inr (Or.inr hd))

/-- Erasing a job from a slice does not change the dates. -/
theorem erase {ms : IntervalSet} {l r : List TimeSlice} {pit : TimeSlice} (h : TimesOk (l ++ pit :: r)) :
    TimesOk (l ++ pit.eraseJob job ms :: r) where
  nonempty := by simp
  tiles := by
    obtain ⟨b, hb⟩ := h.tiles
    obtain ⟨c, h1, h2⟩ := tiles_append.1 hb
    exact ⟨b, tiles_append.2 ⟨c, h1, h2⟩⟩
  positive := by
    have hold := h.positive
    rw [List.map_append, List.map_cons] at hold ⊢
    exact hold

theorem merge {l r : List TimeSlice} {previous pit merged : TimeSlice} (h : TimesOk (l ++ previous :: pit :: r))
    (hm : previous.mergeWithPrevious pit = .ok (some merged)) : TimesOk (l ++ merged :: r) := by
  obtain ⟨b, hb⟩ := h.tiles
  obtain ⟨c, h1, h2, h3, h4, h5, h6, h7, h8⟩ := tiles_append.1 hb
  rw [(mergeWithPrevious_some hm).1]
  refine ⟨by simp, ⟨b, tiles_append.2 ⟨c, h1, h2, ?_, rfl, h8⟩⟩, ?_⟩
  · exact h3.trans (h5 ▸ h6)
  · have hold := h.positive
    have hpit : pit.beginDate < pit.endDate := by
      refine hold pit.dates ?_
      cases l <;> simp
    rw [List.map_append, List.map_cons]
    intro d hd
    cases l with
    | nil => exact hold d (by simp [show d ∈ r.map TimeSlice.dates from hd])
    | cons s0 l =>
      simp only [List.map_cons, List.cons_append, List.tail_cons, List.mem_append, List.mem_cons, List.map_append] at hd hold
      rcases hd with hd | rfl | hd
      · exact hold d (Or.inl hd)
      · exact lt_of_le_of_lt (h3.trans h5.ge) hpit
      · exact hold d (Or.inr (Or.inr (Or.inr hd)))

/-- Removing a job keeps the tiling. -/
theorem removeFrom {ms : IntervalSet} {before after p' : List TimeSlice} (h : TimesOk (before.reverse ++ after))
    (hb : ∀ s ∈ before, s.containsJob job = false) (hr : removeFrom job ms before after = .ok p') : TimesOk p' :=
  removeFrom_rule (fun _ _ _ h _ _ => h.erase) (fun _ _ _ _ _ h hm => h.merge hm) hb h hr

end TimesOk

end ScheduleTest
