import ScheduleTest.Lemmas.Invariants
import Mathlib.Data.List.TakeWhile

/-!
# What the operations of a schedule do

One lemma for each operation that says everything a successful call can have done, and from it how the machine accounting of a
schedule (`MachinesOk`) and its times go through the call. The operations that only change the repair set are exact: taking a
machine for repair keeps the accounting just where the machine is free in every slice.
-/

namespace ScheduleTest

namespace Schedule

variable {s s' : Schedule} {job : Job}

/-- No slice of a schedule without the job holds it. -/
theorem containsJob_eq_false : s.containsJob job = false ↔ ∀ t ∈ s.profile, t.containsJob job = false := by
  simp [containsJob]

/-- The anchor found from the first slice on is a cut of the profile. -/
theorem findAnchor_shape {a : Anchor} (h : s.findAnchor job 0 = some a) :
    a.before.reverse ++ (a.covered ++ a.last :: a.rest) = s.profile := by
  have := scanAnchor_shape h
  simpa using this

/-- A successful call of `add_job_first_fit` leaves the schedule as it was, or places the job at the anchor found. -/
theorem addJobFirstFit_ok {assertSuccessful : Bool} {alloc : JobAlloc}
    (h : s.addJobFirstFit job assertSuccessful = .ok (s', alloc)) :
    s.containsJob job = false ∧ (s' = s ∨ ∃ a endDate, s.findAnchor job 0 = some a ∧
      s' = { s.setAllocation job.id a.beginDate alloc with
        profile := placeAt job a endDate, size := s.size + 1, nbJobsSize := s.nbJobsSize + 1 }) := by
  rw [addJobFirstFit] at h
  split at h
  · nomatch h
  · rename_i hc
    refine ⟨by simpa using hc, ?_⟩
    rw [addJobFirstFitAfterTimeSlice] at h
    split at h
    · rename_i a ha
      cases h
      exact Or.inr ⟨a, _, ha, rfl⟩
    · split at h
      · nomatch h
      · cases h
        exact Or.inl rfl

/-- `add_job_first_fit` leaves the machines of the schedule and the repair set as they are. -/
theorem addJobFirstFit_frame {assertSuccessful : Bool} {alloc : JobAlloc}
    (h : s.addJobFirstFit job assertSuccessful = .ok (s', alloc)) :
    s'.nbMachines = s.nbMachines ∧ s'.repairMachines = s.repairMachines := by
  obtain ⟨_, rfl | ⟨a, endDate, _, rfl⟩⟩ := addJobFirstFit_ok h
  · exact ⟨rfl, rfl⟩
  · exact ⟨rfl, rfl⟩

/-- The only aborts of `add_job_first_fit`. -/
theorem addJobFirstFit_error {assertSuccessful : Bool} {e : Abort} (h : s.addJobFirstFit job assertSuccessful = .error e) :
    e = .alreadyInSchedule job.id ∨ e = .couldNotAdd job.id := by
  rw [addJobFirstFit] at h
  split at h
  · exact Or.inl (Except.error.inj h).symm
  · rw [addJobFirstFitAfterTimeSlice] at h
    split at h
    · nomatch h
    · split at h
      · exact Or.inr (Except.error.inj h).symm
      · nomatch h

/-- A job in the schedule has a first slice that holds it. -/
theorem exists_first_of_containsJob (h : s.containsJob job = true) :
    ∃ before pit rest, s.profile.span (fun t => !t.containsJob job) = (before, pit :: rest) ∧
      s.profile = before ++ pit :: rest ∧ (∀ t ∈ before, t.containsJob job = false) ∧ pit.containsJob job = true := by
  rw [List.span_eq_takeWhile_dropWhile]
  cases hd : s.profile.dropWhile (fun t => !t.containsJob job) with
  | nil =>
    rw [List.dropWhile_eq_nil_iff] at hd
    obtain ⟨t, ht, hc⟩ := List.any_eq_true.1 h
    have := hd t ht
    rw [hc] at this
    nomatch this
  | cons pit rest =>
    refine ⟨_, pit, rest, rfl, ?_, ?_, ?_⟩
    · rw [← hd, List.takeWhile_append_dropWhile]
    · intro t ht
      simpa using List.mem_takeWhile_imp ht
    · have hne : s.profile.dropWhile (fun t => !t.containsJob job) ≠ [] := by simp [hd]
      have := List.head_dropWhile_not (fun t : TimeSlice => !t.containsJob job) hne
      simpa [hd] using this

/-- The schedule after a job has been taken out, with its new profile. -/
def afterRemoval (s : Schedule) (job : Job) (profile : List TimeSlice) : Schedule :=
  { s with
    profile := profile
    size := s.size - 1
    nbJobsSize := if job.isReservation then s.nbJobsSize else s.nbJobsSize - 1
    nbReservationsSize := if job.isReservation then s.nbReservationsSize - 1 else s.nbReservationsSize }

/-- `remove_job_if_exists` on a job that is not in the schedule. -/
theorem removeJobIfExists_of_absent (h : s.containsJob job = false) : s.removeJobIfExists job = .ok (s, false) := by
  have hnil : s.profile.dropWhile (fun t => !t.containsJob job) = [] := by
    rw [List.dropWhile_eq_nil_iff]
    intro t ht
    rw [containsJob_eq_false.1 h t ht]
    rfl
  rw [removeJobIfExists, List.span_eq_takeWhile_dropWhile, hnil]

/-- `remove_job_if_exists` on a job in the schedule removes it from its first slice on. -/
theorem removeJobIfExists_of_present (h : s.containsJob job = true) :
    ∃ before pit rest ms, s.profile = before ++ pit :: rest ∧ (∀ t ∈ before, t.containsJob job = false) ∧
      machinesOf job pit = some ms ∧
      ∀ r, s.removeJobIfExists job = r ↔
        (match removeFrom job (ms \ s.repairMachines) before.reverse (pit :: rest) with
          | .ok profile => .ok (s.afterRemoval job profile, true)
          | .error e => .error e) = r := by
  obtain ⟨before, pit, rest, hspan, hprofile, hbefore, hc⟩ := exists_first_of_containsJob h
  rw [containsJob_eq_isSome] at hc
  obtain ⟨ms, hms⟩ := Option.isSome_iff_exists.1 hc
  refine ⟨before, pit, rest, ms, hprofile, hbefore, hms, fun r => ?_⟩
  have hfind : pit.allocatedJobs.find? job = some ms := hms
  rw [removeJobIfExists, hspan]
  simp only [removeJobInternal, hfind, Option.getD_some]
  cases removeFrom job (ms \ s.repairMachines) before.reverse (pit :: rest) <;> rfl

/-- A successful call of `remove_job_if_exists`. -/
theorem removeJobIfExists_ok {b : Bool} (h : s.removeJobIfExists job = .ok (s', b)) :
    (b = false ∧ s' = s ∧ s.containsJob job = false) ∨
      (b = true ∧ ∃ before pit rest ms p', s.profile = before ++ pit :: rest ∧ (∀ t ∈ before, t.containsJob job = false) ∧
        machinesOf job pit = some ms ∧ removeFrom job (ms \ s.repairMachines) before.reverse (pit :: rest) = .ok p' ∧
        s' = s.afterRemoval job p') := by
  cases hc : s.containsJob job with
  | false =>
    rw [removeJobIfExists_of_absent hc] at h
    cases h
    exact Or.inl ⟨rfl, rfl, rfl⟩
  | true =>
    obtain ⟨before, pit, rest, ms, hprofile, hbefore, hms, heq⟩ := removeJobIfExists_of_present hc
    rw [heq] at h
    split at h
    · rename_i p' hp
      cases h
      exact Or.inr ⟨rfl, before, pit, rest, ms, p', hprofile, hbefore, hms, hp, rfl⟩
    · nomatch h

/-- `remove_job_if_exists` leaves the machines of the schedule and the repair set as they are. -/
theorem removeJobIfExists_frame {b : Bool} (h : s.removeJobIfExists job = .ok (s', b)) :
    s'.nbMachines = s.nbMachines ∧ s'.repairMachines = s.repairMachines := by
  rcases removeJobIfExists_ok h with ⟨_, rfl, _⟩ | ⟨_, before, pit, rest, ms, p', _, _, _, _, rfl⟩
  · exact ⟨rfl, rfl⟩
  · exact ⟨rfl, rfl⟩

/-- The only abort of `remove_job_if_exists`. -/
theorem removeJobIfExists_error {e : Abort} (h : s.removeJobIfExists job = .error e) : e = .mergeMismatch := by
  rw [removeJobIfExists] at h
  split at h
  · nomatch h
  · split at h
    · nomatch h
    · rename_i hr
      cases h
      rw [removeJobInternal] at hr
      split at hr
      · nomatch hr
      · rename_i hremoved
        cases hr
        exact removeFrom_error hremoved

/-- `remove_job` is `remove_job_if_exists` on a job that is there. -/
theorem removeJob_ok (h : s.removeJob job = .ok s') : s.removeJobIfExists job = .ok (s', true) := by
  rw [removeJob] at h
  split at h
  · rename_i h1
    cases h
    exact h1
  · nomatch h
  · nomatch h

/-- What `remove_job` aborts with: the job is not there, or what `remove_job_if_exists` aborts with. -/
theorem removeJob_error {e : Abort} (h : s.removeJob job = .error e) :
    e = .notInSchedule job.id ∨ s.removeJobIfExists job = .error e := by
  rw [removeJob] at h
  split at h
  · nomatch h
  · exact Or.inl (Except.error.inj h).symm
  · rename_i h1
    cases h
    exact Or.inr h1

/-- A successful call of `update_first_slice` changes the dates of the first slice. -/
theorem updateFirstSlice_ok {t : ℚ} (h : s.updateFirstSlice t = .ok s') :
    ∃ slice rest, s.profile = slice :: rest ∧ s'.profile = slice.retime t slice.endDate (slice.endDate - t) :: rest ∧
      s'.size = s.size ∧ s'.nbJobsSize = s.nbJobsSize ∧ s'.nbReservationsSize = s.nbReservationsSize ∧
      s'.nbMachines = s.nbMachines ∧ s'.repairMachines = s.repairMachines := by
  rw [updateFirstSlice] at h
  split at h
  · nomatch h
  · rename_i slice rest hp
    split at h
    · cases h
      exact ⟨slice, rest, hp, rfl, rfl, rfl, rfl, rfl, rfl⟩
    · nomatch h

/-- The aborts of `update_first_slice`. -/
theorem updateFirstSlice_error {t : ℚ} {e : Abort} (h : s.updateFirstSlice t = .error e) :
    e = .pastTheEnd ∨ e = .outsideFirstSlice := by
  rw [updateFirstSlice] at h
  split at h
  · exact Or.inl (Except.error.inj h).symm
  · split at h
    · nomatch h
    · exact Or.inr (Except.error.inj h).symm

end Schedule

/-! ## The times of a schedule -/

/-- The slices tile the time up to the horizon. With `strict`, none of them is empty; else the first may be. -/
structure Schedule.TimesOk (strict : Bool) (s : Schedule) : Prop where
  times : ScheduleTest.TimesOk s.profile
  positive : strict = true → ∀ t ∈ s.profile, t.beginDate < t.endDate

namespace Schedule.TimesOk

variable {strict : Bool} {s s' : Schedule} {job : Job}

theorem new (n : ℕ) {t0 : ℚ} (ht0 : t0 < horizon) : Schedule.TimesOk strict (Schedule.new n t0) where
  times := ⟨List.cons_ne_nil _ _, ⟨t0, rfl, ht0.le, rfl, rfl⟩, nofun⟩
  positive := by
    intro _ t ht
    rw [List.mem_singleton.1 ht]
    exact ht0

theorem addJobFirstFit {assertSuccessful : Bool} {alloc : JobAlloc} (h : Schedule.TimesOk strict s)
    (ha : s.addJobFirstFit job assertSuccessful = .ok (s', alloc)) : Schedule.TimesOk strict s' := by
  obtain ⟨_, rfl | ⟨a, endDate, hanchor, rfl⟩⟩ := Schedule.addJobFirstFit_ok ha
  · exact h
  · have hshape := Schedule.findAnchor_shape hanchor
    have htimes := h.times
    rw [← hshape] at htimes
    refine ⟨htimes.placeAt endDate, fun hs t ht => ?_⟩
    have hpos := h.positive hs
    rw [← hshape] at hpos
    simp only [placeAt, List.mem_append, List.mem_cons, List.mem_reverse, List.mem_map, Option.mem_toList,
      TimeSlice.splitSlice] at ht hpos
    rcases ht with (ht | ⟨t', ht', rfl⟩) | rfl | ht | ht
    · exact hpos t (Or.inl ht)
    · exact hpos t' (Or.inr (Or.inl ht'))
    · split
      · rename_i hd
        exact hd.1
      · exact hpos a.last (Or.inr (Or.inr (Or.inl rfl)))
    · split at ht
      · rename_i hd
        cases ht
        exact hd.2
      · cases ht
    · exact hpos t (Or.inr (Or.inr (Or.inr ht)))

theorem removeJobIfExists {b : Bool} (h : Schedule.TimesOk strict s) (hr : s.removeJobIfExists job = .ok (s', b)) :
    Schedule.TimesOk strict s' := by
  rcases Schedule.removeJobIfExists_ok hr with ⟨_, rfl, _⟩ | ⟨_, before, pit, rest, ms, p', hprofile, hbefore, _, hp, rfl⟩
  · exact h
  · have hbefore' : ∀ t ∈ before.reverse, t.containsJob job = false := fun t ht => hbefore t (List.mem_reverse.1 ht)
    have htimes := h.times
    have hpos := h.positive
    rw [hprofile, ← List.reverse_reverse before] at htimes hpos
    refine ⟨htimes.removeFrom hbefore' hp, fun hs => ?_⟩
    -- a merged slice goes on from where the earlier one began, which is before the later one begins
    refine (removeFrom_rule
      (P := fun p => ScheduleTest.TimesOk p ∧ ∀ t ∈ p, t.beginDate < t.endDate) ?_ ?_ hbefore' ⟨htimes, hpos hs⟩ hp).2
    · rintro l u r ⟨ht, hlt⟩ _ _
      refine ⟨ht.erase, fun v hv => ?_⟩
      rcases List.mem_append.1 hv with hv | hv
      · exact hlt v (List.mem_append_left _ hv)
      · rcases List.mem_cons.1 hv with rfl | hv
        · exact hlt u (by simp)
        · exact hlt v (by simp [hv])
    · rintro l previous u merged r ⟨ht, hlt⟩ hm
      refine ⟨ht.merge hm, fun v hv => ?_⟩
      rcases List.mem_append.1 hv with hv | hv
      · exact hlt v (List.mem_append_left _ hv)
      · rcases List.mem_cons.1 hv with rfl | hv
        · obtain ⟨b, hb⟩ := ht.tiles
          obtain ⟨c, _, h2, h3, h4, h5, h6, _⟩ := tiles_append.1 hb
          rw [(mergeWithPrevious_some hm).1]
          exact lt_of_le_of_lt (h3.trans h5.ge) (hlt u (by simp))
        · exact hlt v (by simp [hv])

/-- Moving the begin of the first slice inside it may leave it empty. -/
theorem updateFirstSlice {t : ℚ} (h : Schedule.TimesOk strict s)
    (ht : ∀ slice ∈ s.profile.head?, slice.beginDate ≤ t ∧ t ≤ slice.endDate) (hu : s.updateFirstSlice t = .ok s') :
    Schedule.TimesOk false s' := by
  obtain ⟨slice, rest, hprofile, hprofile', _⟩ := Schedule.updateFirstSlice_ok hu
  have htimes := h.times
  rw [hprofile] at ht htimes
  obtain ⟨b, _, _, _, hrest⟩ := htimes.tiles
  refine ⟨⟨by simp [hprofile'], ⟨t, ?_⟩, ?_⟩, nofun⟩
  · rw [hprofile']
    exact ⟨rfl, (ht slice rfl).2, rfl, hrest⟩
  · rw [hprofile']
    exact htimes.positive

end Schedule.TimesOk

/-! ## The machine accounting of a schedule -/

/-- Every job is in one run of slices, every slice accounts for every machine, and the machines under repair are machines. -/
structure MachinesOk (W : NamedJobs) (s : Schedule) : Prop where
  nonempty : s.profile ≠ []
  repair : ∀ x ∈ s.repairMachines, x < s.nbMachines
  runs : RunsOk W s.profile
  slices : ∀ t ∈ s.profile, SliceOk s.nbMachines s.repairMachines t

namespace MachinesOk

variable {W : NamedJobs} {s s' : Schedule} {job : Job}

theorem new (W : NamedJobs) (n : ℕ) (t0 : ℚ) : MachinesOk W (Schedule.new n t0) where
  nonempty := List.cons_ne_nil _ _
  repair := nofun
  runs := RunsOk.of_no_jobs (by
    intro s hs
    rw [List.mem_singleton.1 hs])
  slices := by
    intro s hs
    rw [List.mem_singleton.1 hs]
    refine ⟨nofun, nofun, fun x => ?_, fun x => ?_, ?_⟩
    · simp [Schedule.new]
    · simp
    · simp

/-- Placing a job where it fits keeps the accounting. -/
theorem place {a : Anchor} {endDate : ℚ} {walltimeFrom : TimeSlice → ℚ} (h : MachinesOk W s) (hjob : job ∈ W.jobs)
    (hc : s.containsJob job = false) (hshape : a.before.reverse ++ (a.covered ++ a.last :: a.rest) = s.profile)
    (hfits : AnchorFits job walltimeFrom a) (hprofile : s'.profile = Schedule.placeAt job a endDate)
    (hn : s'.nbMachines = s.nbMachines) (hr : s'.repairMachines = s.repairMachines) : MachinesOk W s' := by
  have hnew := Schedule.containsJob_eq_false.1 hc
  have hruns := h.runs
  have hslices := h.slices
  rw [← hshape] at hnew hruns hslices
  refine ⟨by simp [hprofile, Schedule.placeAt], by rw [hr, hn]; exact h.repair, ?_, ?_⟩
  · rw [hprofile]
    exact hruns.placeAt endDate hjob hnew
  · rw [hprofile, hn, hr]
    refine forall_placeAt SliceOk.timeless hslices ?_
    intro t ht b e l
    have ht' : t ∈ a.before.reverse ++ (a.covered ++ a.last :: a.rest) := by
      simp only [Anchor.slices, List.mem_append, List.mem_cons, List.mem_reverse, List.not_mem_nil, or_false] at ht ⊢
      tauto
    exact (SliceOk.timeless t b e l (hslices t ht')).allocateJob (hfits.used t ht) hfits.card (hnew t ht')

theorem addJobFirstFit {assertSuccessful : Bool} {alloc : JobAlloc} (h : MachinesOk W s) (hjob : job ∈ W.jobs)
    (ha : s.addJobFirstFit job assertSuccessful = .ok (s', alloc)) : MachinesOk W s' := by
  obtain ⟨hc, rfl | ⟨a, endDate, hanchor, rfl⟩⟩ := Schedule.addJobFirstFit_ok ha
  · exact h
  · exact h.place hjob hc (Schedule.findAnchor_shape hanchor) (scanAnchor_fits hanchor) rfl rfl rfl

/-- What the steps of a removal keep: the accounting, and the machines of the job being removed. -/
def RemovalInv (W : NamedJobs) (s : Schedule) (job : Job) (ms : IntervalSet) (p : List TimeSlice) : Prop :=
  p ≠ [] ∧ RunsOk W p ∧ (∀ t ∈ p, SliceOk s.nbMachines s.repairMachines t) ∧ ∀ t ∈ p, ∀ m, machinesOf job t = some m → m = ms

theorem removalInv_erase {ms : IntervalSet} {l r : List TimeSlice} {pit : TimeSlice}
    (h : RemovalInv W s job ms (l ++ pit :: r)) (hl : ∀ t ∈ l, t.containsJob job = false) (hc : pit.containsJob job = true) :
    RemovalInv W s job ms (l ++ pit.eraseJob job (ms \ s.repairMachines) :: r) := by
  obtain ⟨_, hruns, hslices, hms⟩ := h
  rw [containsJob_eq_isSome] at hc
  obtain ⟨m, hm⟩ := Option.isSome_iff_exists.1 hc
  have hpit : pit ∈ l ++ pit :: r := by simp
  have heq : m = ms := hms pit hpit m hm
  subst heq
  refine ⟨by simp, hruns.erase hl, ?_, ?_⟩
  · intro t ht
    rcases List.mem_append.1 ht with ht | ht
    · exact hslices t (List.mem_append_left _ ht)
    · rcases List.mem_cons.1 ht with rfl | ht
      · exact (hslices pit hpit).eraseJob hm
      · exact hslices t (by simp [ht])
  · intro t ht
    rcases List.mem_append.1 ht with ht | ht
    · exact hms t (List.mem_append_left _ ht)
    · rcases List.mem_cons.1 ht with rfl | ht
      · intro m' hm'
        rw [machinesOf_eraseJob, if_pos rfl] at hm'
        nomatch hm'
      · exact hms t (by simp [ht])

theorem removalInv_merge {ms : IntervalSet} {l r : List TimeSlice} {previous pit merged : TimeSlice}
    (h : RemovalInv W s job ms (l ++ previous :: pit :: r)) (hm : previous.mergeWithPrevious pit = .ok (some merged)) :
    RemovalInv W s job ms (l ++ merged :: r) := by
  obtain ⟨_, hruns, hslices, hms⟩ := h
  refine ⟨by simp, hruns.merge hm, ?_, ?_⟩
  · intro t ht
    rcases List.mem_append.1 ht with ht | ht
    · exact hslices t (List.mem_append_left _ ht)
    · rcases List.mem_cons.1 ht with rfl | ht
      · rw [(mergeWithPrevious_some hm).1]
        exact SliceOk.timeless _ _ _ _ (hslices pit (by simp))
      · exact hslices t (by simp [ht])
  · intro t ht
    rcases List.mem_append.1 ht with ht | ht
    · exact hms t (List.mem_append_left _ ht)
    · rcases List.mem_cons.1 ht with rfl | ht
      · rw [(mergeWithPrevious_some hm).1]
        exact hms pit (by simp)
      · exact hms t (by simp [ht])

/-- The assertion on merged slices holds: slices with the same jobs have the same machines available. -/
theorem removalInv_agree {ms : IntervalSet} {l r : List TimeSlice} {previous pit : TimeSlice}
    (h : RemovalInv W s job ms (l ++ previous :: pit :: r)) : ∃ o, previous.mergeWithPrevious pit = .ok o := by
  obtain ⟨_, hruns, hslices, _⟩ := h
  rw [TimeSlice.mergeWithPrevious]
  split
  · rename_i hsame
    have heq : previous.allocatedJobs = pit.allocatedJobs := by
      rcases hsame with heq | heq
      · exact heq
      · exact hruns.allocatedJobs_eq (by simp) (by simp) heq
    rw [if_pos ((hslices previous (by simp)).availableMachines_eq (hslices pit (by simp)) heq)]
    exact ⟨_, rfl⟩
  · exact ⟨_, rfl⟩

/-- Before a job is removed, the machines found at its first slice are its machines everywhere. -/
theorem removalInv_of_profile (h : MachinesOk W s) {before rest : List TimeSlice} {pit : TimeSlice} {ms : IntervalSet}
    (hprofile : s.profile = before ++ pit :: rest) (hms : machinesOf job pit = some ms) :
    RemovalInv W s job ms (before.reverse.reverse ++ pit :: rest) := by
  rw [List.reverse_reverse, ← hprofile]
  refine ⟨h.nonempty, h.runs, h.slices, fun t ht m hm => ?_⟩
  exact (h.runs.runs job).eq_of_mem (List.mem_map.2 ⟨t, ht, hm⟩)
    (List.mem_map.2 ⟨pit, by rw [hprofile]; simp, hms⟩)

theorem removeJobIfExists {b : Bool} (h : MachinesOk W s) (hr : s.removeJobIfExists job = .ok (s', b)) :
    MachinesOk W s' := by
  rcases Schedule.removeJobIfExists_ok hr with ⟨_, rfl, _⟩ | ⟨_, before, pit, rest, ms, p', hprofile, hbefore, hms, hp, rfl⟩
  · exact h
  · have hinv := removeFrom_rule (P := RemovalInv W s job ms) (fun _ _ _ h hl hc => removalInv_erase h hl hc)
      (fun _ _ _ _ _ h hm => removalInv_merge h hm) (fun t ht => hbefore t (List.mem_reverse.1 ht))
      (h.removalInv_of_profile hprofile hms) hp
    exact ⟨hinv.1, h.repair, hinv.2.1, hinv.2.2.1⟩

/-- Removing a job never aborts. -/
theorem removeJobIfExists_total (h : MachinesOk W s) (job : Job) : ∃ s' b, s.removeJobIfExists job = .ok (s', b) := by
  cases hc : s.containsJob job with
  | false => exact ⟨s, false, Schedule.removeJobIfExists_of_absent hc⟩
  | true =>
    obtain ⟨before, pit, rest, ms, hprofile, hbefore, hms, heq⟩ := Schedule.removeJobIfExists_of_present hc
    obtain ⟨p', hp⟩ := removeFrom_total (P := RemovalInv W s job ms) (fun _ _ _ h hl hc => removalInv_erase h hl hc)
      (fun _ _ _ _ _ h hm => removalInv_merge h hm) (fun _ _ _ _ h => removalInv_agree h)
      (fun t ht => hbefore t (List.mem_reverse.1 ht)) (h.removalInv_of_profile hprofile hms)
    exact ⟨_, _, (heq _).2 (by rw [hp])⟩

theorem updateFirstSlice {t : ℚ} (h : MachinesOk W s) (hu : s.updateFirstSlice t = .ok s') : MachinesOk W s' := by
  obtain ⟨slice, rest, hprofile, hprofile', _, _, _, hn, hr⟩ := Schedule.updateFirstSlice_ok hu
  obtain ⟨_, hrepair, ⟨hknown, hrun⟩, hslices⟩ := h
  rw [hprofile] at hknown hrun hslices
  refine ⟨by simp [hprofile'], by rwa [hr, hn], ⟨?_, ?_⟩, ?_⟩
  · rw [hprofile']
    intro u hu
    rcases List.mem_cons.1 hu with rfl | hu
    · exact hknown slice List.mem_cons_self
    · exact hknown u (List.mem_cons_of_mem _ hu)
  · rw [hprofile']
    exact hrun
  · rw [hprofile', hn, hr]
    intro u hu
    rcases List.mem_cons.1 hu with rfl | hu
    · exact SliceOk.timeless _ _ _ _ (hslices slice List.mem_cons_self)
    · exact hslices u (List.mem_cons_of_mem _ hu)

/-- A change of every slice that keeps the jobs keeps the runs. -/
theorem runs_map {p : List TimeSlice} {f : TimeSlice → TimeSlice} (hf : ∀ t, (f t).allocatedJobs = t.allocatedJobs)
    (h : RunsOk W p) : RunsOk W (p.map f) where
  known := by
    intro t ht e he
    obtain ⟨u, hu, rfl⟩ := List.mem_map.1 ht
    rw [hf] at he
    exact h.known u hu e he
  runs := by
    intro job
    have heq : machinesOf job ∘ f = machinesOf job := by
      funext t
      rw [Function.comp_apply, machinesOf, hf, machinesOf]
    rw [List.map_map, heq]
    exact h.runs job

/-- Taking machines for repair keeps the accounting where those not yet under repair are available in every slice. -/
theorem addRepairMachine {m : IntervalSet} (h : MachinesOk W s)
    (hm : ∀ t ∈ s.profile, m \ s.repairMachines ⊆ t.availableMachines) : MachinesOk W (s.addRepairMachine m).1 := by
  have hrange : ∀ x ∈ s.repairMachines ∪ m, x < s.nbMachines := by
    obtain ⟨t, ht⟩ := List.exists_mem_of_ne_nil _ h.nonempty
    intro x hx
    by_cases hxr : x ∈ s.repairMachines
    · exact h.repair x hxr
    · have hxm := (Finset.mem_union.1 hx).resolve_left hxr
      exact (((h.slices t ht).available x).1 (hm t ht (Finset.mem_sdiff.2 ⟨hxm, hxr⟩))).1
  refine ⟨by simpa [Schedule.addRepairMachine] using h.nonempty, hrange, runs_map (fun _ => rfl) h.runs, ?_⟩
  intro t ht
  obtain ⟨u, hu, rfl⟩ := List.mem_map.1 ht
  have hok := h.slices u hu
  have hfree : ∀ x ∈ m \ s.repairMachines, ∀ e ∈ u.allocatedJobs.entries, x ∉ e.2 :=
    fun x hx => ((hok.available x).1 (hm u hu hx)).2.2
  refine ⟨hok.disjoint, ?_, ?_, hok.allocated, ?_⟩
  · intro e he x hx
    refine ⟨(hok.inRange e he x hx).1, fun hxr => ?_⟩
    rcases Finset.mem_union.1 hxr with hxr | hxm
    · exact (hok.inRange e he x hx).2 hxr
    · exact hfree x (Finset.mem_sdiff.2 ⟨hxm, (hok.inRange e he x hx).2⟩) e he hx
  · intro x
    simp only [Schedule.addRepairMachine, Finset.mem_sdiff, Finset.mem_union, hok.available]
    tauto
  · have := Finset.card_sdiff_add_card_eq_card (hm u hu)
    simp only [hok.count]
    omega

/-- Giving machines back after repair keeps the accounting. -/
theorem removeRepairMachines (h : MachinesOk W s) (m : IntervalSet) : MachinesOk W (s.removeRepairMachines m).1 := by
  refine ⟨by simpa [Schedule.removeRepairMachines] using h.nonempty, fun x hx => h.repair x (Finset.mem_sdiff.1 hx).1,
    runs_map (fun _ => rfl) h.runs, ?_⟩
  intro t ht
  obtain ⟨u, hu, rfl⟩ := List.mem_map.1 ht
  have hok := h.slices u hu
  -- no machine under repair is allocated, so all of them are given back
  have hnone : u.allocatedMachines ∩ (s.repairMachines ∩ m) = ∅ := by
    rw [← Finset.disjoint_iff_inter_eq_empty, Finset.disjoint_left]
    intro x hx hxr
    obtain ⟨e, he, hxe⟩ := (hok.allocated x).1 hx
    exact (hok.inRange e he x hxe).2 (Finset.mem_inter.1 hxr).1
  have hdisj : Disjoint u.availableMachines (s.repairMachines ∩ m) := by
    rw [Finset.disjoint_left]
    intro x hx hxr
    exact ((hok.available x).1 hx).2.1 (Finset.mem_inter.1 hxr).1
  refine ⟨hok.disjoint, ?_, ?_, hok.allocated, ?_⟩
  · intro e he x hx
    exact ⟨(hok.inRange e he x hx).1, fun hxr => (hok.inRange e he x hx).2 (Finset.mem_sdiff.1 hxr).1⟩
  · intro x
    simp only [Schedule.removeRepairMachines, hnone, Finset.sdiff_empty, Finset.mem_union, Finset.mem_inter,
      Finset.mem_sdiff, hok.available]
    constructor
    · rintro (⟨h1, h2, h3⟩ | ⟨h1, h2⟩)
      · exact ⟨h1, fun hx => h2 hx.1, h3⟩
      · exact ⟨h.repair x h1, fun hx => hx.2 h2, fun e he hx => (hok.inRange e he x hx).2 h1⟩
    · rintro ⟨h1, h2, h3⟩
      by_cases hx : x ∈ s.repairMachines
      · exact Or.inr ⟨hx, by tauto⟩
      · exact Or.inl ⟨h1, hx, h3⟩
  · simp only [hnone, Finset.sdiff_empty, Finset.card_empty, Finset.card_union_of_disjoint hdisj, hok.count]
    push_cast
    ring

end MachinesOk

end ScheduleTest
