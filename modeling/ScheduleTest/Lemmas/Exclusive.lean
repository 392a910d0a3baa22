import ScheduleTest.Lemmas.Presence

/-!
# Jobs on different machines

The part of the machine accounting of a schedule that goes through every operation, whether or not jobs hold the machines that go
under repair (`Exclusive`), and the jobs that run now, which are in the first slice (`HoldsNow`). A job placed runs now where it
starts in the first slice, on machines that no job that runs now is on; removing another job leaves it there, whatever slices are
merged.
-/

namespace ScheduleTest

/-! ## Machines -/

/-- The machines of the jobs of a slice are disjoint and known to be allocated, and those available are not among them, nor under
repair. -/
structure SliceExclusive (repair : IntervalSet) (s : TimeSlice) : Prop where
  disjoint : ∀ e ∈ s.allocatedJobs.entries, ∀ e' ∈ s.allocatedJobs.entries, e ≠ e' → Disjoint e.2 e'.2
  available : ∀ e ∈ s.allocatedJobs.entries, Disjoint s.availableMachines e.2
  allocated : ∀ e ∈ s.allocatedJobs.entries, e.2 ⊆ s.allocatedMachines
  repair : Disjoint s.availableMachines repair

namespace SliceExclusive

variable {R : IntervalSet} {job : Job} {s : TimeSlice}

theorem timeless : Timeless (SliceExclusive R) := fun _ _ _ _ h => ⟨h.disjoint, h.available, h.allocated, h.repair⟩

/-- Machines that are available can be given to a job that is not in the slice. -/
theorem allocateJob (h : SliceExclusive R s) {used : IntervalSet} (hused : used ⊆ s.availableMachines)
    (hnew : s.containsJob job = false) : SliceExclusive R (s.allocateJob job used) := by
  have hmem : ∀ e, e ∈ (s.allocateJob job used).allocatedJobs.entries ↔ e = (job, used) ∨ e ∈ s.allocatedJobs.entries :=
    fun e => KeyedMap.mem_insert_of_new (KeyedMap.contains_eq_false_iff.1 hnew)
  constructor
  · intro e he e' he' hne
    rcases (hmem e).1 he with rfl | he
    · rcases (hmem e').1 he' with rfl | he'
      · exact absurd rfl hne
      · exact Finset.disjoint_of_subset_left hused (h.available e' he')
    · rcases (hmem e').1 he' with rfl | he'
      · exact (Finset.disjoint_of_subset_left hused (h.available e he)).symm
      · exact h.disjoint e he e' he' hne
  · intro e he
    rcases (hmem e).1 he with rfl | he
    · exact Finset.sdiff_disjoint
    · exact Finset.disjoint_of_subset_left Finset.sdiff_subset (h.available e he)
  · intro e he
    rcases (hmem e).1 he with rfl | he
    · exact Finset.subset_union_right
    · exact (h.allocated e he).trans Finset.subset_union_left
  · exact Finset.disjoint_of_subset_left Finset.sdiff_subset h.repair

/-- Taking a job out of the slice and giving back those of its machines that are not under repair. -/
theorem eraseJob (h : SliceExclusive R s) {ms : IntervalSet} (hms : machinesOf job s = some ms) :
    SliceExclusive R (s.eraseJob job (ms \ R)) := by
  obtain ⟨job', hmem, hid⟩ := KeyedMap.find?_eq_some.1 hms
  -- the entries that stay are the others, so their machines are not the job's
  have hdisj : ∀ e ∈ s.allocatedJobs.entries, e.1.id ≠ job.id → Disjoint (ms \ R) e.2 := by
    intro e he hne
    refine Finset.disjoint_of_subset_left Finset.sdiff_subset (h.disjoint (job', ms) hmem e he fun heq => hne ?_)
    rw [← heq]
    exact hid
  constructor
  · intro e he e' he' hne
    exact h.disjoint e (KeyedMap.mem_erase.1 he).1 e' (KeyedMap.mem_erase.1 he').1 hne
  · intro e he
    obtain ⟨he, hne⟩ := KeyedMap.mem_erase.1 he
    exact Finset.disjoint_union_left.2 ⟨h.available e he, hdisj e he hne⟩
  · intro e he
    obtain ⟨he, hne⟩ := KeyedMap.mem_erase.1 he
    exact Finset.subset_sdiff.2 ⟨h.allocated e he, (hdisj e he hne).symm⟩
  · exact Finset.disjoint_union_left.2 ⟨h.repair, Finset.sdiff_disjoint⟩

/-- Machines that go under repair are no longer available. -/
theorem takeForRepair (h : SliceExclusive R s) (m : IntervalSet) (nb : ℤ) :
    SliceExclusive (R ∪ m) { s with nbAvailableMachines := nb, availableMachines := s.availableMachines \ (m \ R) } where
  disjoint := h.disjoint
  available := fun e he => Finset.disjoint_of_subset_left Finset.sdiff_subset (h.available e he)
  allocated := h.allocated
  repair := by
    rw [Finset.disjoint_left]
    intro x hx hxr
    obtain ⟨hx, hnot⟩ := Finset.mem_sdiff.1 hx
    have hout := Finset.disjoint_left.1 h.repair hx
    exact hnot (Finset.mem_sdiff.2 ⟨(Finset.mem_union.1 hxr).resolve_left hout, hout⟩)

/-- Machines that come back from repair are available where no job holds them. -/
theorem giveBack (h : SliceExclusive R s) (m : IntervalSet) (nb : ℤ) :
    SliceExclusive (R \ m) { s with
      nbAvailableMachines := nb
      availableMachines := s.availableMachines ∪ ((R ∩ m) \ (s.allocatedMachines ∩ (R ∩ m))) } where
  disjoint := h.disjoint
  available := by
    intro e he
    refine Finset.disjoint_union_left.2 ⟨h.available e he, Finset.disjoint_left.2 fun x hx hxe => ?_⟩
    obtain ⟨hx, hnot⟩ := Finset.mem_sdiff.1 hx
    exact hnot (Finset.mem_inter.2 ⟨h.allocated e he hxe, hx⟩)
  allocated := h.allocated
  repair := by
    refine Finset.disjoint_union_left.2 ⟨Finset.disjoint_of_subset_right Finset.sdiff_subset h.repair, ?_⟩
    refine Finset.disjoint_left.2 fun x hx hxr => ?_
    exact (Finset.mem_sdiff.1 hxr).2 (Finset.mem_inter.1 (Finset.mem_sdiff.1 hx).1).2

end SliceExclusive

/-- A property of slices that erasing a job keeps goes through `remove_job_if_exists`, and so do the runs of the jobs. -/
theorem forall_removeJobIfExists {W : NamedJobs} {s s' : Schedule} {job : Job} {b : Bool} {P : TimeSlice → Prop} (hP : Timeless P)
    (herase : ∀ t ms, P t → machinesOf job t = some ms → P (t.eraseJob job (ms \ s.repairMachines))) (hruns : RunsOk W s.profile)
    (h : ∀ t ∈ s.profile, P t) (hr : s.removeJobIfExists job = .ok (s', b)) : RunsOk W s'.profile ∧ ∀ t ∈ s'.profile, P t := by
  rcases Schedule.removeJobIfExists_ok hr with ⟨_, rfl, _⟩ | ⟨_, before, pit, rest, ms, p', hprofile, hbefore, hms, hp, rfl⟩
  · exact ⟨hruns, h⟩
  · have hmachines : ∀ t ∈ s.profile, ∀ m, machinesOf job t = some m → m = ms := fun t ht m hm =>
      (hruns.runs job).eq_of_mem (List.mem_map.2 ⟨t, ht, hm⟩) (List.mem_map.2 ⟨pit, by simp [hprofile], hms⟩)
    rw [hprofile, ← List.reverse_reverse before] at hruns h hmachines
    have hinv := removeFrom_rule
      (P := fun p => RunsOk W p ∧ ∀ t ∈ p, P t ∧ ∀ m, machinesOf job t = some m → m = ms)
      ?_ ?_ (fun t ht => hbefore t (List.mem_reverse.1 ht)) ⟨hruns, fun t ht => ⟨h t ht, hmachines t ht⟩⟩ hp
    · exact ⟨hinv.1, fun t ht => (hinv.2 t ht).1⟩
    · rintro l u r ⟨hruns, hslices⟩ hl hc
      rw [containsJob_eq_isSome] at hc
      obtain ⟨m, hm⟩ := Option.isSome_iff_exists.1 hc
      obtain ⟨hu, hum⟩ := hslices u (by simp)
      refine ⟨hruns.erase hl, fun t ht => ?_⟩
      rcases List.mem_append.1 ht with ht | ht
      · exact hslices t (List.mem_append_left _ ht)
      · rcases List.mem_cons.1 ht with rfl | ht
        · refine ⟨herase u ms hu (hum m hm ▸ hm), fun m' hm' => ?_⟩
          rw [machinesOf_eraseJob, if_pos rfl] at hm'
          cases hm'
        · exact hslices t (by simp [ht])
    · rintro l previous u merged r ⟨hruns, hslices⟩ hm
      refine ⟨hruns.merge hm, fun t ht => ?_⟩
      rcases List.mem_append.1 ht with ht | ht
      · exact hslices t (List.mem_append_left _ ht)
      · rcases List.mem_cons.1 ht with rfl | ht
        · rw [(mergeWithPrevious_some hm).1]
          obtain ⟨hu, hum⟩ := hslices u (by simp)
          exact ⟨hP _ _ _ _ hu, hum⟩
        · exact hslices t (by simp [ht])

/-- Every job is in one run of slices, and in every slice jobs are on different machines. -/
structure Exclusive (W : NamedJobs) (s : Schedule) : Prop where
  runs : RunsOk W s.profile
  slices : ∀ t ∈ s.profile, SliceExclusive s.repairMachines t

namespace Exclusive

variable {W : NamedJobs} {s s' : Schedule} {job : Job}

theorem new (W : NamedJobs) (n : ℕ) (t0 : ℚ) : Exclusive W (Schedule.new n t0) where
  runs := RunsOk.of_no_jobs (by
    intro s hs
    rw [List.mem_singleton.1 hs])
  slices := by
    intro s hs
    rw [List.mem_singleton.1 hs]
    exact ⟨nofun, nofun, nofun, Finset.disjoint_empty_right _⟩

theorem addJobFirstFit {assertSuccessful : Bool} {alloc : JobAlloc} (h : Exclusive W s) (hjob : job ∈ W.jobs)
    (ha : s.addJobFirstFit job assertSuccessful = .ok (s', alloc)) : Exclusive W s' := by
  obtain ⟨hc, rfl | ⟨a, endDate, hanchor, rfl⟩⟩ := Schedule.addJobFirstFit_ok ha
  · exact h
  · have hshape := Schedule.findAnchor_shape hanchor
    have hfits := scanAnchor_fits hanchor
    have hnew := Schedule.containsJob_eq_false.1 hc
    have hruns := h.runs
    have hslices := h.slices
    rw [← hshape] at hnew hruns hslices
    refine ⟨hruns.placeAt endDate hjob hnew, forall_placeAt SliceExclusive.timeless hslices ?_⟩
    intro t ht b e l
    have ht' : t ∈ a.before.reverse ++ (a.covered ++ a.last :: a.rest) := by
      simp only [Anchor.slices, List.mem_append, List.mem_cons, List.mem_reverse, List.not_mem_nil, or_false] at ht ⊢
      tauto
    exact (SliceExclusive.timeless t b e l (hslices t ht')).allocateJob (hfits.used t ht) (hnew t ht')

theorem removeJobIfExists {b : Bool} (h : Exclusive W s) (hr : s.removeJobIfExists job = .ok (s', b)) : Exclusive W s' := by
  obtain ⟨hruns, hslices⟩ := forall_removeJobIfExists SliceExclusive.timeless (fun t ms ht hms => ht.eraseJob hms) h.runs h.slices hr
  exact ⟨hruns, (Schedule.removeJobIfExists_frame hr).2 ▸ hslices⟩

theorem updateFirstSlice {t : ℚ} (h : Exclusive W s) (hu : s.updateFirstSlice t = .ok s') : Exclusive W s' := by
  obtain ⟨slice, rest, hprofile, hprofile', _, _, _, _, hr⟩ := Schedule.updateFirstSlice_ok hu
  obtain ⟨⟨hknown, hrun⟩, hslices⟩ := h
  rw [hprofile] at hknown hrun hslices
  refine ⟨⟨?_, ?_⟩, ?_⟩
  · rw [hprofile']
    intro u hu
    rcases List.mem_cons.1 hu with rfl | hu
    · exact hknown slice List.mem_cons_self
    · exact hknown u (List.mem_cons_of_mem _ hu)
  · rw [hprofile']
    exact hrun
  · rw [hprofile', hr]
    intro u hu
    rcases List.mem_cons.1 hu with rfl | hu
    · exact SliceExclusive.timeless _ _ _ _ (hslices slice List.mem_cons_self)
    · exact hslices u (List.mem_cons_of_mem _ hu)

theorem addRepairMachine (h : Exclusive W s) (m : IntervalSet) : Exclusive W (s.addRepairMachine m).1 where
  runs := MachinesOk.runs_map (fun _ => rfl) h.runs
  slices := by
    intro t ht
    obtain ⟨u, hu, rfl⟩ := List.mem_map.1 ht
    exact (h.slices u hu).takeForRepair m _

theorem removeRepairMachines (h : Exclusive W s) (m : IntervalSet) : Exclusive W (s.removeRepairMachines m).1 where
  runs := MachinesOk.runs_map (fun _ => rfl) h.runs
  slices := by
    intro t ht
    obtain ⟨u, hu, rfl⟩ := List.mem_map.1 ht
    exact (h.slices u hu).giveBack m _

/-- More jobs may be named. -/
theorem mono {V : NamedJobs} (h : Exclusive W s) (hsub : W.jobs ⊆ V.jobs) : Exclusive V s := ⟨h.runs.mono hsub, h.slices⟩

end Exclusive

/-! ## The jobs that run now -/

/-- The machines that the first slice gives a job. -/
def machinesNow (job : Job) (p : List TimeSlice) : Option IntervalSet := p.head?.bind (machinesOf job)

theorem machinesNow_eq (job : Job) (p : List TimeSlice) : machinesNow job p = (p.map (machinesOf job)).head?.join := by
  cases p <;> simp [machinesNow]

/-- A job placed runs now where it begins with the first slice, and the jobs that run now stay. -/
theorem machinesNow_placeAt {job job' : Job} {a : Anchor} {endDate : ℚ} :
    machinesNow job' (Schedule.placeAt job a endDate) =
      if a.before.isEmpty ∧ job'.id = job.id then some a.usedMachines
      else machinesNow job' (a.before.reverse ++ (a.covered ++ a.last :: a.rest)) := by
  rw [machinesNow_eq, machinesNow_eq, map_machinesOf_placeAt]
  rcases List.eq_nil_or_concat a.before with hb | ⟨older, first, hb⟩
  · rw [hb]
    cases hc : a.covered with
    | nil => by_cases hid : job'.id = job.id <;> simp [Anchor.slices, hc, hid]
    | cons t covered => by_cases hid : job'.id = job.id <;> simp [Anchor.slices, hc, hid]
  · simp [hb]

/-- Removing a job leaves the jobs that run now, whatever is merged with the first slice. -/
theorem machinesNow_removeFrom {W : NamedJobs} {job job' : Job} {ms : IntervalSet} {before after p' : List TimeSlice}
    (h : RunsOk W (before.reverse ++ after)) (hb : ∀ s ∈ before, s.containsJob job = false) (hne : job'.id ≠ job.id)
    (hr : removeFrom job ms before after = .ok p') : machinesNow job' p' = machinesNow job' (before.reverse ++ after) := by
  refine (removeFrom_rule (P := fun p => RunsOk W p ∧ machinesNow job' p = machinesNow job' (before.reverse ++ after))
    ?_ ?_ hb ⟨h, rfl⟩ hr).2
  · rintro l pit r ⟨hruns, hnow⟩ hl _
    refine ⟨hruns.erase hl, ?_⟩
    rw [← hnow]
    cases l with
    | nil => simp [machinesNow, machinesOf_eraseJob, hne]
    | cons t l => rfl
  · rintro l previous pit merged r ⟨hruns, hnow⟩ hm
    refine ⟨hruns.merge hm, ?_⟩
    have heq : machinesOf job' previous = machinesOf job' pit := by
      rw [machinesOf, hruns.allocatedJobs_eq_of_merge hm, machinesOf]
    rw [← hnow]
    cases l with
    | nil => simp [machinesNow, (mergeWithPrevious_some hm).1, heq]
    | cons t l => rfl

/-- The jobs held are in the first slice, on their machines. -/
structure HoldsNow (W : NamedJobs) (s : Schedule) (held : List (String × IntervalSet)) : Prop where
  exclusive : Exclusive W s
  now : ∀ job ms, (job.id, ms) ∈ held → machinesNow job s.profile = some ms

namespace HoldsNow

variable {W : NamedJobs} {s s' : Schedule} {held held' : List (String × IntervalSet)} {job : Job} {alloc : JobAlloc}

/-- Fewer jobs may be held. -/
theorem subset (h : HoldsNow W s held) (hheld : ∀ e ∈ held', e ∈ held) : HoldsNow W s held' where
  exclusive := h.exclusive
  now := fun job ms hmem => h.now job ms (hheld _ hmem)

/-- The first slice has the machines of a job that runs now. -/
theorem entry {e : String × IntervalSet} (h : HoldsNow W s held) (he : e ∈ held) :
    ∃ t rest job, s.profile = t :: rest ∧ (job, e.2) ∈ t.allocatedJobs.entries ∧ job.id = e.1 := by
  have hnow := h.now { id := e.1, nbRequestedResources := 0, walltime := 0 } e.2 he
  unfold machinesNow at hnow
  cases hp : s.profile with
  | nil => simp [hp] at hnow
  | cons t rest =>
    rw [hp] at hnow
    obtain ⟨job, hjob, hid⟩ := KeyedMap.find?_eq_some.1 hnow
    exact ⟨t, rest, job, rfl, hjob, hid⟩

/-- Two jobs that run now are on different machines. -/
theorem disjoint (h : HoldsNow W s held) {e e' : String × IntervalSet} (he : e ∈ held) (he' : e' ∈ held) (hne : e.1 ≠ e'.1) :
    Disjoint e.2 e'.2 := by
  obtain ⟨t, rest, job, hp, hjob, hid⟩ := h.entry he
  obtain ⟨t', rest', job', hp', hjob', hid'⟩ := h.entry he'
  obtain ⟨rfl, rfl⟩ := List.cons.inj (hp.symm.trans hp')
  refine (h.exclusive.slices t (by simp [hp])).disjoint _ hjob _ hjob' fun heq => hne ?_
  rw [← hid, ← hid', (Prod.mk.inj heq).1]

/-- A job that runs now is in the schedule. -/
theorem present (h : HoldsNow W s held) (hmem : job.id ∈ held.map (·.1)) : Present job s.profile := by
  obtain ⟨e, he, hid⟩ := List.mem_map.1 hmem
  obtain ⟨t, rest, job', hp, hjob, hid'⟩ := h.entry he
  exact ⟨t, by simp [hp], KeyedMap.contains_iff.2 ⟨_, hjob, hid'.trans hid⟩⟩

/-- Placing a job leaves the jobs that run now where they are. -/
theorem place {assertSuccessful : Bool} (h : HoldsNow W s held) (hjob : job ∈ W.jobs)
    (ha : s.addJobFirstFit job assertSuccessful = .ok (s', alloc)) : HoldsNow W s' held where
  exclusive := h.exclusive.addJobFirstFit hjob ha
  now := by
    intro job' ms hmem
    obtain ⟨hc, rfl | ⟨a, endDate, hanchor, rfl⟩⟩ := Schedule.addJobFirstFit_ok ha
    · exact h.now job' ms hmem
    · have hne : job'.id ≠ job.id := by
        intro heq
        have hbad := containsJob_iff_present.2 (h.present (heq ▸ List.mem_map_of_mem hmem))
        rw [hc] at hbad
        cases hbad
      change machinesNow job' (Schedule.placeAt job a _) = _
      rw [machinesNow_placeAt, if_neg (fun hbad => hne hbad.2), Schedule.findAnchor_shape hanchor]
      exact h.now job' ms hmem

/-- What is known of a job placed that starts in the first slice: it gets as many machines as it requests, none under repair and none
of a job that runs now, and runs on them. -/
theorem starts {assertSuccessful : Bool} (h : HoldsNow W s held) (ha : s.addJobFirstFit job assertSuccessful = .ok (s', alloc))
    (hstart : alloc.startedInFirstSlice) :
    alloc.usedMachines.card = job.nbRequestedResources ∧ Disjoint alloc.usedMachines s.repairMachines ∧
      (∀ e ∈ held, Disjoint alloc.usedMachines e.2) ∧
      ∀ job', job'.id = job.id → machinesNow job' s'.profile = some alloc.usedMachines := by
  unfold Schedule.addJobFirstFit at ha
  split at ha
  · cases ha
  · unfold Schedule.addJobFirstFitAfterTimeSlice at ha
    split at ha
    · rename_i a hanchor
      have hshape := Schedule.findAnchor_shape hanchor
      have hfits := scanAnchor_fits hanchor
      cases ha
      have hbefore : a.before = [] := List.isEmpty_iff.1 hstart
      -- the first slice is one of those that the job takes
      obtain ⟨first, hfirst, rest, hprofile⟩ : ∃ first ∈ a.slices, ∃ rest, s.profile = first :: rest := by
        rw [← hshape, hbefore]
        cases hc : a.covered with
        | nil => exact ⟨a.last, by simp [Anchor.slices], a.rest, rfl⟩
        | cons t covered => exact ⟨t, by simp [Anchor.slices, hc], covered ++ a.last :: a.rest, rfl⟩
      have hslice := h.exclusive.slices first (by simp [hprofile])
      refine ⟨hfits.card, Finset.disjoint_of_subset_left (hfits.used first hfirst) hslice.repair, fun e he => ?_, fun job' hid => ?_⟩
      · obtain ⟨t, rest', job', hp, hjob', -⟩ := h.entry he
        obtain ⟨rfl, rfl⟩ := List.cons.inj (hprofile.symm.trans hp)
        exact Finset.disjoint_of_subset_left (hfits.used first hfirst) (hslice.available _ hjob')
      · change machinesNow job' (Schedule.placeAt job a _) = _
        rw [machinesNow_placeAt, if_pos ⟨hstart, hid⟩]
    · split at ha
      · cases ha
      · cases ha
        cases hstart

/-- A job placed that starts in the first slice runs. -/
theorem start (h : HoldsNow W s held) {ms : IntervalSet}
    (hnow : ∀ job', job'.id = job.id → machinesNow job' s.profile = some ms) : HoldsNow W s (held ++ [(job.id, ms)]) where
  exclusive := h.exclusive
  now := by
    intro job' ms' hmem
    rcases List.mem_append.1 hmem with hmem | hmem
    · exact h.now job' ms' hmem
    · obtain ⟨hid, rfl⟩ := Prod.mk.inj (List.mem_singleton.1 hmem)
      exact hnow job' hid

/-- Removing a job leaves the other jobs that run now. -/
theorem removeIfExists {b : Bool} (h : HoldsNow W s held) (hr : s.removeJobIfExists job = .ok (s', b)) :
    HoldsNow W s' (held.filter (·.1 ≠ job.id)) where
  exclusive := h.exclusive.removeJobIfExists hr
  now := by
    intro job' ms hmem
    simp only [List.mem_filter, decide_eq_true_eq] at hmem
    have hold := h.now job' ms hmem.1
    rcases Schedule.removeJobIfExists_ok hr with ⟨_, rfl, _⟩ | ⟨_, before, pit, rest, ms', p', hprofile, hbefore, _, hp, rfl⟩
    · exact hold
    · have hruns := h.exclusive.runs
      rw [hprofile] at hruns hold
      rw [← List.reverse_reverse before] at hruns hold
      exact (machinesNow_removeFrom hruns (fun t ht => hbefore t (List.mem_reverse.1 ht)) hmem.2 hp).trans hold

/-- The first slice may begin now. -/
theorem update {date : ℚ} (h : HoldsNow W s held) (hu : s.updateFirstSlice date = .ok s') : HoldsNow W s' held where
  exclusive := h.exclusive.updateFirstSlice hu
  now := by
    intro job ms hmem
    obtain ⟨slice, rest, hprofile, hprofile', _⟩ := Schedule.updateFirstSlice_ok hu
    have hold := h.now job ms hmem
    rw [hprofile] at hold
    rw [hprofile']
    exact hold

/-- Machines may go under repair, or come back. -/
theorem addRepairMachine (h : HoldsNow W s held) (m : IntervalSet) : HoldsNow W (s.addRepairMachine m).1 held where
  exclusive := h.exclusive.addRepairMachine m
  now := by
    intro job ms hmem
    rw [← h.now job ms hmem]
    unfold machinesNow Schedule.addRepairMachine
    cases s.profile <;> rfl

theorem removeRepairMachines (h : HoldsNow W s held) (m : IntervalSet) : HoldsNow W (s.removeRepairMachines m).1 held where
  exclusive := h.exclusive.removeRepairMachines m
  now := by
    intro job ms hmem
    rw [← h.now job ms hmem]
    unfold machinesNow Schedule.removeRepairMachines
    cases s.profile <;> rfl

/-- More jobs may be named. -/
theorem mono {V : NamedJobs} (h : HoldsNow W s held) (hsub : W.jobs ⊆ V.jobs) : HoldsNow V s held := ⟨h.exclusive.mono hsub, h.now⟩

end HoldsNow

end ScheduleTest
