import ScheduleTest.Theorems.Reservations
import ScheduleTest.Lemmas.FirstFit

/-!
# Undoing an insertion

Backfilling tries a job in the schedule and takes it out again where it would not start at once. What the schedule says at every
date from now on is then what it said before, and so are its sizes: the slices may be cut and merged otherwise, but neighbours that
are merged say the same. Taking out a reservation that was inserted as a job does not give back the number of jobs.
-/

namespace ScheduleTest

open Execution Timeline

/-- The schedule says at every date from now on what the other says, and has the same size and number of jobs. -/
structure SameSchedule (s s' : Schedule) : Prop where
  firstSliceBegin : s'.firstSliceBegin = s.firstSliceBegin
  atDate : ∀ x, s.firstSliceBegin ≤ x → s'.atDate x = s.atDate x
  size : s'.size = s.size
  nbJobsSize : s'.nbJobsSize = s.nbJobsSize

/-- The calls under which the accounts of a schedule stay right: those that keep the accounting of the machines and add no
reservations as jobs, and those that keep the books on reservations. -/
def KeptCall (W : NamedJobs) (sorter : Sorter LargestFirst) (s : Schedule) : MixedCall → Prop
  | .plain _ call => AccountedCall W s call ∧ (∀ job ∈ call.job, job ∈ W.jobs) ∧ ∀ job ∈ call.addedJob, job.isReservation = false
  | .reserving call => BookedCall sorter s call ∧ ∀ job ∈ call.job, job ∈ W.jobs

namespace UndoAux

variable {W : Workload} {s s' : Schedule} {job : Job} {a : Anchor} {ms : IntervalSet}

/-! ## The runs -/

open ReservationsAux

/-- The jobs of a slice, and its counters of reservations. -/
def books (t : TimeSlice) : KeyedMap Job.id IntervalSet × ℤ × Bool := (t.allocatedJobs, t.nbReservations, t.hasReservation)

/-- The books of a slice depend on its jobs and its counters only. -/
theorem sliceBook_congr {t u : TimeSlice} (h : SliceBook t) (heq : books u = books t) : SliceBook u := by
  simp only [books, Prod.mk.injEq] at heq
  have hcount : nbReservationJobs u = nbReservationJobs t := by rw [nbReservationJobs, heq.1, nbReservationJobs]
  exact ⟨by rw [heq.2.1, hcount, h.reservations], by rw [heq.2.2, hcount, h.hasReservation]⟩

/-- A change of the slices that keeps their jobs and the counters of their reservations. -/
theorem bookInv_congr (h : BookInv W s) (hm : MachinesOk W s') (hslices : s'.profile.map books = s.profile.map books)
    (hsize : s'.size = s.size) (hnb : s'.nbJobsSize = s.nbJobsSize) (hnbr : s'.nbReservationsSize = s.nbReservationsSize) :
    BookInv W s' := by
  have hjobs : jobsOf s'.profile = jobsOf s.profile := by
    have hview : ∀ p, jobsOf p = ((p.map books).flatMap (fun e => e.1.keys)).toFinset := by
      intro p
      rw [jobsOf, List.flatMap_map]
      rfl
    rw [hview, hview, hslices]
  refine ⟨hm, fun u hu => ?_, ?_⟩
  · have hmem : books u ∈ s.profile.map books := by
      rw [← hslices]
      exact List.mem_map_of_mem hu
    obtain ⟨t, ht, heq⟩ := List.mem_map.1 hmem
    exact sliceBook_congr (h.slices t ht) heq.symm
  · rw [hjobs]
    exact ⟨by rw [hsize, h.sizes.size], by rw [hnb, h.sizes.nbJobsSize], by rw [hnbr, h.sizes.nbReservationsSize]⟩

/-- A call under its condition keeps the accounts and the times. -/
theorem step {sorter : Sorter LargestFirst} {call : MixedCall} (h : BookInv W s ∧ Timed s.profile)
    (hcall : KeptCall W sorter s call) (hrun : call.run sorter s = .ok s') : BookInv W s' ∧ Timed s'.profile := by
  cases call with
  | plain selector call =>
    obtain ⟨hacc, hjobs, hres⟩ := hcall
    have hm := h.1.machines.runWith hacc hrun
    refine ⟨?_, h.2.runWith hrun⟩
    rcases ScheduleCall.runWith_cases hrun with ⟨job, b, alloc, rfl, ha⟩ | ⟨hadd, hrun'⟩
    · obtain ⟨hc, ⟨_, _, rfl, _⟩ | ⟨a, hanchor, rfl, _⟩⟩ := Schedule.addJobFirstFitWith_ok ha
      · exact h.1
      · obtain ⟨hshape, hfits, _⟩ := Schedule.findAnchorWith_ok hanchor
        exact h.1.place hacc (hres job rfl) hc hshape hfits rfl rfl rfl rfl rfl rfl
    · cases call with
      | addJobFirstFit job b => nomatch hadd
      | removeJob job => exact h.1.removeJobIfExists (hjobs job rfl) (Schedule.removeJob_ok hrun')
      | removeJobIfExists job =>
        obtain ⟨⟨s1, b⟩, ha, rfl⟩ := map_eq_ok.1 hrun'
        exact h.1.removeJobIfExists (hjobs job rfl) ha
      | updateFirstSlice t =>
        obtain ⟨slice, rest, hp, hp', h1, h2, h3, _⟩ := Schedule.updateFirstSlice_ok hrun'
        exact bookInv_congr h.1 hm (by rw [hp, hp']; rfl) h1 h2 h3
      | addRepairMachine m =>
        cases hrun'
        refine bookInv_congr h.1 hm ?_ rfl rfl rfl
        simp only [Schedule.addRepairMachine, List.map_map]
        rfl
      | removeRepairMachines m =>
        cases hrun'
        refine bookInv_congr h.1 hm ?_ rfl rfl rfl
        simp only [Schedule.removeRepairMachines, List.map_map]
        rfl
  | reserving call =>
    exact ⟨h.1.step hcall.2 hcall.1 hrun, h.2.runReservation hrun⟩

/-! ## Taking out what was put in -/

/-- What a slice says when the job is taken out of it. -/
def withoutJob (job : Job) (ms : IntervalSet) (t : TimeSlice) : SliceContent :=
  if t.containsJob job then (t.eraseJob job ms).content else t.content

theorem withoutJob_of_absent {t : TimeSlice} (h : t.containsJob job = false) (ms : IntervalSet) :
    withoutJob job ms t = t.content := by
  rw [withoutJob, h]
  rfl

/-- Slices that say the same say the same without the job. -/
theorem withoutJob_congr {t u : TimeSlice} (h : t.content = u.content) (ms : IntervalSet) :
    withoutJob job ms t = withoutJob job ms u := by
  have hview : ∀ v : TimeSlice, ∀ b e l, withoutJob job ms (v.retime b e l) = withoutJob job ms v := fun _ _ _ _ => rfl
  have heq : u.retime t.beginDate t.endDate t.length = t := by
    cases t
    cases u
    simp only [TimeSlice.content, SliceContent.mk.injEq] at h
    simp [TimeSlice.retime, h]
  rw [← hview u t.beginDate t.endDate t.length, heq]

/-- A slice that a job is put into says the same without the job as before. -/
theorem withoutJob_allocateJob {n : ℕ} {R used : IntervalSet} {t : TimeSlice} (hok : SliceOk n R t)
    (hsub : used ⊆ t.availableMachines) (hcard : used.card = job.nbRequestedResources) (hc : t.containsJob job = false)
    (hres : job.isReservation = false) : withoutJob job (used \ R) (t.allocateJob job used) = t.content := by
  have hin : (t.allocateJob job used).containsJob job = true := by
    rw [containsJob_eq_isSome, machinesOf_allocateJob, if_pos rfl]
    rfl
  have hR : used \ R = used := Finset.sdiff_eq_self_of_disjoint (Finset.disjoint_left.2 fun x hx =>
    ((hok.available x).1 (hsub hx)).2.1)
  have hdisj : Disjoint t.allocatedMachines used := by
    rw [Finset.disjoint_left]
    intro x hx hx'
    obtain ⟨e, he, hxe⟩ := (hok.allocated x).1 hx
    exact ((hok.available x).1 (hsub hx')).2.2 e he hxe
  rw [withoutJob, if_pos hin, hR]
  simp only [TimeSlice.content, TimeSlice.eraseJob, TimeSlice.allocateJob, SliceContent.mk.injEq]
  refine ⟨by simp [hres], by simp [hres], Finset.sdiff_union_of_subset hsub, ?_, by rw [hcard]; ring, ?_⟩
  · rw [Finset.union_sdiff_right, Finset.sdiff_eq_self_of_disjoint hdisj]
  · exact KeyedMap.erase_insert_of_new (KeyedMap.contains_eq_false_iff.1 hc)

/-- What the steps of a removal keep: the accounts of the slices, and the date of the first. -/
def UndoInv (W : Workload) (s : Schedule) (job : Job) (ms : IntervalSet) (date : ℚ) (p : List TimeSlice) : Prop :=
  MachinesOk.RemovalInv W s job ms p ∧ (∀ t ∈ p, SliceBook t) ∧ p.head?.map (·.beginDate) = some date

section Steps

variable {date : ℚ} {l r : List TimeSlice} {previous pit merged : TimeSlice}

theorem UndoInv.erase (hjob : job ∈ W.jobs) (h : UndoInv W s job ms date (l ++ pit :: r))
    (hl : ∀ t ∈ l, t.containsJob job = false) (hc : pit.containsJob job = true) :
    UndoInv W s job ms date (l ++ pit.eraseJob job (ms \ s.repairMachines) :: r) := by
  obtain ⟨hinv, hbook, hhead⟩ := h
  refine ⟨MachinesOk.removalInv_erase hinv hl hc, fun t ht => ?_, by cases l <;> exact hhead⟩
  rcases List.mem_append.1 ht with ht | ht
  · exact hbook t (List.mem_append_left _ ht)
  · rcases List.mem_cons.1 ht with rfl | ht
    · have hpit : pit ∈ l ++ pit :: r := by simp
      exact sliceBook_eraseJob (hbook pit hpit) (fun e he hid => W.id_injOn (hinv.2.1.known pit hpit e he) hjob hid) hc _
    · exact hbook t (by simp [ht])

theorem UndoInv.merge (h : UndoInv W s job ms date (l ++ previous :: pit :: r))
    (hm : previous.mergeWithPrevious pit = .ok (some merged)) : UndoInv W s job ms date (l ++ merged :: r) := by
  obtain ⟨hinv, hbook, hhead⟩ := h
  have hmerged := (mergeWithPrevious_some hm).1
  refine ⟨MachinesOk.removalInv_merge hinv hm, fun t ht => ?_, ?_⟩
  · rcases List.mem_append.1 ht with ht | ht
    · exact hbook t (List.mem_append_left _ ht)
    · rcases List.mem_cons.1 ht with rfl | ht
      · rw [hmerged]
        exact SliceBook.timeless _ _ _ _ (hbook pit (by simp))
      · exact hbook t (by simp [ht])
  · cases l with
    | nil =>
      rw [hmerged]
      exact hhead
    | cons b l => exact hhead

/-- Neighbours that are merged say the same. -/
theorem UndoInv.agree (h : UndoInv W s job ms date (l ++ previous :: pit :: r))
    (hm : previous.mergeWithPrevious pit = .ok (some merged)) : previous.content = pit.content := by
  obtain ⟨⟨_, hruns, hslices, _⟩, hbook, _⟩ := h
  have hjobs := hruns.allocatedJobs_eq_of_merge hm
  have hprevious := hslices previous (by simp)
  have hpit := hslices pit (by simp)
  have hcount : nbReservationJobs previous = nbReservationJobs pit := by rw [nbReservationJobs, hjobs, nbReservationJobs]
  have havailable := hprevious.availableMachines_eq hpit hjobs
  simp only [TimeSlice.content, SliceContent.mk.injEq]
  refine ⟨?_, ?_, havailable, ?_, ?_, hjobs⟩
  · rw [Bool.eq_iff_iff, (hbook previous (by simp)).hasReservation, (hbook pit (by simp)).hasReservation, hcount]
  · rw [(hbook previous (by simp)).reservations, (hbook pit (by simp)).reservations, hcount]
  · ext x
    rw [hprevious.allocated, hpit.allocated, hjobs]
  · rw [hprevious.count, hpit.count, havailable]

end Steps

/-- A job that has been placed and is taken out again leaves what the schedule said before. -/
theorem undo {selector : ResourceSelector} (h : BookInv W s) (ht : Timed s.profile) (hjob : job ∈ W.jobs)
    (hc : s.containsJob job = false) (ha : s.findAnchorWith selector job = some a) (hres : job.isReservation = false) :
    ∃ s', (s.placedAt job a).removeJob job = .ok s' ∧ SameSchedule s s' := by
  obtain ⟨hshape, hfits, _⟩ := Schedule.findAnchorWith_ok ha
  have hplaced : BookInv W (s.placedAt job a) :=
    h.place hjob hres hc hshape hfits rfl rfl rfl rfl rfl rfl
  have htplaced : Timed (s.placedAt job a).profile := by
    rw [← hshape] at ht
    exact ht.placeAt _
  have hin : (s.placedAt job a).containsJob job = true := by
    rw [containsJob_iff_present]
    exact present_placeAt.2 (Or.inl rfl)
  obtain ⟨s', b, hremove⟩ := hplaced.machines.removeJobIfExists_total job
  have hremoved := hremove
  rcases Schedule.removeJobIfExists_ok hremove with ⟨_, _, habsent⟩ | ⟨rfl, before, pit, rest, ms, p', hprofile, hbefore, hms, hp, rfl⟩
  · rw [hin] at habsent
    cases habsent
  refine ⟨_, by rw [Schedule.removeJob, hremoved], ?_⟩
  -- the machines taken out are those that were put in
  have hused : ms = a.usedMachines := by
    obtain ⟨first, more, after, hparts, _, hheld, hfree, hafter⟩ := placeAt_parts hshape hc (s.endDateAt job a)
    have hmem : pit ∈ a.before.reverse ++ (first :: more ++ after) := by
      rw [← hparts]
      change pit ∈ (s.placedAt job a).profile
      rw [hprofile]
      simp
    have hpit : pit.containsJob job = true := by
      rw [containsJob_eq_isSome, hms]
      rfl
    rcases List.mem_append.1 hmem with hmem | hmem
    · rw [hfree pit (List.mem_reverse.1 hmem)] at hpit
      cases hpit
    · rcases List.mem_append.1 hmem with hmem | hmem
      · exact Option.some.inj (hms.symm.trans (hheld pit hmem))
      · rw [hafter pit hmem] at hpit
        cases hpit
  subst hused
  have hhead : (s.placedAt job a).profile.head?.map (·.beginDate) = some s.firstSliceBegin := by
    change (Schedule.placeAt job a _).head?.map (·.beginDate) = _
    rw [head_placeAt, hshape, Schedule.firstSliceBegin]
    cases hp : s.profile with
    | nil => exact absurd hp ht.ne_nil
    | cons t rest => rfl
  have hQ : UndoInv W (s.placedAt job a) job a.usedMachines s.firstSliceBegin (before.reverse.reverse ++ pit :: rest) := by
    refine ⟨hplaced.machines.removalInv_of_profile hprofile hms, ?_, ?_⟩
    · rw [List.reverse_reverse, ← hprofile]
      exact hplaced.slices
    · rw [List.reverse_reverse, ← hprofile]
      exact hhead
  have hbefore' : ∀ t ∈ before.reverse, t.containsJob job = false := fun t ht => hbefore t (List.mem_reverse.1 ht)
  have hfinal := removeFrom_rule (P := UndoInv W (s.placedAt job a) job a.usedMachines s.firstSliceBegin)
    (fun _ _ _ h hl hc => h.erase hjob hl hc) (fun _ _ _ _ _ h hm => h.merge hm) hbefore' hQ hp
  refine ⟨?_, fun x hx => ?_, ?_, ?_⟩
  · change (p'.head?.map (·.beginDate)).getD 0 = _
    rw [hfinal.2.2]
    rfl
  · have hremoval := sliceAt_removeFrom (x := x) (f := withoutJob job (a.usedMachines \ s.repairMachines))
      (Q := UndoInv W (s.placedAt job a) job a.usedMachines s.firstSliceBegin) (fun _ _ _ _ => rfl)
      (fun t hct => (withoutJob_of_absent (containsJob_eraseJob job _ t) _).trans (if_pos hct).symm)
      (fun _ _ _ h hl hc => h.erase hjob hl hc) (fun _ _ _ _ _ h hm => h.merge hm)
      (fun _ _ _ _ _ h hm => withoutJob_congr (h.agree hm) _) hbefore' hQ
      (by rw [List.reverse_reverse, ← hprofile]; exact htplaced) hp (by
        rw [List.reverse_reverse, ← hprofile]
        intro first hfirst
        rw [hfirst, Option.map_some] at hhead
        exact (Option.some.inj hhead).le.trans hx)
    have habsent : ∀ t ∈ p', t.containsJob job = false := by
      have hrun := hplaced.machines.runs.runs job
      rw [hprofile, List.map_append, List.oneRun_append_none, List.map_cons, hms] at hrun
      · refine removeFrom_absent (m := a.usedMachines) hbefore' ?_ hp
        rw [List.map_cons, hms]
        exact ⟨rfl, hrun⟩
      · intro y hy
        obtain ⟨t, ht, rfl⟩ := List.mem_map.1 hy
        exact machinesOf_eq_none (hbefore t ht)
    have hold := Schedule.containsJob_eq_false.1 hc
    have hplace := @sliceAt_placeAt_unseen _ (withoutJob job (a.usedMachines \ s.repairMachines)) x job a
      (fun _ _ _ _ => rfl) (fun t hmem => by
        have ht : t ∈ s.profile := by
          rw [← hshape]
          simp only [Anchor.slices, List.mem_append, List.mem_cons, List.not_mem_nil, or_false] at hmem ⊢
          tauto
        rw [withoutJob_allocateJob (h.machines.slices t ht) (hfits.used t hmem) hfits.card (hold t ht) hres,
          withoutJob_of_absent (hold t ht)]) (s.endDateAt job a)
    -- both profiles are seen without the job, which neither holds
    have view : ∀ p : List TimeSlice, (∀ t ∈ p, t.containsJob job = false) →
        contentAt p x = (sliceAt p x).map (withoutJob job (a.usedMachines \ s.repairMachines)) := by
      intro p hnone
      rw [contentAt]
      cases hl : sliceAt p x with
      | none => rfl
      | some t => rw [Option.map_some, Option.map_some, withoutJob_of_absent (hnone t (mem_of_lookup hl).1)]
    change contentAt p' x = contentAt s.profile x
    rw [view p' habsent, view s.profile hold, hremoval.1, List.reverse_reverse, ← hprofile, ← hshape]
    exact hplace
  · simp [Schedule.afterRemoval, Schedule.placedAt]
  · simp [Schedule.afterRemoval, Schedule.placedAt, hres]

/-- Taking out a reservation leaves the number of jobs. -/
theorem nbJobsSize_removeJob (hres : job.isReservation = true) (h : s.removeJob job = .ok s') : s'.nbJobsSize = s.nbJobsSize := by
  rcases Schedule.removeJobIfExists_ok (Schedule.removeJob_ok h) with ⟨hfalse, _⟩ | ⟨_, before, pit, rest, ms, p', _, _, _, _, rfl⟩
  · nomatch hfalse
  · simp [Schedule.afterRemoval, hres]

end UndoAux

open UndoAux ReservationsAux in
/-- In every state that a run of calls under their condition reaches, with any selectors: taking out a job of the workload that
`add_job_first_fit` has just inserted gives back the schedule as it was exactly where the job is not a reservation. -/
theorem undo_insertion_iff (W : Workload) (sorter : Sorter LargestFirst) (n : ℕ) (t0 : ℚ) (calls : List MixedCall)
    (hcalls : AllSteps (MixedCall.run sorter) (KeptCall W sorter) (Schedule.new n t0) calls) :
    Always (MixedCall.run sorter) (fun s => ∀ (selector : ResourceSelector) (job : Job) (b : Bool) (s' : Schedule) (alloc : JobAlloc),
      job ∈ W.jobs → s.addJobFirstFitWith selector job b = .ok (s', alloc) → alloc.hasBeenInserted = true →
        ((∃ s'', s'.removeJob job = .ok s'' ∧ SameSchedule s s'') ↔ job.isReservation = false)) (Schedule.new n t0) calls := by
  refine always_of_invariant (I := fun s => BookInv W s ∧ Timed s.profile) (fun _ _ _ h hcall hrun => step h hcall hrun) ?_
    ⟨BookInv.new W n t0, Timed.new n t0⟩ hcalls
  intro s h selector job b s' alloc hjob hadd hin
  obtain ⟨a, ha⟩ := Option.isSome_iff_exists.1 ((Schedule.addJobFirstFitWith_inserted hadd).1 hin)
  obtain ⟨hc, ⟨hnone, _⟩ | ⟨a', ha', rfl, _⟩⟩ := Schedule.addJobFirstFitWith_ok hadd
  · rw [ha] at hnone
    nomatch hnone
  constructor
  · rintro ⟨s'', hremove, hsame⟩
    cases hres : job.isReservation with
    | false => rfl
    | true =>
      have hsize := hsame.nbJobsSize
      rw [nbJobsSize_removeJob hres hremove] at hsize
      change s.nbJobsSize + 1 = s.nbJobsSize at hsize
      omega
  · intro hres
    exact undo h.1 h.2 hjob hc ha' hres

namespace UndoWitness

/-- A job of ten seconds on one machine. -/
def job : Job := { id := "w!1", nbRequestedResources := 1, walltime := 10 }

/-- A reservation of machine 1 from date 5 on, for ten seconds. -/
def reservation : Job :=
  { id := "w!2", nbRequestedResources := 1, walltime := 10, purpose := "reservation", futureAllocations := {1}, start := 5 }

/-- A workload of the two. -/
def workload : Workload := Workload.ofList [job, reservation] (by decide) (by decide)

/-- A sort of the running jobs. -/
def sorter : Sorter LargestFirst := Sorter.stable LargestFirst

/-- The reservation is placed, and a second passes. -/
def calls : List MixedCall := [.reserving (.addReservation reservation), .plain .basic (.updateFirstSlice 1)]

/-- The calls meet their conditions. -/
theorem calls_kept : AllSteps (MixedCall.run sorter) (KeptCall workload sorter) (Schedule.new 2 0) calls := by
  refine ⟨⟨⟨rfl, by decide +kernel, ?_⟩, fun j hj => ?_⟩, fun _ _ => ⟨⟨trivial, nofun, nofun⟩, fun _ _ => trivial⟩⟩
  · intro s' r h _
    have hfree : ((Schedule.new 2 0).reserveTimeSlice sorter reservation).toOption.map
        (fun x => decide (ReservedFree x.1 reservation x.2)) = some true := by decide +kernel
    rw [h] at hfree
    exact of_decide_eq_true (Option.some.inj hfree)
  · cases hj
    exact List.mem_cons_of_mem _ List.mem_cons_self

end UndoWitness

open UndoWitness in
/-- The calls go through; a job that is put into the schedule reached and taken out of it leaves the schedule as it was. -/
theorem undo_insertion_iff_witness :
    ∃ s s' alloc s'', runFrom (MixedCall.run sorter) (Schedule.new 2 0) calls = .ok s ∧
      s.addJobFirstFitWith .basic job true = .ok (s', alloc) ∧ s'.removeJob job = .ok s'' ∧ SameSchedule s s'' := by
  have hrun : (runFrom (MixedCall.run sorter) (Schedule.new 2 0) calls).toOption.map
      (fun s => (s.addJobFirstFitWith .basic job true).toOption.map (fun x => x.2.hasBeenInserted)) = some (some true) := by
    decide +kernel
  obtain ⟨s, hs, hadd⟩ := toOption_map_eq_some.1 hrun
  obtain ⟨⟨s', alloc⟩, hok, hin⟩ := toOption_map_eq_some.1 hadd
  obtain ⟨s'', hremove, hsame⟩ := ((undo_insertion_iff workload sorter 2 0 calls calls_kept).last hs .basic job true s' alloc
    List.mem_cons_self hok hin).2 rfl
  exact ⟨s, s', alloc, s'', hs, hok, hremove, hsame⟩

open UndoWitness in
/-- A reservation that is inserted as a job and taken out leaves one more job and one reservation less than there were. -/
theorem undo_insertion_false :
    ¬ (∀ (W : Workload) (sorter : Sorter LargestFirst) (n : ℕ) (t0 : ℚ) (calls : List MixedCall),
      AllSteps (MixedCall.run sorter) (KeptCall W sorter) (Schedule.new n t0) calls →
      Always (MixedCall.run sorter) (fun s => ∀ (selector : ResourceSelector) (job : Job) (b : Bool) (s' : Schedule)
        (alloc : JobAlloc), job ∈ W.jobs → s.addJobFirstFitWith selector job b = .ok (s', alloc) → alloc.hasBeenInserted = true →
          ∃ s'', s'.removeJob job = .ok s'' ∧ SameSchedule s s'') (Schedule.new n t0) calls) ∧
    ((Schedule.new 2 0).addJobFirstFitWith .basic reservation true).toOption.bind
      (fun x => (x.1.removeJob reservation).toOption.map (fun s => (s.nbJobsSize, s.nbReservationsSize))) = some (1, -1) := by
  have hrun : ((Schedule.new 2 0).addJobFirstFitWith .basic reservation true).toOption.bind
      (fun x => (x.1.removeJob reservation).toOption.map (fun s => (s.nbJobsSize, s.nbReservationsSize))) = some (1, -1) := by
    decide +kernel
  refine ⟨fun h => ?_, hrun⟩
  have hadd : ((Schedule.new 2 0).addJobFirstFitWith .basic reservation true).toOption.map (fun x => x.2.hasBeenInserted) =
      some true := by decide +kernel
  obtain ⟨⟨s', alloc⟩, hok, hin⟩ := toOption_map_eq_some.1 hadd
  obtain ⟨s'', hremove, hsame⟩ := (show ∀ (selector : ResourceSelector) (job : Job) (b : Bool) (s' : Schedule)
      (alloc : JobAlloc), job ∈ workload.jobs → (Schedule.new 2 0).addJobFirstFitWith selector job b = .ok (s', alloc) →
        alloc.hasBeenInserted = true → ∃ s'', s'.removeJob job = .ok s'' ∧ SameSchedule (Schedule.new 2 0) s''
    from h workload sorter 2 0 [] trivial) .basic reservation true s' alloc (List.mem_cons_of_mem _ List.mem_cons_self) hok hin
  rw [hok] at hrun
  change (s'.removeJob reservation).toOption.map _ = _ at hrun
  rw [hremove] at hrun
  have hsize := hsame.nbJobsSize
  rw [(Prod.mk.inj (Option.some.inj hrun)).1] at hsize
  exact absurd hsize (by decide)

end ScheduleTest
