import ScheduleTest.Lemmas.Presence
import ScheduleTest.Lemmas.Calls

/-!
# The books on reservations

Conservative backfilling decides by counters which are kept by hand: how many reservations a slice holds and whether it holds
one, and how many jobs and reservations the schedule has. `Bookkeeping` says that they are what they count. Two operations do
not keep them: `add_current_reservation` counts the reservation as neither a job nor a reservation, counts a reservation that
found no place, and does not count it in the last of several slices; `remove_reservations_if_ready` takes a reservation off the
second slice's count before `remove_job_if_exists` takes it off again. In a run without these the books are right.
-/

namespace ScheduleTest

open Execution

/-- The number of reservations that a slice holds. -/
def nbReservationJobs (t : TimeSlice) : ℕ := t.allocatedJobs.entries.countP (fun e => e.1.isReservation)

/-- The counters of a slice count its reservations. -/
structure SliceBook (t : TimeSlice) : Prop where
  reservations : t.nbReservations = nbReservationJobs t
  hasReservation : t.hasReservation = true ↔ 0 < nbReservationJobs t

/-- The counters of the slices and of the schedule count what they say. -/
structure Bookkeeping (s : Schedule) : Prop where
  slices : ∀ t ∈ s.profile, SliceBook t
  count : ∀ t ∈ s.profile, t.nbAvailableMachines = t.availableMachines.card
  size : s.size = (jobsOf s.profile).card
  nbJobsSize : s.nbJobsSize = ((jobsOf s.profile).filter (fun job => job.isReservation = false)).card
  nbReservationsSize : s.nbReservationsSize = ((jobsOf s.profile).filter (fun job => job.isReservation = true)).card

/-- The first reservation of the second slice that waits to start, where that slice is due. -/
def waitingReservation (s : Schedule) : Option (TimeSlice × Job × IntervalSet) :=
  match s.reservationsDue with
  | some (first, slice) =>
    (slice.allocatedJobs.entries.find? (fun e => e.1.isReservation && !first.containsJob e.1)).map (fun e => (first, e))
  | none => none

/-- The machines reserved for a job are as many as it requests, and available in every slice they are reserved in. -/
def ReservedFree (s : Schedule) (job : Job) (r : ReservedTimeSlice) : Prop :=
  r.alloc.usedMachines.card = job.nbRequestedResources ∧
    ∀ t ∈ (s.profile.drop r.sliceBegin).take (r.sliceEnd + 1 - r.sliceBegin), r.alloc.usedMachines ⊆ t.availableMachines

instance (s : Schedule) (job : Job) (r : ReservedTimeSlice) : Decidable (ReservedFree s job r) :=
  inferInstanceAs (Decidable (_ ∧ _))

/-- The calls under which the books stay right. A reservation is added only on machines that are free, and once; a waiting
reservation that is due cannot start; and `add_current_reservation` stops at one of its assertions. -/
def BookedCall (sorter : Sorter LargestFirst) (s : Schedule) : ReservationCall → Prop
  | .addReservation job => job.isReservation = true ∧ s.containsJob job = false ∧
      ∀ s' r, s.reserveTimeSlice sorter job = .ok (s', r) → r.success = true → ReservedFree s' job r
  | .addCurrentReservation job b => s.containsJob job = true ∨ job.isReservation = false ∨
      match s.findReservationAnchor job with
      | some a => a.usedMachines.card ≠ job.nbRequestedResources
      | none => b = true
  | .removeReservationsIfReady => ∀ first e, waitingReservation s = some (first, e) →
      ¬ e.2 ⊆ first.availableMachines ∪ s.repairMachines
  | .addJobFirstFit job _ => job.isReservation = false
  | .removeJob _ => True

/-- The job a call is about. -/
def ReservationCall.job : ReservationCall → Option Job
  | .addReservation job => some job
  | .addCurrentReservation job _ => some job
  | .removeReservationsIfReady => none
  | .addJobFirstFit job _ => some job
  | .removeJob job => some job

namespace ReservationsAux

variable {W : Workload} {s s' : Schedule} {job : Job}

/-! ## The counters of a slice -/

theorem SliceBook.timeless : Timeless SliceBook := fun _ _ _ _ h => ⟨h.reservations, h.hasReservation⟩

/-- A new job adds itself to the reservations of a slice if it is one. -/
theorem nbReservationJobs_insert {t u : TimeSlice} {used : IntervalSet} (hu : u.allocatedJobs = t.allocatedJobs.insert job used)
    (hnew : t.containsJob job = false) : nbReservationJobs u = nbReservationJobs t + if job.isReservation then 1 else 0 := by
  rw [nbReservationJobs, hu, (KeyedMap.perm_insert_of_new (KeyedMap.contains_eq_false_iff.1 hnew)).countP_eq,
    List.countP_cons, nbReservationJobs]

/-- A job that is erased takes itself off the reservations of a slice if it was one. -/
theorem nbReservationJobs_erase {t : TimeSlice} (hknown : ∀ e ∈ t.allocatedJobs.entries, e.1.id = job.id → e.1 = job)
    (hc : t.containsJob job = true) (ms : IntervalSet) :
    nbReservationJobs t = nbReservationJobs (t.eraseJob job ms) + if job.isReservation then 1 else 0 := by
  obtain ⟨e, he, hid⟩ := KeyedMap.contains_iff.1 hc
  have hjob := hknown e he hid
  rw [nbReservationJobs, (KeyedMap.perm_erase (show (e.1, e.2) ∈ _ from he) hid).countP_eq, List.countP_cons, hjob]
  rfl

/-- Giving a slice to a job that is not a reservation. -/
theorem sliceBook_allocateJob {t : TimeSlice} (h : SliceBook t) (hjob : job.isReservation = false)
    (hnew : t.containsJob job = false) (used : IntervalSet) : SliceBook (t.allocateJob job used) := by
  have heq : nbReservationJobs (t.allocateJob job used) = nbReservationJobs t := by
    rw [nbReservationJobs_insert (t := t) rfl hnew, hjob]
    rfl
  exact ⟨by rw [heq]; exact h.reservations, by rw [heq]; exact h.hasReservation⟩

/-- Giving a slice to a reservation. -/
theorem sliceBook_reserve {t : TimeSlice} (h : SliceBook t) (hjob : job.isReservation = true)
    (hnew : t.containsJob job = false) (used : IntervalSet) : SliceBook (t.reserve job used) := by
  have heq : nbReservationJobs (t.reserve job used) = nbReservationJobs t + 1 := by
    rw [nbReservationJobs_insert (t := t) rfl hnew, hjob]
    rfl
  refine ⟨?_, ?_⟩
  · rw [heq, TimeSlice.reserve, h.reservations]
    push_cast
    rfl
  · rw [heq, TimeSlice.reserve]
    simp

/-- Taking a job out of a slice that holds it. -/
theorem sliceBook_eraseJob {t : TimeSlice} (h : SliceBook t)
    (hknown : ∀ e ∈ t.allocatedJobs.entries, e.1.id = job.id → e.1 = job) (hc : t.containsJob job = true)
    (ms : IntervalSet) : SliceBook (t.eraseJob job ms) := by
  have heq := nbReservationJobs_erase hknown hc ms
  have hnb : (t.eraseJob job ms).nbReservations = if job.isReservation then t.nbReservations - 1 else t.nbReservations := rfl
  have hhas : (t.eraseJob job ms).hasReservation =
      if job.isReservation ∧ t.nbReservations - 1 = 0 then false else t.hasReservation := rfl
  have hold := h.hasReservation
  rw [h.reservations] at hnb hhas
  refine ⟨?_, ?_⟩
  · rw [hnb]
    split at heq <;> rename_i hjob
    · rw [if_pos hjob, heq]
      push_cast
      ring
    · rw [if_neg hjob, heq, Nat.add_zero]
  · rw [hhas]
    split at heq <;> rename_i hjob
    · split <;> rename_i hzero
      · have : nbReservationJobs (t.eraseJob job ms) = 0 := by omega
        simp [this]
      · have : nbReservationJobs (t.eraseJob job ms) ≠ 0 := fun h0 => hzero ⟨hjob, by omega⟩
        rw [hold]
        omega
    · rw [if_neg fun hand => hjob hand.1, hold, heq, Nat.add_zero]

/-! ## The sizes of the schedule -/

/-- The sizes count a set of jobs. -/
structure Sizes (jobs : Finset Job) (s : Schedule) : Prop where
  size : s.size = jobs.card
  nbJobsSize : s.nbJobsSize = (jobs.filter (fun job => job.isReservation = false)).card
  nbReservationsSize : s.nbReservationsSize = (jobs.filter (fun job => job.isReservation = true)).card

/-- One more job. -/
theorem Sizes.insert {jobs : Finset Job} (h : Sizes jobs s) (hnot : job ∉ jobs) (hsize : s'.size = s.size + 1)
    (hnb : s'.nbJobsSize = if job.isReservation then s.nbJobsSize else s.nbJobsSize + 1)
    (hres : s'.nbReservationsSize = if job.isReservation then s.nbReservationsSize + 1 else s.nbReservationsSize) :
    Sizes (insert job jobs) s' := by
  have hnot' : ∀ b, job ∉ jobs.filter (fun j => j.isReservation = b) := fun b hmem => hnot (Finset.mem_filter.1 hmem).1
  refine ⟨?_, ?_, ?_⟩
  · rw [hsize, h.size, Finset.card_insert_of_notMem hnot]
    push_cast
    rfl
  · rw [hnb, h.nbJobsSize, Finset.filter_insert]
    cases hjob : job.isReservation
    · simp [Finset.card_insert_of_notMem (hnot' false)]
    · simp
  · rw [hres, h.nbReservationsSize, Finset.filter_insert]
    cases hjob : job.isReservation
    · simp
    · simp [Finset.card_insert_of_notMem (hnot' true)]

/-- One job less. -/
theorem Sizes.erase {jobs : Finset Job} (h : Sizes jobs s) (hmem : job ∈ jobs) (hsize : s'.size = s.size - 1)
    (hnb : s'.nbJobsSize = if job.isReservation then s.nbJobsSize else s.nbJobsSize - 1)
    (hres : s'.nbReservationsSize = if job.isReservation then s.nbReservationsSize - 1 else s.nbReservationsSize) :
    Sizes (jobs.erase job) s' := by
  have hcard : ∀ b, job.isReservation = b → ((jobs.erase job).filter (fun j => j.isReservation = b)).card + 1 =
      (jobs.filter (fun j => j.isReservation = b)).card := by
    intro b hb
    rw [Finset.filter_erase, Finset.card_erase_add_one]
    exact Finset.mem_filter.2 ⟨hmem, hb⟩
  have hsame : ∀ b, job.isReservation ≠ b → (jobs.erase job).filter (fun j => j.isReservation = b) =
      jobs.filter (fun j => j.isReservation = b) := by
    intro b hb
    rw [Finset.filter_erase, Finset.erase_eq_of_notMem]
    exact fun hin => hb (Finset.mem_filter.1 hin).2
  have hcard0 := Finset.card_erase_add_one hmem
  refine ⟨?_, ?_, ?_⟩
  · rw [hsize, h.size]
    omega
  · rw [hnb, h.nbJobsSize]
    cases hjob : job.isReservation
    · have := hcard false hjob
      simp only [Bool.false_eq_true, if_false]
      omega
    · rw [hsame false (by simp [hjob])]
      simp
  · rw [hres, h.nbReservationsSize]
    cases hjob : job.isReservation
    · rw [hsame true (by simp [hjob])]
      simp
    · have := hcard true hjob
      simp only [if_true]
      omega

/-! ## The invariant -/

/-- The machines are accounted for and the books are right. -/
structure BookInv (W : Workload) (s : Schedule) : Prop where
  machines : MachinesOk W s
  slices : ∀ t ∈ s.profile, SliceBook t
  sizes : Sizes (jobsOf s.profile) s

theorem BookInv.bookkeeping (h : BookInv W s) : Bookkeeping s :=
  ⟨h.slices, fun t ht => (h.machines.slices t ht).count, h.sizes.size, h.sizes.nbJobsSize, h.sizes.nbReservationsSize⟩

theorem BookInv.new (W : Workload) (n : ℕ) (t0 : ℚ) : BookInv W (Schedule.new n t0) where
  machines := MachinesOk.new W n t0
  slices := by
    intro t ht
    rw [List.mem_singleton.1 ht]
    exact ⟨rfl, by simp [nbReservationJobs]⟩
  sizes := ⟨rfl, rfl, rfl⟩

/-- A job that is not in the schedule is not among its jobs. -/
theorem BookInv.not_mem_jobsOf (h : BookInv W s) (hc : s.containsJob job = false) : job ∉ jobsOf s.profile := by
  rw [mem_jobsOf h.machines.runs, ← containsJob_iff_present, hc]
  exact fun hand => nomatch hand.2

/-- Placing a job that is not a reservation where it fits keeps the invariant. -/
theorem BookInv.place {a : Anchor} {endDate : ℚ} {walltimeFrom : TimeSlice → ℚ} (h : BookInv W s) (hjob : job ∈ W.jobs)
    (hres : job.isReservation = false) (hc : s.containsJob job = false)
    (hshape : a.before.reverse ++ (a.covered ++ a.last :: a.rest) = s.profile) (hfits : AnchorFits job walltimeFrom a)
    (hprofile : s'.profile = Schedule.placeAt job a endDate) (hn : s'.nbMachines = s.nbMachines)
    (hr : s'.repairMachines = s.repairMachines) (hsize : s'.size = s.size + 1) (hnb : s'.nbJobsSize = s.nbJobsSize + 1)
    (hnbr : s'.nbReservationsSize = s.nbReservationsSize) : BookInv W s' := by
  have hmachines := h.machines.place hjob hc hshape hfits hprofile hn hr
  have hnew := Schedule.containsJob_eq_false.1 hc
  have hslices := h.slices
  rw [← hshape] at hnew hslices
  refine ⟨hmachines, ?_, ?_⟩
  · rw [hprofile]
    refine forall_placeAt SliceBook.timeless hslices ?_
    intro t ht b e l
    have ht' : t ∈ a.before.reverse ++ (a.covered ++ a.last :: a.rest) := by
      simp only [Anchor.slices, List.mem_append, List.mem_cons, List.mem_reverse, List.not_mem_nil, or_false] at ht ⊢
      tauto
    exact sliceBook_allocateJob (SliceBook.timeless t b e l (hslices t ht')) hres (hnew t ht') _
  · have hpres : ∀ job', Present job' s'.profile ↔ job'.id = job.id ∨ Present job' s.profile := by
      intro job'
      rw [hprofile, ← hshape]
      exact present_placeAt
    rw [jobsOf_insert h.machines.runs hmachines.runs hjob hpres]
    exact h.sizes.insert (h.not_mem_jobsOf hc) hsize (by simp [hres, hnb]) (by simp [hres, hnbr])

theorem BookInv.addJobFirstFit {b : Bool} {alloc : JobAlloc} (h : BookInv W s) (hjob : job ∈ W.jobs)
    (hres : job.isReservation = false) (ha : s.addJobFirstFit job b = .ok (s', alloc)) : BookInv W s' := by
  obtain ⟨hc, rfl | ⟨a, endDate, hanchor, rfl⟩⟩ := Schedule.addJobFirstFit_ok ha
  · exact h
  · exact h.place hjob hres hc (Schedule.findAnchor_shape hanchor) (scanAnchor_fits hanchor) rfl rfl rfl rfl rfl rfl

/-- Removing a job keeps the books of the slices. -/
theorem sliceBooks_removeJobIfExists {b : Bool} (hruns : RunsOk W s.profile) (hslices : ∀ t ∈ s.profile, SliceBook t)
    (hjob : job ∈ W.jobs) (hr : s.removeJobIfExists job = .ok (s', b)) : ∀ t ∈ s'.profile, SliceBook t := by
  rcases Schedule.removeJobIfExists_ok hr with ⟨_, rfl, _⟩ | ⟨_, before, pit, rest, ms, p', hprofile, hbefore, _, hp, rfl⟩
  · exact hslices
  · rw [hprofile, ← List.reverse_reverse before] at hslices hruns
    refine (removeFrom_rule (P := fun p => RunsOk W p ∧ ∀ t ∈ p, SliceBook t) ?_ ?_
      (fun t ht => hbefore t (List.mem_reverse.1 ht)) ⟨hruns, hslices⟩ hp).2
    · rintro l u r ⟨h1, h2⟩ hl hc
      refine ⟨h1.erase hl, fun t ht => ?_⟩
      have hu : u ∈ l ++ u :: r := by simp
      simp only [List.mem_append, List.mem_cons] at ht
      rcases ht with ht | rfl | ht
      · exact h2 t (by simp [ht])
      · exact sliceBook_eraseJob (h2 u hu) (fun e he hid => W.id_injOn (h1.known u hu e he) hjob hid) hc _
      · exact h2 t (by simp [ht])
    · rintro l previous u merged r ⟨h1, h2⟩ hm
      refine ⟨h1.merge hm, fun t ht => ?_⟩
      simp only [List.mem_append, List.mem_cons] at ht
      rcases ht with ht | rfl | ht
      · exact h2 t (by simp [ht])
      · rw [(mergeWithPrevious_some hm).1]
        exact SliceBook.timeless _ _ _ _ (h2 u (by simp))
      · exact h2 t (by simp [ht])

theorem BookInv.removeJobIfExists {b : Bool} (h : BookInv W s) (hjob : job ∈ W.jobs)
    (hr : s.removeJobIfExists job = .ok (s', b)) : BookInv W s' := by
  have hmachines := h.machines.removeJobIfExists hr
  have hpres : ∀ job', Present job' s'.profile ↔ job'.id ≠ job.id ∧ Present job' s.profile :=
    fun job' => present_removeJobIfExists h.machines.runs hr
  have hjobs := jobsOf_erase h.machines.runs hmachines.runs hjob hpres
  refine ⟨hmachines, sliceBooks_removeJobIfExists h.machines.runs h.slices hjob hr, ?_⟩
  rcases Schedule.removeJobIfExists_ok hr with ⟨_, rfl, _⟩ | ⟨_, before, pit, rest, ms, p', hprofile, _, hms, _, rfl⟩
  · exact h.sizes
  · rw [hjobs]
    have hpresent : Present job s.profile :=
      ⟨pit, by simp [hprofile], by rw [containsJob_eq_isSome, hms]; rfl⟩
    exact h.sizes.erase ((mem_jobsOf h.machines.runs).2 ⟨hjob, hpresent⟩) rfl rfl rfl

/-- Cutting slices keeps the invariant. -/
theorem BookInv.cut {p : List TimeSlice} (h : BookInv W s) (hcut : Cut s.profile p) :
    BookInv W { s with profile := p } := by
  have hruns := hcut.runsOk h.machines.runs
  refine ⟨⟨hcut.ne_nil h.machines.nonempty, h.machines.repair, hruns, hcut.forall_mem SliceOk.timeless h.machines.slices⟩,
    hcut.forall_mem SliceBook.timeless h.slices, ?_⟩
  have hjobs : jobsOf p = jobsOf s.profile := jobsOf_congr h.machines.runs hruns fun job' => hcut.present
  dsimp only
  rw [hjobs]
  exact ⟨h.sizes.size, h.sizes.nbJobsSize, h.sizes.nbReservationsSize⟩

/-- Adding a reservation on free machines keeps the invariant. -/
theorem BookInv.addReservation {r : ReservedTimeSlice} (h : BookInv W s) (hjob : job ∈ W.jobs)
    (hres : job.isReservation = true) (hc : s.containsJob job = false) (hr : r.alloc.job = some job)
    (hle : r.sliceBegin ≤ r.sliceEnd) (hlt : r.sliceEnd < s.profile.length) (hfree : ReservedFree s job r)
    (ha : s.addReservation r = .ok s') : BookInv W s' := by
  rw [Schedule.addReservation, hr] at ha
  cases ha
  have hparts := updateSlices_parts s.profile r.sliceBegin r.sliceEnd
  have hmid : (s.profile.drop r.sliceBegin).take (r.sliceEnd + 1 - r.sliceBegin) ≠ [] := by
    intro hnil
    have := congrArg List.length hnil
    simp only [List.length_take, List.length_drop, List.length_nil] at this
    omega
  have hf : ∀ t, (TimeSlice.reserve job r.alloc.usedMachines t).allocatedJobs =
      t.allocatedJobs.insert job r.alloc.usedMachines := fun _ => rfl
  have hruns := h.machines.runs
  have hslices := h.machines.slices
  have hbook := h.slices
  have hnew : ∀ t ∈ s.profile, t.containsJob job = false := Schedule.containsJob_eq_false.1 hc
  have habsent : ¬ Present job s.profile := by
    rw [← containsJob_iff_present, hc]
    nofun
  have hpres : ∀ job', Present job' (Schedule.updateSlices s.profile r.sliceBegin r.sliceEnd
      (TimeSlice.reserve job r.alloc.usedMachines)) ↔ job'.id = job.id ∨ Present job' s.profile := by
    intro job'
    rw [Schedule.updateSlices, present_middle hf, ← hparts]
    simp [hmid]
  have hruns' : RunsOk W (Schedule.updateSlices s.profile r.sliceBegin r.sliceEnd
      (TimeSlice.reserve job r.alloc.usedMachines)) := by
    rw [hparts] at hruns habsent
    exact hruns.allocateMiddle hf hjob habsent
  refine ⟨⟨?_, h.machines.repair, hruns', ?_⟩, ?_, ?_⟩
  · intro hnil
    have := hmid
    simp only [Schedule.updateSlices, List.append_eq_nil_iff, List.map_eq_nil_iff] at hnil
    exact this hnil.2.1
  · intro t ht
    simp only [Schedule.updateSlices, List.mem_append, List.mem_map] at ht
    rcases ht with ht | ⟨u, hu, rfl⟩ | ht
    · exact hslices t (List.mem_of_mem_take ht)
    · have hu' : u ∈ s.profile := List.mem_of_mem_drop (List.mem_of_mem_take hu)
      have hok := (hslices u hu').allocateJob (hfree.2 u hu) hfree.1 (hnew u hu')
      exact ⟨hok.disjoint, hok.inRange, hok.available, hok.allocated, hok.count⟩
    · exact hslices t (List.mem_of_mem_drop (List.mem_of_mem_drop ht))
  · intro t ht
    simp only [Schedule.updateSlices, List.mem_append, List.mem_map] at ht
    rcases ht with ht | ⟨u, hu, rfl⟩ | ht
    · exact hbook t (List.mem_of_mem_take ht)
    · have hu' : u ∈ s.profile := List.mem_of_mem_drop (List.mem_of_mem_take hu)
      exact sliceBook_reserve (hbook u hu') hres (hnew u hu') _
    · exact hbook t (List.mem_of_mem_drop (List.mem_of_mem_drop ht))
  · dsimp only
    rw [jobsOf_insert h.machines.runs hruns' hjob hpres]
    exact h.sizes.insert (h.not_mem_jobsOf hc) rfl (by simp [hres]) (by simp [hres])

/-- The loop over the second slice stops at the first reservation that waits, if it cannot start, and changes nothing. -/
theorem collectReady_of_not_ready {first : TimeSlice} (repair : IntervalSet) (entries : List (Job × IntervalSet)) (nb : ℤ)
    (h : ∀ e, entries.find? (fun e => e.1.isReservation && !first.containsJob e.1) = some e →
      ¬ e.2 ⊆ first.availableMachines ∪ repair) :
    ∃ ready, Schedule.collectReady first repair entries nb [] = (nb, [], ready) := by
  induction entries with
  | nil => exact ⟨true, rfl⟩
  | cons e entries ih =>
    obtain ⟨j, machines⟩ := e
    rw [Schedule.collectReady]
    split
    · rename_i hwaits
      have hnot := h (j, machines) (by rw [List.find?_cons_of_pos (by exact hwaits)])
      rw [if_neg hnot]
      exact ⟨false, rfl⟩
    · rename_i hwaits
      refine ih fun e he => h e ?_
      rw [List.find?_cons_of_neg (by exact hwaits)]
      exact he

/-- Where no waiting reservation can start, `remove_reservations_if_ready` changes nothing. -/
theorem removeReservationsIfReady_of_not_ready {r : List Job × Bool}
    (hnot : ∀ first e, waitingReservation s = some (first, e) → ¬ e.2 ⊆ first.availableMachines ∪ s.repairMachines)
    (h : s.removeReservationsIfReady [] = .ok (s', r)) : s' = s := by
  rw [Schedule.removeReservationsIfReady] at h
  split at h
  · cases h
    rfl
  · rename_i first slice hdue
    have hprofile := reservationsDue_some hdue
    obtain ⟨ready, hready⟩ := collectReady_of_not_ready s.repairMachines slice.allocatedJobs.entries
      slice.nbReservations
      (fun e he => hnot first e (by rw [waitingReservation, hdue]; simp only [he, Option.map_some]))
    rw [hready] at h
    dsimp only at h
    split at h
    · rw [Schedule.removeJobs] at h
      cases h
      rw [← hprofile]
    · cases h
      rw [← hprofile]

/-- `add_current_reservation` aborts where one of its assertions fails. -/
theorem addCurrentReservation_abort {b : Bool} {alloc : JobAlloc}
    (hcond : s.containsJob job = true ∨ job.isReservation = false ∨
      match s.findReservationAnchor job with
      | some a => a.usedMachines.card ≠ job.nbRequestedResources
      | none => b = true) : s.addCurrentReservation job b ≠ .ok (s', alloc) := by
  intro h
  rw [Schedule.addCurrentReservation] at h
  split at h
  · nomatch h
  · rename_i hc
    split at h
    · nomatch h
    · rename_i hres
      rcases hcond with hcond | hcond | hcond
      · exact hc hcond
      · exact hres (by rw [hcond]; rfl)
      · split at h
        · rename_i a ha
          rw [ha] at hcond
          rw [if_pos hcond] at h
          nomatch h
        · rename_i ha
          rw [ha] at hcond
          rw [if_pos hcond] at h
          nomatch h

/-- A call under its condition keeps the invariant. -/
theorem BookInv.step {sorter : Sorter LargestFirst} {call : ReservationCall} (h : BookInv W s)
    (hjobs : ∀ job ∈ call.job, job ∈ W.jobs) (hcall : BookedCall sorter s call) (hrun : call.run sorter s = .ok s') :
    BookInv W s' := by
  cases call with
  | addReservation job =>
    obtain ⟨hres, hc, hfree⟩ := hcall
    rw [ReservationCall.run] at hrun
    split at hrun
    · rename_i s1 r hreserve
      obtain ⟨⟨p, hcut, hcut'⟩, hs1, hr⟩ := reserveTimeSlice_ok hreserve
      have hinv : BookInv W s1 := by
        rw [hs1]
        exact (h.cut hcut).cut hcut'
      split at hrun
      · rename_i hsuccess
        obtain ⟨hjob, hle, hlt⟩ := hr hsuccess
        refine hinv.addReservation (hjobs job rfl) hres ?_ hjob hle hlt (hfree s1 r hreserve hsuccess) hrun
        rw [← Bool.not_eq_true, containsJob_iff_present, hcut'.present, hcut.present, ← containsJob_iff_present, hc]
        nofun
      · cases hrun
        exact hinv
    · nomatch hrun
  | addCurrentReservation job b =>
    obtain ⟨⟨s1, alloc⟩, ha, rfl⟩ := map_eq_ok.1 hrun
    exact absurd ha (addCurrentReservation_abort hcall)
  | removeReservationsIfReady =>
    obtain ⟨⟨s1, r⟩, ha, rfl⟩ := map_eq_ok.1 hrun
    rw [removeReservationsIfReady_of_not_ready hcall ha]
    exact h
  | addJobFirstFit job b =>
    obtain ⟨⟨s1, alloc⟩, ha, rfl⟩ := map_eq_ok.1 hrun
    exact h.addJobFirstFit (hjobs job rfl) hcall ha
  | removeJob job => exact h.removeJobIfExists (hjobs job rfl) (Schedule.removeJob_ok hrun)

end ReservationsAux

open ReservationsAux in
/-- In every run of calls about jobs of a workload whose calls meet `BookedCall`, the books are right in every state reached. -/
theorem reservation_bookkeeping (W : Workload) (sorter : Sorter LargestFirst) (n : ℕ) (t0 : ℚ) (calls : List ReservationCall)
    (hjobs : ∀ call ∈ calls, ∀ job ∈ call.job, job ∈ W.jobs)
    (hcalls : AllSteps (ReservationCall.run sorter) (BookedCall sorter) (Schedule.new n t0) calls) :
    Always (ReservationCall.run sorter) Bookkeeping (Schedule.new n t0) calls :=
  always_of_invariant (I := BookInv W) (fun _ _ _ h hc hr => h.step hc.2 hc.1 hr) (fun _ h => h.bookkeeping)
    (BookInv.new W n t0) (hcalls.and (allSteps_of_forall hjobs))

namespace ReservationsWitness

/-- A reservation of machine 1 from a moment after the begin of the schedule, for ten seconds. -/
def reservation : Job :=
  { id := "w!1", nbRequestedResources := 1, walltime := 10, purpose := "reservation", futureAllocations := {1}, start := 1 / 16384 }

/-- A job that ends with the reservation. -/
def job : Job := { id := "w!2", nbRequestedResources := 1, walltime := 10 + 1 / 16384 }

/-- A workload of a reservation and a job. -/
def workload : Workload := Workload.ofList [reservation, job] (by decide) (by decide)

/-- A sort of the running jobs. -/
def sorter : Sorter LargestFirst := Sorter.stable LargestFirst

/-- The reservation is placed, the job is placed beside it, and the reservation is taken back. -/
def calls : List ReservationCall :=
  [.addReservation reservation, .addJobFirstFit job true, .removeJob reservation]

/-- The calls are about jobs of the workload. -/
theorem jobs_known {l : List ReservationCall} (h : ∀ call ∈ l, ∀ j ∈ call.job, j = reservation ∨ j = job) :
    ∀ call ∈ l, ∀ j ∈ call.job, j ∈ workload.jobs := by
  intro call hcall j hj
  rcases h call hcall j hj with rfl | rfl
  · exact List.mem_cons_self
  · exact List.mem_cons_of_mem _ List.mem_cons_self

/-- The reservation starts at once. -/
def currentCalls : List ReservationCall := [.addCurrentReservation reservation true]

/-- The reservation waits while the job runs, and is taken from the second slice when it is due. -/
def dueCalls : List ReservationCall := [.addJobFirstFit job true, .addReservation reservation, .removeReservationsIfReady]

end ReservationsWitness

open ReservationsWitness in
/-- The run with a reservation on a free machine goes through, and its books are right. -/
theorem reservation_bookkeeping_witness :
    abortOf (runFrom (ReservationCall.run sorter) (Schedule.new 2 0) calls) = none ∧
      Always (ReservationCall.run sorter) Bookkeeping (Schedule.new 2 0) calls := by
  refine ⟨by decide +kernel, reservation_bookkeeping workload sorter 2 0 calls (jobs_known ?_) ?_⟩
  · simp [calls, ReservationCall.job]
  · refine ⟨⟨rfl, by decide +kernel, ?_⟩, fun _ _ => ⟨rfl, fun _ _ => ⟨trivial, fun _ _ => trivial⟩⟩⟩
    intro s' r h _
    have hfree : ((Schedule.new 2 0).reserveTimeSlice sorter reservation).toOption.map
        (fun x => decide (ReservedFree x.1 reservation x.2)) = some true := by decide +kernel
    rw [h] at hfree
    exact of_decide_eq_true (Option.some.inj hfree)

open ReservationsWitness in
/-- The books are wrong after `add_current_reservation`, which leaves a reservation in the schedule and none in the number of
reservations; and after `remove_reservations_if_ready`, which leaves a slice that counts minus one reservation. -/
theorem reservation_bookkeeping_false :
    ¬ (∀ (W : Workload) (sorter : Sorter LargestFirst) (n : ℕ) (t0 : ℚ) (calls : List ReservationCall),
      (∀ call ∈ calls, ∀ job ∈ call.job, job ∈ W.jobs) →
      Always (ReservationCall.run sorter) Bookkeeping (Schedule.new n t0) calls) ∧
    (runFrom (ReservationCall.run sorter) (Schedule.new 2 0) dueCalls).toOption.map
      (fun s => s.profile.map (fun t => (t.nbReservations, t.hasReservation))) = some [(-1, true), (0, false)] := by
  constructor
  · intro h
    have halways := h workload sorter 2 0 currentCalls (jobs_known (by simp [currentCalls, ReservationCall.job]))
    have hend : (runFrom (ReservationCall.run sorter) (Schedule.new 2 0) currentCalls).toOption.map
        (fun s => (s.nbReservationsSize, (jobsOf s.profile).filter (fun j => j.isReservation = true))) =
        some (0, {reservation}) := by decide +kernel
    obtain ⟨s, hs, hvalue⟩ := toOption_map_eq_some.1 hend
    obtain ⟨hsize, hjobs⟩ := Prod.mk.inj hvalue
    have hbook := (halways.last hs).nbReservationsSize
    rw [hsize, hjobs] at hbook
    exact absurd hbook (by decide)
  · decide +kernel

end ScheduleTest
