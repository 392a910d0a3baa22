import ScheduleTest.Theorems.Reservations
import ScheduleTest.Lemmas.AtDate

/-!
# Taking the reservations that are due from the second slice

`remove_reservations_if_ready` should take all the reservations of the second slice that wait, or none. It collects them one by one
and stops at the first that does not fit, with those before it collected; and it takes each off the count of the second slice, from
which removing it takes it off again. The wrong count is lost where the slice is merged into the next one.
-/

namespace ScheduleTest

open Timeline

/-- The reservations of a slice that wait: they are not in the first one. -/
def waitingIn (first slice : TimeSlice) : List (Job × IntervalSet) :=
  slice.allocatedJobs.entries.filter (fun e => e.1.isReservation && !first.containsJob e.1)

/-- What is held when jobs are taken out. -/
def leftOf (jobs : List Job) (held : KeyedMap Job.id IntervalSet) : KeyedMap Job.id IntervalSet := jobs.foldl KeyedMap.erase held

/-- Taking the reservations that are due, all or none. -/
structure RemovedAtomically (s s' : Schedule) (jobsRemoved : List Job) (ready : Bool) : Prop where
  unchanged : ready = false → s' = s ∧ jobsRemoved = []
  listed : ready = true → ∃ first slice, s.reservationsDue = some (first, slice) ∧
    ∀ job, jobsRemoved.count job = if job ∈ (waitingIn first slice).map Prod.fst then 1 else 0
  gone : ready = true → ∀ job ∈ jobsRemoved, s'.containsJob job = false
  others : ready = true → ∀ x, s.firstSliceBegin ≤ x →
    (s'.atDate x).map (·.allocatedJobs) = (s.atDate x).map (fun content => leftOf jobsRemoved content.allocatedJobs)
  books : ready = true → ∀ t ∈ s'.profile, SliceBook t

/-- Where all the reservations that wait fit, there are none, or the slice that follows holds the same jobs as the second one without
them; where not all fit, the first that waits does not. -/
def Schedule.ReadyCleanly (s : Schedule) : Prop :=
  ∀ first slice, s.reservationsDue = some (first, slice) →
    if ∀ e ∈ waitingIn first slice, e.2 ⊆ first.availableMachines ∪ s.repairMachines then
      waitingIn first slice = [] ∨ ∃ third ∈ s.profile[2]?,
        leftOf ((waitingIn first slice).map Prod.fst) third.allocatedJobs =
          leftOf ((waitingIn first slice).map Prod.fst) slice.allocatedJobs
    else ∀ e ∈ (waitingIn first slice).head?, ¬ e.2 ⊆ first.availableMachines ∪ s.repairMachines

namespace ReadyAux

open ReservationsAux

variable {W : Workload} {s s' : Schedule} {job : Job} {jobs : List Job} {first slice : TimeSlice} {ms : IntervalSet}

/-! ## Collecting -/

/-- The count of a slice, with one reservation taken off where it counts any. -/
def takeOff (nb : ℤ) : ℤ := if 0 < nb then nb - 1 else nb

theorem iterate_takeOff (k : ℕ) (nb : ℤ) (h : k ≤ nb) : takeOff^[k] nb = nb - k := by
  induction k generalizing nb with
  | zero => simp
  | succ k ih =>
    rw [Function.iterate_succ_apply, takeOff, if_pos (by omega), ih (nb - 1) (by omega)]
    omega

/-- The loop collects the reservations that wait up to the first that does not fit, and takes each off the count. -/
theorem collectReady_eq (first : TimeSlice) (repair : IntervalSet) (entries : List (Job × IntervalSet)) (nb : ℤ) (out : List Job) :
    Schedule.collectReady first repair entries nb out =
      let waiting := entries.filter (fun e => e.1.isReservation && !first.containsJob e.1)
      let fitting := waiting.takeWhile (fun e => decide (e.2 ⊆ first.availableMachines ∪ repair))
      (takeOff^[fitting.length] nb, out ++ fitting.map Prod.fst,
        waiting.all (fun e => decide (e.2 ⊆ first.availableMachines ∪ repair))) := by
  induction entries generalizing nb out with
  | nil => simp [Schedule.collectReady]
  | cons e entries ih =>
    obtain ⟨job, machines⟩ := e
    unfold Schedule.collectReady
    split
    · rename_i hwaits
      rw [List.filter_cons_of_pos (by exact hwaits)]
      split
      · rename_i hfits
        rw [ih]
        simp [hfits, takeOff]
      · rename_i hnot
        simp [hnot]
    · rename_i hskip
      rw [List.filter_cons_of_neg (by exact hskip), ih]

/-! ## Removing one reservation -/

/-- The slice counts so many reservations too few. -/
def Short (d : ℤ) (t : TimeSlice) : Prop := t.nbReservations = nbReservationJobs t - d

theorem Short.not_sliceBook {d : ℤ} {t : TimeSlice} (h : Short d t) (hd : 0 < d) : ¬ SliceBook t := by
  intro hbook
  unfold Short at h
  rw [hbook.reservations] at h
  omega

/-- Taking out a reservation leaves as many uncounted. -/
theorem Short.eraseJob {d : ℤ} {t : TimeSlice} (h : Short d t) (hres : job.isReservation = true)
    (hknown : ∀ e ∈ t.allocatedJobs.entries, e.1.id = job.id → e.1 = job) (hc : t.containsJob job = true) :
    Short d (t.eraseJob job ms) := by
  have hcount := nbReservationJobs_erase hknown hc ms
  have hnb : (t.eraseJob job ms).nbReservations = t.nbReservations - 1 := by
    unfold TimeSlice.eraseJob
    simp [hres]
  rw [hres, if_pos rfl] at hcount
  unfold Short at h ⊢
  rw [hnb, h, hcount]
  push_cast
  ring

/-- A slice put behind another holds other jobs, or takes its time. -/
theorem appendMerging_jobs {W : NamedJobs} {back before' r : List TimeSlice} {previous pit : TimeSlice}
    (hruns : RunsOk W (back.reverse ++ previous :: pit :: r)) (ha : appendMerging (previous :: back) pit = .ok before') :
    (before' = pit :: previous :: back ∧ previous.allocatedJobs ≠ pit.allocatedJobs) ∨
      ∃ b e l, before' = pit.retime b e l :: back ∧ previous.allocatedJobs = pit.allocatedJobs := by
  rw [appendMerging] at ha
  split at ha
  · rename_i merged hm
    cases ha
    rw [(mergeWithPrevious_some hm).1]
    exact Or.inr ⟨_, _, _, rfl, hruns.allocatedJobs_eq_of_merge hm⟩
  · rename_i hnone
    cases ha
    refine Or.inl ⟨rfl, fun heq => ?_⟩
    unfold TimeSlice.mergeWithPrevious at hnone
    rw [if_pos (Or.inl heq)] at hnone
    split at hnone
    · cases hnone
    · cases hnone
  · cases ha

/-- The slices after a slice that has been dealt with: the next keeps its jobs, and all keep their books. -/
theorem removeFrom_behind {W : NamedJobs} {back rest p' : List TimeSlice} {t : TimeSlice}
    (hb : ∀ u ∈ t :: back, u.containsJob job = false) (hruns : RunsOk W ((t :: back).reverse ++ rest)) (hbook : SliceBook t)
    (hrest : ∀ u ∈ rest, SliceBook u) (hjob : job ∈ W.jobs) (hr : removeFrom job ms (t :: back) rest = .ok p') :
    ∃ mid, p' = back.reverse ++ mid ∧ mid.head?.map (·.allocatedJobs) = some t.allocatedJobs ∧ ∀ u ∈ mid, SliceBook u := by
  have hshape : ∀ (u : TimeSlice) (l : List TimeSlice), (t :: back).reverse ++ u :: l = back.reverse ++ t :: u :: l := by
    intro u l
    rw [List.reverse_cons, List.append_assoc, List.singleton_append]
  induction rest generalizing t back with
  | nil =>
    cases hr
    rw [List.reverse_cons]
    refine ⟨[t], rfl, rfl, fun u hu => ?_⟩
    rw [List.mem_singleton.1 hu]
    exact hbook
  | cons pit rest ih =>
    rw [removeFrom] at hr
    split at hr
    · rename_i hc
      split at hr
      · rename_i before' ha
        have hruns' : RunsOk W ((t :: back).reverse ++ pit.eraseJob job ms :: rest) :=
          hruns.erase fun u hu => hb u (List.mem_reverse.1 hu)
        have hmem : pit ∈ (t :: back).reverse ++ pit :: rest := List.mem_append_right _ List.mem_cons_self
        have hpit : SliceBook (pit.eraseJob job ms) :=
          sliceBook_eraseJob (hrest pit List.mem_cons_self) (fun e he hid => W.id_injOn (hruns.known pit hmem e he) hjob hid) hc ms
        have habsent := appendMerging_absent hb (containsJob_eraseJob job ms pit) ha
        have hmerged := appendMerging_rule (P := RunsOk W) (fun _ _ _ _ _ h hm => h.merge hm) hruns' ha
        have hrest' : ∀ u ∈ rest, SliceBook u := fun u hu => hrest u (List.mem_cons_of_mem _ hu)
        rcases appendMerging_jobs (hshape _ _ ▸ hruns') ha with ⟨rfl, _⟩ | ⟨b, e, l, rfl, hjobs⟩
        · obtain ⟨mid, rfl, _, hmid⟩ := ih habsent hmerged hpit hrest' hr (fun u l => by simp)
          refine ⟨t :: mid, by simp, rfl, fun u hu => ?_⟩
          rcases List.mem_cons.1 hu with rfl | hu
          · exact hbook
          · exact hmid u hu
        · obtain ⟨mid, rfl, hhead, hmid⟩ := ih habsent hmerged (SliceBook.timeless _ b e l hpit) hrest' hr (fun u l => by simp)
          exact ⟨mid, rfl, hhead.trans (congrArg some hjobs.symm), hmid⟩
      · cases hr
    · split at hr
      · rename_i before' ha
        cases hr
        have hpit := hrest pit List.mem_cons_self
        rcases appendMerging_jobs (hshape _ _ ▸ hruns) ha with ⟨rfl, _⟩ | ⟨b, e, l, rfl, hjobs⟩
        · refine ⟨t :: pit :: rest, by simp, rfl, fun u hu => ?_⟩
          rcases List.mem_cons.1 hu with rfl | hu
          · exact hbook
          · exact hrest u hu
        · refine ⟨pit.retime b e l :: rest, by simp, congrArg some hjobs.symm, fun u hu => ?_⟩
          rcases List.mem_cons.1 hu with rfl | hu
          · exact SliceBook.timeless _ b e l hpit
          · exact hrest u (List.mem_cons_of_mem _ hu)
      · cases hr

/-- The next slice to be dealt with: the job is erased from it or it does not hold it, and it is put behind those before it. -/
theorem removeFrom_next {W : NamedJobs} {back rest p' : List TimeSlice} {next : TimeSlice}
    (hb : ∀ u ∈ back, u.containsJob job = false) (hruns : RunsOk W (back.reverse ++ next :: rest))
    (hrest : ∀ u ∈ next :: rest, SliceBook u) (hjob : job ∈ W.jobs) (hr : removeFrom job ms back (next :: rest) = .ok p') :
    ∃ next' before', appendMerging back next' = .ok before' ∧ next'.allocatedJobs = next.allocatedJobs.erase job ∧
      SliceBook next' ∧ RunsOk W (back.reverse ++ next' :: rest) ∧ ∀ u older, before' = u :: older → SliceBook u →
        ∃ mid, p' = older.reverse ++ mid ∧ mid.head?.map (·.allocatedJobs) = some u.allocatedJobs ∧ ∀ v ∈ mid, SliceBook v := by
  have hnext := hrest next List.mem_cons_self
  have hlater : ∀ u ∈ rest, SliceBook u := fun u hu => hrest u (List.mem_cons_of_mem _ hu)
  have hknown : ∀ e ∈ next.allocatedJobs.entries, e.1.id = job.id → e.1 = job := fun e he hid =>
    W.id_injOn (hruns.known next (List.mem_append_right _ List.mem_cons_self) e he) hjob hid
  rw [removeFrom] at hr
  split at hr
  · rename_i hc
    split at hr
    · rename_i before' ha
      have hruns' : RunsOk W (back.reverse ++ next.eraseJob job ms :: rest) := hruns.erase fun u hu => hb u (List.mem_reverse.1 hu)
      refine ⟨next.eraseJob job ms, before', ha, rfl, sliceBook_eraseJob hnext hknown hc ms, hruns', ?_⟩
      rintro u older rfl hbook
      exact removeFrom_behind (appendMerging_absent hb (containsJob_eraseJob job ms next) ha)
        (appendMerging_rule (P := RunsOk W) (fun _ _ _ _ _ h hm => h.merge hm) hruns' ha) hbook hlater hjob hr
    · cases hr
  · rename_i hout
    have hkeep : next.allocatedJobs.erase job = next.allocatedJobs :=
      KeyedMap.erase_of_new (KeyedMap.contains_eq_false_iff.1 (Bool.eq_false_iff.2 hout))
    split at hr
    · rename_i before' ha
      cases hr
      refine ⟨next, before', ha, hkeep.symm, hnext, hruns, ?_⟩
      rintro u older rfl hbook
      refine ⟨u :: rest, by simp, rfl, fun v hv => ?_⟩
      rcases List.mem_cons.1 hv with rfl | hv
      · exact hbook
      · exact hlater v hv
    · cases hr

/-- A slice that holds the job is the first to do so in one way only. -/
theorem first_unique {l l' r r' : List TimeSlice} {t t' : TimeSlice} (h : l ++ t :: r = l' ++ t' :: r')
    (hl : ∀ u ∈ l, u.containsJob job = false) (ht : t.containsJob job = true) (hl' : ∀ u ∈ l', u.containsJob job = false)
    (ht' : t'.containsJob job = true) : l = l' ∧ t = t' ∧ r = r' := by
  induction l generalizing l' with
  | nil =>
    cases l' with
    | nil =>
      obtain ⟨rfl, rfl⟩ := List.cons.inj h
      exact ⟨rfl, rfl, rfl⟩
    | cons u l' =>
      obtain ⟨rfl, _⟩ := List.cons.inj h
      rw [hl' t List.mem_cons_self] at ht
      cases ht
  | cons u l ih =>
    cases l' with
    | nil =>
      obtain ⟨rfl, _⟩ := List.cons.inj h
      rw [hl u List.mem_cons_self] at ht'
      cases ht'
    | cons u' l' =>
      obtain ⟨rfl, htail⟩ := List.cons.inj h
      obtain ⟨rfl, rfl, rfl⟩ := ih htail (fun v hv => hl v (List.mem_cons_of_mem _ hv)) fun v hv => hl' v (List.mem_cons_of_mem _ hv)
      exact ⟨rfl, rfl, rfl⟩

/-- A slice from which the job is erased takes the place of the slices before it, or comes after them. -/
theorem appendMerging_short {d : ℤ} {pre before' : List TimeSlice} {t : TimeSlice} (ht : Short d t)
    (ha : appendMerging pre.reverse t = .ok before') :
    ∃ u older, before' = u :: older ∧ (∀ v ∈ older, v ∈ pre) ∧ Short d u ∧ u.allocatedJobs = t.allocatedJobs := by
  rcases appendMerging_cases ha with rfl | ⟨previous, older, merged, hpre, hm, rfl⟩
  · exact ⟨t, pre.reverse, rfl, fun v hv => List.mem_reverse.1 hv, ht, rfl⟩
  · rw [(mergeWithPrevious_some hm).1]
    refine ⟨_, older, rfl, fun v hv => ?_, ht, rfl⟩
    rw [← List.mem_reverse, hpre]
    exact List.mem_cons_of_mem _ hv

/-- Taking a reservation out from a slice that counts too few on. The slice is left, with the slices after it as they should be, the
first of which holds other jobs; or it is merged into the next one, which held the same other jobs, and then all counts are right. -/
theorem removeFrom_short {W : NamedJobs} {d : ℤ} {pre rest p' : List TimeSlice} {t : TimeSlice} (hjob : job ∈ W.jobs)
    (hres : job.isReservation = true) (hruns : RunsOk W (pre ++ t :: rest)) (hpre : ∀ u ∈ pre, u.containsJob job = false)
    (hc : t.containsJob job = true) (hshort : Short d t) (hbooks : ∀ u ∈ pre ++ rest, SliceBook u)
    (hr : removeFrom job ms pre.reverse (t :: rest) = .ok p') :
    (∃ pre' t' rest', p' = pre' ++ t' :: rest' ∧ (∀ u ∈ pre', u ∈ pre) ∧ Short d t' ∧
        t'.allocatedJobs = t.allocatedJobs.erase job ∧ (∀ u ∈ rest', SliceBook u) ∧
        rest'.head?.map (·.allocatedJobs) = rest.head?.map (fun u => u.allocatedJobs.erase job) ∧
        ∀ u ∈ rest'.head?, u.allocatedJobs ≠ t'.allocatedJobs) ∨
      (∃ u ∈ rest.head?, u.allocatedJobs.erase job = t.allocatedJobs.erase job) ∧ ∀ u ∈ p', SliceBook u := by
  have hknown : ∀ u ∈ pre ++ t :: rest, ∀ e ∈ u.allocatedJobs.entries, e.1.id = job.id → e.1 = job :=
    fun u hu e he hid => W.id_injOn (hruns.known u hu e he) hjob hid
  have hrest : ∀ u ∈ rest, SliceBook u := fun u hu => hbooks u (List.mem_append_right _ hu)
  rw [removeFrom, if_pos hc] at hr
  split at hr
  · rename_i before' ha
    have hmerged := appendMerging_rule (P := RunsOk W) (fun _ _ _ _ _ h hm => h.merge hm)
      (by rw [List.reverse_reverse]; exact hruns.erase hpre) ha
    have habsent := appendMerging_absent (fun u hu => hpre u (List.mem_reverse.1 hu)) (containsJob_eraseJob job ms t) ha
    obtain ⟨t', older, rfl, hold, hshort', hjobs⟩ :=
      appendMerging_short (hshort.eraseJob hres (hknown t (List.mem_append_right _ List.mem_cons_self)) hc) ha
    have hbooks' : ∀ u ∈ older.reverse, SliceBook u := fun u hu =>
      hbooks u (List.mem_append_left _ (hold u (List.mem_reverse.1 hu)))
    have hjobs : t'.allocatedJobs = t.allocatedJobs.erase job := hjobs
    cases rest with
    | nil =>
      cases hr
      rw [List.reverse_cons]
      exact Or.inl ⟨older.reverse, t', [], rfl, fun u hu => hold u (List.mem_reverse.1 hu), hshort', hjobs, hrest, rfl,
        fun u hu => absurd hu (by simp)⟩
    | cons next rest =>
      obtain ⟨next', before'', ha', hnextjobs, hbook, hruns', hbehind⟩ := removeFrom_next habsent hmerged hrest hjob hr
      have hshape : (t' :: older).reverse ++ next' :: rest = older.reverse ++ t' :: next' :: rest := by
        rw [List.reverse_cons, List.append_assoc, List.singleton_append]
      rcases appendMerging_jobs (hshape ▸ hruns') ha' with ⟨rfl, hne⟩ | ⟨b, e, l, rfl, heq⟩
      · obtain ⟨mid, rfl, hhead, hmid⟩ := hbehind next' (t' :: older) rfl hbook
        refine Or.inl ⟨older.reverse, t', mid, by simp, fun u hu => hold u (List.mem_reverse.1 hu), hshort', hjobs, hmid,
          hhead.trans (congrArg some hnextjobs), fun u hu => ?_⟩
        rw [hu, Option.map_some] at hhead
        rw [Option.some.inj hhead]
        exact hne.symm
      · obtain ⟨mid, rfl, _, hmid⟩ := hbehind _ older rfl (SliceBook.timeless _ b e l hbook)
        refine Or.inr ⟨⟨next, rfl, hnextjobs.symm.trans (heq.symm.trans hjobs)⟩, fun u hu => ?_⟩
        rcases List.mem_append.1 hu with hu | hu
        · exact hbooks' u hu
        · exact hmid u hu
  · cases hr

/-! ## Removing all of them -/

theorem removeJobs_cons_ok (h : s.removeJobs (job :: jobs) = .ok s') :
    ∃ s₁ b, s.removeJobIfExists job = .ok (s₁, b) ∧ s₁.removeJobs jobs = .ok s' := by
  rw [Schedule.removeJobs] at h
  split at h
  · rename_i s₁ b hremove
    exact ⟨s₁, b, hremove, h⟩
  · cases h

/-- Removing jobs never aborts, and keeps the accounts. -/
theorem removeJobs_total {W : NamedJobs} (hm : MachinesOk W s) (jobs : List Job) :
    ∃ s', s.removeJobs jobs = .ok s' ∧ MachinesOk W s' := by
  induction jobs generalizing s with
  | nil => exact ⟨s, rfl, hm⟩
  | cons job jobs ih =>
    obtain ⟨s₁, b, hremove⟩ := hm.removeJobIfExists_total job
    obtain ⟨s', hs', hm'⟩ := ih (hm.removeJobIfExists hremove)
    refine ⟨s', ?_, hm'⟩
    rw [Schedule.removeJobs, hremove]
    exact hs'

theorem sliceBooks_removeJobs (hm : MachinesOk W s) (hbooks : ∀ t ∈ s.profile, SliceBook t) (hjobs : ∀ job ∈ jobs, job ∈ W.jobs)
    (hr : s.removeJobs jobs = .ok s') : ∀ t ∈ s'.profile, SliceBook t := by
  induction jobs generalizing s with
  | nil =>
    cases hr
    exact hbooks
  | cons job jobs ih =>
    obtain ⟨s₁, b, hremove, hr⟩ := removeJobs_cons_ok hr
    exact ih (hm.removeJobIfExists hremove)
      (sliceBooks_removeJobIfExists hm.runs hbooks (hjobs job List.mem_cons_self) hremove)
      (fun j hj => hjobs j (List.mem_cons_of_mem _ hj)) hr

/-- The slices after the removal of a reservation from a slice that counts too few on. -/
theorem removeJobIfExists_short {W : NamedJobs} {d : ℤ} {b : Bool} {pre rest : List TimeSlice} {t : TimeSlice} (hm : MachinesOk W s)
    (hprofile : s.profile = pre ++ t :: rest) (hshort : Short d t) (hbooks : ∀ u ∈ pre ++ rest, SliceBook u) (hjob : job ∈ W.jobs)
    (hres : job.isReservation = true) (hc : t.containsJob job = true) (hpre : ∀ u ∈ pre, u.containsJob job = false)
    (hr : s.removeJobIfExists job = .ok (s', b)) :
    (∃ pre' t' rest', s'.profile = pre' ++ t' :: rest' ∧ (∀ u ∈ pre', u ∈ pre) ∧ Short d t' ∧
        t'.allocatedJobs = t.allocatedJobs.erase job ∧ (∀ u ∈ rest', SliceBook u) ∧
        rest'.head?.map (·.allocatedJobs) = rest.head?.map (fun u => u.allocatedJobs.erase job) ∧
        ∀ u ∈ rest'.head?, u.allocatedJobs ≠ t'.allocatedJobs) ∨
      (∃ u ∈ rest.head?, u.allocatedJobs.erase job = t.allocatedJobs.erase job) ∧ ∀ u ∈ s'.profile, SliceBook u := by
  rcases Schedule.removeJobIfExists_ok hr with ⟨_, _, habsent⟩ | ⟨_, before, pit, rest', ms, p', hparts, hbefore, hms, hp, rfl⟩
  · rw [Schedule.containsJob_eq_false.1 habsent t (by rw [hprofile]; simp)] at hc
    cases hc
  · have hpit : pit.containsJob job = true := by
      rw [containsJob_eq_isSome, hms]
      rfl
    obtain ⟨rfl, rfl, rfl⟩ := first_unique (hprofile.symm.trans hparts) hpre hc hbefore hpit
    exact removeFrom_short hjob hres (hprofile ▸ hm.runs) hpre hc hshort hbooks hp

/-- A slice that counts too few is got rid of if and only if the next one holds the same other jobs. -/
theorem sliceBooks_short {d : ℤ} (hd : 0 < d) {pre rest : List TimeSlice} {t : TimeSlice} (hm : MachinesOk W s)
    (hprofile : s.profile = pre ++ t :: rest) (hshort : Short d t) (hbooks : ∀ u ∈ pre ++ rest, SliceBook u)
    (hjobs : ∀ j ∈ job :: jobs, j ∈ W.jobs ∧ j.isReservation = true ∧ t.containsJob j = true ∧ ∀ u ∈ pre, u.containsJob j = false)
    (hnodup : ((job :: jobs).map Job.id).Nodup) (hr : s.removeJobs (job :: jobs) = .ok s') :
    (∀ u ∈ s'.profile, SliceBook u) ↔
      ∃ u ∈ rest.head?, leftOf (job :: jobs) u.allocatedJobs = leftOf (job :: jobs) t.allocatedJobs := by
  induction jobs generalizing s job pre t rest with
  | nil =>
    obtain ⟨s₁, b, hremove, hr⟩ := removeJobs_cons_ok hr
    cases hr
    obtain ⟨hjob, hres, hc, hpre⟩ := hjobs job List.mem_cons_self
    rcases removeJobIfExists_short hm hprofile hshort hbooks hjob hres hc hpre hremove with
      ⟨pre', t', rest', hprofile', _, hshort', hleft, _, hhead, hne⟩ | ⟨⟨u, hu, heq⟩, hbooks'⟩
    · refine iff_of_false (fun hall => hshort'.not_sliceBook hd (hall t' (by rw [hprofile']; simp))) ?_
      rintro ⟨u, hu, heq⟩
      rw [hu, Option.map_some] at hhead
      obtain ⟨v, hv, hjobs'⟩ := Option.map_eq_some_iff.1 hhead
      exact hne v hv (hjobs'.trans (heq.trans hleft.symm))
    · exact iff_of_true hbooks' ⟨u, hu, heq⟩
  | cons job' jobs ih =>
    obtain ⟨s₁, b, hremove, hr⟩ := removeJobs_cons_ok hr
    obtain ⟨hjob, hres, hc, hpre⟩ := hjobs job List.mem_cons_self
    have hlater : ∀ j ∈ job' :: jobs, j ∈ W.jobs ∧ j.isReservation = true ∧ t.containsJob j = true ∧
        ∀ u ∈ pre, u.containsJob j = false := fun j hj => hjobs j (List.mem_cons_of_mem _ hj)
    obtain ⟨hnew, hnodup'⟩ := List.nodup_cons.1 hnodup
    rcases removeJobIfExists_short hm hprofile hshort hbooks hjob hres hc hpre hremove with
      ⟨pre', t', rest', hprofile', hsub, hshort', hleft, hrest', hhead, _⟩ | ⟨⟨u, hu, heq⟩, hbooks'⟩
    · have hbooks' : ∀ u ∈ pre' ++ rest', SliceBook u := by
        intro u hu
        rcases List.mem_append.1 hu with hu | hu
        · exact hbooks u (List.mem_append_left _ (hsub u hu))
        · exact hrest' u hu
      refine (ih (hm.removeJobIfExists hremove) hprofile' hshort' hbooks' (fun j hj => ?_) hnodup' hr).trans ?_
      · obtain ⟨hjW, hjres, hjc, hjpre⟩ := hlater j hj
        refine ⟨hjW, hjres, ?_, fun u hu => hjpre u (hsub u hu)⟩
        obtain ⟨e, he, hid⟩ := KeyedMap.contains_iff.1 hjc
        refine KeyedMap.contains_iff.2 ⟨e, ?_, hid⟩
        rw [hleft]
        exact KeyedMap.mem_erase.2 ⟨he, fun heq => hnew (heq ▸ hid ▸ List.mem_map_of_mem hj)⟩
      · constructor
        · rintro ⟨v, hv, heq⟩
          rw [hv, Option.map_some] at hhead
          obtain ⟨u, hu, hjobs'⟩ := Option.map_eq_some_iff.1 hhead.symm
          refine ⟨u, hu, ?_⟩
          rw [← hjobs', hleft] at heq
          exact heq
        · rintro ⟨u, hu, heq⟩
          rw [hu, Option.map_some] at hhead
          obtain ⟨v, hv, hjobs'⟩ := Option.map_eq_some_iff.1 hhead
          refine ⟨v, hv, ?_⟩
          rw [hjobs', hleft]
          exact heq
    · refine iff_of_true (sliceBooks_removeJobs (hm.removeJobIfExists hremove) hbooks' (fun j hj => (hlater j hj).1) hr)
        ⟨u, hu, congrArg (leftOf (job' :: jobs)) heq⟩

/-! ## What is left -/

theorem present_removeJobs {W : NamedJobs} {job' : Job} (hm : MachinesOk W s) (hr : s.removeJobs jobs = .ok s') :
    Present job' s'.profile ↔ (∀ j ∈ jobs, job'.id ≠ j.id) ∧ Present job' s.profile := by
  induction jobs generalizing s with
  | nil =>
    cases hr
    simp
  | cons job jobs ih =>
    obtain ⟨s₁, b, hremove, hr⟩ := removeJobs_cons_ok hr
    rw [ih (hm.removeJobIfExists hremove) hr, present_removeJobIfExists hm.runs hremove, List.forall_mem_cons]
    tauto

theorem erase_erase (held : KeyedMap Job.id IntervalSet) (job : Job) : (held.erase job).erase job = held.erase job :=
  KeyedMap.erase_of_new fun _ he => (KeyedMap.mem_erase.1 he).2

/-- What the slices hold at a date after jobs have been removed. -/
theorem jobsAt_removeJobs {W : NamedJobs} {x : ℚ} (hm : MachinesOk W s) (ht : Timed s.profile) (hx : s.firstSliceBegin ≤ x)
    (hr : s.removeJobs jobs = .ok s') :
    (sliceAt s'.profile x).map (·.allocatedJobs) = (sliceAt s.profile x).map (fun t => leftOf jobs t.allocatedJobs) := by
  induction jobs generalizing s with
  | nil =>
    cases hr
    rfl
  | cons job jobs ih =>
    obtain ⟨s₁, b, hremove, hr⟩ := removeJobs_cons_ok hr
    rw [ih (hm.removeJobIfExists hremove) (ht.removeJobIfExists hremove)
      ((firstSliceBegin_removeJobIfExists hremove).trans_le hx) hr]
    have hview := sliceAt_removeJobIfExists (f := fun t => leftOf jobs (t.allocatedJobs.erase job))
      (fun t u heq => by simp only [heq]) (fun t ms => congrArg (leftOf jobs) (erase_erase t.allocatedJobs job)) hm.runs ht hremove hx
    refine Eq.trans ?_ hview
    cases hat : sliceAt s₁.profile x with
    | none => rfl
    | some t =>
      -- the job is in no slice any more
      have habsent : t.containsJob job = false := by
        rw [← Bool.not_eq_true]
        intro hc
        exact ((present_removeJobIfExists hm.runs hremove).1 ⟨t, (mem_of_lookup hat).1, hc⟩).1 rfl
      rw [Option.map_some, Option.map_some, KeyedMap.erase_of_new (KeyedMap.contains_eq_false_iff.1 habsent)]

/-! ## The call -/

/-- The slice with another count of reservations. -/
def recount (s : Schedule) (first slice : TimeSlice) (nb : ℤ) : Schedule :=
  { s with profile := first :: { slice with nbReservations := nb } :: s.profile.drop 2 }

theorem machinesOk_recount {W : NamedJobs} (hm : MachinesOk W s) (hprofile : s.profile = first :: slice :: s.profile.drop 2) (nb : ℤ) :
    MachinesOk W (recount s first slice nb) := by
  have hslices := hm.slices
  have hknown := hm.runs.known
  have hruns := hm.runs.runs
  rw [hprofile] at hslices hknown hruns
  refine ⟨List.cons_ne_nil _ _, hm.repair, ⟨fun t ht => ?_, hruns⟩, fun t ht => ?_⟩
  · rcases List.mem_cons.1 ht with rfl | ht
    · exact hknown t List.mem_cons_self
    · rcases List.mem_cons.1 ht with rfl | ht
      · exact hknown slice (by simp)
      · exact hknown t (by simp [ht])
  · rcases List.mem_cons.1 ht with rfl | ht
    · exact hslices t List.mem_cons_self
    · rcases List.mem_cons.1 ht with rfl | ht
      · have hslice := hslices slice (by simp)
        exact ⟨hslice.disjoint, hslice.inRange, hslice.available, hslice.allocated, hslice.count⟩
      · exact hslices t (by simp [ht])

theorem timed_recount (ht : Timed s.profile) (hprofile : s.profile = first :: slice :: s.profile.drop 2) (nb : ℤ) :
    Timed (recount s first slice nb).profile := by
  rw [hprofile] at ht
  refine ht.congr rfl rfl fun t hmem => ?_
  rcases List.mem_cons.1 hmem with rfl | hmem
  · exact ht.length t (by simp)
  · rcases List.mem_cons.1 hmem with rfl | hmem
    · exact ht.length slice (by simp)
    · exact ht.length t (by simp [hmem])

theorem jobsAt_recount (hprofile : s.profile = first :: slice :: s.profile.drop 2) (nb : ℤ) (x : ℚ) :
    (sliceAt (recount s first slice nb).profile x).map (·.allocatedJobs) = (sliceAt s.profile x).map (·.allocatedJobs) := by
  have hsame : (recount s first slice nb).profile.map (fun t => (t.beginDate, t.endDate, t.allocatedJobs)) =
      s.profile.map (fun t => (t.beginDate, t.endDate, t.allocatedJobs)) := by
    conv_rhs => rw [hprofile]
    rfl
  exact lookup_congr hsame x

theorem nodup_waiting (first slice : TimeSlice) : (((waitingIn first slice).map Prod.fst).map Job.id).Nodup := by
  have hkeys : (slice.allocatedJobs.entries.map (fun e => e.1.id)).Nodup := slice.allocatedJobs.nodup_key
  rw [List.map_map]
  exact hkeys.sublist (List.filter_sublist.map _)

/-- The count of a slice is enough to take off the reservations that wait. -/
theorem length_waiting_le (hbook : SliceBook slice) : ((waitingIn first slice).length : ℤ) ≤ slice.nbReservations := by
  rw [hbook.reservations]
  unfold waitingIn nbReservationJobs
  rw [← List.countP_eq_length_filter]
  exact_mod_cast List.countP_mono_left fun e _ h => by
    rw [Bool.and_eq_true] at h
    exact h.1

/-- What a call that removes the reservations does beside the counts. -/
theorem removed_iff (hdue : s.reservationsDue = some (first, slice)) (hm : MachinesOk W s) (ht : Timed s.profile) (nb : ℤ)
    (hr : (recount s first slice nb).removeJobs ((waitingIn first slice).map Prod.fst) = .ok s') :
    RemovedAtomically s s' ((waitingIn first slice).map Prod.fst) true ↔ ∀ t ∈ s'.profile, SliceBook t := by
  have hprofile := reservationsDue_some hdue
  refine ⟨fun h => h.books rfl, fun hbooks => ⟨fun h => absurd h (by decide), fun _ => ⟨first, slice, hdue, fun job => ?_⟩,
    fun _ job hmem => ?_, fun _ x hx => ?_, fun _ => hbooks⟩⟩
  · have hnodup := (nodup_waiting first slice).of_map
    split
    · rename_i hmem
      exact List.count_eq_one_of_mem hnodup hmem
    · rename_i hnot
      exact List.count_eq_zero.2 hnot
  · rw [← Bool.not_eq_true, containsJob_iff_present]
    intro hpresent
    exact ((present_removeJobs (machinesOk_recount hm hprofile nb) hr).1 hpresent).1 job hmem rfl
  · have hbegins : (recount s first slice nb).firstSliceBegin = s.firstSliceBegin := by
      unfold Schedule.firstSliceBegin
      rw [hprofile]
      rfl
    have hview := jobsAt_removeJobs (machinesOk_recount hm hprofile nb) (timed_recount ht hprofile nb) (hbegins.trans_le hx) hr
    have hsame := congrArg (Option.map (leftOf ((waitingIn first slice).map Prod.fst))) (jobsAt_recount hprofile nb x)
    rw [Option.map_map, Option.map_map] at hsame
    unfold Schedule.atDate contentAt
    rw [Option.map_map, Option.map_map]
    exact hview.trans hsame

/-- The counts are right after the reservations that wait have been removed if and only if there are none, or the next slice holds
the same other jobs. -/
theorem books_iff (hdue : s.reservationsDue = some (first, slice)) (hm : MachinesOk W s) (hbooks : ∀ t ∈ s.profile, SliceBook t)
    (hr : (recount s first slice (slice.nbReservations - (waitingIn first slice).length)).removeJobs
      ((waitingIn first slice).map Prod.fst) = .ok s') :
    (∀ t ∈ s'.profile, SliceBook t) ↔ waitingIn first slice = [] ∨ ∃ third ∈ s.profile[2]?,
      leftOf ((waitingIn first slice).map Prod.fst) third.allocatedJobs =
        leftOf ((waitingIn first slice).map Prod.fst) slice.allocatedJobs := by
  have hprofile := reservationsDue_some hdue
  rw [hprofile] at hbooks
  have hslice : SliceBook slice := hbooks slice (by simp)
  have hwaiting : ∀ e ∈ waitingIn first slice, e ∈ slice.allocatedJobs.entries ∧ e.1.isReservation = true ∧
      first.containsJob e.1 = false := by
    intro e he
    obtain ⟨hmem, hcond⟩ := List.mem_filter.1 he
    rw [Bool.and_eq_true, Bool.not_eq_true'] at hcond
    exact ⟨hmem, hcond⟩
  have hnodup := nodup_waiting first slice
  have hm' := machinesOk_recount hm hprofile (slice.nbReservations - (waitingIn first slice).length)
  cases hlist : waitingIn first slice with
  | nil =>
    rw [hlist] at hr
    cases hr
    refine iff_of_true (fun t hmem => ?_) (Or.inl rfl)
    rcases List.mem_cons.1 hmem with rfl | hmem
    · exact hbooks t List.mem_cons_self
    · rcases List.mem_cons.1 hmem with rfl | hmem
      · constructor
        · exact (sub_zero _).trans hslice.reservations
        · exact hslice.hasReservation
      · exact hbooks t (by simp [hmem])
  | cons e waiting =>
    rw [or_iff_right (List.cons_ne_nil _ _)]
    rw [hlist] at hr hnodup hwaiting hm'
    have hthird : s.profile[2]? = (s.profile.drop 2).head? := by
      rw [List.head?_drop]
    rw [hthird]
    have hlength : (0 : ℤ) < (e :: waiting).length := by
      rw [List.length_cons]
      omega
    have hshort : (recount s first slice (slice.nbReservations - (e :: waiting).length)).profile =
        [first] ++ { slice with nbReservations := slice.nbReservations - (e :: waiting).length } :: s.profile.drop 2 := rfl
    refine (sliceBooks_short hlength hm' hshort ?_ ?_ ?_ hnodup hr).trans Iff.rfl
    · change slice.nbReservations - _ = nbReservationJobs slice - _
      rw [hslice.reservations]
    · intro u hu
      rcases List.mem_append.1 hu with hu | hu
      · rw [List.mem_singleton.1 hu]
        exact hbooks first List.mem_cons_self
      · exact hbooks u (by simp [hu])
    · intro job hjob
      change job ∈ (e :: waiting).map Prod.fst at hjob
      obtain ⟨e', he', rfl⟩ := List.mem_map.1 hjob
      obtain ⟨hentry, hres, hfirst⟩ := hwaiting e' he'
      refine ⟨hm.runs.known slice (by rw [hprofile]; simp) e' hentry, hres, KeyedMap.contains_iff.2 ⟨e', hentry, rfl⟩, fun u hu => ?_⟩
      rw [List.mem_singleton.1 hu]
      exact hfirst

/-- Where all the reservations that wait fit, they are removed. -/
theorem run_ready (hdue : s.reservationsDue = some (first, slice)) (hbook : SliceBook slice)
    (hall : ∀ e ∈ waitingIn first slice, e.2 ⊆ first.availableMachines ∪ s.repairMachines)
    (hr : (recount s first slice (slice.nbReservations - (waitingIn first slice).length)).removeJobs
      ((waitingIn first slice).map Prod.fst) = .ok s') :
    s.removeReservationsIfReady [] = .ok (s', (waitingIn first slice).map Prod.fst, true) := by
  have hcollect : Schedule.collectReady first s.repairMachines slice.allocatedJobs.entries slice.nbReservations [] =
      (slice.nbReservations - (waitingIn first slice).length, (waitingIn first slice).map Prod.fst, true) := by
    have hfitting : (waitingIn first slice).takeWhile (fun e => decide (e.2 ⊆ first.availableMachines ∪ s.repairMachines)) =
        waitingIn first slice := List.takeWhile_eq_self_iff.2 fun e he => decide_eq_true (hall e he)
    rw [collectReady_eq]
    change (takeOff^[((waitingIn first slice).takeWhile _).length] _, [] ++ ((waitingIn first slice).takeWhile _).map Prod.fst,
      (waitingIn first slice).all _) = _
    rw [hfitting, iterate_takeOff _ _ (length_waiting_le hbook), List.nil_append]
    simpa using hall
  unfold Schedule.removeReservationsIfReady
  rw [hdue]
  dsimp only
  rw [hcollect]
  dsimp only
  unfold recount at hr
  rw [if_pos rfl, hr]

/-- Where one does not fit, those before it are collected and taken off the count, and none is removed. -/
theorem run_not_ready (hdue : s.reservationsDue = some (first, slice))
    (hnot : ¬ ∀ e ∈ waitingIn first slice, e.2 ⊆ first.availableMachines ∪ s.repairMachines) :
    ∃ nb, s.removeReservationsIfReady [] = .ok (recount s first slice nb,
        ((waitingIn first slice).takeWhile (fun e => decide (e.2 ⊆ first.availableMachines ∪ s.repairMachines))).map Prod.fst, false) ∧
      ((waitingIn first slice).takeWhile (fun e => decide (e.2 ⊆ first.availableMachines ∪ s.repairMachines)) = [] →
        nb = slice.nbReservations) := by
  have hready : (waitingIn first slice).all (fun e => decide (e.2 ⊆ first.availableMachines ∪ s.repairMachines)) = false := by
    rw [← Bool.not_eq_true]
    simpa using hnot
  have hcollect := collectReady_eq first s.repairMachines slice.allocatedJobs.entries slice.nbReservations []
  change _ = (takeOff^[((waitingIn first slice).takeWhile _).length] _, [] ++ ((waitingIn first slice).takeWhile _).map Prod.fst,
    (waitingIn first slice).all _) at hcollect
  rw [hready, List.nil_append] at hcollect
  refine ⟨takeOff^[((waitingIn first slice).takeWhile
    (fun e => decide (e.2 ⊆ first.availableMachines ∪ s.repairMachines))).length] slice.nbReservations, ?_,
    fun hnil => by rw [hnil]; rfl⟩
  unfold Schedule.removeReservationsIfReady
  rw [hdue]
  dsimp only
  rw [hcollect]
  rfl

/-- Where one does not fit, the reservations can be taken cleanly if and only if none is collected before it. -/
theorem readyCleanly_iff_none (hdue : s.reservationsDue = some (first, slice))
    (hnot : ¬ ∀ e ∈ waitingIn first slice, e.2 ⊆ first.availableMachines ∪ s.repairMachines) :
    s.ReadyCleanly ↔
      (waitingIn first slice).takeWhile (fun e => decide (e.2 ⊆ first.availableMachines ∪ s.repairMachines)) = [] := by
  unfold Schedule.ReadyCleanly
  rw [hdue]
  constructor
  · intro h
    have hclean := h first slice rfl
    rw [if_neg hnot] at hclean
    cases hwaiting : waitingIn first slice with
    | nil => rfl
    | cons e waiting =>
      rw [hwaiting] at hclean
      exact List.takeWhile_cons_of_neg (by simpa using hclean e rfl)
  · rintro h first' slice' hdue'
    cases hdue'
    rw [if_neg hnot]
    intro e he hfits
    obtain ⟨waiting, hwaiting⟩ := List.head?_eq_some_iff.1 he
    have htake : (e :: waiting).takeWhile (fun e => decide (e.2 ⊆ first.availableMachines ∪ s.repairMachines)) =
        e :: waiting.takeWhile (fun e => decide (e.2 ⊆ first.availableMachines ∪ s.repairMachines)) :=
      List.takeWhile_cons_of_pos (decide_eq_true hfits)
    rw [hwaiting, htake] at h
    cases h

end ReadyAux

open ReadyAux ReservationsAux in
/-- For every schedule whose machines are accounted for, whose slices follow each other and count their reservations: the call does
not abort, and it takes the reservations that are due all or none, if and only if they can be taken cleanly. -/
theorem remove_reservations_if_ready_iff (W : Workload) (s : Schedule) (hm : MachinesOk W s) (ht : Timed s.profile)
    (hbooks : ∀ t ∈ s.profile, SliceBook t) :
    ∃ s' jobsRemoved ready, s.removeReservationsIfReady [] = .ok (s', jobsRemoved, ready) ∧
      (RemovedAtomically s s' jobsRemoved ready ↔ s.ReadyCleanly) := by
  cases hdue : s.reservationsDue with
  | none =>
    have hrun : s.removeReservationsIfReady [] = .ok (s, [], false) := by
      unfold Schedule.removeReservationsIfReady
      rw [hdue]
    refine ⟨s, [], false, hrun, iff_of_true ⟨fun _ => ⟨rfl, rfl⟩, ?_, ?_, ?_, ?_⟩ fun first slice h => ?_⟩
    · exact fun h => absurd h (by decide)
    · exact fun h => absurd h (by decide)
    · exact fun h => absurd h (by decide)
    · exact fun h => absurd h (by decide)
    · rw [hdue] at h
      cases h
  | some due =>
    obtain ⟨first, slice⟩ := due
    have hprofile := reservationsDue_some hdue
    have hslice : SliceBook slice := hbooks slice (by rw [hprofile]; simp)
    by_cases hall : ∀ e ∈ waitingIn first slice, e.2 ⊆ first.availableMachines ∪ s.repairMachines
    · obtain ⟨s', hs', _⟩ := removeJobs_total (machinesOk_recount hm hprofile
        (slice.nbReservations - (waitingIn first slice).length)) ((waitingIn first slice).map Prod.fst)
      refine ⟨s', _, true, run_ready hdue hslice hall hs', ?_⟩
      rw [removed_iff hdue hm ht _ hs', books_iff hdue hm hbooks hs']
      unfold Schedule.ReadyCleanly
      rw [hdue]
      constructor
      · rintro h first' slice' hdue'
        cases hdue'
        rwa [if_pos hall]
      · intro h
        have hclean := h first slice rfl
        rwa [if_pos hall] at hclean
    · obtain ⟨nb, hrun, hnb⟩ := run_not_ready hdue hall
      refine ⟨_, _, false, hrun, ?_⟩
      rw [readyCleanly_iff_none hdue hall]
      constructor
      · intro h
        exact List.map_eq_nil_iff.1 (h.unchanged rfl).2
      · intro hnil
        refine ⟨fun _ => ⟨?_, by rw [hnil]; rfl⟩, fun h => absurd h (by decide), fun h => absurd h (by decide),
          fun h => absurd h (by decide), fun h => absurd h (by decide)⟩
        have hsame : recount s first slice slice.nbReservations = { s with profile := first :: slice :: s.profile.drop 2 } := rfl
        rw [hnb hnil, hsame, ← hprofile]

namespace ReadyWitness

open Execution ReservationsAux

/-- A reservation of one machine for ten seconds, a moment after the begin of the schedule. -/
def reservation (id : String) (machine : ℕ) : Job :=
  { id := id, nbRequestedResources := 1, walltime := 10, purpose := "reservation", futureAllocations := {machine}, start := 1 / 16384 }

/-- A job that begins with the schedule. -/
def job (walltime : ℚ) : Job := { id := "w!1", nbRequestedResources := 1, walltime := walltime }

/-- A workload of the job and two reservations. -/
def workload (walltime : ℚ) : Workload :=
  Workload.ofList [job walltime, reservation "w!2" 1, reservation "w!3" 0] (by simp [job, reservation]) (by simp [job, reservation])

/-- A sort of the running jobs. -/
def sorter : Sorter LargestFirst := Sorter.stable LargestFirst

/-- Whether a reservation is added on free machines. -/
def freeFor (s : Schedule) (job : Job) : Bool :=
  !s.containsJob job && (s.reserveTimeSlice sorter job).toOption.all (fun x => ReservedFree x.1 job x.2)

/-- The accounts of a schedule. -/
def Accounted (walltime : ℚ) (s : Schedule) : Prop := BookInv (workload walltime) s ∧ Timed s.profile

theorem accounted_new (walltime : ℚ) (n : ℕ) : Accounted walltime (Schedule.new n 0) :=
  ⟨BookInv.new _ n 0, Timed.new n 0⟩

theorem accounted_addJob {walltime : ℚ} {s s' : Schedule} (h : Accounted walltime s)
    (hrun : (ReservationCall.addJobFirstFit (job walltime) true).run sorter s = .ok s') : Accounted walltime s' := by
  have hcall : BookedCall sorter s (.addJobFirstFit (job walltime) true) := rfl
  refine ⟨h.1.step ?_ hcall hrun, h.2.runReservation hrun⟩
  intro j hj
  rw [← Option.some.inj hj]
  exact List.mem_cons_self

theorem accounted_addReservation {walltime : ℚ} {s s' : Schedule} {r : Job} (h : Accounted walltime s)
    (hr : r = reservation "w!2" 1 ∨ r = reservation "w!3" 0) (hfree : freeFor s r = true)
    (hrun : (ReservationCall.addReservation r).run sorter s = .ok s') : Accounted walltime s' := by
  unfold freeFor at hfree
  rw [Bool.and_eq_true, Bool.not_eq_true'] at hfree
  obtain ⟨hnew, hall⟩ := hfree
  have hcall : BookedCall sorter s (.addReservation r) := by
    refine ⟨?_, hnew, fun s₁ reserved hreserve _ => ?_⟩
    · rcases hr with rfl | rfl
      · rfl
      · rfl
    · rw [hreserve] at hall
      exact of_decide_eq_true hall
  refine ⟨h.1.step ?_ hcall hrun, h.2.runReservation hrun⟩
  intro j hj
  rw [← Option.some.inj hj]
  rcases hr with rfl | rfl
  · exact List.mem_cons_of_mem _ List.mem_cons_self
  · exact List.mem_cons_of_mem _ (List.mem_cons_of_mem _ List.mem_cons_self)

end ReadyWitness

open ReadyWitness Execution in
/-- A reservation that is alone from its begin on is taken out. -/
theorem remove_reservations_if_ready_iff_witness :
    ∃ s s' jobsRemoved ready, (ReservationCall.addReservation (reservation "w!2" 1)).run sorter (Schedule.new 2 0) = .ok s ∧
      s.removeReservationsIfReady [] = .ok (s', jobsRemoved, ready) ∧
      (RemovedAtomically s s' jobsRemoved ready ↔ s.ReadyCleanly) := by
  have hvalue : ((ReservationCall.addReservation (reservation "w!2" 1)).run sorter (Schedule.new 2 0)).toOption.map (fun _ =>
      freeFor (Schedule.new 2 0) (reservation "w!2" 1)) = some true := by decide +kernel
  obtain ⟨s, hrun, hfree⟩ := toOption_map_eq_some.1 hvalue
  have hs := accounted_addReservation (accounted_new 1 2) (Or.inl rfl) hfree hrun
  obtain ⟨s', jobsRemoved, ready, hremove, hiff⟩ := remove_reservations_if_ready_iff (workload 1) s hs.1.machines hs.2 hs.1.slices
  exact ⟨s, s', jobsRemoved, ready, hrun, hremove, hiff⟩

open ReadyWitness Execution in
/-- The first of two reservations fits and the second does not, because the job still has its machine: the call returns false with
the first one collected. And a reservation beside a job is taken out of a slice that then counts minus one reservation. -/
theorem remove_reservations_if_ready_false :
    (¬ ∀ (W : Workload) (s : Schedule), MachinesOk W s → Timed s.profile → (∀ t ∈ s.profile, SliceBook t) →
      ∃ s' jobsRemoved ready, s.removeReservationsIfReady [] = .ok (s', jobsRemoved, ready) ∧
        RemovedAtomically s s' jobsRemoved ready) ∧
    (runFrom (ReservationCall.run sorter) (Schedule.new 2 0) [.addJobFirstFit (job (1 / 16384)) true,
        .addReservation (reservation "w!2" 1), .addReservation (reservation "w!3" 0)]).toOption.bind (fun s =>
      (s.removeReservationsIfReady []).toOption.map fun r =>
        (s.profile.map (·.nbReservations), r.1.profile.map (·.nbReservations), r.2.1.map Job.id, r.2.2)) =
      some ([0, 2, 0], [0, 1, 0], ["w!2"], false) ∧
    (runFrom (ReservationCall.run sorter) (Schedule.new 2 0) [.addJobFirstFit (job (10 + 1 / 16384)) true,
        .addReservation (reservation "w!2" 1)]).toOption.bind (fun s =>
      (s.removeReservationsIfReady []).toOption.map fun r =>
        (r.1.profile.map (fun t => (t.nbReservations, t.hasReservation)), r.2.1.map Job.id, r.2.2)) =
      some ([(-1, true), (0, false)], ["w!2"], true) := by
  refine ⟨fun h => ?_, by decide +kernel, by decide +kernel⟩
  have hvalue : ((ReservationCall.addJobFirstFit (job (1 / 16384)) true).run sorter (Schedule.new 2 0)).toOption.bind (fun s₁ =>
      ((ReservationCall.addReservation (reservation "w!2" 1)).run sorter s₁).toOption.bind fun s₂ =>
        ((ReservationCall.addReservation (reservation "w!3" 0)).run sorter s₂).toOption.map fun s₃ =>
          (freeFor s₁ (reservation "w!2" 1), freeFor s₂ (reservation "w!3" 0),
            (s₃.removeReservationsIfReady []).toOption.map (fun r => (r.2.1.map Job.id, r.2.2)))) =
      some (true, true, some (["w!2"], false)) := by decide +kernel
  obtain ⟨s₁, hrun₁, hvalue⟩ := toOption_bind_eq_some.1 hvalue
  obtain ⟨s₂, hrun₂, hvalue⟩ := toOption_bind_eq_some.1 hvalue
  obtain ⟨s₃, hrun₃, hvalue⟩ := toOption_map_eq_some.1 hvalue
  obtain ⟨hfree₁, hvalue⟩ := Prod.mk.inj hvalue
  obtain ⟨hfree₂, hvalue⟩ := Prod.mk.inj hvalue
  have hs := accounted_addReservation (accounted_addReservation (accounted_addJob (accounted_new _ 2) hrun₁) (Or.inl rfl) hfree₁ hrun₂)
    (Or.inr rfl) hfree₂ hrun₃
  obtain ⟨s', jobsRemoved, ready, hremove, hatomic⟩ := h _ s₃ hs.1.machines hs.2 hs.1.slices
  rw [hremove] at hvalue
  obtain ⟨hids, hready⟩ := Prod.mk.inj (Option.some.inj hvalue)
  have hnil := (hatomic.unchanged hready).2
  rw [hnil] at hids
  cases hids

end ScheduleTest
