import ScheduleTest.Lemmas.Operations
import ScheduleTest.Reservation

/-!
# Which jobs are in a profile

Whether some slice of the profile holds a job (`Present`), and how the operations change it: a placement adds the job placed, a
removal takes out the job removed, and cutting a slice in two changes nothing. The jobs of a profile as a set (`jobsOf`) follow
from this, so that the sizes a schedule keeps can be compared with them. A cut (`Cut`) and a change of consecutive slices
(`Schedule.updateSlices`) are what reservations do to a profile.
-/

namespace ScheduleTest

/-- Some slice holds the job. -/
def Present (job : Job) (p : List TimeSlice) : Prop := ∃ t ∈ p, t.containsJob job = true

theorem containsJob_iff_present {s : Schedule} {job : Job} : s.containsJob job = true ↔ Present job s.profile := by
  simp [Schedule.containsJob, Present]

/-- A job is present where the profile gives it machines. -/
theorem present_iff_map {job : Job} {p : List TimeSlice} : Present job p ↔ ∃ x ∈ p.map (machinesOf job), x ≠ none := by
  simp [Present, containsJob_eq_isSome, Option.isSome_iff_ne_none]

/-- Two jobs with the same id are present together. -/
theorem present_congr {job job' : Job} (h : job.id = job'.id) (p : List TimeSlice) : Present job p ↔ Present job' p := by
  simp only [Present, TimeSlice.containsJob, KeyedMap.contains, h]

/-- Placing a job makes it present, and changes nothing for the others. -/
theorem present_placeAt {job job' : Job} {a : Anchor} {endDate : ℚ} :
    Present job' (Schedule.placeAt job a endDate) ↔
      job'.id = job.id ∨ Present job' (a.before.reverse ++ (a.covered ++ a.last :: a.rest)) := by
  rw [present_iff_map, present_iff_map, map_machinesOf_placeAt]
  by_cases hid : job'.id = job.id
  · simp only [hid, true_or, iff_true]
    refine ⟨some a.usedMachines, ?_, nofun⟩
    simp [Anchor.slices]
  · simp only [hid, false_or, Anchor.slices]
    constructor
    · rintro ⟨x, hx, hne⟩
      refine ⟨x, ?_, hne⟩
      simp only [List.map_append, List.map_cons, List.mem_append, List.mem_cons, List.map_nil, List.not_mem_nil,
        or_false] at hx ⊢
      rcases hx with hx | (hx | hx) | hx | hx
      · exact Or.inl hx
      · exact Or.inr (Or.inl hx)
      · exact Or.inr (Or.inr (Or.inl hx))
      · split at hx
        · exact Or.inr (Or.inr (Or.inl (List.mem_singleton.1 hx)))
        · cases hx
      · exact Or.inr (Or.inr (Or.inr hx))
    · rintro ⟨x, hx, hne⟩
      refine ⟨x, ?_, hne⟩
      simp only [List.map_append, List.map_cons, List.mem_append, List.mem_cons, List.map_nil, List.not_mem_nil,
        or_false] at hx ⊢
      tauto

/-- Removing a job in one run takes it out, and changes nothing for the others. -/
theorem present_removeFrom {W : NamedJobs} {job job' : Job} {ms m : IntervalSet} {before after p' : List TimeSlice}
    (h : RunsOk W (before.reverse ++ after)) (hb : ∀ s ∈ before, s.containsJob job = false)
    (hrun : (after.map (machinesOf job)).RunTail m) (hr : removeFrom job ms before after = .ok p') :
    Present job' p' ↔ job'.id ≠ job.id ∧ Present job' (before.reverse ++ after) := by
  by_cases hid : job'.id = job.id
  · simp only [hid, ne_eq, not_true_eq_false, false_and, iff_false]
    rw [present_congr hid]
    rintro ⟨t, ht, hc⟩
    rw [removeFrom_absent hb hrun hr t ht] at hc
    nomatch hc
  · simp only [ne_eq, hid, not_false_eq_true, true_and]
    refine (removeFrom_rule (P := fun p => RunsOk W p ∧ (Present job' p ↔ Present job' (before.reverse ++ after)))
      ?_ ?_ hb ⟨h, Iff.rfl⟩ hr).2
    · rintro l pit r ⟨hruns, hiff⟩ hl _
      refine ⟨hruns.erase hl, ?_⟩
      rw [← hiff, present_iff_map, present_iff_map]
      simp only [List.map_append, List.map_cons, machinesOf_eraseJob, if_neg hid]
    · rintro l previous pit merged r ⟨hruns, hiff⟩ hm
      refine ⟨hruns.merge hm, ?_⟩
      have heq : machinesOf job' previous = machinesOf job' pit := by
        rw [machinesOf, hruns.allocatedJobs_eq_of_merge hm, machinesOf]
      rw [← hiff, present_iff_map, present_iff_map, (mergeWithPrevious_some hm).1]
      simp only [List.map_append, List.map_cons, machinesOf_retime, heq, List.mem_append, List.mem_cons]
      constructor
      · rintro ⟨x, hx, hne⟩
        exact ⟨x, by tauto, hne⟩
      · rintro ⟨x, hx, hne⟩
        exact ⟨x, by tauto, hne⟩

/-- What a removal that goes through does to the jobs of a schedule. -/
theorem present_removeJobIfExists {W : NamedJobs} {s s' : Schedule} {job job' : Job} {b : Bool} (h : RunsOk W s.profile)
    (hr : s.removeJobIfExists job = .ok (s', b)) : Present job' s'.profile ↔ job'.id ≠ job.id ∧ Present job' s.profile := by
  rcases Schedule.removeJobIfExists_ok hr with ⟨_, rfl, hc⟩ | ⟨_, before, pit, rest, ms, p', hprofile, hbefore, hms, hp, rfl⟩
  · constructor
    · intro hpres
      refine ⟨fun hid => ?_, hpres⟩
      rw [present_congr hid, ← containsJob_iff_present, hc] at hpres
      nomatch hpres
    · exact fun hpres => hpres.2
  · have hrun := h.runs job
    rw [hprofile, List.map_append, List.oneRun_append_none, List.map_cons, hms] at hrun
    · rw [hprofile, ← List.reverse_reverse before] at h ⊢
      refine present_removeFrom (m := ms) h (fun t ht => hbefore t (List.mem_reverse.1 ht)) ?_ hp
      rw [List.map_cons, hms]
      exact ⟨rfl, hrun⟩
    · intro x hx
      obtain ⟨t, ht, rfl⟩ := List.mem_map.1 hx
      exact machinesOf_eq_none (hbefore t ht)

/-! ## Cutting a slice in two -/

/-- The profile is unchanged, or one of its slices has been cut in two. -/
def Cut (p p' : List TimeSlice) : Prop :=
  p' = p ∨ ∃ l t r b e len b' e' len', p = l ++ t :: r ∧ p' = l ++ t.retime b e len :: t.retime b' e' len' :: r

namespace Cut

variable {p p' : List TimeSlice}

/-- Splitting the slice with some index is a cut. -/
theorem splitSliceAt (p : List TimeSlice) (i : ℕ) (date : ℚ) : Cut p (Schedule.splitSliceAt p i date).1 := by
  rw [Schedule.splitSliceAt]
  split
  · exact Or.inl rfl
  · rename_i slice hslice
    split
    · rename_i first second hsplit
      obtain ⟨e, l, h1⟩ := splitSlice_fst slice date
      obtain ⟨b, l', h2⟩ := splitSlice_snd (congrArg Prod.snd hsplit)
      rw [hsplit] at h1
      dsimp only at h1
      refine Or.inr ⟨p.take i, slice, p.drop (i + 1), slice.beginDate, e, l, b, slice.endDate, l', ?_, by rw [h1, h2]⟩
      obtain ⟨hi, hget⟩ := List.getElem?_eq_some_iff.1 hslice
      rw [← hget, List.getElem_cons_drop, List.take_append_drop]
    · exact Or.inl rfl

theorem present {job : Job} (h : Cut p p') : Present job p' ↔ Present job p := by
  rcases h with rfl | ⟨l, t, r, b, e, len, b', e', len', rfl, rfl⟩
  · exact Iff.rfl
  · simp [Present, List.mem_append, or_and_right, exists_or]

theorem runsOk {W : NamedJobs} (h : Cut p p') (hp : RunsOk W p) : RunsOk W p' := by
  rcases h with rfl | ⟨l, t, r, b, e, len, b', e', len', rfl, rfl⟩
  · exact hp
  · refine ⟨fun u hu => ?_, fun job => ?_⟩
    · simp only [List.mem_append, List.mem_cons] at hu
      rcases hu with hu | rfl | rfl | hu
      · exact hp.known u (by simp [hu])
      · exact hp.known t (by simp)
      · exact hp.known t (by simp)
      · exact hp.known u (by simp [hu])
    · have hrun := hp.runs job
      simp only [List.map_append, List.map_cons, machinesOf_retime] at hrun ⊢
      rwa [List.oneRun_stutter]

theorem forall_mem {P : TimeSlice → Prop} (hP : Timeless P) (h : Cut p p') (hp : ∀ t ∈ p, P t) : ∀ t ∈ p', P t := by
  rcases h with rfl | ⟨l, t, r, b, e, len, b', e', len', rfl, rfl⟩
  · exact hp
  · intro u hu
    simp only [List.mem_append, List.mem_cons] at hu
    rcases hu with hu | rfl | rfl | hu
    · exact hp u (by simp [hu])
    · exact hP t _ _ _ (hp t (by simp))
    · exact hP t _ _ _ (hp t (by simp))
    · exact hp u (by simp [hu])

theorem ne_nil (h : Cut p p') (hp : p ≠ []) : p' ≠ [] := by
  rcases h with rfl | ⟨l, t, r, b, e, len, b', e', len', rfl, rfl⟩
  · exact hp
  · simp

end Cut

/-- The first part of a split slice keeps its index, and the profile does not get shorter. -/
theorem splitSliceAt_index (p : List TimeSlice) (i : ℕ) (date : ℚ) :
    (Schedule.splitSliceAt p i date).2.1 = i ∧ p.length ≤ (Schedule.splitSliceAt p i date).1.length := by
  rw [Schedule.splitSliceAt]
  split
  · exact ⟨rfl, le_rfl⟩
  · split
    · refine ⟨rfl, ?_⟩
      simp only [List.length_append, List.length_take, List.length_cons, List.length_drop]
      omega
    · exact ⟨rfl, le_rfl⟩

/-- The cuts for a reservation, and the slices between them. -/
theorem cutForReservation_ok {s : Schedule} {job : Job} {p' : List TimeSlice} {sliceBegin sliceEnd : ℕ}
    (h : s.cutForReservation job = .ok (p', sliceBegin, sliceEnd)) :
    (∃ p, Cut s.profile p ∧ Cut p p') ∧ sliceBegin ≤ sliceEnd ∧ sliceEnd < p'.length := by
  simp only [Schedule.cutForReservation] at h
  generalize (if s.firstSliceIsSuspect = true then 1 else 0) + List.findIdx _ _ = i at h
  split_ifs at h with hi hk
  cases h
  generalize List.findIdx _ _ = d at hk
  obtain ⟨hidx, hlen⟩ := splitSliceAt_index (Schedule.splitSliceAt s.profile i job.start).1
    ((Schedule.splitSliceAt s.profile i job.start).2.2 + d) (job.start + job.walltime)
  refine ⟨⟨_, Cut.splitSliceAt _ _ _, Cut.splitSliceAt _ _ _⟩, ?_, ?_⟩
  · rw [hidx]
    omega
  · rw [hidx]
    omega

/-- What the search for the time slices of a reservation leaves behind: at most two cuts in the profile, and where it
succeeds, the slices found and the job. -/
theorem reserveTimeSlice_ok {sorter : Sorter LargestFirst} {s s' : Schedule} {job : Job} {r : ReservedTimeSlice}
    (h : s.reserveTimeSlice sorter job = .ok (s', r)) :
    (∃ p, Cut s.profile p ∧ Cut p s'.profile) ∧ s' = { s with profile := s'.profile } ∧
      (r.success = true → r.alloc.job = some job ∧ r.sliceBegin ≤ r.sliceEnd ∧ r.sliceEnd < s'.profile.length) := by
  rw [Schedule.reserveTimeSlice] at h
  split at h
  · nomatch h
  · rename_i p' sliceBegin sliceEnd hcut
    obtain ⟨hcuts, hle, hlt⟩ := cutForReservation_ok hcut
    dsimp only at h
    generalize Schedule.machinesForReservation sorter _ job sliceBegin sliceEnd = used at h
    cases hhead : p'.head? with
    | none =>
      rw [hhead] at h
      nomatch h
    | some first =>
      rw [hhead] at h
      cases used with
      | error e => nomatch h
      | ok used =>
        dsimp only at h
        split at h
        · cases h
          exact ⟨hcuts, rfl, nofun⟩
        · cases h
          exact ⟨hcuts, rfl, fun _ => ⟨rfl, hle, hlt⟩⟩

/-- The slices of a schedule with reservations due. -/
theorem reservationsDue_some {s : Schedule} {first slice : TimeSlice} (h : s.reservationsDue = some (first, slice)) :
    s.profile = first :: slice :: s.profile.drop 2 := by
  unfold Schedule.reservationsDue at h
  split at h
  · rename_i hp
    split at h
    · cases h
      rw [hp]
      rfl
    · cases h
  · cases h

/-! ## Changing consecutive slices -/

/-- The profile is the slices before, those from one index to another, and those after. -/
theorem updateSlices_parts (p : List TimeSlice) (i k : ℕ) :
    p = p.take i ++ ((p.drop i).take (k + 1 - i) ++ (p.drop i).drop (k + 1 - i)) := by
  rw [List.take_append_drop, List.take_append_drop]

/-- Where some slices take a job that is not in the profile, every job is in one run. -/
theorem RunsOk.allocateMiddle {W : NamedJobs} {job : Job} {used : IntervalSet} {pre mid post : List TimeSlice}
    {f : TimeSlice → TimeSlice} (hf : ∀ t, (f t).allocatedJobs = t.allocatedJobs.insert job used)
    (h : RunsOk W (pre ++ (mid ++ post))) (hjob : job ∈ W.jobs) (hnew : ¬ Present job (pre ++ (mid ++ post))) :
    RunsOk W (pre ++ (mid.map f ++ post)) where
  known := by
    intro t ht e he
    simp only [List.mem_append, List.mem_map] at ht
    rcases ht with ht | ⟨u, hu, rfl⟩ | ht
    · exact h.known t (by simp [ht]) e he
    · have hnone : u.containsJob job = false := by
        rw [← Bool.not_eq_true]
        exact fun hc => hnew ⟨u, by simp [hu], hc⟩
      rw [hf, KeyedMap.mem_insert_of_new (KeyedMap.contains_eq_false_iff.1 hnone)] at he
      rcases he with rfl | he
      · exact hjob
      · exact h.known u (by simp [hu]) e he
    · exact h.known t (by simp [ht]) e he
  runs := by
    intro job'
    have hmap : mid.map (machinesOf job' ∘ f) =
        mid.map (fun t => if job'.id = job.id then some used else machinesOf job' t) := by
      refine List.map_congr_left fun t _ => ?_
      rw [Function.comp_apply, machinesOf, hf, KeyedMap.find?_insert]
      rfl
    rw [List.map_append, List.map_append, List.map_map, hmap]
    by_cases hid : job'.id = job.id
    · have hnone : ∀ t ∈ pre ++ (mid ++ post), machinesOf job' t = none := by
        intro t ht
        refine machinesOf_eq_none (Bool.eq_false_iff.2 fun hc => hnew ?_)
        exact (present_congr hid _).1 ⟨t, ht, hc⟩
      refine List.oneRun_append (m := used) ?_ ?_ ?_
      · intro x hx
        obtain ⟨t, ht, rfl⟩ := List.mem_map.1 hx
        exact hnone t (by simp [ht])
      · intro x hx
        obtain ⟨t, _, rfl⟩ := List.mem_map.1 hx
        rw [if_pos hid]
      · intro x hx
        obtain ⟨t, ht, rfl⟩ := List.mem_map.1 hx
        exact hnone t (by simp [ht])
    · simp only [if_neg hid]
      have := h.runs job'
      rwa [List.map_append, List.map_append] at this

/-- Giving slices to a job makes it present where there are such slices, and changes nothing for the others. -/
theorem present_middle {job job' : Job} {used : IntervalSet} {pre mid post : List TimeSlice} {f : TimeSlice → TimeSlice}
    (hf : ∀ t, (f t).allocatedJobs = t.allocatedJobs.insert job used) :
    Present job' (pre ++ (mid.map f ++ post)) ↔
      job'.id = job.id ∧ mid ≠ [] ∨ Present job' (pre ++ (mid ++ post)) := by
  have hview : ∀ t, (f t).containsJob job' = true ↔ job'.id = job.id ∨ t.containsJob job' = true := by
    intro t
    rw [containsJob_eq_isSome, containsJob_eq_isSome, machinesOf, hf, KeyedMap.find?_insert]
    split
    · simp_all
    · simp_all [machinesOf]
  simp only [Present, List.mem_append, List.mem_map]
  constructor
  · rintro ⟨t, ht | ⟨u, hu, rfl⟩ | ht, hc⟩
    · exact Or.inr ⟨t, Or.inl ht, hc⟩
    · rcases (hview u).1 hc with hid | hc
      · exact Or.inl ⟨hid, List.ne_nil_of_mem hu⟩
      · exact Or.inr ⟨u, Or.inr (Or.inl hu), hc⟩
    · exact Or.inr ⟨t, Or.inr (Or.inr ht), hc⟩
  · rintro (⟨hid, hne⟩ | ⟨t, ht | ht | ht, hc⟩)
    · obtain ⟨u, hu⟩ := List.exists_mem_of_ne_nil _ hne
      exact ⟨f u, Or.inr (Or.inl ⟨u, hu, rfl⟩), (hview u).2 (Or.inl hid)⟩
    · exact ⟨t, Or.inl ht, hc⟩
    · exact ⟨f t, Or.inr (Or.inl ⟨t, ht, rfl⟩), (hview t).2 (Or.inr hc)⟩
    · exact ⟨t, Or.inr (Or.inr ht), hc⟩

/-! ## The jobs of a profile -/

/-- The jobs of a profile. -/
def jobsOf (p : List TimeSlice) : Finset Job := (p.flatMap (·.allocatedJobs.keys)).toFinset

/-- A job of the workload is among the jobs of the profile exactly when it is present. -/
theorem mem_jobsOf {W : NamedJobs} {p : List TimeSlice} (h : RunsOk W p) {job : Job} :
    job ∈ jobsOf p ↔ job ∈ W.jobs ∧ Present job p := by
  simp only [jobsOf, List.mem_toFinset, List.mem_flatMap, KeyedMap.keys, List.mem_map]
  constructor
  · rintro ⟨t, ht, e, he, rfl⟩
    exact ⟨h.known t ht e he, t, ht, KeyedMap.contains_iff.2 ⟨e, he, rfl⟩⟩
  · rintro ⟨hjob, t, ht, hc⟩
    obtain ⟨e, he, hid⟩ := KeyedMap.contains_iff.1 hc
    exact ⟨t, ht, e, he, W.id_injOn (h.known t ht e he) hjob hid⟩

/-- The jobs after one was added. -/
theorem jobsOf_insert {W : NamedJobs} {p p' : List TimeSlice} (h : RunsOk W p) (h' : RunsOk W p') {job : Job}
    (hjob : job ∈ W.jobs) (hpres : ∀ job', Present job' p' ↔ job'.id = job.id ∨ Present job' p) :
    jobsOf p' = insert job (jobsOf p) := by
  ext job'
  rw [Finset.mem_insert, mem_jobsOf h, mem_jobsOf h', hpres]
  constructor
  · rintro ⟨hmem, hid | hp⟩
    · exact Or.inl (W.id_injOn hmem hjob hid)
    · exact Or.inr ⟨hmem, hp⟩
  · rintro (rfl | ⟨hmem, hp⟩)
    · exact ⟨hjob, Or.inl rfl⟩
    · exact ⟨hmem, Or.inr hp⟩

/-- The jobs after one was removed. -/
theorem jobsOf_erase {W : NamedJobs} {p p' : List TimeSlice} (h : RunsOk W p) (h' : RunsOk W p') {job : Job}
    (hjob : job ∈ W.jobs) (hpres : ∀ job', Present job' p' ↔ job'.id ≠ job.id ∧ Present job' p) :
    jobsOf p' = (jobsOf p).erase job := by
  ext job'
  rw [Finset.mem_erase, mem_jobsOf h, mem_jobsOf h', hpres]
  constructor
  · rintro ⟨hmem, hid, hp⟩
    exact ⟨fun heq => hid (by rw [heq]), hmem, hp⟩
  · rintro ⟨hne, hmem, hp⟩
    exact ⟨hmem, fun hid => hne (W.id_injOn hmem hjob hid), hp⟩

/-- The jobs of profiles with the same jobs present. -/
theorem jobsOf_congr {W : NamedJobs} {p p' : List TimeSlice} (h : RunsOk W p) (h' : RunsOk W p')
    (hpres : ∀ job', Present job' p' ↔ Present job' p) : jobsOf p' = jobsOf p := by
  ext job'
  rw [mem_jobsOf h, mem_jobsOf h', hpres]

end ScheduleTest
