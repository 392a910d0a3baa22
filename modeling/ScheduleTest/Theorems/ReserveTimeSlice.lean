import ScheduleTest.Lemmas.FirstFit
import Mathlib.Data.List.Count

/-!
# Looking for the time slices of a reservation

`reserve_time_slice` cuts the profile at the dates of the reservation, which changes nothing that the schedule says, and sorts the
jobs in the way into those to kill and those to reschedule. A running reservation whose walltime happens to be the date at which an
empty first slice ends is passed over and is in neither list. A reservation that starts where an inverted first slice begins has that
slice among its own, so they do not tile its time.
-/

namespace ScheduleTest

open Timeline

/-- Some of the slices give a job some of the machines. -/
def HoldsSomeOf (slices : List TimeSlice) (machines : IntervalSet) (job : Job) : Prop :=
  ∃ t ∈ slices, ∃ held, (job, held) ∈ t.allocatedJobs.entries ∧ held ∩ machines ≠ ∅

/-- The slices of a reservation in the profile. -/
def ReservedTimeSlice.slicesIn (r : ReservedTimeSlice) (p : List TimeSlice) : List TimeSlice :=
  (p.drop r.sliceBegin).take (r.sliceEnd + 1 - r.sliceBegin)

/-- What the search for the time slices of a reservation should do: it changes nothing that the schedule says, and where it succeeds
its slices tile the time from the start of the reservation to its end, and each job that holds some of its machines there is in one
list, once. -/
structure OnlySplits (s s' : Schedule) (job : Job) (r : ReservedTimeSlice) : Prop where
  unchanged : s' = { s with profile := s'.profile }
  atDate : ∀ x, s'.atDate x = s.atDate x
  tiles : r.success = true →
    Tiling TimeSlice.beginDate TimeSlice.endDate job.start (job.start + job.walltime) (r.slicesIn s'.profile)
  listed : r.success = true → ∀ other, HoldsSomeOf (r.slicesIn s'.profile) r.alloc.usedMachines other →
    ∀ first ∈ s'.profile.head?,
      r.jobsNeededToBeKilled.count other = (if first.containsJob other then 1 else 0) ∧
      r.jobsToReschedule.count other = (if first.containsJob other then 0 else 1)

/-- The machines of the reservation and the jobs in its way, in the profile cut for it, with its first slice. -/
def Schedule.inTheWay (sorter : Sorter LargestFirst) (s : Schedule) (job : Job) (first : TimeSlice) (used : IntervalSet)
    (affected : List Job) : Prop :=
  ∃ p sliceBegin sliceEnd, s.cutForReservation job = .ok (p, sliceBegin, sliceEnd) ∧ p.head? = some first ∧
    ({ s with profile := p }).machinesForReservation sorter job sliceBegin sliceEnd = .ok used ∧
    affected = ({ s with profile := p }).jobsAffectedBetween used sliceBegin sliceEnd

/-- Reservations that run in the empty first slice are in the way, and the walltime of each is the date at which that slice ends. -/
def Schedule.PassesOver (sorter : Sorter LargestFirst) (s : Schedule) (job : Job) : Prop :=
  s.firstSliceIsSuspect = true ∧ ∃ first used affected, s.inTheWay sorter job first used affected ∧
    (∃ other ∈ affected, other.isReservation = true ∧ first.containsJob other = true) ∧
    ∀ other ∈ affected, other.isReservation = true → first.containsJob other = true → other.walltime = first.endDate

/-- The reservation starts where the first slice begins, which ends before that date. There are machines for it, and no reservation that
runs is in the way. -/
def Schedule.StartsInverted (sorter : Sorter LargestFirst) (s : Schedule) (job : Job) : Prop :=
  (∃ first ∈ s.profile.head?, first.endDate < first.beginDate ∧ first.beginDate = job.start) ∧
    ∃ first used affected, s.inTheWay sorter job first used affected ∧ used ≠ ∅ ∧
      ∀ other ∈ affected, other.isReservation = true → first.containsJob other = false

namespace ReserveAux

variable {s s' : Schedule} {job : Job} {p : List TimeSlice}

/-! ## The cuts -/

/-- The first slice that meets a condition, among those from some index on. -/
theorem findIdx_drop {c : TimeSlice → Bool} {n : ℕ} (h : ∃ t ∈ p.drop n, c t = true) :
    ∃ l t r, p = l ++ t :: r ∧ l.length = n + (p.drop n).findIdx c ∧ c t = true ∧ ∀ u ∈ l.drop n, c u = false := by
  have hlt : (p.drop n).findIdx c < (p.drop n).length := List.findIdx_lt_length.2 h
  have hlt' : n + (p.drop n).findIdx c < p.length := by
    rw [List.length_drop] at hlt
    omega
  refine ⟨p.take (n + (p.drop n).findIdx c), p[n + (p.drop n).findIdx c], p.drop (n + (p.drop n).findIdx c + 1), ?_, ?_, ?_, ?_⟩
  · rw [List.getElem_cons_drop, List.take_append_drop]
  · rw [List.length_take]
    omega
  · have := List.findIdx_getElem (w := hlt)
    rwa [List.getElem_drop] at this
  · intro u hu
    rw [List.drop_take, Nat.add_sub_cancel_left] at hu
    obtain ⟨i, hi, rfl⟩ := List.getElem_of_mem hu
    rw [List.getElem_take]
    rw [List.length_take] at hi
    exact List.not_of_lt_findIdx (show i < (p.drop n).findIdx c by omega)

/-- The cut at the start of the reservation: afterwards a slice begins there, which is the first one only where that takes time. -/
theorem startCut (ht : Timed s.profile) (hw : 0 < job.walltime) (hstart : s.firstSliceBegin ≤ job.start)
    (hend : job.start + job.walltime ≤ s.infiniteHorizon) :
    ∃ i, i = (if s.firstSliceIsSuspect then 1 else 0) + (s.profile.drop (if s.firstSliceIsSuspect then 1 else 0)).findIdx
        (fun slice => slice.beginDate = job.start ∨ job.start < slice.endDate) ∧ i < s.profile.length ∧
      ∃ l t r, (Schedule.splitSliceAt s.profile i job.start).1 = l ++ t :: r ∧
        (Schedule.splitSliceAt s.profile i job.start).2.2 = l.length ∧ t.beginDate = job.start ∧
        (l = [] → s.profile = t :: r ∧ s.firstSliceIsSuspect = false) ∧
        ((∃ first ∈ s.profile.head?, first.endDate < first.beginDate ∧ first.beginDate = job.start) → l = []) := by
  obtain ⟨first, rest, hp, hbegin, hchain⟩ := exists_chain ht
  have hsuspect : s.firstSliceIsSuspect = decide (first.beginDate = first.endDate) := by
    rw [Schedule.firstSliceIsSuspect, hp]
    simp
  -- the last slice ends late enough
  have hlate : ∃ t ∈ s.profile.drop (if s.firstSliceIsSuspect then 1 else 0),
      decide (t.beginDate = job.start ∨ job.start < t.endDate) = true := by
    rcases List.eq_nil_or_concat rest with rfl | ⟨rest', last, rfl⟩
    · have he : s.infiniteHorizon = first.endDate := hchain.eq_stop (l := [])
      have hne : first.beginDate ≠ first.endDate := by
        intro heq
        rw [← hbegin, heq] at hstart
        linarith
      rw [hsuspect, hp]
      refine ⟨first, ?_, decide_eq_true (Or.inr (by linarith))⟩
      simp [hne]
    · rw [List.concat_eq_append] at hp hchain
      have he : s.infiniteHorizon = last.endDate := hchain.eq_stop (l := first :: rest')
      refine ⟨last, ?_, decide_eq_true (Or.inr (by linarith))⟩
      rw [hp]
      split <;> simp
  obtain ⟨l, t, r, hsplit, hlength, hcond, hbefore⟩ := findIdx_drop hlate
  refine ⟨_, rfl, ?_, ?_⟩
  · rw [← hlength, hsplit, List.length_append, List.length_cons]
    omega
  rw [← hlength]
  have hcond := of_decide_eq_true hcond
  -- the slice found begins at the start of the reservation or before
  have hle : t.beginDate ≤ job.start := by
    rw [← hp, hsplit] at hchain
    rcases List.eq_nil_or_concat l with rfl | ⟨l', u, rfl⟩
    · rw [hp] at hsplit
      rw [← (List.cons.inj hsplit).1, hbegin]
      exact hstart
    · rw [List.concat_eq_append] at hsplit hchain hbefore hlength
      have hmeet : t.beginDate = u.endDate := by
        rw [List.append_assoc, List.singleton_append] at hchain
        exact (chained_append_cons.1 hchain).1.1
      rw [hmeet]
      by_cases hu : u ∈ (l' ++ [u]).drop (if s.firstSliceIsSuspect then 1 else 0)
      · have := hbefore u hu
        simp only [decide_eq_false_iff_not, not_or, not_lt] at this
        exact this.2
      · -- the slice before is the empty first one
        have hsus : s.firstSliceIsSuspect = true := by
          by_contra hno
          rw [if_neg hno] at hu
          simp at hu
        rw [if_pos hsus] at hu
        have hl' : l' = [] := by
          cases l' with
          | nil => rfl
          | cons v l' => simp at hu
        rw [hl', hp] at hsplit
        obtain ⟨rfl, _⟩ := List.cons.inj hsplit
        rw [hsuspect] at hsus
        rw [← of_decide_eq_true hsus, hbegin]
        exact hstart
  have hnil : l = [] → s.profile = t :: r ∧ s.firstSliceIsSuspect = false := by
    rintro rfl
    refine ⟨hsplit, ?_⟩
    by_contra hsus
    rw [Bool.not_eq_false] at hsus
    rw [if_pos hsus, List.length_nil] at hlength
    omega
  -- an inverted first slice that begins at the start is the one that is found
  have hinverted : (∃ first ∈ s.profile.head?, first.endDate < first.beginDate ∧ first.beginDate = job.start) → l = [] := by
    rintro ⟨f, hf, hlt, hat⟩
    rw [hp] at hf
    obtain rfl := Option.some.inj hf
    have hsus : s.firstSliceIsSuspect = false := by
      rw [hsuspect]
      exact decide_eq_false hlt.ne'
    cases l with
    | nil => rfl
    | cons u l' =>
      rw [hp] at hsplit
      obtain rfl := (List.cons.inj hsplit).1
      have := hbefore first (by simp [hsus])
      simp [hat] at this
  rcases splitSliceAt_parts s.profile l.length job.start with ⟨hnone, _⟩ | ⟨l2, t2, r2, hsplit2, hlength2, h1, h2⟩
  · rw [List.getElem?_eq_none_iff, hsplit] at hnone
    simp at hnone
  · obtain ⟨rfl, htail⟩ := List.append_inj (hsplit2.symm.trans hsplit) hlength2
    obtain ⟨rfl, rfl⟩ := List.cons.inj htail
    rw [h1, h2]
    by_cases hin : t2.beginDate < job.start ∧ job.start < t2.endDate
    · rw [TimeSlice.splitSlice, if_pos hin]
      refine ⟨l2 ++ [{ t2 with endDate := job.start, length := job.start - t2.beginDate }],
        { t2 with beginDate := job.start, length := t2.endDate - job.start }, r2, by simp, by simp, rfl, by simp, fun hfirst => ?_⟩
      -- the slice that is cut begins before the start
      obtain ⟨hprofile, -⟩ := hnil (hinverted hfirst)
      obtain ⟨f, hf, -, hat⟩ := hfirst
      rw [hprofile] at hf
      obtain rfl := Option.some.inj hf
      exact absurd hin.1 (by rw [hat]; exact lt_irrefl _)
    · rw [TimeSlice.splitSlice, if_neg hin]
      refine ⟨l2, t2, r2, by simp, by simp, ?_, hnil, hinverted⟩
      rcases hcond with hcond | hcond
      · exact hcond
      · exact le_antisymm hle (not_lt.1 fun hlt => hin ⟨hlt, hcond⟩)

/-- Splitting a slice keeps the horizon. -/
theorem getLast_splitSliceAt (p : List TimeSlice) (i : ℕ) (date : ℚ) :
    (Schedule.splitSliceAt p i date).1.getLast?.map (·.endDate) = p.getLast?.map (·.endDate) := by
  rcases splitSliceAt_parts p i date with ⟨_, heq⟩ | ⟨l, t, r, rfl, _, heq, _⟩
  · rw [heq]
  · rw [heq, TimeSlice.splitSlice]
    split
    · cases r <;> simp [List.getLast?_append, List.getLast?_cons_cons]
    · simp

/-- The profile is cut for a reservation: the slices from its start to its end stand between the others. -/
structure CutFor (s : Schedule) (job : Job) (l mid : List TimeSlice) (last : TimeSlice) (rest : List TimeSlice) : Prop where
  cut : s.cutForReservation job = .ok (l ++ (mid ++ last :: rest), l.length, l.length + mid.length)
  timed : Timed (l ++ (mid ++ last :: rest))
  begins : (mid ++ [last]).head?.map (·.beginDate) = some job.start
  ends : last.endDate = job.start + job.walltime
  /-- The first slice of the reservation takes no time only if it is an inverted first slice of the schedule. -/
  inverted : (∃ first ∈ s.profile.head?, first.endDate < first.beginDate ∧ first.beginDate = job.start) ↔
    ∃ first ∈ (mid ++ [last]).head?, first.endDate ≤ first.beginDate

/-- The cuts for a reservation go through, and leave its slices between them, from its start to its end. -/
theorem cutForReservation_parts (ht : Timed s.profile) (hw : 0 < job.walltime) (hstart : s.firstSliceBegin ≤ job.start)
    (hend : job.start + job.walltime ≤ s.infiniteHorizon) :
    ∃ l mid last rest, CutFor s job l mid last rest := by
  obtain ⟨i, hi, hlt, l, t, r, hp1, hindex, htbegin, hfirst, hinverted⟩ := startCut ht hw hstart hend
  have ht1 := ht.splitSliceAt i job.start
  -- the slice that the reservation ends in
  have hlate : ∃ u ∈ (l ++ t :: r).drop l.length, decide (job.start + job.walltime ≤ u.endDate) = true := by
    have hlast := getLast_splitSliceAt s.profile i job.start
    obtain ⟨u, hu⟩ : ∃ u, (t :: r).getLast? = some u := ⟨_, List.getLast?_cons⟩
    rw [hp1, List.getLast?_append, hu, Option.some_or, Option.map_some] at hlast
    rw [Schedule.infiniteHorizon, ← hlast] at hend
    refine ⟨u, ?_, decide_eq_true hend⟩
    rw [List.drop_left]
    exact List.mem_of_getLast? hu
  obtain ⟨l', last, rest, hsplit, hlength, hcond, hbefore⟩ := findIdx_drop hlate
  have hcond := of_decide_eq_true hcond
  obtain ⟨mid, rfl⟩ : ∃ mid, l' = l ++ mid := by
    rcases List.append_eq_append_iff.1 hsplit with ⟨mid, hmid, _⟩ | ⟨mid, hmid, _⟩
    · exact ⟨mid, hmid⟩
    · have hnil : mid = [] := by
        rw [hmid, List.length_append] at hlength
        exact List.length_eq_zero_iff.1 (by omega)
      exact ⟨[], by rw [hmid, hnil]; simp⟩
  rw [List.drop_left] at hbefore
  rw [List.append_assoc, List.append_cancel_left_eq] at hsplit
  rw [hp1, hsplit] at ht1
  have htail : t :: r = mid ++ last :: rest := hsplit
  obtain ⟨e, hchain⟩ := ht1.chained
  have hbegin : last.beginDate < job.start + job.walltime := by
    rcases List.eq_nil_or_concat mid with rfl | ⟨mid', v, rfl⟩
    · rw [← (List.cons.inj htail).1, htbegin]
      linarith
    · rw [List.concat_eq_append] at hchain hbefore
      have hmeet : last.beginDate = v.endDate := by
        rw [List.append_assoc, List.singleton_append, ← List.append_assoc] at hchain
        exact (chained_append_cons.1 hchain).1.1
      have hv := hbefore v (by simp)
      rw [hmeet]
      exact not_le.1 (of_decide_eq_false hv)
  obtain ⟨hfst, hfstEnd⟩ := splitSlice_fst_dates hbegin hcond
  -- the cut at the end of the reservation
  have hcut : (Schedule.splitSliceAt (l ++ (mid ++ last :: rest)) (l.length + mid.length) (job.start + job.walltime)).1 =
      l ++ (mid ++ (last.splitSlice (job.start + job.walltime)).1 ::
        ((last.splitSlice (job.start + job.walltime)).2.toList ++ rest)) ∧
      (Schedule.splitSliceAt (l ++ (mid ++ last :: rest)) (l.length + mid.length) (job.start + job.walltime)).2.1 =
        l.length + mid.length := by
    rcases splitSliceAt_parts (l ++ (mid ++ last :: rest)) (l.length + mid.length) (job.start + job.walltime) with
      ⟨hnone, _⟩ | ⟨l2, t2, r2, hsplit2, hlength2, h1, h2⟩
    · rw [List.getElem?_eq_none_iff] at hnone
      simp only [List.length_append, List.length_cons] at hnone
      omega
    · rw [← List.append_assoc] at hsplit2
      obtain ⟨rfl, htail2⟩ := List.append_inj hsplit2 (by rw [List.length_append, hlength2])
      obtain ⟨rfl, rfl⟩ := List.cons.inj htail2
      rw [h1, h2]
      exact ⟨by simp, rfl⟩
  refine ⟨l, mid, (last.splitSlice (job.start + job.walltime)).1, (last.splitSlice (job.start + job.walltime)).2.toList ++ rest,
    ?_, ?_, ?_, hfstEnd, ?_⟩
  · simp only [Schedule.cutForReservation]
    rw [← hi, if_pos hlt, hp1, hindex]
    rw [List.length_append] at hlength
    rw [← hlength, if_pos (by rw [hsplit]; simp), hsplit, hcut.1, hcut.2]
  · rw [← hcut.1]
    exact ht1.splitSliceAt _ _
  · cases mid with
    | nil =>
      rw [List.nil_append, List.head?_cons, Option.map_some, hfst, ← (List.cons.inj htail).1, htbegin]
    | cons m mid =>
      rw [List.cons_append, List.head?_cons, Option.map_some, ← (List.cons.inj htail).1, htbegin]
  · cases mid with
    | nil =>
      have hpos : ¬(last.splitSlice (job.start + job.walltime)).1.endDate ≤ (last.splitSlice (job.start + job.walltime)).1.beginDate := by
        rw [hfst, hfstEnd]
        exact not_le.2 hbegin
      refine iff_of_false (fun hfirst' => ?_) (by simpa using hpos)
      -- an inverted slice does not reach the end of the reservation
      obtain ⟨hprofile, -⟩ := hfirst (hinverted hfirst')
      obtain ⟨f, hf, hlt', hat⟩ := hfirst'
      rw [hprofile] at hf
      obtain rfl := Option.some.inj hf
      rw [← (List.cons.inj htail).1] at hcond
      linarith
    | cons m mid =>
      obtain ⟨rfl, _⟩ := List.cons.inj htail
      rw [List.cons_append, List.head?_cons]
      constructor
      · intro hfirst'
        obtain ⟨hprofile, -⟩ := hfirst (hinverted hfirst')
        obtain ⟨f, hf, hlt', -⟩ := hfirst'
        rw [hprofile] at hf
        obtain rfl := Option.some.inj hf
        exact ⟨t, rfl, hlt'.le⟩
      · rintro ⟨f, hf, hle⟩
        obtain rfl := Option.some.inj hf
        by_cases hl : l = []
        · obtain ⟨hp, hsus⟩ := hfirst hl
          have hne : t.beginDate ≠ t.endDate := by
            intro heq
            rw [Schedule.firstSliceIsSuspect, hp] at hsus
            simp [heq] at hsus
          exact ⟨t, by rw [hp]; rfl, lt_of_le_of_ne hle hne.symm, htbegin⟩
        · have hlt' := ((chained_append_cons.1 (show Chained TimeSlice.beginDate TimeSlice.endDate e (l ++ t :: (mid ++ last :: rest))
            from hchain)).2 hl).1
          exact absurd hle (not_le.2 hlt')

/-- Splitting a slice keeps the date of the schedule. -/
theorem head_splitSliceAt (p : List TimeSlice) (i : ℕ) (date : ℚ) :
    (Schedule.splitSliceAt p i date).1.head?.map (·.beginDate) = p.head?.map (·.beginDate) := by
  rcases splitSliceAt_parts p i date with ⟨_, heq⟩ | ⟨l, t, r, rfl, _, heq, _⟩
  · rw [heq]
  · obtain ⟨e, len, hfst⟩ := splitSlice_fst t date
    rw [heq]
    cases l with
    | nil =>
      rw [List.nil_append, List.head?_cons, hfst]
      rfl
    | cons u l => rfl

/-! ## The jobs in the way -/

/-- The loop over the jobs of a slice adds those that use some of the machines, each once. -/
theorem mem_foldl_entries (machines : IntervalSet) (entries : List (Job × IntervalSet)) (affected : List Job) :
    let result := entries.foldl (fun affected entry =>
      if entry.2 ∩ machines = ∅ ∨ entry.1 ∈ affected then affected else affected ++ [entry.1]) affected
    (∀ other, other ∈ result ↔ other ∈ affected ∨ ∃ held, (other, held) ∈ entries ∧ held ∩ machines ≠ ∅) ∧
      (affected.Nodup → result.Nodup) := by
  induction entries generalizing affected with
  | nil => simp
  | cons entry entries ih =>
    obtain ⟨j, held⟩ := entry
    simp only [List.foldl_cons]
    by_cases hskip : held ∩ machines = ∅ ∨ j ∈ affected
    · rw [if_pos hskip]
      obtain ⟨h1, h2⟩ := ih affected
      refine ⟨fun other => (h1 other).trans ?_, h2⟩
      constructor
      · rintro (h | ⟨held', hmem, hne⟩)
        · exact Or.inl h
        · exact Or.inr ⟨held', List.mem_cons_of_mem _ hmem, hne⟩
      · rintro (h | ⟨held', hmem, hne⟩)
        · exact Or.inl h
        · rcases List.mem_cons.1 hmem with heq | hmem
          · obtain ⟨rfl, rfl⟩ := Prod.mk.inj heq
            exact Or.inl (hskip.resolve_left hne)
          · exact Or.inr ⟨held', hmem, hne⟩
    · rw [if_neg hskip]
      obtain ⟨hused, hnew⟩ := not_or.1 hskip
      obtain ⟨h1, h2⟩ := ih (affected ++ [j])
      refine ⟨fun other => (h1 other).trans ?_, fun hnodup => h2 ?_⟩
      · rw [List.mem_append, List.mem_singleton]
        constructor
        · rintro ((h | rfl) | ⟨held', hmem, hne⟩)
          · exact Or.inl h
          · exact Or.inr ⟨held, List.mem_cons_self, hused⟩
          · exact Or.inr ⟨held', List.mem_cons_of_mem _ hmem, hne⟩
        · rintro (h | ⟨held', hmem, hne⟩)
          · exact Or.inl (Or.inl h)
          · rcases List.mem_cons.1 hmem with heq | hmem
            · exact Or.inl (Or.inr (Prod.mk.inj heq).1)
            · exact Or.inr ⟨held', hmem, hne⟩
      · exact List.nodup_append.2 ⟨hnodup, List.nodup_singleton j, by
          rintro x hx y hy rfl
          exact hnew (List.mem_singleton.1 hy ▸ hx)⟩

/-- The jobs affected are those that hold some of the machines in the slices, each once. -/
theorem jobsAffectedBetween_spec (s : Schedule) (machines : IntervalSet) (sliceBegin sliceEnd : ℕ) :
    (∀ other, other ∈ s.jobsAffectedBetween machines sliceBegin sliceEnd ↔
      HoldsSomeOf ((s.profile.drop sliceBegin).take (sliceEnd + 1 - sliceBegin)) machines other) ∧
    (s.jobsAffectedBetween machines sliceBegin sliceEnd).Nodup := by
  rw [Schedule.jobsAffectedBetween]
  generalize (s.profile.drop sliceBegin).take (sliceEnd + 1 - sliceBegin) = slices
  have loop : ∀ (slices : List TimeSlice) (affected : List Job),
      let result := slices.foldl (fun affected slice => slice.allocatedJobs.entries.foldl (fun affected entry =>
        if entry.2 ∩ machines = ∅ ∨ entry.1 ∈ affected then affected else affected ++ [entry.1]) affected) affected
      (∀ other, other ∈ result ↔ other ∈ affected ∨ HoldsSomeOf slices machines other) ∧ (affected.Nodup → result.Nodup) := by
    intro slices
    induction slices with
    | nil => simp [HoldsSomeOf]
    | cons t slices ih =>
      intro affected
      obtain ⟨h1, h2⟩ := mem_foldl_entries machines t.allocatedJobs.entries affected
      obtain ⟨h3, h4⟩ := ih _
      refine ⟨fun other => (h3 other).trans ?_, fun hnodup => h4 (h2 hnodup)⟩
      rw [h1, or_assoc]
      refine or_congr_right ?_
      simp [HoldsSomeOf]
  exact ⟨fun other => ((loop slices []).1 other).trans (by simp), (loop slices []).2 List.nodup_nil⟩

/-- Where the jobs in the way are sorted, those to kill run and are no reservations, those to reschedule do not run, and the
reservations that run are passed over. -/
theorem sortAffectedJobs_some {suspect : Bool} {first : TimeSlice} {affected killed moved : List Job}
    (h : Schedule.sortAffectedJobs suspect first affected = some (killed, moved)) :
    killed = affected.filter (fun other => first.containsJob other && !other.isReservation) ∧
      moved = affected.filter (fun other => !first.containsJob other) ∧
      ∀ other ∈ affected, other.isReservation = true → first.containsJob other = true →
        suspect = true ∧ other.walltime = first.endDate := by
  induction affected generalizing killed moved with
  | nil =>
    cases h
    exact ⟨rfl, rfl, nofun⟩
  | cons j affected ih =>
    rw [Schedule.sortAffectedJobs] at h
    split at h
    · rename_i hin
      split at h
      · rename_i hres
        split at h
        · nomatch h
        · rename_i hpass
          obtain ⟨h1, h2, h3⟩ := ih h
          refine ⟨by simp [h1, hres], by simp [h2, hin], fun other hother => ?_⟩
          rcases List.mem_cons.1 hother with rfl | hother
          · intro _ _
            simpa using hpass
          · exact h3 other hother
      · rename_i hres
        obtain ⟨⟨killed', moved'⟩, hrest, heq⟩ := Option.map_eq_some_iff.1 h
        obtain ⟨rfl, rfl⟩ := Prod.mk.inj heq
        obtain ⟨h1, h2, h3⟩ := ih hrest
        refine ⟨by simp [h1, hin, hres], by simp [h2, hin], fun other hother => ?_⟩
        rcases List.mem_cons.1 hother with rfl | hother
        · exact fun hbad => absurd hbad hres
        · exact h3 other hother
    · rename_i hout
      obtain ⟨⟨killed', moved'⟩, hrest, heq⟩ := Option.map_eq_some_iff.1 h
      obtain ⟨rfl, rfl⟩ := Prod.mk.inj heq
      obtain ⟨h1, h2, h3⟩ := ih hrest
      refine ⟨by simp [h1, hout], by simp [h2, hout], fun other hother => ?_⟩
      rcases List.mem_cons.1 hother with rfl | hother
      · exact fun _ hbad => absurd hbad hout
      · exact h3 other hother

/-- The search fails where a reservation that runs is in the way and is not passed over. -/
theorem sortAffectedJobs_none {suspect : Bool} {first : TimeSlice} {affected : List Job}
    (h : Schedule.sortAffectedJobs suspect first affected = none) :
    ∃ other ∈ affected, other.isReservation = true ∧ first.containsJob other = true ∧
      ¬ (suspect = true ∧ other.walltime = first.endDate) := by
  induction affected with
  | nil => nomatch h
  | cons j affected ih =>
    have later : Schedule.sortAffectedJobs suspect first affected = none → ∃ other ∈ j :: affected, other.isReservation = true ∧
        first.containsJob other = true ∧ ¬ (suspect = true ∧ other.walltime = first.endDate) := by
      intro hrest
      obtain ⟨other, hmem, hother⟩ := ih hrest
      exact ⟨other, List.mem_cons_of_mem _ hmem, hother⟩
    rw [Schedule.sortAffectedJobs] at h
    split at h
    · rename_i hin
      split at h
      · rename_i hres
        split at h
        · rename_i hpass
          refine ⟨j, List.mem_cons_self, hres, hin, fun hno => ?_⟩
          simp [hno.1, hno.2] at hpass
        · exact later h
      · exact later (Option.map_eq_none_iff.1 h)
    · exact later (Option.map_eq_none_iff.1 h)

/-- The search for machines finds the slices of the reservation, and its assertions on dates hold. -/
theorem machinesForReservation_total {sorter : Sorter LargestFirst} {l mid rest : List TimeSlice} {last : TimeSlice}
    (hp : s.profile = l ++ (mid ++ last :: rest)) (hbegin : (mid ++ [last]).head?.map (·.beginDate) = some job.start)
    (hfirst : ∀ first ∈ s.profile.head?, first.beginDate ≤ job.start) (hend : last.endDate ≤ s.infiniteHorizon) :
    ∃ used, s.machinesForReservation sorter job l.length (l.length + mid.length) = .ok used := by
  rw [Schedule.machinesForReservation]
  split
  · obtain ⟨t, tail, htail⟩ : ∃ t tail, mid ++ last :: rest = t :: tail := by
      cases mid with
      | nil => exact ⟨_, _, rfl⟩
      | cons m mid => exact ⟨_, _, rfl⟩
    have ht : t.beginDate = job.start := by
      cases mid with
      | nil =>
        rw [← (List.cons.inj htail).1]
        exact Option.some.inj hbegin
      | cons m mid =>
        rw [← (List.cons.inj htail).1]
        exact Option.some.inj hbegin
    obtain ⟨first, ptail, hhead⟩ : ∃ first ptail, s.profile = first :: ptail := by
      cases h : s.profile with
      | nil => rw [h, htail] at hp; simp at hp
      | cons first ptail => exact ⟨first, ptail, rfl⟩
    have hb : s.profile[l.length]? = some t := by
      rw [hp, htail, List.getElem?_append_right le_rfl, Nat.sub_self, List.getElem?_cons_zero]
    have he : s.profile[l.length + mid.length]? = some last := by
      rw [hp, List.getElem?_append_right (Nat.le_add_right _ _), Nat.add_sub_cancel_left, List.getElem?_append_right le_rfl,
        Nat.sub_self, List.getElem?_cons_zero]
    have hmem : t ∈ s.profile := by rw [hp, htail]; simp
    have hdrop : s.profile.dropWhile (fun slice => slice.beginDate < t.beginDate) ≠ [] := by
      rw [Ne, List.dropWhile_eq_nil_iff]
      intro hall
      have := hall t hmem
      simp at this
    obtain ⟨amdp, hamdp⟩ : ∃ amdp, s.availableMachinesDuringPeriod t.beginDate last.endDate = .ok amdp := by
      rw [Schedule.availableMachinesDuringPeriod]
      split
      · rename_i hnil
        rw [hhead] at hnil
        nomatch hnil
      · rename_i first' _ hfirst'
        have hle := hfirst first' (by rw [hfirst']; rfl)
        rw [if_pos ⟨by rw [ht]; exact hle, hend⟩]
        split
        · rename_i hnil
          exact absurd hnil hdrop
        · exact ⟨_, rfl⟩
    rw [Schedule.findLeastImpactfulFit, hb, he, hhead, List.head?_cons]
    dsimp only
    rw [hamdp]
    dsimp only
    split
    · exact ⟨_, rfl⟩
    · split
      · exact ⟨_, rfl⟩
      · split
        · exact ⟨_, rfl⟩
        · exact ⟨_, rfl⟩
  · exact ⟨_, rfl⟩

/-! ## The profile cut for the reservation -/

namespace CutFor

variable {l mid rest : List TimeSlice} {last first : TimeSlice} {sorter : Sorter LargestFirst} {used : IntervalSet}
  {killed moved : List Job}

/-- The cuts change nothing that the schedule says at any date. -/
theorem atDate (hc : CutFor s job l mid last rest) (x : ℚ) : contentAt (l ++ (mid ++ last :: rest)) x = contentAt s.profile x :=
  cutForReservation_rule (P := fun p => contentAt p x = contentAt s.profile x)
    (fun p i date h => (sliceAt_splitSliceAt content_retime p i date x).trans h) rfl hc.cut

/-- The cuts keep the date of the schedule. -/
theorem firstBegin (hc : CutFor s job l mid last rest) (ht : Timed s.profile) :
    (l ++ (mid ++ last :: rest)).head?.map (·.beginDate) = some s.firstSliceBegin := by
  refine cutForReservation_rule (P := fun p => p.head?.map (·.beginDate) = some s.firstSliceBegin) (fun p i date h => ?_) ?_ hc.cut
  · rw [head_splitSliceAt]
    exact h
  · obtain ⟨f, tail, hp, hf, _⟩ := exists_chain ht
    rw [hp, ← hf]
    rfl

/-- The cuts keep the horizon. -/
theorem horizon (hc : CutFor s job l mid last rest) :
    ({ s with profile := l ++ (mid ++ last :: rest) } : Schedule).infiniteHorizon = s.infiniteHorizon := by
  have hlast : (l ++ (mid ++ last :: rest)).getLast?.map (·.endDate) = s.profile.getLast?.map (·.endDate) :=
    cutForReservation_rule (P := fun p => p.getLast?.map (·.endDate) = s.profile.getLast?.map (·.endDate))
      (fun p i date h => (getLast_splitSliceAt p i date).trans h) rfl hc.cut
  rw [Schedule.infiniteHorizon, hlast, Schedule.infiniteHorizon]

/-- The search for machines goes through on the profile cut. -/
theorem machines (hc : CutFor s job l mid last rest) (ht : Timed s.profile) (hstart : s.firstSliceBegin ≤ job.start)
    (hend : job.start + job.walltime ≤ s.infiniteHorizon) (sorter : Sorter LargestFirst) :
    ∃ used, ({ s with profile := l ++ (mid ++ last :: rest) } : Schedule).machinesForReservation sorter job l.length
      (l.length + mid.length) = .ok used := by
  refine machinesForReservation_total rfl hc.begins (fun first hfirst => ?_) ?_
  · have hdate := hc.firstBegin ht
    rw [hfirst, Option.map_some] at hdate
    rw [Option.some.inj hdate]
    exact hstart
  · rw [hc.horizon, hc.ends]
    exact hend

/-- The slices of the reservation are those between the others. -/
theorem slices (_ : CutFor s job l mid last rest) :
    ((l ++ (mid ++ last :: rest)).drop l.length).take (l.length + mid.length + 1 - l.length) = mid ++ [last] := by
  rw [List.drop_left, show l.length + mid.length + 1 - l.length = (mid ++ [last]).length by simp; omega,
    show mid ++ last :: rest = (mid ++ [last]) ++ rest by simp, List.take_left]

/-- The slices of the reservation follow each other up to its end. -/
theorem chained (hc : CutFor s job l mid last rest) :
    Chained TimeSlice.beginDate TimeSlice.endDate (job.start + job.walltime) (mid ++ [last]) := by
  obtain ⟨e, hchain⟩ := hc.timed.chained
  obtain ⟨t, more, hblock⟩ : ∃ t more, mid ++ [last] = t :: more := by
    cases mid with
    | nil => exact ⟨_, _, rfl⟩
    | cons m mid => exact ⟨_, _, rfl⟩
  rw [show mid ++ last :: rest = (mid ++ [last]) ++ rest by simp, hblock] at hchain
  obtain ⟨c, hm, _⟩ := hchain.block
  rw [← hblock] at hm
  rw [← hc.ends, ← hm.eq_stop]
  exact hm

/-- The jobs in the way, in the profile cut. -/
abbrev affected (s : Schedule) (l mid : List TimeSlice) (last : TimeSlice) (rest : List TimeSlice) (used : IntervalSet) :
    List Job :=
  ({ s with profile := l ++ (mid ++ last :: rest) } : Schedule).jobsAffectedBetween used l.length (l.length + mid.length)

/-- A job is in the way where it holds some of the machines in the slices of the reservation. -/
theorem mem_affected (hc : CutFor s job l mid last rest) (other : Job) :
    other ∈ affected s l mid last rest used ↔ HoldsSomeOf (mid ++ [last]) used other := by
  have h := (jobsAffectedBetween_spec { s with profile := l ++ (mid ++ last :: rest) } used l.length
    (l.length + mid.length)).1 other
  rwa [hc.slices] at h

/-- No job is twice in the way. -/
theorem nodup_affected : (affected s l mid last rest used).Nodup :=
  (jobsAffectedBetween_spec _ _ _ _).2

/-- The slices of the reservation tile its time if the first of them takes some. -/
theorem tiling_iff (hc : CutFor s job l mid last rest) :
    Tiling TimeSlice.beginDate TimeSlice.endDate job.start (job.start + job.walltime) (mid ++ [last]) ↔
      ¬∃ first ∈ (mid ++ [last]).head?, first.endDate ≤ first.beginDate := by
  have hbegin := hc.begins
  have hchain := hc.chained
  cases hblock : mid ++ [last] with
  | nil => simp at hblock
  | cons t more =>
    rw [hblock] at hbegin hchain
    have hpos : (¬∃ first ∈ (t :: more).head?, first.endDate ≤ first.beginDate) ↔ t.beginDate < t.endDate := by simp
    rw [hpos]
    exact ⟨fun htiling => htiling.2.1, fun h => ⟨Option.some.inj hbegin, h, hchain⟩⟩

/-- What is in the way is what the cut leaves there. -/
theorem inTheWay_iff (hc : CutFor s job l mid last rest) (hfirst : (l ++ (mid ++ last :: rest)).head? = some first)
    (hused : ({ s with profile := l ++ (mid ++ last :: rest) } : Schedule).machinesForReservation sorter job l.length
      (l.length + mid.length) = .ok used) {f : TimeSlice} {machines : IntervalSet} {jobs : List Job} :
    s.inTheWay sorter job f machines jobs ↔ f = first ∧ machines = used ∧ jobs = affected s l mid last rest used := by
  constructor
  · rintro ⟨p, b, e, hcut', hfirst', hused', rfl⟩
    rw [hc.cut] at hcut'
    cases hcut'
    rw [hfirst] at hfirst'
    cases hfirst'
    rw [hused] at hused'
    cases hused'
    exact ⟨rfl, rfl, rfl⟩
  · rintro ⟨rfl, rfl, rfl⟩
    exact ⟨_, _, _, hc.cut, hfirst, hused, rfl⟩

/-- The search passes over a reservation where the first slice is suspect, and each reservation that runs and is in the way has the
date at which it ends for its walltime. -/
theorem passesOver_iff (hc : CutFor s job l mid last rest) (hfirst : (l ++ (mid ++ last :: rest)).head? = some first)
    (hused : ({ s with profile := l ++ (mid ++ last :: rest) } : Schedule).machinesForReservation sorter job l.length
      (l.length + mid.length) = .ok used) :
    s.PassesOver sorter job ↔ s.firstSliceIsSuspect = true ∧
      (∃ other ∈ affected s l mid last rest used, other.isReservation = true ∧ first.containsJob other = true) ∧
      ∀ other ∈ affected s l mid last rest used, other.isReservation = true → first.containsJob other = true →
        other.walltime = first.endDate := by
  constructor
  · rintro ⟨hsuspect, first', used', affected', hway, h⟩
    obtain ⟨rfl, rfl, rfl⟩ := (hc.inTheWay_iff hfirst hused).1 hway
    exact ⟨hsuspect, h⟩
  · rintro ⟨hsuspect, h⟩
    exact ⟨hsuspect, first, used, _, (hc.inTheWay_iff hfirst hused).2 ⟨rfl, rfl, rfl⟩, h⟩

/-- The reservation begins with an inverted slice where the first of its slices takes no time, and it gets a place. -/
theorem startsInverted_iff (hc : CutFor s job l mid last rest) (hfirst : (l ++ (mid ++ last :: rest)).head? = some first)
    (hused : ({ s with profile := l ++ (mid ++ last :: rest) } : Schedule).machinesForReservation sorter job l.length
      (l.length + mid.length) = .ok used) :
    s.StartsInverted sorter job ↔ (∃ first ∈ (mid ++ [last]).head?, first.endDate ≤ first.beginDate) ∧ used ≠ ∅ ∧
      ∀ other ∈ affected s l mid last rest used, other.isReservation = true → first.containsJob other = false := by
  rw [← hc.inverted]
  constructor
  · rintro ⟨hinverted, first', used', affected', hway, h⟩
    obtain ⟨rfl, rfl, rfl⟩ := (hc.inTheWay_iff hfirst hused).1 hway
    exact ⟨hinverted, h⟩
  · rintro ⟨hinverted, h⟩
    exact ⟨hinverted, first, used, _, (hc.inTheWay_iff hfirst hused).2 ⟨rfl, rfl, rfl⟩, h⟩

/-- What the search returns where the jobs in the way are sorted. -/
abbrev found (job : Job) (l mid : List TimeSlice) (used : IntervalSet) (affected killed moved : List Job) : ReservedTimeSlice where
  success := used ≠ ∅
  jobsAffected := affected
  jobsNeededToBeKilled := killed
  jobsToReschedule := moved
  sliceBegin := l.length
  sliceEnd := l.length + mid.length
  alloc := {
    beginDate := job.start
    endDate := job.start + job.walltime
    startedInFirstSlice := l.length = 0
    job := some job
    usedMachines := used }
  job := some job

/-- The search goes through, and returns what it found where the jobs in the way are sorted. -/
theorem reserveTimeSlice_eq (hc : CutFor s job l mid last rest) (hfirst : (l ++ (mid ++ last :: rest)).head? = some first)
    (hused : ({ s with profile := l ++ (mid ++ last :: rest) } : Schedule).machinesForReservation sorter job l.length
      (l.length + mid.length) = .ok used) :
    s.reserveTimeSlice sorter job = .ok ({ s with profile := l ++ (mid ++ last :: rest) },
      (Schedule.sortAffectedJobs s.firstSliceIsSuspect first (affected s l mid last rest used)).elim {}
        fun lists => found job l mid used (affected s l mid last rest used) lists.1 lists.2) := by
  rw [Schedule.reserveTimeSlice, hc.cut]
  dsimp only
  rw [hfirst, hused]
  dsimp only
  cases Schedule.sortAffectedJobs s.firstSliceIsSuspect first (affected s l mid last rest used) <;> rfl

/-- A search that fails changes nothing that the schedule says, which is all that is asked of it. -/
theorem onlySplits_of_none (hc : CutFor s job l mid last rest) :
    OnlySplits s { s with profile := l ++ (mid ++ last :: rest) } job {} := by
  have hnot : ({} : ReservedTimeSlice).success ≠ true := by decide
  exact ⟨rfl, hc.atDate, fun h => absurd h hnot, fun h => absurd h hnot⟩

/-- A search that sorts the jobs in the way does what it should where no reservation among them runs and its slices tile its time. -/
theorem onlySplits_of_some (hc : CutFor s job l mid last rest) (hfirst : (l ++ (mid ++ last :: rest)).head? = some first)
    (hsort : Schedule.sortAffectedJobs s.firstSliceIsSuspect first (affected s l mid last rest used) = some (killed, moved))
    (hnone : ∀ other ∈ affected s l mid last rest used, other.isReservation = true → first.containsJob other ≠ true)
    (htiling : used ≠ ∅ → Tiling TimeSlice.beginDate TimeSlice.endDate job.start (job.start + job.walltime) (mid ++ [last])) :
    OnlySplits s { s with profile := l ++ (mid ++ last :: rest) } job
      (found job l mid used (affected s l mid last rest used) killed moved) := by
  obtain ⟨hkilled, hmoved, _⟩ := sortAffectedJobs_some hsort
  refine ⟨rfl, hc.atDate, fun hsuccess => ?_, fun _ other hholds f hf => ?_⟩
  · rw [ReservedTimeSlice.slicesIn, hc.slices]
    exact htiling (of_decide_eq_true hsuccess)
  · rw [ReservedTimeSlice.slicesIn, hc.slices] at hholds
    rw [hfirst] at hf
    cases hf
    have hmem := (hc.mem_affected other).2 hholds
    change killed.count other = _ ∧ moved.count other = _
    rw [hkilled, hmoved]
    by_cases hin : first.containsJob other = true
    · have hres : other.isReservation = false := by
        rw [← Bool.not_eq_true]
        exact fun hres => hnone other hmem hres hin
      rw [if_pos hin, if_pos hin]
      refine ⟨List.count_eq_one_of_mem (nodup_affected.filter _) ?_, List.count_eq_zero.2 (by simp [hin])⟩
      simp [hmem, hin, hres]
    · rw [if_neg hin, if_neg hin]
      refine ⟨List.count_eq_zero.2 (by simp [hin]), List.count_eq_one_of_mem (nodup_affected.filter _) ?_⟩
      simp [hmem, hin]

/-- The slices that are found tile the time of the reservation, if the search does what it should. -/
theorem tiling_of_onlySplits (hc : CutFor s job l mid last rest) (hne : used ≠ ∅) {jobs : List Job}
    (honly : OnlySplits s { s with profile := l ++ (mid ++ last :: rest) } job (found job l mid used jobs killed moved)) :
    Tiling TimeSlice.beginDate TimeSlice.endDate job.start (job.start + job.walltime) (mid ++ [last]) := by
  have htiling := honly.tiles (decide_eq_true hne)
  rwa [ReservedTimeSlice.slicesIn, hc.slices] at htiling

/-- A reservation that runs and is in the way is in neither list, so a search that finds a place does not do what it should. -/
theorem not_onlySplits_of_some (hc : CutFor s job l mid last rest) (hfirst : (l ++ (mid ++ last :: rest)).head? = some first)
    (hsort : Schedule.sortAffectedJobs s.firstSliceIsSuspect first (affected s l mid last rest used) = some (killed, moved))
    {other : Job} (hmem : other ∈ affected s l mid last rest used) (hres : other.isReservation = true)
    (hin : first.containsJob other = true) :
    ¬ OnlySplits s { s with profile := l ++ (mid ++ last :: rest) } job
      (found job l mid used (affected s l mid last rest used) killed moved) := by
  intro honly
  have hholds := (hc.mem_affected other).1 hmem
  have hsuccess : used ≠ ∅ := by
    obtain ⟨t, _, held, _, hne⟩ := hholds
    rintro rfl
    exact hne (Finset.inter_empty held)
  have hcount := (honly.listed (decide_eq_true hsuccess) other (by
    rw [ReservedTimeSlice.slicesIn, hc.slices]
    exact hholds) first hfirst).1
  rw [if_pos hin] at hcount
  change killed.count other = 1 at hcount
  rw [(sortAffectedJobs_some hsort).1, List.count_eq_zero.2 (by simp [hres])] at hcount
  exact absurd hcount (by decide)

end CutFor

end ReserveAux

open ReserveAux in
/-- For every schedule whose slices follow each other, and every reservation with a positive walltime that starts now or later and
ends at the horizon at the latest, the search for its time slices goes through, and does what it should exactly where it passes
over no reservation that runs and does not begin with an inverted slice. -/
theorem reserve_time_slice_iff (sorter : Sorter LargestFirst) (s : Schedule) (job : Job) (ht : Timed s.profile)
    (hw : 0 < job.walltime) (hstart : s.firstSliceBegin ≤ job.start) (hend : job.start + job.walltime ≤ s.infiniteHorizon) :
    ∃ s' r, s.reserveTimeSlice sorter job = .ok (s', r) ∧
      (OnlySplits s s' job r ↔ ¬s.PassesOver sorter job ∧ ¬s.StartsInverted sorter job) := by
  obtain ⟨l, mid, last, rest, hc⟩ := cutForReservation_parts ht hw hstart hend
  obtain ⟨first, hfirst⟩ : ∃ first, (l ++ (mid ++ last :: rest)).head? = some first := by
    cases h : l ++ (mid ++ last :: rest) with
    | nil => simp at h
    | cons first tail => exact ⟨first, rfl⟩
  obtain ⟨used, hused⟩ := hc.machines ht hstart hend sorter
  have hrun := hc.reserveTimeSlice_eq hfirst hused
  have hpasses := hc.passesOver_iff hfirst hused
  have hinverted := hc.startsInverted_iff hfirst hused
  refine ⟨_, _, hrun, ?_⟩
  cases hsort : Schedule.sortAffectedJobs s.firstSliceIsSuspect first (CutFor.affected s l mid last rest used) with
  | none =>
    obtain ⟨other, hmem, hres, hin, hnot⟩ := sortAffectedJobs_none hsort
    refine iff_of_true hc.onlySplits_of_none ⟨fun hover => ?_, fun hstarts => ?_⟩
    · obtain ⟨hsuspect, _, hall⟩ := hpasses.1 hover
      exact hnot ⟨hsuspect, hall other hmem hres hin⟩
    · exact absurd hin (by simp [(hinverted.1 hstarts).2.2 other hmem hres])
  | some lists =>
    obtain ⟨killed, moved⟩ := lists
    have hpassed := (sortAffectedJobs_some hsort).2.2
    constructor
    · refine fun honly => ⟨fun hover => ?_, fun hstarts => ?_⟩
      · obtain ⟨_, ⟨other, hmem, hres, hin⟩, _⟩ := hpasses.1 hover
        exact hc.not_onlySplits_of_some hfirst hsort hmem hres hin honly
      · obtain ⟨hempty, hne, -⟩ := hinverted.1 hstarts
        exact hc.tiling_iff.1 (hc.tiling_of_onlySplits hne honly) hempty
    · rintro ⟨hover, hstarts⟩
      have hnone : ∀ other ∈ CutFor.affected s l mid last rest used, other.isReservation = true → first.containsJob other ≠ true := by
        intro other hmem hres hin
        refine hover (hpasses.2 ⟨(hpassed other hmem hres hin).1, ⟨other, hmem, hres, hin⟩, ?_⟩)
        exact fun j hj hjr hji => (hpassed j hj hjr hji).2
      refine hc.onlySplits_of_some hfirst hsort hnone fun hne => hc.tiling_iff.2 fun hempty => ?_
      exact hstarts (hinverted.2 ⟨hempty, hne, fun other hmem hres => Bool.not_eq_true _ ▸ hnone other hmem hres⟩)

namespace ReserveWitness

/-- A job of five seconds on one machine. -/
def job : Job := { id := "w!1", nbRequestedResources := 1, walltime := 5 }

/-- A reservation of machine 1 from date 5 on, for ten seconds. -/
def running : Job :=
  { id := "w!2", nbRequestedResources := 1, walltime := 10, purpose := "reservation", futureAllocations := {1}, start := 5 }

/-- A reservation of machine 1 from date 10 on, for a second. -/
def reservation : Job :=
  { id := "w!3", nbRequestedResources := 1, walltime := 1, purpose := "reservation", futureAllocations := {1}, start := 10 }

/-- A sort of the running jobs. -/
def sorter : Sorter LargestFirst := Sorter.stable LargestFirst

/-- The job and the first reservation run from date 5 on, and the job ends at date 10. -/
def calls : List MixedCall :=
  [.plain .basic (.updateFirstSlice 5), .plain .basic (.addJobFirstFit job true), .reserving (.addReservation running),
    .plain .basic (.updateFirstSlice 10)]

/-- Whether the reservation that runs is in the way of the other, which has a place and kills no job. -/
def missed (s : Schedule) : Bool :=
  match s.reserveTimeSlice sorter reservation with
  | .ok (s', r) => r.success && r.jobsNeededToBeKilled = [] && s'.profile.head?.any (·.containsJob running) &&
      (r.slicesIn s'.profile).any (fun t =>
        t.allocatedJobs.entries.any (fun e => e.1 = running ∧ e.2 ∩ r.alloc.usedMachines ≠ ∅))
  | .error _ => false

/-- A job of ten seconds runs, and the date is behind its end. -/
def lateCalls : List MixedCall :=
  [.plain .basic (.addJobFirstFit { job with walltime := 10 } true), .plain .basic (.updateFirstSlice (1000001 / 100000))]

/-- A reservation of machine 1 from that date on. -/
def late : Job := { running with start := 1000001 / 100000 }

/-- Whether the reservation has a place whose first slice is inverted. -/
def inverted (s : Schedule) : Bool :=
  match s.reserveTimeSlice sorter late with
  | .ok (s', r) => r.success && (r.slicesIn s'.profile).head?.any fun t => t.endDate < t.beginDate
  | .error _ => false

end ReserveWitness

open ReserveWitness Execution in
/-- On an empty schedule the search for the time slices of a reservation does what it should where it passes over no reservation. Where
a job is late the reservation begins with an inverted slice. -/
theorem reserve_time_slice_iff_witness :
    (∃ s' r, (Schedule.new 2 0).reserveTimeSlice sorter reservation = .ok (s', r) ∧
      (OnlySplits (Schedule.new 2 0) s' reservation r ↔
        ¬(Schedule.new 2 0).PassesOver sorter reservation ∧ ¬(Schedule.new 2 0).StartsInverted sorter reservation)) ∧
    ∃ s, runFrom (MixedCall.run sorter) (Schedule.new 2 0) lateCalls = .ok s ∧ ∃ s' r,
      s.reserveTimeSlice sorter late = .ok (s', r) ∧ ¬OnlySplits s s' late r ∧ s.StartsInverted sorter late := by
  refine ⟨reserve_time_slice_iff sorter (Schedule.new 2 0) reservation (Timed.new 2 0) (by decide +kernel) (by decide +kernel)
    (by decide +kernel), ?_⟩
  have hrun : (runFrom (MixedCall.run sorter) (Schedule.new 2 0) lateCalls).toOption.map (fun s =>
      (s.firstSliceBegin, s.infiniteHorizon, s.firstSliceIsSuspect, inverted s)) =
        some (1000001 / 100000, horizon, false, true) := by decide +kernel
  obtain ⟨s, hs, hvalue⟩ := toOption_map_eq_some.1 hrun
  simp only [Prod.mk.injEq] at hvalue
  obtain ⟨hfirst, hhorizon, hsuspect, hinverted⟩ := hvalue
  have hsteps : AllSteps (MixedCall.run sorter) (fun _ _ => True) (Schedule.new 2 0) lateCalls :=
    allSteps_of_forall fun _ _ => trivial
  have htimed : Timed s.profile :=
    runFrom_invariant (I := fun s => Timed s.profile) (fun _ _ _ h _ hrun => h.runMixed hrun) (Timed.new 2 0) hsteps hs
  obtain ⟨s', r, hok, hiff⟩ := reserve_time_slice_iff sorter s late htimed (by decide +kernel) (by rw [hfirst]; decide +kernel)
    (by rw [hhorizon]; decide +kernel)
  rw [inverted, hok] at hinverted
  simp only [Bool.and_eq_true, Option.any_eq_true, decide_eq_true_eq] at hinverted
  obtain ⟨hsuccess, first, hhead, hlt⟩ := hinverted
  have hnot : ¬OnlySplits s s' late r := by
    intro honly
    have htiling := honly.tiles hsuccess
    cases hblock : r.slicesIn s'.profile with
    | nil => simp [hblock] at hhead
    | cons t more =>
      rw [hblock] at hhead htiling
      obtain rfl := Option.some.inj hhead
      exact absurd htiling.2.1 (not_lt.2 hlt.le)
  refine ⟨s, hs, s', r, hok, hnot, ?_⟩
  by_contra hstarts
  exact hnot (hiff.2 ⟨fun hover => absurd hover.1 (by simp [hsuspect]), hstarts⟩)

open ReserveWitness Execution in
/-- The reservation that runs at date 10 is in the way of another, which is said to have a place, and is in neither list. -/
theorem reserve_time_slice_false :
    ¬ (∀ (sorter : Sorter LargestFirst) (s : Schedule) (job : Job), Timed s.profile → 0 < job.walltime →
      s.firstSliceBegin ≤ job.start → job.start + job.walltime ≤ s.infiniteHorizon →
        ∃ s' r, s.reserveTimeSlice sorter job = .ok (s', r) ∧ OnlySplits s s' job r) := by
  intro h
  have hrun : (runFrom (MixedCall.run sorter) (Schedule.new 2 0) calls).toOption.map (fun s =>
      (s.firstSliceBegin, s.infiniteHorizon, missed s)) = some (10, horizon, true) := by decide +kernel
  obtain ⟨s, hs, hvalue⟩ := toOption_map_eq_some.1 hrun
  simp only [Prod.mk.injEq] at hvalue
  obtain ⟨hfirst, hhorizon, hmissed⟩ := hvalue
  have hsteps : AllSteps (MixedCall.run sorter) (fun _ _ => True) (Schedule.new 2 0) calls := allSteps_of_forall fun _ _ => trivial
  have htimed : Timed s.profile :=
    runFrom_invariant (I := fun s => Timed s.profile) (fun _ _ _ h _ hrun => h.runMixed hrun) (Timed.new 2 0) hsteps hs
  obtain ⟨s', r, hok, honly⟩ := h sorter s reservation htimed (by decide +kernel) (by rw [hfirst]; decide +kernel)
    (by rw [hhorizon]; decide +kernel)
  rw [missed, hok] at hmissed
  simp only [Bool.and_eq_true, decide_eq_true_eq, Option.any_eq_true] at hmissed
  obtain ⟨⟨⟨hsuccess, hkilled⟩, first, hhead, hin⟩, hany⟩ := hmissed
  obtain ⟨t, ht, hentries⟩ := List.any_eq_true.1 hany
  obtain ⟨⟨j, held⟩, hmem, hheld⟩ := List.any_eq_true.1 hentries
  obtain ⟨rfl, hne⟩ := of_decide_eq_true hheld
  have hcount := (honly.listed hsuccess running ⟨t, ht, held, hmem, hne⟩ first hhead).1
  rw [hkilled, if_pos hin] at hcount
  exact absurd hcount (by decide)

end ScheduleTest
