import ScheduleTest.Lemmas.Calls
import ScheduleTest.Lemmas.Presence
import ScheduleTest.Lib.Timeline

/-!
# The schedule as a function of date

A schedule says at every date from now on which machines are available, how many, and which jobs hold which machines. Two
profiles may cut the time differently and say the same (`Schedule.atDate`). The slices follow each other in time (`Timed`) in
every run of calls, also where the first slice has been moved past its end by the tolerance on dates.
-/

namespace ScheduleTest

open Timeline

/-- What a slice says, besides its dates. -/
structure SliceContent where
  hasReservation : Bool
  nbReservations : ℤ
  availableMachines : IntervalSet
  allocatedMachines : IntervalSet
  nbAvailableMachines : ℤ
  allocatedJobs : KeyedMap Job.id IntervalSet
  deriving DecidableEq

/-- What a slice says, besides its dates. -/
def TimeSlice.content (t : TimeSlice) : SliceContent where
  hasReservation := t.hasReservation
  nbReservations := t.nbReservations
  availableMachines := t.availableMachines
  allocatedMachines := t.allocatedMachines
  nbAvailableMachines := t.nbAvailableMachines
  allocatedJobs := t.allocatedJobs

@[simp] theorem content_retime (t : TimeSlice) (b e l : ℚ) : (t.retime b e l).content = t.content := rfl

/-- The slice of a profile that a date lies in. -/
abbrev sliceAt (p : List TimeSlice) (date : ℚ) : Option TimeSlice := lookup TimeSlice.beginDate TimeSlice.endDate p date

/-- What a profile says at a date. -/
def contentAt (p : List TimeSlice) (date : ℚ) : Option SliceContent := (sliceAt p date).map TimeSlice.content

/-- What a schedule says at a date. -/
def Schedule.atDate (s : Schedule) (date : ℚ) : Option SliceContent := contentAt s.profile date

/-- `Schedule::first_slice_begin`: the date a schedule has been brought to. -/
def Schedule.firstSliceBegin (s : Schedule) : ℚ := (s.profile.head?.map (·.beginDate)).getD 0

/-- The slices follow each other in time, each but the first takes some, and each knows its length. -/
structure Timed (p : List TimeSlice) : Prop where
  chained : ∃ e, Chained TimeSlice.beginDate TimeSlice.endDate e p
  length : ∀ t ∈ p, t.length = t.endDate - t.beginDate

namespace Timed

variable {p l r : List TimeSlice} {t previous pit merged : TimeSlice} {job : Job}

theorem ne_nil (h : Timed p) : p ≠ [] := h.chained.elim fun _ h => h.ne_nil

/-- Slices with the same dates and lengths are timed alike. -/
theorem congr {p' : List TimeSlice} (h : Timed p) (hbegin : p'.map (·.beginDate) = p.map (·.beginDate))
    (hend : p'.map (·.endDate) = p.map (·.endDate)) (hlength : ∀ t ∈ p', t.length = t.endDate - t.beginDate) : Timed p' where
  chained := h.chained.imp fun _ h => h.congr hbegin hend
  length := hlength

theorem merge (h : Timed (l ++ previous :: pit :: r)) (hm : previous.mergeWithPrevious pit = .ok (some merged)) :
    Timed (l ++ merged :: r) := by
  rw [(mergeWithPrevious_some hm).1]
  refine ⟨h.chained.imp fun _ h => h.merge rfl rfl, fun t ht => ?_⟩
  rcases List.mem_append.1 ht with ht | ht
  · exact h.length t (List.mem_append_left _ ht)
  · rcases List.mem_cons.1 ht with rfl | ht
    · rfl
    · exact h.length t (by simp [ht])

/-- Splitting a slice keeps the times. -/
theorem split (date : ℚ) (h : Timed (l ++ t :: r)) :
    Timed (l ++ (t.splitSlice date).1 :: ((t.splitSlice date).2.toList ++ r)) := by
  rw [TimeSlice.splitSlice]
  split
  · rename_i hd
    refine ⟨h.chained.imp fun _ h => h.cut rfl rfl rfl hd.1 hd.2, fun u hu => ?_⟩
    simp only [Option.toList_some, List.singleton_append, List.mem_append, List.mem_cons] at hu
    rcases hu with hu | rfl | rfl | hu
    · exact h.length u (by simp [hu])
    · rfl
    · rfl
    · exact h.length u (by simp [hu])
  · exact h

theorem placeAt {a : Anchor} (endDate : ℚ) (h : Timed (a.before.reverse ++ (a.covered ++ a.last :: a.rest))) :
    Timed (Schedule.placeAt job a endDate) := by
  rw [← List.append_assoc] at h
  have hsplit := h.split endDate
  refine hsplit.congr ?_ ?_ ?_
  · simp [Schedule.placeAt, Function.comp_def, TimeSlice.allocateJob]
  · simp [Schedule.placeAt, Function.comp_def, TimeSlice.allocateJob]
  · intro t ht
    simp only [Schedule.placeAt, List.mem_append, List.mem_cons, List.mem_map] at ht
    have hlength := hsplit.length
    simp only [List.mem_append, List.mem_cons] at hlength
    rcases ht with (ht | ⟨u, hu, rfl⟩) | rfl | ht
    · exact hlength t (Or.inl (Or.inl ht))
    · exact hlength u (Or.inl (Or.inr hu))
    · exact hlength (a.last.splitSlice endDate).1 (Or.inr (Or.inl rfl))
    · exact hlength t (Or.inr (Or.inr ht))

/-- Erasing a job from a slice keeps the times. -/
theorem erase {ms : IntervalSet} (h : Timed (l ++ pit :: r)) : Timed (l ++ pit.eraseJob job ms :: r) := by
  refine h.congr (by simp [TimeSlice.eraseJob]) (by simp [TimeSlice.eraseJob]) fun t ht => ?_
  rcases List.mem_append.1 ht with ht | ht
  · exact h.length t (List.mem_append_left _ ht)
  · rcases List.mem_cons.1 ht with rfl | ht
    · exact h.length pit (by simp)
    · exact h.length t (by simp [ht])

theorem removeFrom {ms : IntervalSet} {before after p' : List TimeSlice} (h : Timed (before.reverse ++ after))
    (hb : ∀ s ∈ before, s.containsJob job = false) (hr : removeFrom job ms before after = .ok p') : Timed p' :=
  removeFrom_rule (fun _ _ _ h _ _ => h.erase) (fun _ _ _ _ _ h hm => h.merge hm) hb h hr

/-- A change of every slice that keeps the times. -/
theorem map {f : TimeSlice → TimeSlice}
    (hf : ∀ t, (f t).beginDate = t.beginDate ∧ (f t).endDate = t.endDate ∧ (f t).length = t.length) (h : Timed p) :
    Timed (p.map f) := by
  refine h.congr ?_ ?_ fun t ht => ?_
  · simp [Function.comp_def, fun t => (hf t).1]
  · simp [Function.comp_def, fun t => (hf t).2.1]
  · obtain ⟨u, hu, rfl⟩ := List.mem_map.1 ht
    rw [(hf u).1, (hf u).2.1, (hf u).2.2]
    exact h.length u hu

end Timed

/-! ## Operations -/

namespace Timed

variable {s s' : Schedule} {job : Job}

theorem new (n : ℕ) (t0 : ℚ) : Timed (Schedule.new n t0).profile where
  chained := ⟨horizon, rfl⟩
  length := by
    intro t ht
    rw [List.mem_singleton.1 ht]

theorem addJobFirstFit {b : Bool} {alloc : JobAlloc} (h : Timed s.profile) (ha : s.addJobFirstFit job b = .ok (s', alloc)) :
    Timed s'.profile := by
  obtain ⟨_, rfl | ⟨a, endDate, hanchor, rfl⟩⟩ := Schedule.addJobFirstFit_ok ha
  · exact h
  · rw [← Schedule.findAnchor_shape hanchor] at h
    exact h.placeAt endDate

theorem removeJobIfExists {b : Bool} (h : Timed s.profile) (hr : s.removeJobIfExists job = .ok (s', b)) : Timed s'.profile := by
  rcases Schedule.removeJobIfExists_ok hr with ⟨_, rfl, _⟩ | ⟨_, before, pit, rest, ms, p', hprofile, hbefore, _, hp, rfl⟩
  · exact h
  · rw [hprofile, ← List.reverse_reverse before] at h
    exact h.removeFrom (fun t ht => hbefore t (List.mem_reverse.1 ht)) hp

theorem updateFirstSlice {t : ℚ} (h : Timed s.profile) (hu : s.updateFirstSlice t = .ok s') : Timed s'.profile := by
  obtain ⟨slice, rest, hprofile, hprofile', _⟩ := Schedule.updateFirstSlice_ok hu
  rw [hprofile] at h
  rw [hprofile']
  refine ⟨h.chained.imp fun _ h => h.restart rfl, fun u hu => ?_⟩
  rcases List.mem_cons.1 hu with rfl | hu
  · rfl
  · exact h.length u (List.mem_cons_of_mem _ hu)

/-- Every call keeps the times. -/
theorem runCall {call : ScheduleCall} (h : Timed s.profile) (hrun : call.run s = .ok s') : Timed s'.profile := by
  cases call with
  | addJobFirstFit job b =>
    obtain ⟨⟨s1, alloc⟩, ha, rfl⟩ := Execution.map_eq_ok.1 hrun
    exact h.addJobFirstFit ha
  | removeJob job => exact h.removeJobIfExists (Schedule.removeJob_ok hrun)
  | removeJobIfExists job =>
    obtain ⟨⟨s1, b⟩, ha, rfl⟩ := Execution.map_eq_ok.1 hrun
    exact h.removeJobIfExists ha
  | updateFirstSlice t => exact h.updateFirstSlice hrun
  | addRepairMachine m =>
    cases hrun
    exact h.map fun _ => ⟨rfl, rfl, rfl⟩
  | removeRepairMachines m =>
    cases hrun
    exact h.map fun _ => ⟨rfl, rfl, rfl⟩

end Timed

/-- The profile from its first slice to the horizon. -/
theorem exists_chain {s : Schedule} (ht : Timed s.profile) :
    ∃ first rest, s.profile = first :: rest ∧ first.beginDate = s.firstSliceBegin ∧
      Chained TimeSlice.beginDate TimeSlice.endDate s.infiniteHorizon (first :: rest) := by
  obtain ⟨e, hchain⟩ := ht.chained
  have he : s.infiniteHorizon = e := by
    rcases List.eq_nil_or_concat s.profile with hnil | ⟨l, last, hlast⟩
    · exact absurd hnil ht.ne_nil
    · rw [hlast, List.concat_eq_append] at hchain
      rw [Schedule.infiniteHorizon, hlast, hchain.eq_stop]
      simp
  cases hp : s.profile with
  | nil => exact absurd hp ht.ne_nil
  | cons first rest =>
    rw [hp] at hchain
    refine ⟨first, rest, rfl, by rw [Schedule.firstSliceBegin, hp]; rfl, he ▸ hchain⟩

/-! ## What the profile says after an operation -/

section Views

variable {γ : Type*} {f : TimeSlice → γ} {p l r : List TimeSlice} {t : TimeSlice} {x : ℚ} {job : Job}

/-- Splitting a slice changes nothing that a slice says apart from its dates. -/
theorem sliceAt_split (hf : ∀ t b e l, f (t.retime b e l) = f t) (date : ℚ) :
    (sliceAt (l ++ (t.splitSlice date).1 :: ((t.splitSlice date).2.toList ++ r)) x).map f = (sliceAt (l ++ t :: r) x).map f := by
  rw [TimeSlice.splitSlice]
  split
  · rename_i hd
    exact lookup_cut rfl rfl rfl hd.1.le hd.2.le (hf t _ _ _) (hf t _ _ _)
  · rfl

/-- The profile in which a job has been placed is the profile cut at the end of the job, with the slices it takes changed. -/
theorem placeAt_eq (job : Job) (a : Anchor) (endDate : ℚ) :
    Schedule.placeAt job a endDate = a.before.reverse ++
      ((a.covered ++ [(a.last.splitSlice endDate).1]).map (TimeSlice.allocateJob job a.usedMachines) ++
        ((a.last.splitSlice endDate).2.toList ++ a.rest)) := by
  simp [Schedule.placeAt]

theorem sliceAt_append (l r : List TimeSlice) (x : ℚ) : sliceAt (l ++ r) x = (sliceAt l x).or (sliceAt r x) :=
  lookup_append l r x

/-- Giving a job machines of some slices changes none of their dates. -/
theorem sliceAt_map_allocateJob (job : Job) (used : IntervalSet) (l : List TimeSlice) (x : ℚ) :
    sliceAt (l.map (TimeSlice.allocateJob job used)) x = (sliceAt l x).map (TimeSlice.allocateJob job used) :=
  lookup_map fun _ _ => ⟨rfl, rfl⟩

/-- A view of the slices that does not see the job is not changed by placing it. -/
theorem sliceAt_placeAt_unseen {a : Anchor} (hf : ∀ t b e l, f (t.retime b e l) = f t)
    (hjob : ∀ t ∈ a.slices, f (t.allocateJob job a.usedMachines) = f t) (endDate : ℚ) :
    (sliceAt (Schedule.placeAt job a endDate) x).map f =
      (sliceAt (a.before.reverse ++ (a.covered ++ a.last :: a.rest)) x).map f := by
  obtain ⟨e, l, hfst⟩ := splitSlice_fst a.last endDate
  have hslices : ∀ t ∈ a.covered ++ [(a.last.splitSlice endDate).1], f (t.allocateJob job a.usedMachines) = f t := by
    intro t ht
    rcases List.mem_append.1 ht with ht | ht
    · exact hjob t (List.mem_append_left _ ht)
    · rw [List.mem_singleton.1 ht, hfst, hf]
      exact (hf (a.last.allocateJob job a.usedMachines) _ _ _).trans (hjob a.last (by simp [Anchor.slices]))
  have hmap : ∀ o ∈ sliceAt (a.covered ++ [(a.last.splitSlice endDate).1]) x,
      f (o.allocateJob job a.usedMachines) = f o := fun o ho => hslices o (mem_of_lookup ho).1
  have hcut := sliceAt_split (l := a.before.reverse ++ a.covered) (r := a.rest) (t := a.last) (x := x) hf endDate
  simp only [List.append_assoc] at hcut
  rw [← hcut, placeAt_eq, show (a.last.splitSlice endDate).1 :: ((a.last.splitSlice endDate).2.toList ++ a.rest) =
    [(a.last.splitSlice endDate).1] ++ ((a.last.splitSlice endDate).2.toList ++ a.rest) from rfl, ← List.append_assoc a.covered]
  rw [sliceAt_append, sliceAt_append, sliceAt_append a.before.reverse, sliceAt_append (a.covered ++ _), sliceAt_map_allocateJob]
  cases sliceAt a.before.reverse x with
  | some t => rfl
  | none =>
    cases h : sliceAt (a.covered ++ [(a.last.splitSlice endDate).1]) x with
    | none => rfl
    | some t =>
      simp only [Option.map_some, Option.none_or, Option.some_or]
      rw [hmap t h]

/-- A split at a date of a slice leaves a first part that begins with the slice and ends at the date. -/
theorem splitSlice_fst_dates {t : TimeSlice} {date : ℚ} (hbegin : t.beginDate < date) (hend : date ≤ t.endDate) :
    (t.splitSlice date).1.beginDate = t.beginDate ∧ (t.splitSlice date).1.endDate = date := by
  rw [TimeSlice.splitSlice]
  split
  · exact ⟨rfl, rfl⟩
  · rename_i hd
    exact ⟨rfl, le_antisymm (not_lt.1 fun h => hd ⟨hbegin, h⟩) hend⟩

/-- The slices a job takes, the last cut at its end: they begin with the anchor, and the profile cut so is still timed. -/
theorem placeAt_block {a : Anchor} {endDate : ℚ} (hbegin : a.last.beginDate < endDate) (hend : endDate ≤ a.last.endDate)
    (ht : Timed (a.before.reverse ++ (a.covered ++ a.last :: a.rest))) :
    ∃ first more, a.covered ++ [(a.last.splitSlice endDate).1] = first :: more ∧ first.beginDate = a.beginDate ∧
      Timed (a.before.reverse ++ (first :: more ++ ((a.last.splitSlice endDate).2.toList ++ a.rest))) ∧
      Chained TimeSlice.beginDate TimeSlice.endDate endDate (first :: more) := by
  obtain ⟨hfst, hfstEnd⟩ := splitSlice_fst_dates hbegin hend
  obtain ⟨first, more, hblock, hfirst⟩ : ∃ first more, a.covered ++ [(a.last.splitSlice endDate).1] = first :: more ∧
      first.beginDate = a.beginDate := by
    rw [Anchor.beginDate]
    cases a.covered with
    | nil => exact ⟨_, [], rfl, hfst⟩
    | cons c cs => exact ⟨c, cs ++ [_], rfl, rfl⟩
  rw [← List.append_assoc] at ht
  have hsplit := ht.split endDate
  have hparts : (a.before.reverse ++ a.covered) ++
      (a.last.splitSlice endDate).1 :: ((a.last.splitSlice endDate).2.toList ++ a.rest) =
      a.before.reverse ++ (first :: more ++ ((a.last.splitSlice endDate).2.toList ++ a.rest)) := by
    rw [← hblock]
    simp
  rw [hparts] at hsplit
  obtain ⟨e, hchain⟩ := hsplit.chained
  obtain ⟨c, hm, _⟩ := hchain.block
  have hc : c = endDate := by
    rw [← hblock] at hm
    exact hm.eq_stop.trans hfstEnd
  exact ⟨first, more, hblock, hfirst, hsplit, hc ▸ hm⟩

/-- Placing a job at an anchor changes the slices from the date it begins up to the date it ends, and no other. -/
theorem sliceAt_placeAt {a : Anchor} {endDate : ℚ} (hf : ∀ t b e l, f (t.retime b e l) = f t)
    (ht : Timed (a.before.reverse ++ (a.covered ++ a.last :: a.rest))) (hbegin : a.last.beginDate < endDate)
    (hend : endDate ≤ a.last.endDate)
    (hx : ∀ first ∈ (a.before.reverse ++ (a.covered ++ a.last :: a.rest)).head?, first.beginDate ≤ x) :
    (sliceAt (Schedule.placeAt job a endDate) x).map f =
      (sliceAt (a.before.reverse ++ (a.covered ++ a.last :: a.rest)) x).map
        (fun t => f (if a.beginDate ≤ x ∧ x < endDate then t.allocateJob job a.usedMachines else t)) := by
  obtain ⟨first, more, hblock, hfirst, hsplit, hm⟩ := placeAt_block hbegin hend ht
  obtain ⟨e, hchain⟩ := hsplit.chained
  have hparts : (a.before.reverse ++ a.covered) ++
      (a.last.splitSlice endDate).1 :: ((a.last.splitSlice endDate).2.toList ++ a.rest) =
      a.before.reverse ++ (first :: more ++ ((a.last.splitSlice endDate).2.toList ++ a.rest)) := by
    rw [← hblock]
    simp
  rw [← List.append_assoc] at hx ⊢
  have hx' : ∀ u ∈ (a.before.reverse ++ (first :: more ++ ((a.last.splitSlice endDate).2.toList ++ a.rest))).head?,
      u.beginDate ≤ x := by
    rw [← hparts]
    intro u hu
    cases hb : a.before.reverse ++ a.covered with
    | cons b bs =>
      rw [hb] at hu hx
      exact hx u hu
    | nil =>
      rw [hb] at hu hx
      obtain rfl := Option.some.inj hu
      exact (splitSlice_fst_dates hbegin hend).1.le.trans (hx a.last rfl)
  rw [placeAt_eq, hblock, sliceAt, hchain.lookup_change (g := TimeSlice.allocateJob job a.usedMachines) (fun _ => ⟨rfl, rfl⟩)
    hm hx', hfirst, Option.map_map, ← hparts]
  refine sliceAt_split (fun t b e l => ?_) endDate
  rw [Function.comp_apply]
  split
  · exact hf (t.allocateJob job a.usedMachines) b e l
  · exact hf t b e l

/-- What the slices say that is not changed by taking out a job, and is the same in neighbours that are merged, is not changed by
removing the job. `Q` is what the steps of the removal keep. -/
theorem sliceAt_removeFrom {Q : List TimeSlice → Prop} {ms : IntervalSet} (hf : ∀ t b e l, f (t.retime b e l) = f t)
    (hjob : ∀ t, t.containsJob job = true → f (t.eraseJob job ms) = f t)
    (erase : ∀ l pit r, Q (l ++ pit :: r) → (∀ s ∈ l, s.containsJob job = false) → pit.containsJob job = true →
      Q (l ++ pit.eraseJob job ms :: r))
    (merge : ∀ l previous pit merged r, Q (l ++ previous :: pit :: r) → previous.mergeWithPrevious pit = .ok (some merged) →
      Q (l ++ merged :: r))
    (agree : ∀ l previous pit merged r, Q (l ++ previous :: pit :: r) → previous.mergeWithPrevious pit = .ok (some merged) →
      f previous = f pit)
    {before after p' : List TimeSlice} (hb : ∀ s ∈ before, s.containsJob job = false) (hQ : Q (before.reverse ++ after))
    (ht : Timed (before.reverse ++ after)) (hr : removeFrom job ms before after = .ok p')
    (hx : ∀ first ∈ (before.reverse ++ after).head?, first.beginDate ≤ x) :
    (sliceAt p' x).map f = (sliceAt (before.reverse ++ after) x).map f ∧ ∀ first ∈ p'.head?, first.beginDate ≤ x := by
  have hrule := removeFrom_rule (P := fun p => Q p ∧ Timed p ∧ (∀ first ∈ p.head?, first.beginDate ≤ x) ∧
    (sliceAt p x).map f = (sliceAt (before.reverse ++ after) x).map f) ?_ ?_ hb ⟨hQ, ht, hx, rfl⟩ hr
  · exact ⟨hrule.2.2.2, hrule.2.2.1⟩
  · rintro l pit r ⟨h1, h2, h3, h4⟩ hl hc
    refine ⟨erase l pit r h1 hl hc, h2.erase, ?_, ?_⟩
    · cases l with
      | nil => exact fun u hu => Option.some.inj hu ▸ h3 pit rfl
      | cons b l => exact h3
    · rw [← h4, sliceAt_append, sliceAt_append]
      cases sliceAt l x with
      | some t => rfl
      | none =>
        simp only [Option.none_or, sliceAt, lookup_cons]
        have hin : Within TimeSlice.beginDate TimeSlice.endDate (pit.eraseJob job ms) x ↔
            Within TimeSlice.beginDate TimeSlice.endDate pit x := Iff.rfl
        by_cases hw : Within TimeSlice.beginDate TimeSlice.endDate pit x
        · rw [if_pos hw, if_pos (hin.2 hw), Option.map_some, Option.map_some, hjob pit hc]
        · rw [if_neg hw, if_neg fun h => hw (hin.1 h)]
  · rintro l previous pit merged r ⟨h1, h2, h3, h4⟩ hm
    have heq := agree l previous pit merged r h1 hm
    have hmerged := (mergeWithPrevious_some hm).1
    refine ⟨merge l previous pit merged r h1 hm, h2.merge hm, ?_, ?_⟩
    · cases l with
      | nil =>
        intro u hu
        rw [← Option.some.inj hu, hmerged]
        exact h3 previous rfl
      | cons b l => exact h3
    · obtain ⟨e, hchain⟩ := h2.chained
      rw [← h4]
      refine hchain.lookup_merge (by rw [hmerged]; rfl) (by rw [hmerged]; rfl) ?_ ?_ h3
      · rw [hmerged, hf, heq]
      · rw [hmerged, hf]

end Views

/-- A schedule begins when it did after a job has been removed. -/
theorem firstSliceBegin_removeJobIfExists {s s' : Schedule} {job : Job} {b : Bool} (hr : s.removeJobIfExists job = .ok (s', b)) :
    s'.firstSliceBegin = s.firstSliceBegin := by
  rcases Schedule.removeJobIfExists_ok hr with ⟨_, rfl, _⟩ | ⟨_, before, pit, rest, ms, p', hprofile, hbefore, _, hp, rfl⟩
  · rfl
  · have hhead : p'.head?.map (·.beginDate) = s.profile.head?.map (·.beginDate) := by
      refine removeFrom_rule (P := fun p => p.head?.map (·.beginDate) = s.profile.head?.map (·.beginDate)) (fun l u r h _ _ => ?_)
        (fun l previous u merged r h hm => ?_) (fun t ht => hbefore t (List.mem_reverse.1 ht))
        (by rw [List.reverse_reverse, ← hprofile]) hp
      · cases l with
        | nil => exact h
        | cons v l => exact h
      · cases l with
        | nil =>
          rw [(mergeWithPrevious_some hm).1]
          exact h
        | cons v l => exact h
    unfold Schedule.firstSliceBegin
    exact congrArg (·.getD 0) hhead

/-- What the slices say that does not see a job is not changed by removing the job. -/
theorem sliceAt_removeJobIfExists {γ : Type*} {f : TimeSlice → γ} {W : NamedJobs} {s s' : Schedule} {job : Job} {b : Bool} {x : ℚ}
    (hjobs : ∀ t u : TimeSlice, t.allocatedJobs = u.allocatedJobs → f t = f u)
    (herase : ∀ (t : TimeSlice) ms, f (t.eraseJob job ms) = f t)
    (hruns : RunsOk W s.profile) (ht : Timed s.profile) (hr : s.removeJobIfExists job = .ok (s', b)) (hx : s.firstSliceBegin ≤ x) :
    (sliceAt s'.profile x).map f = (sliceAt s.profile x).map f := by
  obtain ⟨first, rest, hp, hbegin, _⟩ := exists_chain ht
  rcases Schedule.removeJobIfExists_ok hr with ⟨_, rfl, _⟩ | ⟨_, before, pit, rest', ms, p', hprofile, hbefore, _, hp', rfl⟩
  · rfl
  · have hhead : ∀ u ∈ s.profile.head?, u.beginDate ≤ x := by
      rw [hp]
      intro u hu
      rw [← Option.some.inj hu, hbegin]
      exact hx
    rw [hprofile, ← List.reverse_reverse before] at hruns ht hhead ⊢
    exact (sliceAt_removeFrom (Q := RunsOk W) (fun _ _ _ _ => hjobs _ _ rfl) (fun t _ => herase t _)
      (fun _ _ _ h hl _ => h.erase hl) (fun _ _ _ _ _ h hm => h.merge hm)
      (fun _ _ _ _ _ h hm => hjobs _ _ (h.allocatedJobs_eq_of_merge hm)) (fun t ht => hbefore t (List.mem_reverse.1 ht)) hruns ht hp'
      hhead).1

/-- Placing a job changes the date of no first slice. -/
theorem head_placeAt (job : Job) (a : Anchor) (endDate : ℚ) :
    (Schedule.placeAt job a endDate).head?.map (·.beginDate) =
      (a.before.reverse ++ (a.covered ++ a.last :: a.rest)).head?.map (·.beginDate) := by
  obtain ⟨e, l, hfst⟩ := splitSlice_fst a.last endDate
  rw [placeAt_eq]
  rcases List.eq_nil_or_concat a.before with hb | ⟨older, first, hb⟩
  · rw [hb]
    cases a.covered with
    | nil =>
      simp only [List.reverse_nil, List.nil_append, List.map_cons, List.map_nil, List.cons_append, List.head?_cons, Option.map_some,
        hfst]
      rfl
    | cons c cs => rfl
  · simp [hb]

/-! ## The cuts of a reservation -/

/-- Splitting the slice with some index replaces it by the parts that the split makes of it. -/
theorem splitSliceAt_parts (p : List TimeSlice) (i : ℕ) (date : ℚ) :
    (p[i]? = none ∧ Schedule.splitSliceAt p i date = (p, i, i)) ∨ ∃ l t r, p = l ++ t :: r ∧ l.length = i ∧
      (Schedule.splitSliceAt p i date).1 = l ++ (t.splitSlice date).1 :: ((t.splitSlice date).2.toList ++ r) ∧
      (Schedule.splitSliceAt p i date).2 = (i, if (t.splitSlice date).2.isSome then i + 1 else i) := by
  rw [Schedule.splitSliceAt]
  split
  · rename_i hnone
    exact Or.inl ⟨hnone, rfl⟩
  · rename_i slice hslice
    obtain ⟨hi, hget⟩ := List.getElem?_eq_some_iff.1 hslice
    refine Or.inr ⟨p.take i, slice, p.drop (i + 1), ?_, ?_, ?_⟩
    · rw [← hget, List.getElem_cons_drop, List.take_append_drop]
    · rw [List.length_take]
      omega
    · split
      · rename_i first second hsplit
        rw [hsplit]
        exact ⟨rfl, rfl⟩
      · rename_i first hsplit
        have hfirst : (slice.splitSlice date).1 = slice := by
          rw [TimeSlice.splitSlice] at hsplit ⊢
          split at hsplit
          · cases hsplit
          · rename_i hno
            rw [if_neg hno]
        rw [hfirst, hsplit]
        refine ⟨?_, rfl⟩
        rw [Option.toList_none, List.nil_append, ← hget, List.getElem_cons_drop, List.take_append_drop]

theorem Timed.splitSliceAt {p : List TimeSlice} (h : Timed p) (i : ℕ) (date : ℚ) : Timed (Schedule.splitSliceAt p i date).1 := by
  rcases splitSliceAt_parts p i date with ⟨_, heq⟩ | ⟨l, t, r, rfl, _, heq, _⟩
  · rw [heq]
    exact h
  · rw [heq]
    exact h.split date

/-- Splitting a slice changes nothing that the profile says. -/
theorem sliceAt_splitSliceAt {γ : Type*} {f : TimeSlice → γ} (hf : ∀ t b e l, f (t.retime b e l) = f t) (p : List TimeSlice) (i : ℕ)
    (date x : ℚ) : (sliceAt (Schedule.splitSliceAt p i date).1 x).map f = (sliceAt p x).map f := by
  rcases splitSliceAt_parts p i date with ⟨_, heq⟩ | ⟨l, t, r, rfl, _, heq, _⟩
  · rw [heq]
  · rw [heq]
    exact sliceAt_split hf date

/-- What splitting a slice keeps, the cuts for a reservation keep. -/
theorem cutForReservation_rule {P : List TimeSlice → Prop} (split : ∀ p i date, P p → P (Schedule.splitSliceAt p i date).1)
    {s : Schedule} {job : Job} {p' : List TimeSlice} {sliceBegin sliceEnd : ℕ} (h : P s.profile)
    (hcut : s.cutForReservation job = .ok (p', sliceBegin, sliceEnd)) : P p' := by
  simp only [Schedule.cutForReservation] at hcut
  generalize (if s.firstSliceIsSuspect = true then 1 else 0) + List.findIdx _ _ = i at hcut
  split_ifs at hcut
  cases hcut
  exact split _ _ _ (split _ _ _ h)

/-- What splitting a slice keeps, the search for the time slices of a reservation keeps. -/
theorem reserveTimeSlice_rule {P : List TimeSlice → Prop} (split : ∀ p i date, P p → P (Schedule.splitSliceAt p i date).1)
    {sorter : Sorter LargestFirst} {s s' : Schedule} {job : Job} {r : ReservedTimeSlice} (h : P s.profile)
    (hreserve : s.reserveTimeSlice sorter job = .ok (s', r)) : P s'.profile := by
  rw [Schedule.reserveTimeSlice] at hreserve
  split at hreserve
  · cases hreserve
  · rename_i p' sliceBegin sliceEnd hcut
    have hp' := cutForReservation_rule split h hcut
    dsimp only at hreserve
    generalize Schedule.machinesForReservation sorter _ job sliceBegin sliceEnd = used at hreserve
    cases hhead : p'.head? with
    | none =>
      rw [hhead] at hreserve
      cases hreserve
    | some first =>
      rw [hhead] at hreserve
      cases used with
      | error e => cases hreserve
      | ok used =>
        dsimp only at hreserve
        split at hreserve
        · cases hreserve
          exact hp'
        · cases hreserve
          exact hp'

/-- Putting a reservation into its slices keeps the times. -/
theorem Timed.addReservation {s s' : Schedule} {r : ReservedTimeSlice} (h : Timed s.profile) (ha : s.addReservation r = .ok s') :
    Timed s'.profile := by
  rw [Schedule.addReservation] at ha
  split at ha
  · nomatch ha
  · rename_i job _
    cases ha
    have hparts := updateSlices_parts s.profile r.sliceBegin r.sliceEnd
    have hmap : ∀ {β : Type} (g : TimeSlice → β), (∀ t, g (TimeSlice.reserve job r.alloc.usedMachines t) = g t) →
        (Schedule.updateSlices s.profile r.sliceBegin r.sliceEnd (TimeSlice.reserve job r.alloc.usedMachines)).map g =
          s.profile.map g := by
      intro β g hg
      conv_rhs => rw [hparts]
      simp [Schedule.updateSlices, Function.comp_def, hg]
    refine h.congr (hmap _ fun _ => rfl) (hmap _ fun _ => rfl) fun t ht => ?_
    simp only [Schedule.updateSlices, List.mem_append, List.mem_map] at ht
    rcases ht with ht | ⟨u, hu, rfl⟩ | ht
    · exact h.length t (List.mem_of_mem_take ht)
    · exact h.length u (List.mem_of_mem_drop (List.mem_of_mem_take hu))
    · exact h.length t (List.mem_of_mem_drop (List.mem_of_mem_drop ht))

/-- Placing a reservation at an anchor keeps the times. -/
theorem Timed.placeReservationAt {a : Anchor} {job : Job} (endDate : ℚ)
    (h : Timed (a.before.reverse ++ (a.covered ++ a.last :: a.rest))) : Timed (Schedule.placeReservationAt job a endDate) := by
  rw [← List.append_assoc] at h
  have hsplit := h.split endDate
  have hlast : ∀ {β : Type} (g : TimeSlice → β), (∀ t used n m, g (TimeSlice.allocateReservation job used n m t) = g t) →
      (Schedule.placeReservationAt job a endDate).map g =
        (a.before.reverse ++ a.covered ++ (a.last.splitSlice endDate).1 :: ((a.last.splitSlice endDate).2.toList ++ a.rest)).map g := by
    intro β g hg
    simp only [Schedule.placeReservationAt, List.map_append, List.map_map, Function.comp_def, hg, List.map_cons]
    split <;> rw [hg]
  refine hsplit.congr (hlast _ fun _ _ _ _ => rfl) (hlast _ fun _ _ _ _ => rfl) ?_
  -- each slice knows its length as before
  have hlengths := hlast (fun t => (t.length, t.endDate - t.beginDate)) fun _ _ _ _ => rfl
  intro t ht
  have hmem : (t.length, t.endDate - t.beginDate) ∈ (Schedule.placeReservationAt job a endDate).map
      (fun t => (t.length, t.endDate - t.beginDate)) := List.mem_map_of_mem ht
  rw [hlengths] at hmem
  obtain ⟨u, hu, heq⟩ := List.mem_map.1 hmem
  obtain ⟨h1, h2⟩ := Prod.mk.inj heq
  rw [← h1, ← h2]
  exact hsplit.length u hu

theorem Timed.addCurrentReservation {s s' : Schedule} {job : Job} {b : Bool} {alloc : JobAlloc} (h : Timed s.profile)
    (ha : s.addCurrentReservation job b = .ok (s', alloc)) : Timed s'.profile := by
  rw [Schedule.addCurrentReservation] at ha
  split at ha
  · nomatch ha
  · split at ha
    · nomatch ha
    · split at ha
      · rename_i a hanchor
        have hshape : a.before.reverse ++ (a.covered ++ a.last :: a.rest) = s.profile := by simpa using scanAnchor_shape hanchor
        split at ha
        · nomatch ha
        · cases ha
          rw [← hshape] at h
          exact h.placeReservationAt _
      · split at ha
        · nomatch ha
        · cases ha
          exact h

theorem Timed.removeJobs {s s' : Schedule} {jobs : List Job} (h : Timed s.profile) (hr : s.removeJobs jobs = .ok s') :
    Timed s'.profile := by
  induction jobs generalizing s with
  | nil =>
    cases hr
    exact h
  | cons job jobs ih =>
    rw [Schedule.removeJobs] at hr
    split at hr
    · rename_i hremove
      exact ih (h.removeJobIfExists hremove) hr
    · nomatch hr

theorem Timed.removeReservationsIfReady {s s' : Schedule} {jobs : List Job} {r : List Job × Bool} (h : Timed s.profile)
    (hr : s.removeReservationsIfReady jobs = .ok (s', r)) : Timed s'.profile := by
  rw [Schedule.removeReservationsIfReady] at hr
  split at hr
  · cases hr
    exact h
  · rename_i first slice hdue
    rw [reservationsDue_some hdue] at h
    generalize Schedule.collectReady first s.repairMachines slice.allocatedJobs.entries slice.nbReservations jobs = c at hr
    obtain ⟨nb, jobs', ready⟩ := c
    have h' : Timed (first :: { slice with nbReservations := nb } :: s.profile.drop 2) := by
      refine h.congr rfl rfl fun t ht => ?_
      simp only [List.mem_cons] at ht
      rcases ht with rfl | rfl | ht
      · exact h.length t (by simp)
      · exact h.length slice (by simp)
      · exact h.length t (by simp [ht])
    dsimp only at hr
    split at hr
    · split at hr
      · rename_i hremove
        cases hr
        exact Timed.removeJobs h' hremove
      · nomatch hr
    · cases hr
      exact h'

/-- Every call of an operation that works with reservations keeps the times. -/
theorem Timed.runReservation {sorter : Sorter LargestFirst} {s s' : Schedule} {call : ReservationCall} (h : Timed s.profile)
    (hrun : call.run sorter s = .ok s') : Timed s'.profile := by
  cases call with
  | addReservation job =>
    rw [ReservationCall.run] at hrun
    split at hrun
    · rename_i s1 r hreserve
      have hs1 : Timed s1.profile := reserveTimeSlice_rule (fun _ i date h => h.splitSliceAt i date) h hreserve
      split at hrun
      · exact hs1.addReservation hrun
      · cases hrun
        exact hs1
    · nomatch hrun
  | addCurrentReservation job b =>
    obtain ⟨⟨s1, alloc⟩, ha, rfl⟩ := Execution.map_eq_ok.1 hrun
    exact h.addCurrentReservation ha
  | removeReservationsIfReady =>
    obtain ⟨⟨s1, r⟩, ha, rfl⟩ := Execution.map_eq_ok.1 hrun
    exact h.removeReservationsIfReady ha
  | addJobFirstFit job b =>
    obtain ⟨⟨s1, alloc⟩, ha, rfl⟩ := Execution.map_eq_ok.1 hrun
    exact h.addJobFirstFit ha
  | removeJob job => exact h.removeJobIfExists (Schedule.removeJob_ok hrun)

end ScheduleTest
