import ScheduleTest.Lemmas.AtDate
import ScheduleTest.FirstFit

/-!
# First fit with any selector

What the selectors take (`ResourceSelector.Suited`), that the scan for an anchor finds one wherever a job fits, and not later
(`scanAnchor_complete`), and how a call with any selector goes through the invariants of a schedule.
-/

namespace ScheduleTest

/-! ## Selectors -/

/-- The machines that a selector takes for a job that requests `requested` of them: any, consecutive ones, or ones of a range. -/
def ResourceSelector.Suited (requested : ℕ) (used : IntervalSet) : ResourceSelector → Prop
  | .basic => True
  | .contiguous => ∃ lower, used = Finset.Ico lower (lower + requested)
  | .limitedRange range => used ⊆ range

/-- A job fits on consecutive machines where some interval is long enough. -/
theorem ContiguousResourceSelector.fit_isSome {job : Job} {available : IntervalSet} :
    (ContiguousResourceSelector.fit job available).isSome ↔
      ∃ it ∈ available.intervals, job.nbRequestedResources ≤ it.2 - it.1 + 1 := by
  rw [ContiguousResourceSelector.fit, List.findSome?_isSome_iff]
  refine exists_congr fun it => and_congr_right fun _ => ?_
  split <;> simp_all

theorem ContiguousResourceSelector.fit_eq_some {job : Job} {available used : IntervalSet}
    (h : ContiguousResourceSelector.fit job available = some used) :
    used ⊆ available ∧ used.card = job.nbRequestedResources ∧
      ∃ lower, used = Finset.Ico lower (lower + job.nbRequestedResources) := by
  obtain ⟨it, hit, heq⟩ := List.exists_of_findSome?_eq_some h
  split at heq
  · rename_i hle
    obtain ⟨hnonempty, hsub⟩ := Finset.Icc_subset_of_mem_intervals hit
    have hIco := @Finset.leftmost_Icc it.1 it.2 job.nbRequestedResources (by omega)
    rw [hIco] at heq
    cases heq
    refine ⟨?_, by simp, it.1, rfl⟩
    rw [← hIco]
    exact (Finset.leftmost_subset _ _).trans hsub
  · nomatch heq

namespace ResourceSelector

/-- Every selector takes available machines, as many as requested and of its kind, and does not fail where more are available. -/
theorem fitLaws (selector : ResourceSelector) (job : Job) :
    FitLaws (selector.fit job) job.nbRequestedResources (selector.Suited job.nbRequestedResources) := by
  cases selector with
  | basic => exact BasicResourceSelector.fitLaws job
  | contiguous =>
    refine ⟨fun h => ContiguousResourceSelector.fit_eq_some h, fun hsub h => ?_⟩
    obtain ⟨it, hit, hle⟩ := ContiguousResourceSelector.fit_isSome.1 h
    obtain ⟨hnonempty, hIcc⟩ := Finset.Icc_subset_of_mem_intervals hit
    obtain ⟨it', hit', h1, h2⟩ := Finset.exists_mem_intervals hnonempty (hIcc.trans hsub)
    exact ContiguousResourceSelector.fit_isSome.2 ⟨it', hit', by omega⟩
  | limitedRange range =>
    refine ⟨fun {available _} h => ?_, fun hsub h => ?_⟩
    · simp only [fit, LimitedRangeResourceSelector.fit] at h
      split at h
      · rename_i hle
        cases h
        have hleft := Finset.leftmost_subset (available ∩ range) job.nbRequestedResources
        exact ⟨hleft.trans Finset.inter_subset_left, Finset.card_leftmost_of_le hle, hleft.trans Finset.inter_subset_right⟩
      · nomatch h
    · simp only [fit, LimitedRangeResourceSelector.fit] at h ⊢
      split at h
      · rename_i hle
        rw [if_pos (hle.trans (Finset.card_le_card (Finset.inter_subset_inter_right hsub)))]
        rfl
      · nomatch h

/-- A selector takes machines wherever enough of its kind are available. -/
theorem fit_complete {selector : ResourceSelector} {job : Job} {available used : IntervalSet} (hpos : 0 < job.nbRequestedResources)
    (hsub : used ⊆ available) (hcard : used.card = job.nbRequestedResources)
    (hsuited : selector.Suited job.nbRequestedResources used) : (selector.fit job available).isSome := by
  cases selector with
  | basic => exact BasicResourceSelector.fit_isSome.2 (hcard ▸ Finset.card_le_card hsub)
  | contiguous =>
    obtain ⟨lower, rfl⟩ := hsuited
    have hIcc : Finset.Icc lower (lower + job.nbRequestedResources - 1) ⊆ available := by
      intro x hx
      refine hsub (Finset.mem_Ico.2 ?_)
      have := Finset.mem_Icc.1 hx
      omega
    obtain ⟨it, hit, h1, h2⟩ := Finset.exists_mem_intervals (by omega) hIcc
    exact ContiguousResourceSelector.fit_isSome.2 ⟨it, hit, by omega⟩
  | limitedRange range =>
    simp only [fit, LimitedRangeResourceSelector.fit]
    rw [if_pos (hcard ▸ Finset.card_le_card (Finset.subset_inter hsub hsuited))]
    rfl

end ResourceSelector

/-! ## The scan finds what there is -/

section Complete

variable {fit : IntervalSet → Option IntervalSet} {requested : ℕ} {used : IntervalSet}

/-- Where machines that fit are available up to some slice, and the slices up to it are long enough, the scan finds an end. -/
theorem scanEnd_complete (hfit : ∀ available, used ⊆ available → (fit available).isSome) (hcard : requested ≤ used.card)
    {walltime total : ℚ} {before covered mid rest : List TimeSlice} {last : TimeSlice} {machines : IntervalSet}
    (hmachines : used ⊆ machines)
    (hslices : ∀ t ∈ mid ++ [last], used ⊆ t.availableMachines ∧ (requested : ℤ) ≤ t.nbAvailableMachines)
    (henough : walltime ≤ total + totalLength (mid ++ [last])) :
    (scanEnd fit requested walltime before covered machines total (mid ++ last :: rest)).isSome := by
  induction mid generalizing covered machines total with
  | nil =>
    obtain ⟨hsub, hnb⟩ := hslices last (by simp)
    have hall := Finset.subset_inter hmachines hsub
    obtain ⟨used', hused⟩ := Option.isSome_iff_exists.1 (hfit _ hall)
    rw [List.nil_append, scanEnd, if_pos hnb]
    dsimp only
    rw [if_neg (not_lt.2 (hcard.trans (Finset.card_le_card hall))), if_pos (by simpa using henough), hused]
    rfl
  | cons t mid ih =>
    obtain ⟨hsub, hnb⟩ := hslices t (by simp)
    have hall := Finset.subset_inter hmachines hsub
    have hnext := @ih (total + t.length) (covered ++ [t]) _ hall
      (fun u hu => hslices u (List.mem_cons_of_mem _ hu)) (by
        rw [List.cons_append, totalLength_cons] at henough
        linarith)
    rw [List.cons_append, scanEnd, if_pos hnb]
    dsimp only
    rw [if_neg (not_lt.2 (hcard.trans (Finset.card_le_card hall)))]
    split
    · split
      · rfl
      · exact hnext
    · exact hnext

/-- Where machines that fit are available in some slices that are long enough, the scan finds an anchor, at the first of them or
before. -/
theorem scanAnchor_complete (hfit : ∀ available, used ⊆ available → (fit available).isSome) (hcard : requested ≤ used.card)
    {walltimeFrom : TimeSlice → ℚ} {before l mid rest : List TimeSlice} {pit : TimeSlice}
    (hslices : ∀ t ∈ pit :: mid, used ⊆ t.availableMachines ∧ (requested : ℤ) ≤ t.nbAvailableMachines)
    (henough : walltimeFrom pit ≤ totalLength (pit :: mid)) :
    ∃ a, scanAnchor (·.availableMachines) (fun pit => (requested : ℤ) ≤ pit.nbAvailableMachines) fit requested walltimeFrom before
      (l ++ (pit :: mid ++ rest)) = some a ∧ a.before.length ≤ before.length + l.length := by
  induction l generalizing before with
  | nil =>
    obtain ⟨hsub, hnb⟩ := hslices pit List.mem_cons_self
    suffices hfound : ∃ a, (if walltimeFrom pit ≤ pit.length then
        (fit pit.availableMachines).map (fun used => (⟨before, [], pit, mid ++ rest, used⟩ : Anchor))
        else scanEnd fit requested (walltimeFrom pit) before [pit] pit.availableMachines pit.length (mid ++ rest)) = some a ∧
        a.before.length ≤ before.length by
      obtain ⟨a, ha, hle⟩ := hfound
      refine ⟨a, ?_, hle⟩
      rw [List.nil_append, List.cons_append, scanAnchor, if_pos (decide_eq_true hnb), ha]
    split
    · obtain ⟨used', hused⟩ := Option.isSome_iff_exists.1 (hfit _ hsub)
      exact ⟨_, by rw [hused, Option.map_some], le_rfl⟩
    · rename_i hlong
      -- the slice alone is too short, so there is a last slice after it
      obtain ⟨mid', last, rfl⟩ : ∃ mid' last, mid = mid' ++ [last] := by
        rcases List.eq_nil_or_concat mid with rfl | ⟨mid', last, rfl⟩
        · exact absurd (by simpa using henough) hlong
        · exact ⟨mid', last, List.concat_eq_append⟩
      have hsome : (scanEnd fit requested (walltimeFrom pit) before [pit] pit.availableMachines pit.length
          (mid' ++ last :: rest)).isSome :=
        scanEnd_complete hfit hcard hsub (fun t ht => hslices t (List.mem_cons_of_mem _ ht)) (by rwa [totalLength_cons] at henough)
      rw [List.append_assoc, List.singleton_append]
      obtain ⟨a, ha⟩ := Option.isSome_iff_exists.1 hsome
      obtain ⟨_, _, hf⟩ := scanEnd_found ha
      exact ⟨a, ha, by rw [hf.before]⟩
  | cons t l ih =>
    rw [List.cons_append, scanAnchor]
    split
    · rename_i a ha
      refine ⟨a, rfl, ?_⟩
      have hbefore : a.before = before := by
        split at ha
        · split at ha
          · obtain ⟨_, _, rfl⟩ := Option.map_eq_some_iff.1 ha
            rfl
          · obtain ⟨_, _, hf⟩ := scanEnd_found ha
            exact hf.before
        · cases ha
      rw [hbefore]
      exact Nat.le_add_right _ _
    · obtain ⟨a, ha, hle⟩ := @ih (t :: before)
      refine ⟨a, ha, hle.trans ?_⟩
      rw [List.length_cons, List.length_cons]
      omega

end Complete

/-! ## How long an anchor is -/

/-- The lengths of slices that follow each other add up to the time they take. -/
theorem totalLength_tiling {b e : ℚ} {l : List TimeSlice} (h : Timeline.Tiling TimeSlice.beginDate TimeSlice.endDate b e l)
    (hlength : ∀ t ∈ l, t.length = t.endDate - t.beginDate) : totalLength l = e - b := by
  induction l generalizing b with
  | nil => simp [show b = e from h]
  | cons t l ih =>
    obtain ⟨h1, _, h3⟩ := h
    rw [totalLength_cons, ih h3 fun u hu => hlength u (List.mem_cons_of_mem _ hu), hlength t List.mem_cons_self, h1]
    ring

theorem totalLength_chained {e : ℚ} {t : TimeSlice} {l : List TimeSlice}
    (h : Timeline.Chained TimeSlice.beginDate TimeSlice.endDate e (t :: l))
    (hlength : ∀ u ∈ t :: l, u.length = u.endDate - u.beginDate) : totalLength (t :: l) = e - t.beginDate := by
  rw [totalLength_cons, totalLength_tiling h fun u hu => hlength u (List.mem_cons_of_mem _ hu), hlength t List.mem_cons_self]
  ring

/-- The slices an anchor takes, from the first. -/
theorem Anchor.slices_eq (a : Anchor) : ∃ first more, a.slices = first :: more ∧ first = a.covered.head?.getD a.last := by
  rw [Anchor.slices]
  cases a.covered with
  | nil => exact ⟨a.last, [], rfl, rfl⟩
  | cons c cs => exact ⟨c, cs ++ [a.last], rfl, rfl⟩

/-- In a timed profile the slices of an anchor follow each other up to the end of the last, and add up to the time from the begin of
the anchor to it. -/
theorem Timed.anchor {a : Anchor} (h : Timed (a.before.reverse ++ (a.covered ++ a.last :: a.rest))) :
    Timeline.Chained TimeSlice.beginDate TimeSlice.endDate a.last.endDate a.slices ∧
      totalLength a.slices = a.last.endDate - a.beginDate ∧
      (a.covered ≠ [] → totalLength a.covered = a.last.beginDate - a.beginDate) := by
  obtain ⟨e, hchain⟩ := h.chained
  have hlist : a.before.reverse ++ (a.covered ++ a.last :: a.rest) = a.before.reverse ++ (a.slices ++ a.rest) := by
    simp [Anchor.slices]
  rw [hlist] at hchain
  obtain ⟨first, more, hslices, hfirst⟩ := a.slices_eq
  rw [hslices] at hchain
  obtain ⟨c, hblock, _⟩ := hchain.block
  have hc : c = a.last.endDate := by
    rw [← hslices, Anchor.slices] at hblock
    exact hblock.eq_stop
  subst hc
  have hlength : ∀ t ∈ a.slices, t.length = t.endDate - t.beginDate := by
    intro t ht
    exact h.length t (by rw [hlist]; simp [ht])
  have hbegin : first.beginDate = a.beginDate := by rw [hfirst, Anchor.beginDate]
  refine ⟨hslices ▸ hblock, ?_, fun hne => ?_⟩
  · rw [hslices, totalLength_chained hblock (hslices ▸ hlength), hbegin]
  · cases hcovered : a.covered with
    | nil => exact absurd hcovered hne
    | cons t cs =>
      have hcut : Timeline.Chained TimeSlice.beginDate TimeSlice.endDate a.last.endDate (t :: cs ++ [a.last]) := by
        rw [← hslices, Anchor.slices, hcovered] at hblock
        exact hblock
      have hcs := ((Timeline.chained_append_cons.1 hcut).2 (List.cons_ne_nil _ _)).2
      have hlength' : ∀ u ∈ t :: cs, u.length = u.endDate - u.beginDate := by
        intro u hu
        rw [← hcovered] at hu
        exact hlength u (List.mem_append_left _ hu)
      have htbegin : t.beginDate = a.beginDate := by rw [Anchor.beginDate, hcovered]; rfl
      rw [totalLength_chained hcs hlength', htbegin]

/-- A time that the slices of an anchor are long enough for, and the ones taken whole are not, ends in the last of them. -/
theorem Timed.ends_in_last {a : Anchor} {walltime : ℚ} (h : Timed (a.before.reverse ++ (a.covered ++ a.last :: a.rest)))
    (henough : walltime ≤ totalLength a.slices) (hshort : a.covered ≠ [] → totalLength a.covered < walltime) (hpos : 0 < walltime) :
    a.last.beginDate < a.beginDate + walltime ∧ a.beginDate + walltime ≤ a.last.endDate := by
  obtain ⟨_, hall, hcovered⟩ := h.anchor
  refine ⟨?_, by linarith⟩
  cases hc : a.covered with
  | nil =>
    simp only [Anchor.beginDate, hc, List.head?_nil, Option.getD_none]
    linarith
  | cons t cs =>
    have hne : a.covered ≠ [] := by simp [hc]
    have hshort := hshort hne
    rw [hcovered hne] at hshort
    linarith

/-- A job with a positive walltime ends in the last slice of the anchor found for it. -/
theorem Timed.endDate_bounds {a : Anchor} {job : Job} {walltimeFrom : TimeSlice → ℚ}
    (h : Timed (a.before.reverse ++ (a.covered ++ a.last :: a.rest))) (hfits : AnchorFits job walltimeFrom a)
    (hpos : 0 < walltimeFrom (a.covered.head?.getD a.last)) :
    a.last.beginDate < a.beginDate + walltimeFrom (a.covered.head?.getD a.last) ∧
      a.beginDate + walltimeFrom (a.covered.head?.getD a.last) ≤ a.last.endDate :=
  h.ends_in_last hfits.enough hfits.short hpos

/-! ## Where the job is -/

/-- What a profile in which a job has been placed is: slices without the job, those that hold it, and slices without it. -/
theorem placeAt_parts {s : Schedule} {job : Job} {a : Anchor}
    (hshape : a.before.reverse ++ (a.covered ++ a.last :: a.rest) = s.profile) (hc : s.containsJob job = false)
    (endDate : ℚ) : ∃ first more after, Schedule.placeAt job a endDate = a.before.reverse ++ (first :: more ++ after) ∧
      first.beginDate = a.beginDate ∧ (∀ t ∈ first :: more, t.allocatedJobs.find? job = some a.usedMachines) ∧
      (∀ t ∈ a.before, t.containsJob job = false) ∧ ∀ t ∈ after, t.containsJob job = false := by
  have hnew := Schedule.containsJob_eq_false.1 hc
  rw [← hshape] at hnew
  have hheld : ∀ t : TimeSlice, (t.allocateJob job a.usedMachines).allocatedJobs.find? job = some a.usedMachines := by
    intro t
    exact (machinesOf_allocateJob job job a.usedMachines t).trans (if_pos rfl)
  obtain ⟨e, l, hfst⟩ := splitSlice_fst a.last endDate
  have hafter : ∀ t ∈ (a.last.splitSlice endDate).2.toList ++ a.rest, t.containsJob job = false := by
    intro t ht
    rcases List.mem_append.1 ht with ht | ht
    · obtain ⟨b, l, rfl⟩ := splitSlice_snd (Option.mem_toList.1 ht)
      exact hnew a.last (by simp)
    · exact hnew t (by simp [ht])
  have hbefore : ∀ t ∈ a.before, t.containsJob job = false := fun t ht => hnew t (by simp [ht])
  rw [placeAt_eq, Anchor.beginDate]
  cases a.covered with
  | nil =>
    refine ⟨_, [], _, rfl, ?_, ?_, hbefore, hafter⟩
    · rw [hfst]
      rfl
    · intro t ht
      rw [List.mem_singleton.1 ht]
      exact hheld _
  | cons c cs =>
    refine ⟨_, _, _, rfl, rfl, ?_, hbefore, hafter⟩
    intro t ht
    rcases List.mem_cons.1 ht with rfl | ht
    · exact hheld c
    · obtain ⟨u, _, rfl⟩ := List.mem_map.1 ht
      exact hheld u

/-! ## Calls with a selector -/

namespace Schedule

variable {s s' : Schedule} {selector : ResourceSelector} {job : Job} {b : Bool} {alloc : JobAlloc} {a : Anchor}

/-- The end of a job placed at an anchor is its begin and its walltime. -/
theorem endDateAt_eq (s : Schedule) (job : Job) (a : Anchor) :
    s.endDateAt job a = a.beginDate + if job.hasWalltime then job.walltime else s.infiniteHorizon - a.beginDate := rfl

/-- The anchor found is a cut of the profile, and the job fits there on machines of the selector's kind. -/
theorem findAnchorWith_ok (h : s.findAnchorWith selector job = some a) :
    a.before.reverse ++ (a.covered ++ a.last :: a.rest) = s.profile ∧ AnchorFits job (s.walltimeFrom job) a ∧
      selector.Suited job.nbRequestedResources a.usedMachines :=
  ⟨by simpa using scanAnchor_shape h, scanAnchor_suits (selector.fitLaws job) h⟩

/-- What a successful call of `add_job_first_fit` does: the job is placed at the anchor found, or none is found. -/
theorem addJobFirstFitWith_ok (h : s.addJobFirstFitWith selector job b = .ok (s', alloc)) :
    s.containsJob job = false ∧
      ((s.findAnchorWith selector job = none ∧ b = false ∧ s' = s ∧ alloc = { hasBeenInserted := false }) ∨
        ∃ a, s.findAnchorWith selector job = some a ∧ s' = s.placedAt job a ∧ alloc = s.allocAt job a) := by
  rw [addJobFirstFitWith] at h
  split at h
  · nomatch h
  · rename_i hc
    refine ⟨by simpa using hc, ?_⟩
    split at h
    · rename_i a ha
      cases h
      exact Or.inr ⟨a, ha, rfl, rfl⟩
    · rename_i ha
      split at h
      · nomatch h
      · rename_i hb
        cases h
        exact Or.inl ⟨ha, by simpa using hb, rfl, rfl⟩

/-- A job that is not in the schedule is placed where an anchor is found. -/
theorem addJobFirstFitWith_inserted (h : s.addJobFirstFitWith selector job b = .ok (s', alloc)) :
    alloc.hasBeenInserted = true ↔ (s.findAnchorWith selector job).isSome := by
  rcases (addJobFirstFitWith_ok h).2 with ⟨ha, _, _, rfl⟩ | ⟨a, ha, _, rfl⟩
  · simp [ha]
  · simp [ha, allocAt]

end Schedule

/-- A call with a selector is a call of `add_job_first_fit` with it, or a call that does not use it. -/
theorem ScheduleCall.runWith_cases {s s' : Schedule} {selector : ResourceSelector} {call : ScheduleCall}
    (h : ScheduleCall.runWith s (selector, call) = .ok s') :
    (∃ job b alloc, call = .addJobFirstFit job b ∧ s.addJobFirstFitWith selector job b = .ok (s', alloc)) ∨
      call.addedJob = none ∧ call.run s = .ok s' := by
  cases call with
  | addJobFirstFit job b =>
    obtain ⟨⟨s1, alloc⟩, ha, rfl⟩ := Execution.map_eq_ok.1 h
    exact Or.inl ⟨job, b, alloc, rfl, ha⟩
  | removeJob job => exact Or.inr ⟨rfl, h⟩
  | removeJobIfExists job => exact Or.inr ⟨rfl, h⟩
  | updateFirstSlice t => exact Or.inr ⟨rfl, h⟩
  | addRepairMachine m => exact Or.inr ⟨rfl, h⟩
  | removeRepairMachines m => exact Or.inr ⟨rfl, h⟩

/-- Every call keeps the times, with any selector. -/
theorem Timed.runWith {s s' : Schedule} {call : ResourceSelector × ScheduleCall} (h : Timed s.profile)
    (hrun : ScheduleCall.runWith s call = .ok s') : Timed s'.profile := by
  rcases ScheduleCall.runWith_cases hrun with ⟨job, b, alloc, _, ha⟩ | ⟨_, hrun⟩
  · rcases (Schedule.addJobFirstFitWith_ok ha).2 with ⟨_, _, rfl, _⟩ | ⟨a, hanchor, rfl, _⟩
    · exact h
    · rw [← (Schedule.findAnchorWith_ok hanchor).1] at h
      exact h.placeAt _
  · exact h.runCall hrun

/-- Every call of any operation keeps the times. -/
theorem Timed.runMixed {sorter : Sorter LargestFirst} {s s' : Schedule} {call : MixedCall} (h : Timed s.profile)
    (hrun : call.run sorter s = .ok s') : Timed s'.profile := by
  cases call with
  | plain selector call => exact h.runWith hrun
  | reserving call => exact h.runReservation hrun

/-- Every call under its condition keeps the accounting of the machines, with any selector. -/
theorem MachinesOk.runWith {W : NamedJobs} {s s' : Schedule} {call : ResourceSelector × ScheduleCall} (h : MachinesOk W s)
    (hcall : AccountedCall W s call.2) (hrun : ScheduleCall.runWith s call = .ok s') : MachinesOk W s' := by
  rcases ScheduleCall.runWith_cases hrun with ⟨job, b, alloc, hadd, ha⟩ | ⟨_, hrun⟩
  · rw [hadd] at hcall
    obtain ⟨hc, ⟨_, _, rfl, _⟩ | ⟨a, hanchor, rfl, _⟩⟩ := Schedule.addJobFirstFitWith_ok ha
    · exact h
    · obtain ⟨hshape, hfits, _⟩ := Schedule.findAnchorWith_ok hanchor
      exact h.place hcall hc hshape hfits rfl rfl rfl
  · exact h.runCall hcall hrun

/-! ## Where machines are free -/

section Free

open Timeline

/-- The machines are all available from one date to another. -/
def Schedule.FreeDuring (s : Schedule) (machines : IntervalSet) (beginDate endDate : ℚ) : Prop :=
  ∀ x, beginDate ≤ x → x < endDate → ∃ t, sliceAt s.profile x = some t ∧ machines ⊆ t.availableMachines

/-- The date at which a job would end that begins at a date. -/
def Schedule.endIfBegun (s : Schedule) (job : Job) (date : ℚ) : ℚ :=
  if job.hasWalltime then date + job.walltime else s.infiniteHorizon

/-- The first slice ends no earlier than it begins. -/
def Schedule.Upright (s : Schedule) : Prop := ∀ first ∈ s.profile.head?, first.beginDate ≤ first.endDate

/-- Every slice lies between the date of the schedule and the horizon. -/
theorem slice_bounds {s : Schedule} (ht : Timed s.profile) (hup : s.Upright) {t : TimeSlice} (hmem : t ∈ s.profile) :
    s.firstSliceBegin ≤ t.beginDate ∧ t.beginDate ≤ t.endDate ∧ t.endDate ≤ s.infiniteHorizon := by
  obtain ⟨first, rest, hp, hbegin, hchain⟩ := exists_chain ht
  rw [hp] at hmem
  rw [← hbegin]
  exact hchain.bounds (hup first (by rw [hp]; rfl)) hmem

/-- Where machines that the selector can take are available from a date on for all of the job, it fits at the begin of the slice of
that date, and an anchor is found there or before. -/
theorem exists_anchor_of_free {W : NamedJobs} {s : Schedule} {selector : ResourceSelector} {job : Job} {machines : IntervalSet}
    {date : ℚ} (hm : MachinesOk W s) (ht : Timed s.profile) (hup : s.Upright)
    (hfit : ∀ available, machines ⊆ available → (selector.fit job available).isSome)
    (hcard : job.nbRequestedResources ≤ machines.card) (hlt : date < s.endIfBegun job date)
    (hhorizon : s.endIfBegun job date ≤ s.infiniteHorizon) (hfree : s.FreeDuring machines date (s.endIfBegun job date)) :
    ∃ a, s.findAnchorWith selector job = some a ∧ a.beginDate ≤ date := by
  obtain ⟨first, rest, hp, hbegin, hchain⟩ := exists_chain ht
  obtain ⟨t, hlookup, htfree⟩ := hfree date le_rfl hlt
  obtain ⟨htmem, hin⟩ := mem_of_lookup hlookup
  obtain ⟨l, r, hsplit⟩ := List.append_of_mem htmem
  rw [← hp, hsplit] at hchain
  -- the slices that begin before the job ends
  obtain ⟨mid, rest', c, rfl, hmid, hc, hbefore⟩ := (chained_append_cons.1 hchain).1.exists_initial hhorizon
  have hlength : ∀ u ∈ t :: mid, u.length = u.endDate - u.beginDate := fun u hu => ht.length u (by
    rw [hsplit]
    rcases List.mem_cons.1 hu with rfl | hu <;> simp [*])
  have hall : ∀ u ∈ t :: mid, machines ⊆ u.availableMachines := by
    intro u hu
    rcases List.mem_cons.1 hu with rfl | hu
    · exact htfree
    · obtain ⟨hafter, hpos, _⟩ := hmid.bounds hu
      obtain ⟨v, hv, hvfree⟩ := hfree u.beginDate (hin.2.le.trans hafter) (hbefore u hu)
      have hself : sliceAt s.profile u.beginDate = some u := by
        rw [hsplit]
        exact hchain.lookup_eq_some.2 ⟨by simp [hu], le_rfl, hpos⟩
      rw [hself] at hv
      cases hv
      exact hvfree
  have hslices : ∀ u ∈ t :: mid, machines ⊆ u.availableMachines ∧ (job.nbRequestedResources : ℤ) ≤ u.nbAvailableMachines := by
    intro u hu
    have hmem : u ∈ s.profile := by
      rw [hsplit]
      rcases List.mem_cons.1 hu with rfl | hu <;> simp [*]
    refine ⟨hall u hu, ?_⟩
    rw [(hm.slices u hmem).count]
    exact_mod_cast hcard.trans (Finset.card_le_card (hall u hu))
  have htotal : s.walltimeFrom job t ≤ totalLength (t :: mid) := by
    have hblock : Chained TimeSlice.beginDate TimeSlice.endDate c (t :: mid) := hmid
    rw [totalLength_chained hblock hlength, Schedule.walltimeFrom]
    rw [Schedule.endIfBegun] at hc
    split
    · rename_i hw
      rw [if_pos hw] at hc
      linarith [hin.1]
    · rename_i hw
      rw [if_neg hw] at hc
      linarith
  obtain ⟨a, hfound, hle⟩ : ∃ a, s.findAnchorWith selector job = some a ∧ a.before.length ≤ ([] : List TimeSlice).length + l.length := by
    rw [Schedule.findAnchorWith, hsplit, ← List.cons_append]
    exact scanAnchor_complete hfit hcard hslices htotal
  refine ⟨a, hfound, ?_⟩
  -- the anchor is at the slice of the date or before it
  obtain ⟨first', more, hslices', hfirst'⟩ := a.slices_eq
  have hshape : a.before.reverse ++ first' :: (more ++ a.rest) = l ++ t :: (mid ++ rest') := by
    rw [← hsplit, ← (Schedule.findAnchorWith_ok hfound).1, ← List.cons_append, ← hslices', Anchor.slices]
    simp
  have hchain' := hchain
  rw [← hshape] at hchain'
  have hle' := hchain'.start_le (by rw [hshape, ← hsplit]; exact hup) hshape (by simpa using hle)
  rw [Anchor.beginDate, ← hfirst']
  exact hle'.trans hin.1

end Free

end ScheduleTest
