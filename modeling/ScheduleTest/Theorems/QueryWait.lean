import ScheduleTest.Lemmas.FirstFit

/-!
# Estimating waiting times

`query_wait` searches the profile by itself. It finds the slice that first fit would begin in, and answers with the date at which
that slice begins, where its comment promises a time away from now.
-/

namespace ScheduleTest

open Execution

/-- The answer to a request that would be placed by `alloc`: no place where none is found, else the time away from now. -/
def AnswersWait (s : Schedule) (alloc : JobAlloc) (answer : ℚ) : Prop :=
  (answer = -1 ↔ alloc.hasBeenInserted = false) ∧
    (alloc.hasBeenInserted = true → answer = alloc.beginDate - s.firstSliceBegin)

namespace QueryWaitAux

/-! ## The two searches agree -/

section Search

variable {fit : IntervalSet → Option IntervalSet} {size : ℕ} {time : ℚ}

/-- The inner loop of `query_wait` finds an end where the scan for one does. -/
theorem queryWaitEnd_eq (before covered : List TimeSlice) (machines : IntervalSet) (total : ℚ) (after : List TimeSlice) :
    Schedule.queryWaitEnd fit size time machines total after = (scanEnd fit size time before covered machines total after).isSome := by
  induction after generalizing covered machines total with
  | nil => rfl
  | cons pit2 rest ih =>
    rw [Schedule.queryWaitEnd, scanEnd]
    split
    · dsimp only
      split
      · rfl
      · by_cases hlen : time ≤ total + pit2.length
        · cases hused : fit (machines ∩ pit2.availableMachines) with
          | some used => simp [hlen]
          | none => simp [hlen, ih (covered ++ [pit2])]
        · simp [hlen, ih (covered ++ [pit2])]
    · rfl

/-- The outer loop of `query_wait` answers with the begin of the anchor that the scan finds. -/
theorem queryWaitFrom_eq (before after : List TimeSlice) :
    Schedule.queryWaitFrom fit size time after =
      match scanAnchor (·.availableMachines) (fun pit => (size : ℤ) ≤ pit.nbAvailableMachines) fit size (fun _ => time)
        before after with
      | some a => a.beginDate
      | none => -1 := by
  induction after generalizing before with
  | nil => rfl
  | cons pit rest ih =>
    rw [Schedule.queryWaitFrom, scanAnchor]
    by_cases hnb : (size : ℤ) ≤ pit.nbAvailableMachines
    · rw [if_pos hnb, if_pos (decide_eq_true hnb)]
      by_cases hlen : time ≤ pit.length
      · rw [if_pos hlen, if_pos hlen]
        cases hused : fit pit.availableMachines with
        | some used => rfl
        | none => exact ih (pit :: before)
      · rw [if_neg hlen, if_neg hlen, queryWaitEnd_eq before [pit]]
        cases hend : scanEnd fit size time before [pit] pit.availableMachines pit.length rest with
        | some a =>
          obtain ⟨mid, _, hf⟩ := scanEnd_found hend
          simp [Anchor.beginDate, hf.covered]
        | none => exact ih (pit :: before)
    · rw [if_neg hnb, if_neg (by simpa using hnb)]
      exact ih (pit :: before)

end Search

/-- What a selector takes depends on how many machines a job requests only. -/
theorem fit_congr (selector : ResourceSelector) {job job' : Job} (h : job.nbRequestedResources = job'.nbRequestedResources) :
    selector.fit job = selector.fit job' := by
  funext available
  cases selector with
  | basic => simp [ResourceSelector.fit, BasicResourceSelector.fit, h]
  | contiguous => simp [ResourceSelector.fit, ContiguousResourceSelector.fit, h]
  | limitedRange range => simp [ResourceSelector.fit, LimitedRangeResourceSelector.fit, h]

/-- `query_wait` answers with the begin of the anchor that `add_job_first_fit` finds. -/
theorem queryWait_eq (s : Schedule) (selector : ResourceSelector) {job : Job} (hw : job.hasWalltime = true) :
    s.queryWait job.nbRequestedResources job.walltime selector =
      match s.findAnchorWith selector job with
      | some a => a.beginDate
      | none => -1 := by
  have hwalltime : s.walltimeFrom job = fun _ => job.walltime := by
    funext pit
    rw [Schedule.walltimeFrom, if_pos hw]
  rw [Schedule.queryWait, Schedule.findAnchorWith, hwalltime,
    @fit_congr selector (Schedule.fakeJob job.nbRequestedResources job.walltime) job rfl]
  exact queryWaitFrom_eq [] s.profile

/-! ## The dates of the slices -/

variable {s s' : Schedule} {job : Job} {p l r : List TimeSlice} {a : Anchor}

/-- The first slice ends before it begins by the tolerance on dates at most, or is the only one. -/
def FirstNear (p : List TimeSlice) : Prop := ∀ first ∈ p.head?, first.beginDate ≤ first.endDate + epsilon ∨ p.length = 1

theorem epsilon_pos : 0 < epsilon ∧ epsilon < 1 := by decide +kernel

/-- A change of the slices that keeps how many there are and the dates of the first. -/
theorem FirstNear.congr {p' : List TimeSlice} (h : FirstNear p) (hlength : p'.length = p.length)
    (hhead : p'.head?.map TimeSlice.dates = p.head?.map TimeSlice.dates) : FirstNear p' := by
  intro first' hfirst'
  rw [hfirst', Option.map_some] at hhead
  obtain ⟨first, hfirst, heq⟩ := Option.map_eq_some_iff.1 hhead.symm
  have hdates := Prod.mk.inj heq
  rw [hlength, ← hdates.1, ← hdates.2]
  exact h first hfirst

/-- A profile of at least two slices whose first is near. -/
theorem FirstNear.of_two {first second : TimeSlice} {rest : List TimeSlice} (h : FirstNear (first :: second :: rest)) :
    first.beginDate ≤ first.endDate + epsilon :=
  (h first rfl).resolve_right (by simp)

theorem firstNear_cons {first : TimeSlice} {rest : List TimeSlice} (h : first.beginDate ≤ first.endDate + epsilon) :
    FirstNear (first :: rest) := by
  intro u hu
  rw [← Option.some.inj hu]
  exact Or.inl h

theorem FirstNear.placeAt {endDate : ℚ} (h : FirstNear (a.before.reverse ++ (a.covered ++ a.last :: a.rest))) :
    FirstNear (Schedule.placeAt job a endDate) := by
  rw [placeAt_eq]
  rcases List.eq_nil_or_concat a.before with hb | ⟨older, first, hb⟩
  · rw [hb, List.reverse_nil, List.nil_append] at h ⊢
    cases hc : a.covered with
    | cons c cs =>
      rw [hc] at h
      refine firstNear_cons ?_
      cases cs with
      | nil => exact h.of_two
      | cons c' cs => exact h.of_two
    | nil =>
      rw [hc] at h
      rw [TimeSlice.splitSlice]
      split
      · rename_i hd
        exact firstNear_cons (le_add_of_le_of_nonneg hd.1.le epsilon_pos.1.le)
      · exact h.congr rfl rfl
  · have hhead : ∀ q, a.before.reverse ++ q = first :: (older.reverse ++ q) := by
      intro q
      rw [hb]
      simp
    rw [hhead] at h ⊢
    refine firstNear_cons ?_
    exact (h first rfl).resolve_right (by simp)

theorem FirstNear.merge {previous pit merged : TimeSlice} (ht : Timed (l ++ previous :: pit :: r))
    (h : FirstNear (l ++ previous :: pit :: r)) (hm : previous.mergeWithPrevious pit = .ok (some merged)) :
    FirstNear (l ++ merged :: r) := by
  rw [(mergeWithPrevious_some hm).1]
  cases l with
  | nil =>
    obtain ⟨e, hbegin, hpos, _⟩ := ht.chained
    have hnear : previous.beginDate ≤ previous.endDate + epsilon := h.of_two
    refine firstNear_cons ?_
    change previous.beginDate ≤ pit.endDate + epsilon
    rw [← hbegin] at hnear
    linarith
  | cons b l =>
    refine firstNear_cons ?_
    exact (h b rfl).resolve_right (by simp)

/-- Every call keeps the first slice near, with any selector. -/
theorem FirstNear.runWith {call : ResourceSelector × ScheduleCall} (ht : Timed s.profile) (h : FirstNear s.profile)
    (hrun : ScheduleCall.runWith s call = .ok s') : FirstNear s'.profile := by
  have remove : ∀ {job b s'}, s.removeJobIfExists job = .ok (s', b) → FirstNear s'.profile := by
    intro job b s' hr
    rcases Schedule.removeJobIfExists_ok hr with ⟨_, rfl, _⟩ | ⟨_, before, pit, rest, ms, p', hprofile, hbefore, _, hp, rfl⟩
    · exact h
    · rw [hprofile, ← List.reverse_reverse before] at h ht
      refine (removeFrom_rule (P := fun p => Timed p ∧ FirstNear p) ?_ ?_ (fun t ht => hbefore t (List.mem_reverse.1 ht))
        ⟨ht, h⟩ hp).2
      · rintro l pit r ⟨ht, h⟩ _ _
        refine ⟨ht.erase, h.congr (by simp) ?_⟩
        cases l <;> rfl
      · rintro l previous pit merged r ⟨ht, h⟩ hm
        exact ⟨ht.merge hm, h.merge ht hm⟩
  rcases ScheduleCall.runWith_cases hrun with ⟨job, b, alloc, _, ha⟩ | ⟨hadd, hrun⟩
  · rcases (Schedule.addJobFirstFitWith_ok ha).2 with ⟨_, _, rfl, _⟩ | ⟨a, hanchor, rfl, _⟩
    · exact h
    · rw [← (Schedule.findAnchorWith_ok hanchor).1] at h
      exact h.placeAt
  · cases hcall : call.2 with
    | addJobFirstFit job b =>
      rw [hcall] at hadd
      cases hadd
    | removeJob job =>
      rw [hcall] at hrun
      exact remove (Schedule.removeJob_ok hrun)
    | removeJobIfExists job =>
      rw [hcall] at hrun
      obtain ⟨⟨s1, b⟩, ha, rfl⟩ := map_eq_ok.1 hrun
      exact remove ha
    | updateFirstSlice t =>
      rw [hcall] at hrun
      change s.updateFirstSlice t = .ok s' at hrun
      rw [Schedule.updateFirstSlice] at hrun
      split at hrun
      · cases hrun
      · split at hrun
        · rename_i hnear
          cases hrun
          exact firstNear_cons hnear.2
        · cases hrun
    | addRepairMachine m =>
      rw [hcall] at hrun
      cases hrun
      refine h.congr (by simp [Schedule.addRepairMachine]) ?_
      simp only [Schedule.addRepairMachine, List.head?_map, Option.map_map]
      rfl
    | removeRepairMachines m =>
      rw [hcall] at hrun
      cases hrun
      refine h.congr (by simp [Schedule.removeRepairMachines]) ?_
      simp only [Schedule.removeRepairMachines, List.head?_map, Option.map_map]
      rfl

/-- No slice begins long before the first one does. -/
theorem firstSliceBegin_le {t : TimeSlice} (ht : Timed s.profile) (h : FirstNear s.profile) (hmem : t ∈ s.profile) :
    s.firstSliceBegin ≤ t.beginDate + epsilon := by
  obtain ⟨e, hchain⟩ := ht.chained
  rw [Schedule.firstSliceBegin]
  cases hp : s.profile with
  | nil =>
    rw [hp] at hmem
    cases hmem
  | cons first rest =>
    rw [hp] at hmem hchain h
    change first.beginDate ≤ _
    rcases List.mem_cons.1 hmem with rfl | hmem
    · exact le_add_of_nonneg_right epsilon_pos.1.le
    · have hle := (Timeline.Tiling.bounds hchain hmem).1
      cases rest with
      | nil => cases hmem
      | cons second rest => exact h.of_two.trans (by linarith)

end QueryWaitAux

open QueryWaitAux in
/-- In every state that a run of calls reaches, with any selectors and under repair of any machines, `query_wait` answers as
promised for a job that is not in the schedule exactly where the job has no place, or the date of the schedule is zero. -/
theorem query_wait_iff (n : ℕ) (t0 : ℚ) (calls : List (ResourceSelector × ScheduleCall)) :
    Always ScheduleCall.runWith (fun s => ∀ (selector : ResourceSelector) (job : Job), s.containsJob job = false →
      job.hasWalltime = true → ∃ s' alloc, s.addJobFirstFitWith selector job false = .ok (s', alloc) ∧
        (AnswersWait s alloc (s.queryWait job.nbRequestedResources job.walltime selector) ↔
          s.findAnchorWith selector job = none ∨ s.firstSliceBegin = 0)) (Schedule.new n t0) calls := by
  have hsteps : AllSteps ScheduleCall.runWith (fun _ _ => True) (Schedule.new n t0) calls :=
    allSteps_of_forall fun _ _ => trivial
  refine always_of_invariant (I := fun s => Timed s.profile ∧ FirstNear s.profile) ?_ ?_ ?_ hsteps
  · intro s s' call h _ hrun
    exact ⟨h.1.runWith hrun, FirstNear.runWith h.1 h.2 hrun⟩
  · intro s h selector job hc hw
    rw [queryWait_eq s selector hw]
    cases ha : s.findAnchorWith selector job with
    | none =>
      refine ⟨s, { hasBeenInserted := false }, ?_, ?_⟩
      · rw [Schedule.addJobFirstFitWith, hc, ha]
        rfl
      · simp [AnswersWait]
    | some a =>
      refine ⟨s.placedAt job a, s.allocAt job a, ?_, ?_⟩
      · rw [Schedule.addJobFirstFitWith, hc, ha]
        rfl
      · obtain ⟨hshape, _⟩ := Schedule.findAnchorWith_ok ha
        have hmem : a.covered.head?.getD a.last ∈ s.profile := by
          rw [← hshape]
          cases a.covered <;> simp
        have hle : s.firstSliceBegin ≤ a.beginDate + epsilon := firstSliceBegin_le h.1 h.2 hmem
        have heps := epsilon_pos.2
        simp only [AnswersWait, Schedule.allocAt, reduceCtorEq, false_or, true_implies]
        constructor
        · rintro ⟨_, heq⟩
          linarith
        · intro hzero
          rw [hzero] at hle ⊢
          refine ⟨⟨fun heq => ?_, False.elim⟩, by ring⟩
          rw [heq] at hle
          linarith
  · refine ⟨Timed.new n t0, fun first hfirst => Or.inr rfl⟩

/-- A job of ten seconds on one machine. -/
def QueryWaitWitness.job : Job := { id := "w!1", nbRequestedResources := 1, walltime := 10 }

open QueryWaitWitness in
/-- At date five, a job that can start at once is told to wait for five seconds. -/
theorem query_wait_false :
    ¬ (∀ (n : ℕ) (t0 : ℚ) (calls : List (ResourceSelector × ScheduleCall)), Always ScheduleCall.runWith (fun s =>
      ∀ (selector : ResourceSelector) (job : Job), s.containsJob job = false → job.hasWalltime = true →
        ∃ s' alloc, s.addJobFirstFitWith selector job false = .ok (s', alloc) ∧
          AnswersWait s alloc (s.queryWait job.nbRequestedResources job.walltime selector)) (Schedule.new n t0) calls) := by
  intro h
  have hrun : (runFrom ScheduleCall.runWith (Schedule.new 1 0) [(.basic, .updateFirstSlice 5)]).toOption.map
      (fun s => (s.containsJob job, s.firstSliceBegin, s.queryWait 1 10 .basic,
        (s.addJobFirstFitWith .basic job false).toOption.map (fun x => (x.2.beginDate, x.2.hasBeenInserted)))) =
      some (false, 5, 5, some (5, true)) := by decide +kernel
  obtain ⟨s, hs, hvalue⟩ := toOption_map_eq_some.1 hrun
  simp only [Prod.mk.injEq] at hvalue
  obtain ⟨hc, hfirst, hwait, hadd⟩ := hvalue
  obtain ⟨s', alloc, hok, hanswer⟩ := (h 1 0 _).last hs .basic job hc rfl
  rw [hok] at hadd
  simp only [Except.toOption, Option.map_some, Option.some.injEq, Prod.mk.injEq] at hadd
  have heq := hanswer.2 hadd.2
  change s.queryWait 1 10 .basic = _ at heq
  rw [hwait, hadd.1, hfirst] at heq
  revert heq
  decide +kernel

end ScheduleTest
