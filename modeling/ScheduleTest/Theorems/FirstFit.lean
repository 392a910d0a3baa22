import ScheduleTest.Lemmas.FirstFit
import Mathlib.Order.Bounds.Defs

/-!
# First fit is earliest fit

`add_job_first_fit` tries the begins of the slices only, and goes on from the next slice where a trial fails. In every state that a
run of calls reaches, a job is placed wherever it can be, at the earliest date at which it can begin: at a date inside a slice a job
can begin no earlier than at the begin of the slice. This needs the first slice not to have been moved past its end, which the
tolerance on dates allows.
-/

namespace ScheduleTest

open Execution Timeline

/-- The job can begin at a date: as many machines as it requests, of the kind the selector takes, are available during all of its
walltime, which ends at the horizon at the latest. -/
def Schedule.CanBegin (s : Schedule) (selector : ResourceSelector) (job : Job) (date : ℚ) : Prop :=
  s.firstSliceBegin ≤ date ∧ date + job.walltime ≤ s.infiniteHorizon ∧
    ∃ machines, machines.card = job.nbRequestedResources ∧ selector.Suited job.nbRequestedResources machines ∧
      s.FreeDuring machines date (date + job.walltime)

/-- The job has been placed at the earliest date at which it can begin, on machines that are available all the time, in the slices
of that time and in no other; or it cannot begin at any date. -/
structure EarliestFit (s s' : Schedule) (selector : ResourceSelector) (job : Job) (alloc : JobAlloc) : Prop where
  inserted : alloc.hasBeenInserted = true ↔ ∃ date, s.CanBegin selector job date
  earliest : alloc.hasBeenInserted = true → IsLeast {date | s.CanBegin selector job date} alloc.beginDate
  machines : alloc.hasBeenInserted = true → alloc.usedMachines.card = job.nbRequestedResources ∧
    selector.Suited job.nbRequestedResources alloc.usedMachines ∧
    s.FreeDuring alloc.usedMachines alloc.beginDate (alloc.beginDate + job.walltime)
  inside : alloc.hasBeenInserted = true → ∀ t ∈ s'.profile, t.containsJob job = true →
    t.allocatedJobs.find? job = some alloc.usedMachines ∧ alloc.beginDate ≤ t.beginDate ∧
      t.endDate ≤ alloc.beginDate + job.walltime
  covered : alloc.hasBeenInserted = true → ∀ x, alloc.beginDate ≤ x → x < alloc.beginDate + job.walltime →
    ∃ t, sliceAt s'.profile x = some t ∧ t.containsJob job = true

namespace FirstFitAux

variable {W : NamedJobs} {s : Schedule} {selector : ResourceSelector} {job : Job} {a : Anchor} {date : ℚ}

/-- Where the job can begin at a date, an anchor is found there or before. -/
theorem exists_anchor (hm : MachinesOk W s) (ht : Timed s.profile) (hup : s.Upright) (hr : 0 < job.nbRequestedResources)
    (hw : job.hasWalltime = true) (hwpos : 0 < job.walltime) (hd : s.CanBegin selector job date) :
    ∃ a, s.findAnchorWith selector job = some a ∧ a.beginDate ≤ date := by
  obtain ⟨_, hhorizon, machines, hcard, hsuited, hfree⟩ := hd
  have hend : s.endIfBegun job date = date + job.walltime := by rw [Schedule.endIfBegun, if_pos hw]
  refine exists_anchor_of_free hm ht hup (fun available hsub => ResourceSelector.fit_complete hr hsub hcard hsuited) hcard.ge
    ?_ ?_ ?_
  · rw [hend]
    linarith
  · rw [hend]
    exact hhorizon
  · rw [hend]
    exact hfree

/-- The machines taken at the anchor found are available during all of the job. -/
theorem freeDuring_anchor (ht : Timed s.profile) (hup : s.Upright) (hw : job.hasWalltime = true)
    (ha : s.findAnchorWith selector job = some a) :
    s.FreeDuring a.usedMachines a.beginDate (a.beginDate + job.walltime) ∧ s.firstSliceBegin ≤ a.beginDate ∧
      a.beginDate + job.walltime ≤ s.infiniteHorizon := by
  obtain ⟨hshape, hfits, _⟩ := Schedule.findAnchorWith_ok ha
  obtain ⟨first, rest, hp, hbegin, hchain⟩ := exists_chain ht
  obtain ⟨first', more, hslices, hfirst'⟩ := a.slices_eq
  have hlist : s.profile = a.before.reverse ++ (first' :: more ++ a.rest) := by
    rw [← hshape, ← hslices, Anchor.slices]
    simp
  have htimed := ht
  rw [← hshape] at htimed
  obtain ⟨hblock, htotal, _⟩ := htimed.anchor
  rw [hslices] at hblock
  have henough := hfits.enough
  rw [htotal, Schedule.walltimeFrom, if_pos hw] at henough
  have hmem : first' ∈ s.profile := by rw [hlist]; simp
  have hlast : a.last ∈ s.profile := by rw [← hshape]; simp
  have hfirst := slice_bounds ht hup hmem
  have hbegin' : first'.beginDate = a.beginDate := by rw [hfirst', Anchor.beginDate]
  rw [hbegin'] at hfirst
  refine ⟨fun x hx hx' => ?_, hfirst.1, ?_⟩
  · rw [← hp, hlist] at hchain
    have hfirstle : ∀ u ∈ (a.before.reverse ++ (first' :: more ++ a.rest)).head?, u.beginDate ≤ x := by
      rw [← hlist, hp]
      intro u hu
      rw [← Option.some.inj hu, hbegin]
      exact hfirst.1.trans hx
    obtain ⟨hnone, t, hlookup⟩ := (hchain.lookup_block hblock hfirstle).1 ⟨hbegin' ▸ hx, by linarith⟩
    refine ⟨t, ?_, hfits.used t ?_⟩
    · rw [hlist, sliceAt, lookup_append, hnone, lookup_append, hlookup]
      rfl
    · rw [hslices]
      exact (mem_of_lookup hlookup).1
  · have := (slice_bounds ht hup hlast).2.2
    linarith

/-- The slices that hold the job placed are those between its begin and its end, and there is one at every date between. -/
theorem placed_slices (ht : Timed s.profile) (hup : s.Upright) (hc : s.containsJob job = false) (hw : job.hasWalltime = true)
    (hwpos : 0 < job.walltime) (ha : s.findAnchorWith selector job = some a) :
    (∀ t ∈ (s.placedAt job a).profile, t.containsJob job = true → t.allocatedJobs.find? job = some a.usedMachines ∧
      a.beginDate ≤ t.beginDate ∧ t.endDate ≤ a.beginDate + job.walltime) ∧
    ∀ x, a.beginDate ≤ x → x < a.beginDate + job.walltime →
      ∃ t, sliceAt (s.placedAt job a).profile x = some t ∧ t.containsJob job = true := by
  obtain ⟨hshape, hfits, _⟩ := Schedule.findAnchorWith_ok ha
  have hend : s.endDateAt job a = a.beginDate + job.walltime := by rw [Schedule.endDateAt_eq, if_pos hw]
  have hwalltime : s.walltimeFrom job (a.covered.head?.getD a.last) = job.walltime := by rw [Schedule.walltimeFrom, if_pos hw]
  have htimed := ht
  rw [← hshape] at htimed
  have hbounds := htimed.endDate_bounds hfits (by rwa [hwalltime])
  rw [hwalltime] at hbounds
  obtain ⟨first, more, hblock, hfirst, hsplit, hchain⟩ := placeAt_block hbounds.1 hbounds.2 htimed
  have hnew := Schedule.containsJob_eq_false.1 hc
  obtain ⟨e, l', hfst⟩ := splitSlice_fst a.last (a.beginDate + job.walltime)
  have hprofile : (s.placedAt job a).profile = a.before.reverse ++ ((first :: more).map (TimeSlice.allocateJob job a.usedMachines) ++
      ((a.last.splitSlice (a.beginDate + job.walltime)).2.toList ++ a.rest)) := by
    rw [← hblock, ← hend]
    exact placeAt_eq job a _
  have hheld : ∀ t : TimeSlice, (t.allocateJob job a.usedMachines).allocatedJobs.find? job = some a.usedMachines := by
    intro t
    exact (machinesOf_allocateJob job job a.usedMachines t).trans (if_pos rfl)
  constructor
  · intro t hmem hct
    rw [hprofile, List.mem_append, List.mem_append, List.mem_append, List.mem_reverse, List.mem_map] at hmem
    rcases hmem with hmem | ⟨u, hu, rfl⟩ | hmem | hmem
    · rw [hnew t (by rw [← hshape]; simp [hmem])] at hct
      cases hct
    · -- the first of the slices taken is not inverted either
      have hupFirst : first.beginDate ≤ first.endDate := by
        rcases List.eq_nil_or_concat a.before with hb | ⟨older, b, hb⟩
        · rw [hb] at hshape
          cases hcovered : a.covered with
          | nil =>
            rw [hcovered, List.nil_append] at hblock
            rw [← (List.cons.inj hblock).1]
            obtain ⟨h1, h2⟩ := splitSlice_fst_dates hbounds.1 hbounds.2
            rw [h1, h2]
            exact hbounds.1.le
          | cons c cs =>
            rw [hcovered] at hblock hshape
            obtain ⟨rfl, _⟩ := List.cons.inj hblock
            exact hup c (by rw [← hshape]; rfl)
        · obtain ⟨e, hc⟩ := hsplit.chained
          exact ((chained_append_cons.1 (show Chained TimeSlice.beginDate TimeSlice.endDate e
            (a.before.reverse ++ first :: (more ++ _)) from hc)).2 (by simp [hb])).1.le
      obtain ⟨h1, _, h2⟩ := hchain.bounds hupFirst hu
      exact ⟨hheld u, hfirst ▸ h1, h2⟩
    · obtain ⟨b, l, rfl⟩ := splitSlice_snd (Option.mem_toList.1 hmem)
      rw [containsJob_retime, hnew a.last (by rw [← hshape]; simp)] at hct
      cases hct
    · rw [hnew t (by rw [← hshape]; simp [hmem])] at hct
      cases hct
  · intro x hx hx'
    have hbegin := (freeDuring_anchor ht hup hw ha).2.1
    obtain ⟨first', rest, hp, hfirstBegin, _⟩ := exists_chain ht
    have hview := @sliceAt_placeAt _ (fun t => t.containsJob job) x job a (a.beginDate + job.walltime) (fun _ _ _ _ => rfl) htimed
      hbounds.1
      hbounds.2 (by
        rw [hshape, hp]
        intro u hu
        rw [← Option.some.inj hu, hfirstBegin]
        exact hbegin.trans hx)
    obtain ⟨t, hlookup, _⟩ := (freeDuring_anchor ht hup hw ha).1 x hx hx'
    rw [hshape, hlookup, Option.map_some, if_pos ⟨hx, hx'⟩] at hview
    obtain ⟨u, hu, huc⟩ := Option.map_eq_some_iff.1 hview
    refine ⟨u, ?_, huc.trans ?_⟩
    · rw [← hu, ← hend]
      rfl
    · rw [containsJob_eq_isSome, machinesOf, hheld]
      rfl

/-- A job that is not in the schedule is placed at the earliest date at which it can begin. -/
theorem earliestFit (hm : MachinesOk W s) (ht : Timed s.profile) (hup : s.Upright) (hc : s.containsJob job = false)
    (hr : 0 < job.nbRequestedResources) (hw : job.hasWalltime = true) (hwpos : 0 < job.walltime) :
    ∃ s' alloc, s.addJobFirstFitWith selector job false = .ok (s', alloc) ∧ EarliestFit s s' selector job alloc := by
  cases ha : s.findAnchorWith selector job with
  | none =>
    have hnot : ({ hasBeenInserted := false } : JobAlloc).hasBeenInserted ≠ true := by decide
    refine ⟨s, { hasBeenInserted := false }, ?_, ⟨⟨fun h => absurd h hnot, ?_⟩, fun h => absurd h hnot, fun h => absurd h hnot,
      fun h => absurd h hnot, fun h => absurd h hnot⟩⟩
    · rw [Schedule.addJobFirstFitWith, hc, ha]
      rfl
    · rintro ⟨date, hd⟩
      obtain ⟨a, ha', _⟩ := exists_anchor hm ht hup hr hw hwpos hd
      rw [ha] at ha'
      cases ha'
  | some a =>
    obtain ⟨hfree, hfirst, hhorizon⟩ := freeDuring_anchor ht hup hw ha
    obtain ⟨_, hfits, hsuited⟩ := Schedule.findAnchorWith_ok ha
    obtain ⟨hinside, hcovered⟩ := placed_slices ht hup hc hw hwpos ha
    have hcan : s.CanBegin selector job a.beginDate := ⟨hfirst, hhorizon, a.usedMachines, hfits.card, hsuited, hfree⟩
    refine ⟨s.placedAt job a, s.allocAt job a, ?_, ⟨⟨fun _ => ⟨_, hcan⟩, fun _ => rfl⟩, fun _ => ⟨hcan, ?_⟩,
      fun _ => ⟨hfits.card, hsuited, hfree⟩, fun _ => hinside, fun _ => hcovered⟩⟩
    · rw [Schedule.addJobFirstFitWith, hc, ha]
      rfl
    · intro date hd
      obtain ⟨a', ha', hle⟩ := exists_anchor hm ht hup hr hw hwpos hd
      rw [ha] at ha'
      cases ha'
      exact hle

end FirstFitAux

open FirstFitAux in
/-- In every state with an upright first slice that a run of calls under their condition reaches, with any selectors, a job that is
not in the schedule is placed at the earliest date at which it can begin, if there is one. -/
theorem first_fit_earliest (W : Workload) (n : ℕ) (t0 : ℚ) (calls : List (ResourceSelector × ScheduleCall))
    (hcalls : AllSteps ScheduleCall.runWith (fun s call => AccountedCall W s call.2) (Schedule.new n t0) calls) :
    Always ScheduleCall.runWith (fun s => s.Upright → ∀ (selector : ResourceSelector) (job : Job), s.containsJob job = false →
      0 < job.nbRequestedResources → job.hasWalltime = true → 0 < job.walltime →
        ∃ s' alloc, s.addJobFirstFitWith selector job false = .ok (s', alloc) ∧ EarliestFit s s' selector job alloc)
      (Schedule.new n t0) calls := by
  refine always_of_invariant (I := fun s => MachinesOk W s ∧ Timed s.profile) ?_ ?_
    ⟨MachinesOk.new W n t0, Timed.new n t0⟩ hcalls
  · intro s s' call h hcall hrun
    exact ⟨h.1.runWith hcall hrun, h.2.runWith hrun⟩
  · intro s h hup selector job hc hr hw hwpos
    exact earliestFit h.1 h.2 hup hc hr hw hwpos

namespace FirstFitWitness

/-- A job of ten seconds on one machine. -/
def job : Job := { id := "w!1", nbRequestedResources := 1, walltime := 10 }

/-- A job of one second on one machine. -/
def shortJob : Job := { id := "w!2", nbRequestedResources := 1, walltime := 1 }

/-- A workload of the job. -/
def workload : Workload := Workload.ofList [job] (by decide) (by decide)

/-- The job is placed, and a little more time passes than it takes. -/
def calls : List (ResourceSelector × ScheduleCall) :=
  [(.contiguous, .addJobFirstFit job true), (.basic, .updateFirstSlice (10 + 1 / 16384))]

end FirstFitWitness

open FirstFitWitness in
/-- The calls go through, and in every upright state of the run jobs are placed at the earliest date. -/
theorem first_fit_earliest_witness :
    abortOf (runFrom ScheduleCall.runWith (Schedule.new 1 0) calls) = none ∧
      Always ScheduleCall.runWith (fun s => s.Upright → ∀ (selector : ResourceSelector) (job : Job), s.containsJob job = false →
        0 < job.nbRequestedResources → job.hasWalltime = true → 0 < job.walltime →
          ∃ s' alloc, s.addJobFirstFitWith selector job false = .ok (s', alloc) ∧ EarliestFit s s' selector job alloc)
        (Schedule.new 1 0) calls :=
  ⟨by decide +kernel, first_fit_earliest workload 1 0 calls
    ⟨List.mem_cons_self, fun _ _ => ⟨trivial, fun _ _ => trivial⟩⟩⟩

open FirstFitWitness in
/-- Where the first slice has been moved past its end, a job may begin before it. -/
theorem first_fit_earliest_false :
    ¬ (∀ (W : Workload) (n : ℕ) (t0 : ℚ) (calls : List (ResourceSelector × ScheduleCall)),
      (∀ call ∈ calls, ∀ job ∈ call.2.addedJob, job ∈ W.jobs) →
      Always ScheduleCall.runWith (fun s => ∀ (selector : ResourceSelector) (job : Job), s.containsJob job = false →
        0 < job.nbRequestedResources → job.hasWalltime = true → 0 < job.walltime →
          ∃ s' alloc, s.addJobFirstFitWith selector job false = .ok (s', alloc) ∧ EarliestFit s s' selector job alloc)
        (Schedule.new n t0) calls) := by
  intro h
  have hrun : (runFrom ScheduleCall.runWith (Schedule.new 1 0) calls).toOption.map
      (fun s => (s.containsJob shortJob, s.firstSliceBegin,
        (s.addJobFirstFitWith .basic shortJob false).toOption.map (fun x => (x.2.beginDate, x.2.hasBeenInserted)))) =
      some (false, 10 + 1 / 16384, some (10, true)) := by decide +kernel
  obtain ⟨s, hs, hvalue⟩ := toOption_map_eq_some.1 hrun
  simp only [Prod.mk.injEq] at hvalue
  obtain ⟨hc, hfirst, hadd⟩ := hvalue
  have halways := h workload 1 0 calls (by
    simp [calls, ScheduleCall.addedJob, workload, Workload.ofList])
  obtain ⟨s', alloc, hok, hearliest⟩ := halways.last hs .basic shortJob hc (by decide) rfl (by decide)
  rw [hok] at hadd
  simp only [Except.toOption, Option.map_some, Option.some.injEq, Prod.mk.injEq] at hadd
  have hle := (hearliest.earliest hadd.2).1.1
  rw [hfirst, hadd.1] at hle
  revert hle
  decide +kernel

end ScheduleTest
