import ScheduleTest.JobsAllocations
import ScheduleTest.Lemmas.Calls
import ScheduleTest.Lemmas.Plan

/-!
# `jobs_allocations` lists every job once, with its dates and machines

The sweep knows of every job of the slices behind whether the last of them holds it, and then since when, or has put down when
it began and ended (`Swept`). A job occupies one run of slices, so that one that has ended does not come back. A last slice
without jobs ends them all.
-/

namespace ScheduleTest

open Timeline JobsAllocations

/-- An allocation tells the dates and the machines that a job has in a profile. -/
structure Describes (p : List TimeSlice) (job : Job) (alloc : JobAlloc) : Prop where
  named : alloc.job = some job
  beginDate : firstBegin (·.containsJob job) p = some alloc.beginDate
  endDate : lastEnd (·.containsJob job) p = some alloc.endDate
  usedMachines : ∀ t ∈ p, t.containsJob job = true → machinesOf job t = some alloc.usedMachines

/-- A further slice without the job changes nothing. -/
theorem Describes.append {p : List TimeSlice} {t : TimeSlice} {job : Job} {alloc : JobAlloc} (h : Describes p job alloc)
    (ht : t.containsJob job = false) : Describes (p ++ [t]) job alloc where
  named := h.named
  beginDate := by
    rw [firstBegin_append, h.beginDate]
    rfl
  endDate := by
    rw [lastEnd_append, h.endDate, lastEnd_cons, ht]
    rfl
  usedMachines := by
    intro u hu hc
    rcases List.mem_append.1 hu with hu | hu
    · exact h.usedMachines u hu hc
    · rw [List.mem_singleton.1 hu, ht] at hc
      cases hc

/-- A job that is not in a profile has no first slice. -/
theorem firstBegin_eq_none {p : List TimeSlice} {job : Job} (h : ¬ Present job p) : firstBegin (·.containsJob job) p = none := by
  rw [firstBegin, List.find?_eq_none.2 fun t ht hc => h ⟨t, ht, hc⟩]
  rfl

/-- A job that has a first slice is in the profile. -/
theorem present_of_firstBegin {p : List TimeSlice} {job : Job} {b : ℚ} (h : firstBegin (·.containsJob job) p = some b) :
    Present job p := by
  by_contra habsent
  rw [firstBegin_eq_none habsent] at h
  cases h

/-- A job that is not in the last slice is in one before. -/
theorem Present.of_last {p : List TimeSlice} {t : TimeSlice} {job : Job} (h : Present job (p ++ [t]))
    (ht : t.containsJob job = false) : Present job p := by
  obtain ⟨u, hu, hc⟩ := h
  rcases List.mem_append.1 hu with hu | hu
  · exact ⟨u, hu, hc⟩
  · rw [List.mem_singleton.1 hu, ht] at hc
    cases hc

section Slices

variable {W : NamedJobs} {p l r : List TimeSlice} {t u : TimeSlice} {job : Job}

/-- The jobs of a slice are the jobs of the workload that it holds. -/
theorem RunsOk.mem_allocatedJobsOf (h : RunsOk W p) (ht : t ∈ p) :
    job ∈ allocatedJobsOf t ↔ job ∈ W.jobs ∧ t.containsJob job = true := by
  rw [allocatedJobsOf, List.mem_toFinset, KeyedMap.keys, List.mem_map, TimeSlice.containsJob, KeyedMap.contains_iff]
  constructor
  · rintro ⟨e, he, rfl⟩
    exact ⟨h.known t ht e he, e, he, rfl⟩
  · rintro ⟨hjob, e, he, hid⟩
    exact ⟨e, he, W.id_injOn (h.known t ht e he) hjob hid⟩

/-- A job that was there and is not in some slice is not in the next either. -/
theorem RunsOk.ended (h : RunsOk W (l ++ t :: u :: r)) (hl : Present job l) (ht : t.containsJob job = false) :
    u.containsJob job = false := by
  obtain ⟨first, hfirst, hc⟩ := hl
  rw [containsJob_eq_isSome, Option.isSome_iff_exists] at hc
  obtain ⟨m, hm⟩ := hc
  have hrun := h.runs job
  rw [List.map_append, List.map_cons, List.map_cons, machinesOf_eq_none ht] at hrun
  have hnone : machinesOf job u = none := hrun.none_after (List.mem_map.2 ⟨first, hfirst, hm⟩) _ List.mem_cons_self
  rw [containsJob_eq_isSome, hnone]
  rfl

end Slices

/-! ## The sweep -/

/-- What the sweep knows when it has gone through some slices, of which `prev` is the last. -/
structure Swept (W : NamedJobs) (firstSliceBegin : ℚ) (done : List TimeSlice) (prev : TimeSlice) (s : Sweep) : Prop where
  current : ∀ job, job ∈ s.currentJobs ↔ job ∈ W.jobs ∧ prev.containsJob job = true
  starting : ∀ job ∈ s.currentJobs, firstBegin (·.containsJob job) done = some (s.jobsStartingTimes job)
  entry : ∀ e ∈ s.res, ∃ job ∈ W.jobs, e.1 = job.id ∧ prev.containsJob job = false ∧ Describes done job e.2 ∧
    e.2.startedInFirstSlice = decide (e.2.beginDate = firstSliceBegin)
  listed : ∀ job ∈ W.jobs, Present job done → prev.containsJob job = true ∨ job.id ∈ s.res.map Prod.fst
  nodup : (s.res.map Prod.fst).Nodup

section Sweeping

variable {W : NamedJobs} {pre rest : List TimeSlice} {first prev slice : TimeSlice} {firstSliceBegin : ℚ} {s : Sweep}

/-- A job that ends with a slice is put down with its dates and machines. -/
theorem describes_allocationOf {job : Job} (hruns : RunsOk W (pre ++ prev :: slice :: rest))
    (hnext : slice.beginDate = prev.endDate) (hc : prev.containsJob job = true) (hslice : slice.containsJob job = false) {b : ℚ}
    (hb : firstBegin (·.containsJob job) (pre ++ [prev]) = some b) (hstart : s.jobsStartingTimes job = b)
    (hend : s.jobsEndingTimes job = slice.beginDate) :
    Describes (pre ++ [prev, slice]) job (allocationOf s firstSliceBegin prev job) := by
  have hprev : Describes (pre ++ [prev]) job (allocationOf s firstSliceBegin prev job) := by
    obtain ⟨m, hm⟩ := Option.isSome_iff_exists.1 ((containsJob_eq_isSome prev job).symm.trans hc)
    have hmachines : (allocationOf s firstSliceBegin prev job).usedMachines = m := by
      rw [allocationOf, show prev.allocatedJobs.find? job = some m from hm, Option.getD_some]
    refine ⟨rfl, ?_, ?_, ?_⟩
    · rw [hb, ← hstart]
      rfl
    · rw [lastEnd_append, lastEnd_cons, hc, ← hnext, ← hend]
      rfl
    · intro t ht hct
      obtain ⟨m', hm'⟩ := Option.isSome_iff_exists.1 ((containsJob_eq_isSome t job).symm.trans hct)
      have hmem : t ∈ pre ++ prev :: slice :: rest := by
        rcases List.mem_append.1 ht with ht | ht
        · exact List.mem_append_left _ ht
        · rw [List.mem_singleton.1 ht]
          simp
      rw [hmachines, hm', (hruns.runs job).eq_of_mem (List.mem_map.2 ⟨t, hmem, hm'⟩)
        (List.mem_map.2 ⟨prev, by simp, hm⟩)]
  rw [show pre ++ [prev, slice] = (pre ++ [prev]) ++ [slice] by simp]
  exact hprev.append hslice

/-- One round of the sweep. -/
theorem Swept.step (h : Swept W firstSliceBegin (pre ++ [prev]) prev s) (hruns : RunsOk W (pre ++ prev :: slice :: rest))
    (hnext : slice.beginDate = prev.endDate) :
    ∃ s', sweepSlice firstSliceBegin (some prev) s slice = some s' ∧
      Swept W firstSliceBegin (pre ++ [prev, slice]) slice s' := by
  have hjobs : ∀ job, job ∈ allocatedJobsOf slice ↔ job ∈ W.jobs ∧ slice.containsJob job = true :=
    fun job => hruns.mem_allocatedJobsOf (by simp)
  have hsplit : pre ++ [prev, slice] = (pre ++ [prev]) ++ [slice] := by simp
  have hfinished : ∀ job, job ∈ s.currentJobs \ allocatedJobsOf slice ↔
      job ∈ W.jobs ∧ prev.containsJob job = true ∧ slice.containsJob job = false := by
    intro job
    rw [Finset.mem_sdiff, h.current, hjobs]
    grind
  generalize hfin : s.currentJobs \ allocatedJobsOf slice = finished at hfinished
  have hput : ∀ s₁ : Sweep, putDown s₁ firstSliceBegin (some prev) finished =
      some (s₁.res + finished.val.map fun job => (job.id, allocationOf s₁ firstSliceBegin prev job)) :=
    fun s₁ => if_pos fun job hjob => ((hfinished job).1 hjob).2.1
  refine ⟨_, by rw [sweepSlice, hfin, hput]; rfl, ?_, ?_, ?_, ?_, ?_⟩
  · intro job
    rw [Finset.mem_union, Finset.mem_sdiff, Finset.mem_sdiff, hfinished, hjobs, h.current]
    grind
  · intro job hjob
    dsimp only at hjob ⊢
    rw [hsplit, firstBegin_append, setDates]
    by_cases hnew : job ∈ allocatedJobsOf slice \ s.currentJobs
    · obtain ⟨hin, hnot⟩ := Finset.mem_sdiff.1 hnew
      obtain ⟨hW, hc⟩ := (hjobs job).1 hin
      have hprev : prev.containsJob job = false := by
        rw [← Bool.not_eq_true]
        exact fun hp => hnot ((h.current job).2 ⟨hW, hp⟩)
      have habsent : ¬ Present job (pre ++ [prev]) := by
        intro hpres
        rw [hruns.ended (hpres.of_last hprev) hprev] at hc
        cases hc
      rw [if_pos hnew, firstBegin_eq_none habsent, firstBegin_cons, if_pos hc]
      rfl
    · have hcur : job ∈ s.currentJobs := (Finset.mem_sdiff.1 ((Finset.mem_union.1 hjob).resolve_right hnew)).1
      rw [if_neg hnew, h.starting job hcur]
      rfl
  · intro e he
    rcases Multiset.mem_add.1 he with he | he
    · obtain ⟨job, hW, hid, hprev, hdesc, hstarted⟩ := h.entry e he
      have hslice := hruns.ended ((present_of_firstBegin hdesc.beginDate).of_last hprev) hprev
      exact ⟨job, hW, hid, hslice, hsplit ▸ hdesc.append hslice, hstarted⟩
    · obtain ⟨job, hjob, rfl⟩ := Multiset.mem_map.1 he
      obtain ⟨hW, hprev, hslice⟩ := (hfinished job).1 hjob
      exact ⟨job, hW, rfl, hslice, describes_allocationOf hruns hnext hprev hslice
        (h.starting job ((h.current job).2 ⟨hW, hprev⟩)) rfl (if_pos hjob), rfl⟩
  · intro job hW hpres
    rw [Multiset.map_add, Multiset.mem_add, Multiset.map_map]
    cases hslice : slice.containsJob job with
    | true => exact Or.inl rfl
    | false =>
      rw [hsplit] at hpres
      rcases h.listed job hW (hpres.of_last hslice) with hprev | hlisted
      · exact Or.inr (Or.inr (Multiset.mem_map.2 ⟨job, (hfinished job).2 ⟨hW, hprev, hslice⟩, rfl⟩))
      · exact Or.inr (Or.inl hlisted)
  · rw [Multiset.map_add, Multiset.map_map, Multiset.nodup_add]
    refine ⟨h.nodup, finished.nodup.map_on ?_, ?_⟩
    · intro job hjob job' hjob' hid
      exact W.id_injOn ((hfinished job).1 hjob).1 ((hfinished job').1 hjob').1 hid
    · -- what was put down before is not in the slice before
      rw [Multiset.disjoint_left]
      intro id hid hid'
      obtain ⟨e, he, rfl⟩ := Multiset.mem_map.1 hid
      obtain ⟨job, hjob, heq⟩ := Multiset.mem_map.1 hid'
      obtain ⟨job', hW', hid'', hprev, _⟩ := h.entry e he
      obtain ⟨hW, hprev', _⟩ := (hfinished job).1 hjob
      obtain rfl := W.id_injOn hW hW' ((show job.id = e.1 from heq).trans hid'')
      rw [hprev] at hprev'
      cases hprev'

/-- The sweep over the slices behind one. -/
theorem Swept.run (h : Swept W firstSliceBegin (pre ++ [prev]) prev s) (hruns : RunsOk W (pre ++ prev :: rest))
    (htimed : ∃ b e, Tiling TimeSlice.beginDate TimeSlice.endDate b e rest ∧ prev.endDate = b) :
    ∃ s' last, sweep firstSliceBegin (some prev) s rest = some s' ∧ (prev :: rest).getLast? = some last ∧
      Swept W firstSliceBegin (pre ++ prev :: rest) last s' := by
  induction rest generalizing pre prev s with
  | nil => exact ⟨s, prev, rfl, rfl, h⟩
  | cons slice rest ih =>
    obtain ⟨b, e, ⟨hbegin, _, htiling⟩, rfl⟩ := htimed
    obtain ⟨s₁, hstep, hswept⟩ := h.step hruns hbegin
    rw [show pre ++ [prev, slice] = (pre ++ [prev]) ++ [slice] by simp] at hswept
    obtain ⟨s', last, hsweep, hlast, hdone⟩ := ih hswept (by simpa using hruns) ⟨_, e, htiling, rfl⟩
    refine ⟨s', last, ?_, hlast, by simpa using hdone⟩
    rw [sweep, hstep]
    exact hsweep

/-- The first round of the sweep: the jobs of the first slice are there already. -/
theorem swept_first (hruns : RunsOk W (first :: rest)) :
    ∃ s, sweepSlice first.beginDate none
      { currentJobs := allocatedJobsOf first
        jobsStartingTimes := setDates (fun _ => 0) (allocatedJobsOf first) first.beginDate } first = some s ∧ Swept W first.beginDate [first] first s := by
  have hjobs : ∀ job, job ∈ allocatedJobsOf first ↔ job ∈ W.jobs ∧ first.containsJob job = true :=
    fun job => hruns.mem_allocatedJobsOf List.mem_cons_self
  refine ⟨_, by rw [sweepSlice, Finset.sdiff_self]; rfl, ?_, ?_, ?_, ?_, ?_⟩
  · intro job
    rw [Finset.union_empty, Finset.sdiff_empty, hjobs]
  · intro job hjob
    rw [Finset.union_empty, Finset.sdiff_empty] at hjob
    rw [firstBegin_cons, if_pos ((hjobs job).1 hjob).2]
    exact congrArg some (if_pos hjob).symm
  · intro e he
    exact absurd he (Multiset.notMem_zero e)
  · rintro job _ ⟨t, ht, hc⟩
    rw [List.mem_singleton.1 ht] at hc
    exact Or.inl hc
  · exact Multiset.nodup_zero

end Sweeping

/-- A job that is in a later slice, and not in the first, begins later than a first slice of some length. -/
theorem startedInFirst_iff {p : List TimeSlice} {first : TimeSlice} {job : Job} {b : ℚ} (ht : Timed p) (hfirst : first ∈ p.head?)
    (hpos : first.beginDate < first.endDate) (hb : firstBegin (·.containsJob job) p = some b) :
    b = first.beginDate ↔ first.containsJob job = true := by
  cases p with
  | nil => cases hfirst
  | cons slice rest =>
    obtain rfl := Option.some.inj hfirst
    rw [firstBegin_cons] at hb
    cases hc : slice.containsJob job with
    | true =>
      rw [hc, if_pos rfl] at hb
      exact iff_of_true (Option.some.inj hb).symm rfl
    | false =>
      rw [hc, if_neg Bool.false_ne_true] at hb
      obtain ⟨t, hfind, rfl⟩ := Option.map_eq_some_iff.1 hb
      obtain ⟨e, hchain⟩ := ht.chained
      have hafter := (hchain.order (l := []) (r := rest)).2 t (List.mem_of_find?_eq_some hfind)
      exact iff_of_false (hpos.trans_le hafter).ne' Bool.false_ne_true

/-- In a schedule whose last slice holds no job, `jobs_allocations` has one entry for each job, by its id: it tells when the job
begins and ends and the machines it holds in all its slices, and, where the first slice takes some time, whether the job is in it. -/
theorem jobs_allocations_exact (W : NamedJobs) (s : Schedule) (hruns : RunsOk W s.profile) (htimed : Timed s.profile)
    (hlast : ∀ last ∈ s.profile.getLast?, last.allocatedJobs = KeyedMap.empty) :
    ∃ res, s.jobsAllocations = some res ∧ res.map Prod.fst = (jobsOf s.profile).val.map Job.id ∧
      ∀ e ∈ res, ∃ job ∈ jobsOf s.profile, e.1 = job.id ∧ Describes s.profile job e.2 ∧
        ∀ first ∈ s.profile.head?, first.beginDate < first.endDate →
          (e.2.startedInFirstSlice = true ↔ first.containsJob job = true) := by
  have hjobs : ∀ job, job ∈ jobsOf s.profile ↔ job ∈ W.jobs ∧ Present job s.profile := fun job => mem_jobsOf hruns
  rw [Schedule.jobsAllocations]
  generalize s.profile = p at *
  obtain ⟨e, hchain⟩ := htimed.chained
  cases p with
  | nil => exact hchain.elim
  | cons first rest =>
    obtain ⟨s₀, hstep, hswept⟩ := swept_first hruns
    obtain ⟨s', last, hsweep, hend, hdone⟩ := @Swept.run W [] rest first _ s₀ hswept hruns ⟨_, e, hchain, rfl⟩
    have hnone : ∀ job, last.containsJob job = false := by
      intro job
      rw [TimeSlice.containsJob, hlast last hend]
      rfl
    refine ⟨s'.res, ?_, ?_, ?_⟩
    · dsimp only
      rw [sweep, hstep, Option.bind_some, hsweep]
      rfl
    · refine (Multiset.Nodup.ext hdone.nodup ?_).2 fun id => ?_
      · exact (jobsOf (first :: rest)).nodup.map_on fun job hjob job' hjob' hid =>
          W.id_injOn ((hjobs job).1 hjob).1 ((hjobs job').1 hjob').1 hid
      · constructor
        · intro hid
          obtain ⟨e', he', rfl⟩ := Multiset.mem_map.1 hid
          obtain ⟨job, hW, heq, _, hdesc, _⟩ := hdone.entry e' he'
          exact Multiset.mem_map.2 ⟨job, (hjobs job).2 ⟨hW, present_of_firstBegin hdesc.beginDate⟩, heq.symm⟩
        · intro hid
          obtain ⟨job, hjob, rfl⟩ := Multiset.mem_map.1 hid
          obtain ⟨hW, hpres⟩ := (hjobs job).1 hjob
          refine (hdone.listed job hW hpres).resolve_left ?_
          rw [hnone job]
          exact Bool.false_ne_true
    · intro e' he'
      obtain ⟨job, hW, heq, _, hdesc, hstarted⟩ := hdone.entry e' he'
      refine ⟨job, (hjobs job).2 ⟨hW, present_of_firstBegin hdesc.beginDate⟩, heq, hdesc, ?_⟩
      intro first' hfirst' hpos
      obtain rfl := Option.some.inj hfirst'
      rw [hstarted, decide_eq_true_eq]
      exact startedInFirst_iff htimed rfl hpos hdesc.beginDate

namespace JobsAllocationsWitness

open Execution

/-- A job of two machines for ten seconds. -/
def jobA : Job := { id := "w!0", nbRequestedResources := 2, walltime := 10 }

/-- Another job of two machines, for which there is no place beside the first. -/
def jobB : Job := { id := "w!1", nbRequestedResources := 2, walltime := 5 }

/-- A job that ends while the first goes on. -/
def jobC : Job := { id := "w!2", nbRequestedResources := 1, walltime := 5 }

/-- A workload of the three jobs. -/
def workload : Workload := Workload.ofList [jobA, jobB, jobC] (by decide) (by decide)

/-- The calls that place them. -/
def calls : List ScheduleCall := [.addJobFirstFit jobA true, .addJobFirstFit jobB true, .addJobFirstFit jobC true]

/-- The jobs, with when they begin and end, their machines, and whether they are in the first slice. -/
def placed : List (Job × ℚ × ℚ × IntervalSet × Bool) :=
  [(jobA, 0, 10, {0, 1}, true), (jobB, 10, 15, {0, 1}, false), (jobC, 0, 5, {2}, true)]

/-- A job is placed in a profile. -/
def PlacedIn (p : List TimeSlice) (x : Job × ℚ × ℚ × IntervalSet × Bool) : Prop :=
  firstBegin (·.containsJob x.1) p = some x.2.1 ∧ lastEnd (·.containsJob x.1) p = some x.2.2.1 ∧
    (∃ t ∈ p, t.containsJob x.1 = true ∧ machinesOf x.1 t = some x.2.2.2.1) ∧
    ∃ first ∈ p.head?, first.beginDate < first.endDate ∧ first.containsJob x.1 = x.2.2.2.2

instance (p : List TimeSlice) : DecidablePred (PlacedIn p) := fun x =>
  inferInstanceAs (Decidable (firstBegin (·.containsJob x.1) p = some x.2.1 ∧ lastEnd (·.containsJob x.1) p = some x.2.2.1 ∧
    (∃ t ∈ p, t.containsJob x.1 = true ∧ machinesOf x.1 t = some x.2.2.2.1) ∧
    ∃ first ∈ p.head?, first.beginDate < first.endDate ∧ first.containsJob x.1 = x.2.2.2.2))

end JobsAllocationsWitness

open JobsAllocationsWitness Execution in
/-- Three jobs that begin, go on and end at different dates are listed as they are placed. -/
theorem jobs_allocations_exact_witness :
    ∃ s res, runFrom ScheduleCall.run (Schedule.new 3 0) calls = .ok s ∧ s.jobsAllocations = some res ∧
      res.map Prod.fst = {"w!0", "w!1", "w!2"} ∧
      ∀ e ∈ res, ∃ x ∈ placed, e.2.job = some x.1 ∧ e.2.beginDate = x.2.1 ∧ e.2.endDate = x.2.2.1 ∧
        e.2.usedMachines = x.2.2.2.1 ∧ e.2.startedInFirstSlice = x.2.2.2.2 := by
  have hrun : (runFrom ScheduleCall.run (Schedule.new 3 0) calls).toOption.map (fun s =>
      decide ((∀ last ∈ s.profile.getLast?, last.allocatedJobs = KeyedMap.empty) ∧
        jobsOf s.profile = (placed.map Prod.fst).toFinset ∧ ∀ x ∈ placed, PlacedIn s.profile x)) = some true := by decide +kernel
  obtain ⟨s, hs, hvalue⟩ := toOption_map_eq_some.1 hrun
  obtain ⟨hlast, hjobs, hplaced⟩ := of_decide_eq_true hvalue
  have hcalls : AllSteps ScheduleCall.run (AccountedCall workload) (Schedule.new 3 0) calls :=
    ⟨List.mem_cons_self, fun _ _ => ⟨List.mem_cons_of_mem _ List.mem_cons_self, fun _ _ => ⟨List.mem_of_mem_getLast? rfl,
      fun _ _ => trivial⟩⟩⟩
  have hmachines : MachinesOk workload s :=
    runFrom_invariant (I := MachinesOk workload) (fun _ _ _ h hcall hstep => h.runCall hcall hstep) (MachinesOk.new _ 3 0) hcalls hs
  have htimed : Timed s.profile :=
    runFrom_invariant (I := fun s => Timed s.profile) (C := fun _ _ => True) (fun _ _ _ h _ hstep => h.runCall hstep)
      (Timed.new 3 0) (allSteps_of_forall fun _ _ => trivial) hs
  obtain ⟨res, hres, hids, hentry⟩ := jobs_allocations_exact workload s hmachines.runs htimed hlast
  rw [hjobs] at hids hentry
  refine ⟨s, res, hs, hres, hids, fun e he => ?_⟩
  obtain ⟨job, hjob, -, hdesc, hstarted⟩ := hentry e he
  obtain ⟨x, hx, rfl⟩ := List.mem_map.1 (List.mem_toFinset.1 hjob)
  obtain ⟨hbegin, hend, ⟨t, ht, hin, hheld⟩, first, hfirst, hpos, hcontains⟩ := hplaced x hx
  refine ⟨x, hx, hdesc.named, ?_, ?_, ?_, ?_⟩
  · exact Option.some.inj (hdesc.beginDate.symm.trans hbegin)
  · exact Option.some.inj (hdesc.endDate.symm.trans hend)
  · exact Option.some.inj ((hdesc.usedMachines t ht hin).symm.trans hheld)
  · rw [← hcontains]
    exact Bool.eq_iff_iff.2 (hstarted first hfirst hpos)

end ScheduleTest
