import ScheduleTest.Lemmas.Calls

/-!
# The representation of a schedule without repairs and reservations

Over every run of calls that add and remove jobs and move the begin of the first slice inside it, the profile stays a tiling of
the time whose slices partition the machines, every job occupies one run of slices on one set of machines, and the assertion on
merged slices holds. The ids of the jobs have to be non-empty as well as without commas: the joined ids of a slice that holds
only a job with an empty id are those of a slice without jobs.
-/

namespace ScheduleTest

open Execution

/-- What the profile of a schedule over the machines `0..n-1` is, when no machine is under repair. -/
structure Represents (n : ℕ) (s : Schedule) : Prop where
  nonempty : s.profile ≠ []
  contiguous : s.profile.IsChain (fun t u => t.endDate = u.beginDate)
  length : ∀ t ∈ s.profile, t.length = t.endDate - t.beginDate ∧ 0 ≤ t.length
  positive : ∀ t ∈ s.profile.tail, 0 < t.length
  last : ∀ t ∈ s.profile.getLast?, t.endDate = horizon
  covers : ∀ t ∈ s.profile, ∀ x, x < n ↔ x ∈ t.availableMachines ∨ ∃ e ∈ t.allocatedJobs.entries, x ∈ e.2
  disjointAvailable : ∀ t ∈ s.profile, ∀ e ∈ t.allocatedJobs.entries, Disjoint t.availableMachines e.2
  disjointJobs : ∀ t ∈ s.profile, ∀ e ∈ t.allocatedJobs.entries, ∀ e' ∈ t.allocatedJobs.entries, e ≠ e' → Disjoint e.2 e'.2
  count : ∀ t ∈ s.profile, t.nbAvailableMachines = t.availableMachines.card
  allocated : ∀ t ∈ s.profile, ∀ x, x ∈ t.allocatedMachines ↔ ∃ e ∈ t.allocatedJobs.entries, x ∈ e.2
  runs : ∀ t ∈ s.profile, ∀ e ∈ t.allocatedJobs.entries, ∃ pre mid post, s.profile = pre ++ mid ++ post ∧
    (∀ u ∈ pre, u.containsJob e.1 = false) ∧ (∀ u ∈ mid, machinesOf e.1 u = some e.2) ∧ ∀ u ∈ post, u.containsJob e.1 = false

/-- The calls of a run without repairs: jobs of the workload are added, and the first slice begins inside itself. -/
def PlainCall (W : Workload) (s : Schedule) : ScheduleCall → Prop
  | .addJobFirstFit job _ => job ∈ W.jobs
  | .removeJob _ => True
  | .removeJobIfExists _ => True
  | .updateFirstSlice t => ∀ slice ∈ s.profile.head?, slice.beginDate ≤ t ∧ t ≤ slice.endDate
  | .addRepairMachine _ => False
  | .removeRepairMachines _ => False

namespace RepresentationAux

/-- Consecutive slices of a tiling meet. -/
theorem isChain_of_tiles {e b : ℚ} {l : List TimeSlice} (h : Tiles e b l) : l.IsChain (fun t u => t.endDate = u.beginDate) := by
  induction l generalizing b with
  | nil => exact List.IsChain.nil
  | cons t l ih =>
    obtain ⟨_, _, _, h4⟩ := h
    cases l with
    | nil => exact List.IsChain.singleton t
    | cons u l => exact List.IsChain.cons_cons h4.1.symm (ih h4)

/-- The slices of a tiling know their lengths. -/
theorem length_of_tiles {e b : ℚ} {l : List TimeSlice} (h : Tiles e b l) :
    ∀ t ∈ l, t.length = t.endDate - t.beginDate ∧ t.beginDate ≤ t.endDate := by
  induction l generalizing b with
  | nil => nofun
  | cons t l ih =>
    obtain ⟨_, h2, h3, h4⟩ := h
    intro u hu
    rcases List.mem_cons.1 hu with rfl | hu
    · exact ⟨h3, h2⟩
    · exact ih h4 u hu

/-- A tiling ends where its last slice does. -/
theorem last_of_tiles {e b : ℚ} {l : List TimeSlice} (h : Tiles e b l) : ∀ t ∈ l.getLast?, t.endDate = e := by
  induction l generalizing b with
  | nil => nofun
  | cons t l ih =>
    obtain ⟨_, _, _, h4⟩ := h
    cases l with
    | nil =>
      intro u hu
      cases hu
      exact h4
    | cons u l =>
      intro v hv
      rw [List.getLast?_cons_cons] at hv
      exact ih h4 v hv

/-- What is undefined in a stretch of values is a slice without the job. -/
theorem runs_of_oneRun {p : List TimeSlice} {job : Job} {m : IntervalSet} (h : (p.map (machinesOf job)).OneRun)
    (hm : some m ∈ p.map (machinesOf job)) : ∃ pre mid post, p = pre ++ mid ++ post ∧
      (∀ u ∈ pre, u.containsJob job = false) ∧ (∀ u ∈ mid, machinesOf job u = some m) ∧ ∀ u ∈ post, u.containsJob job = false := by
  obtain ⟨x, y, z, hxyz, hx, hy, hz⟩ := h.exists_append hm
  obtain ⟨xy, post, rfl, hxy, hpost⟩ := List.map_eq_append_iff.1 hxyz
  obtain ⟨pre, mid, rfl, hpre, hmid⟩ := List.map_eq_append_iff.1 hxy
  refine ⟨pre, mid, post, rfl, fun u hu => ?_, fun u hu => ?_, fun u hu => ?_⟩
  · rw [containsJob_eq_isSome, hx (machinesOf job u) (hpre ▸ List.mem_map_of_mem hu)]
    rfl
  · exact hy _ (hmid ▸ List.mem_map_of_mem hu)
  · rw [containsJob_eq_isSome, hz (machinesOf job u) (hpost ▸ List.mem_map_of_mem hu)]
    rfl

/-- The invariant of the run: every machine is accounted for, none is under repair, and the slices tile the time. -/
structure PlainInv (W : Workload) (n : ℕ) (strict : Bool) (s : Schedule) : Prop where
  machines : MachinesOk W s
  times : Schedule.TimesOk strict s
  nbMachines : s.nbMachines = n
  noRepair : s.repairMachines = ∅

/-- The invariant says what the profile is. -/
theorem PlainInv.represents {W : Workload} {n : ℕ} {strict : Bool} {s : Schedule} (h : PlainInv W n strict s) :
    Represents n s := by
  obtain ⟨b, hb⟩ := h.times.times.tiles
  have hslices : ∀ t ∈ s.profile, SliceOk n ∅ t := by
    intro t ht
    have := h.machines.slices t ht
    rwa [h.nbMachines, h.noRepair] at this
  refine ⟨h.times.times.nonempty, isChain_of_tiles hb, ?_, ?_, last_of_tiles hb, ?_, ?_, fun t ht => (hslices t ht).disjoint,
    fun t ht => (hslices t ht).count, fun t ht => (hslices t ht).allocated, ?_⟩
  · intro t ht
    obtain ⟨h1, h2⟩ := length_of_tiles hb t ht
    exact ⟨h1, by rw [h1]; exact sub_nonneg.2 h2⟩
  · intro t ht
    obtain ⟨h1, _⟩ := length_of_tiles hb t (List.mem_of_mem_tail ht)
    have hpos := h.times.times.positive t.dates (by
      rw [← List.map_tail]
      exact List.mem_map_of_mem ht)
    rw [h1]
    exact sub_pos.2 hpos
  · intro t ht x
    rw [(hslices t ht).available]
    constructor
    · intro hx
      by_cases hj : ∃ e ∈ t.allocatedJobs.entries, x ∈ e.2
      · exact Or.inr hj
      · exact Or.inl ⟨hx, Finset.notMem_empty x, fun e he hxe => hj ⟨e, he, hxe⟩⟩
    · rintro (⟨hx, _⟩ | ⟨e, he, hxe⟩)
      · exact hx
      · exact ((hslices t ht).inRange e he x hxe).1
  · intro t ht e he
    exact Finset.disjoint_left.2 fun x hx => (((hslices t ht).available x).1 hx).2.2 e he
  · intro t ht e he
    exact runs_of_oneRun (h.machines.runs.runs e.1)
      (List.mem_map.2 ⟨t, ht, KeyedMap.find?_eq_some.2 ⟨e.1, he, rfl⟩⟩)

/-- A plain call keeps the accounting. -/
theorem PlainCall.accounted {W : Workload} {s : Schedule} {call : ScheduleCall} (h : PlainCall W s call) :
    AccountedCall W s call := by
  cases call with
  | addJobFirstFit job b => exact h
  | addRepairMachine m => exact h.elim
  | removeJob job => trivial
  | removeJobIfExists job => trivial
  | updateFirstSlice t => trivial
  | removeRepairMachines m => trivial

/-- A plain call keeps the invariant; only moving the first slice may leave a slice empty. -/
theorem PlainInv.step {W : Workload} {n : ℕ} {strict : Bool} {s s' : Schedule} {call : ScheduleCall}
    (h : PlainInv W n strict s) (hcall : PlainCall W s call) (hstrict : strict = true → ∀ t, call ≠ .updateFirstSlice t)
    (hrun : call.run s = .ok s') : PlainInv W n strict s' := by
  have hmachines := h.machines.runCall (PlainCall.accounted hcall) hrun
  cases call with
  | addJobFirstFit job b =>
    obtain ⟨⟨s1, alloc⟩, ha, rfl⟩ := map_eq_ok.1 hrun
    obtain ⟨hn, hr⟩ := Schedule.addJobFirstFit_frame ha
    exact ⟨hmachines, h.times.addJobFirstFit ha, hn.trans h.nbMachines, hr.trans h.noRepair⟩
  | removeJob job =>
    have ha := Schedule.removeJob_ok hrun
    obtain ⟨hn, hr⟩ := Schedule.removeJobIfExists_frame ha
    exact ⟨hmachines, h.times.removeJobIfExists ha, hn.trans h.nbMachines, hr.trans h.noRepair⟩
  | removeJobIfExists job =>
    obtain ⟨⟨s1, b⟩, ha, rfl⟩ := map_eq_ok.1 hrun
    obtain ⟨hn, hr⟩ := Schedule.removeJobIfExists_frame ha
    exact ⟨hmachines, h.times.removeJobIfExists ha, hn.trans h.nbMachines, hr.trans h.noRepair⟩
  | updateFirstSlice t =>
    cases strict with
    | true => exact absurd rfl (hstrict rfl t)
    | false =>
      obtain ⟨_, _, _, _, _, _, _, hn, hr⟩ := Schedule.updateFirstSlice_ok hrun
      exact ⟨hmachines, h.times.updateFirstSlice hcall hrun, hn.trans h.nbMachines, hr.trans h.noRepair⟩
  | addRepairMachine m => exact hcall.elim
  | removeRepairMachines m => exact hcall.elim

theorem PlainInv.new (W : Workload) (n : ℕ) (strict : Bool) {t0 : ℚ} (ht0 : t0 < horizon) :
    PlainInv W n strict (Schedule.new n t0) :=
  ⟨MachinesOk.new W n t0, Schedule.TimesOk.new n ht0, rfl, rfl⟩

end RepresentationAux

open RepresentationAux in
/-- Over every run of calls that add jobs of the workload, remove jobs and move the begin of the first slice inside it, the
profile is as `Represents` says in every state reached, and the assertion on merged slices never fails. Without a move of the
first slice no slice is ever empty. -/
theorem representation_invariant (W : Workload) (n : ℕ) (t0 : ℚ) (ht0 : t0 < horizon) (calls : List ScheduleCall)
    (hcalls : AllSteps ScheduleCall.run (PlainCall W) (Schedule.new n t0) calls) :
    Always ScheduleCall.run (Represents n) (Schedule.new n t0) calls ∧
      runFrom ScheduleCall.run (Schedule.new n t0) calls ≠ .error .mergeMismatch ∧
      ((∀ t, .updateFirstSlice t ∉ calls) →
        Always ScheduleCall.run (fun s => ∀ t ∈ s.profile, 0 < t.length) (Schedule.new n t0) calls) := by
  refine ⟨?_, ?_, fun hno => ?_⟩
  · exact always_of_invariant (I := PlainInv W n false) (fun s call s' h hc hr => h.step hc nofun hr)
      (fun s h => h.represents) (PlainInv.new W n false ht0) hcalls
  · intro herr
    exact runFrom_error (I := PlainInv W n false) (P := (· ≠ .mergeMismatch))
      (fun s call s' h hc hr => h.step hc nofun hr) (fun s call e h _ hr => h.machines.runCall_error hr)
      (PlainInv.new W n false ht0) hcalls herr rfl
  · have hboth : AllSteps ScheduleCall.run (fun s call => PlainCall W s call ∧ ∀ t, call ≠ .updateFirstSlice t)
        (Schedule.new n t0) calls :=
      hcalls.and (allSteps_of_forall fun call hcall t heq => hno t (heq ▸ hcall))
    refine always_of_invariant (I := PlainInv W n true) (fun s call s' h hc hr => h.step hc.1 (fun _ => hc.2) hr) ?_
      (PlainInv.new W n true ht0) hboth
    intro s h t ht
    obtain ⟨b, hb⟩ := h.times.times.tiles
    rw [(length_of_tiles hb t ht).1]
    exact sub_pos.2 (h.times.positive rfl t ht)

namespace RepresentationWitness

/-- A job of one machine for ten seconds. -/
def jobA : Job := { id := "w!1", nbRequestedResources := 1, walltime := 10 }

/-- A job of both machines for five seconds. -/
def jobB : Job := { id := "w!2", nbRequestedResources := 2, walltime := 5 }

/-- A workload of the two jobs. -/
def workload : Workload := Workload.ofList [jobA, jobB] (by decide) (by decide)

/-- A run that starts late, places both jobs and removes the first. -/
def calls : List ScheduleCall :=
  [.updateFirstSlice 3, .addJobFirstFit jobA true, .addJobFirstFit jobB true, .removeJob jobA]

/-- A job whose id is empty. -/
def nameless : Job := { id := "", nbRequestedResources := 1, walltime := 10 }

/-- A run that leaves the job without a name alone in a slice before a slice without jobs. -/
def namelessCalls : List ScheduleCall :=
  [.addJobFirstFit nameless true, .addJobFirstFit { jobA with walltime := 20 } true,
    .removeJob { jobA with walltime := 20 }]

end RepresentationWitness

open RepresentationWitness in
/-- The run of two jobs goes through, and its states are as the theorem says. -/
theorem representation_invariant_witness :
    abortOf (runFrom ScheduleCall.run (Schedule.new 2 0) calls) = none ∧
      Always ScheduleCall.run (Represents 2) (Schedule.new 2 0) calls := by
  refine ⟨by decide +kernel, (representation_invariant workload 2 0 (by decide +kernel) calls ?_).1⟩
  refine ⟨?_, fun _ _ => ⟨List.mem_cons_self, fun _ _ => ⟨List.mem_of_mem_getLast? rfl, fun _ _ => ⟨trivial, fun _ _ => trivial⟩⟩⟩⟩
  intro slice hslice
  cases hslice
  exact ⟨by decide +kernel, by decide +kernel⟩

open RepresentationWitness in
/-- With ids that may be empty, and an initial date that may be past the horizon, the invariant fails: the job with the empty id
makes the assertion on merged slices fail, and the only slice of a schedule that begins past the horizon has a negative
length. -/
theorem representation_invariant_false :
    ¬ (∀ (jobs : Set Job) (n : ℕ) (t0 : ℚ), Set.InjOn Job.id jobs →
      (∀ job ∈ jobs, ',' ∉ job.id.toList ∧ 0 < job.walltime ∧ job.nbRequestedResources ≤ n) →
      ∀ calls : List ScheduleCall,
        AllSteps ScheduleCall.run (fun s call => (∀ job ∈ call.addedJob, job ∈ jobs) ∧
          ∀ t, call = .updateFirstSlice t → ∀ slice ∈ s.profile.head?, slice.beginDate ≤ t ∧ t ≤ slice.endDate)
          (Schedule.new n t0) calls →
        runFrom ScheduleCall.run (Schedule.new n t0) calls ≠ .error .mergeMismatch) ∧
    ¬ (∀ t0 : ℚ, Represents 1 (Schedule.new 1 t0)) := by
  constructor
  · intro h
    have hjobs : ∀ job ∈ ({nameless, { jobA with walltime := 20 }} : Set Job),
        ',' ∉ job.id.toList ∧ 0 < job.walltime ∧ job.nbRequestedResources ≤ 2 := by
      rintro job (rfl | rfl)
      · exact ⟨by decide, by decide +kernel, by decide⟩
      · exact ⟨by decide, by decide +kernel, by decide⟩
    refine h {nameless, { jobA with walltime := 20 }} 2 0 ?_ hjobs namelessCalls ?_
      (abortOf_eq_some.1 (by decide +kernel))
    · rintro job (rfl | rfl) job' (rfl | rfl) hid
      · rfl
      · exact absurd hid (by decide)
      · exact absurd hid (by decide)
      · rfl
    · refine ⟨⟨?_, nofun⟩, fun _ _ => ⟨⟨?_, nofun⟩, fun _ _ => ⟨⟨nofun, nofun⟩, fun _ _ => trivial⟩⟩⟩
      · intro job hjob
        cases hjob
        exact Or.inl rfl
      · intro job hjob
        cases hjob
        exact Or.inr rfl
  · intro h
    have hlength := (h (horizon + 1)).length _ (List.mem_singleton.2 rfl)
    exact absurd hlength.2 (by decide +kernel)

end ScheduleTest
