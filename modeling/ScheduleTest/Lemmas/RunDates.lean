import ScheduleTest.Lemmas.Neighbours

/-!
# The dates of the jobs that run

The jobs that run end in a schedule when their walltimes are over (`Dated`). A slice ends where some job ends or begins, so as long
as the jobs end in time, the first slice does not end before now. A job that first fit does not place in the first slice, beside
jobs that run alone, waits for one of them (`Dated.waits_of_placed`): it is not planned before the date at which that job ends
(`SomeEndsBy`).
-/

namespace ScheduleTest

open Timeline

/-- A job that shares no slice with one that runs now begins after it ends, where it comes after it at all. -/
theorem lastEnd_le_firstBegin {W : NamedJobs} {p : List TimeSlice} {job job' : Job} {b : ℚ} (hruns : RunsOk W p) (ht : Timed p)
    (hnow : machinesNow job' p ≠ none) (hb : firstBegin (·.containsJob job) p = some b)
    (hapart : ∀ t ∈ p, t.containsJob job = true → t.containsJob job' = false) :
    ∃ e, lastEnd (·.containsJob job') p = some e ∧ e ≤ b := by
  obtain ⟨l, first, more, r, ms, rfl, rfl, hheld, -, -⟩ := exists_planned hruns hb
  have hcf : first.containsJob job = true := by
    rw [containsJob_eq_isSome, hheld first List.mem_cons_self]
    rfl
  have hnone : machinesOf job' first = none := machinesOf_eq_none (hapart first (by simp) hcf)
  -- the job that runs now is in the slices before, and its run is over
  obtain ⟨head, rest, rfl⟩ : ∃ head rest, l = head :: rest := by
    cases l with
    | nil => exact absurd hnone hnow
    | cons head rest => exact ⟨head, rest, rfl⟩
  obtain ⟨m, hm⟩ := Option.ne_none_iff_exists'.1 (show machinesOf job' head ≠ none from hnow)
  have hrun := hruns.runs job'
  rw [List.map_append, List.cons_append, List.map_cons (l := more ++ r), hnone] at hrun
  have hafter : ∀ t ∈ first :: more ++ r, t.containsJob job' = false := by
    intro t ht
    rw [containsJob_eq_isSome]
    rcases List.mem_cons.1 ht with rfl | ht
    · rw [hnone]
      rfl
    · rw [hrun.none_after (List.mem_map.2 ⟨head, List.mem_cons_self, hm⟩) _ (List.mem_map_of_mem ht)]
      rfl
  have hlast : lastEnd (·.containsJob job') (first :: more ++ r) = none := by
    rw [lastEnd, List.find?_eq_none.2 fun t ht => ?_]
    · rfl
    · simp [hafter t (List.mem_reverse.1 ht)]
  have hch : head.containsJob job' = true := by
    rw [containsJob_eq_isSome, hm]
    rfl
  obtain ⟨u, hu⟩ : ∃ u, (head :: rest).reverse.find? (·.containsJob job') = some u := by
    rw [← Option.isSome_iff_exists, List.find?_isSome]
    exact ⟨head, by simp, hch⟩
  refine ⟨u.endDate, ?_, ?_⟩
  · rw [lastEnd_append, hlast, Option.none_or, lastEnd, hu]
    rfl
  · obtain ⟨e, hchain⟩ := ht.chained
    exact (hchain.order (l := head :: rest) (a := first) (r := more ++ r)).1 u
      (List.mem_reverse.1 (List.mem_of_find?_eq_some hu))

/-- Removing a job cuts no slice. -/
theorem length_removeJobIfExists {s s' : Schedule} {job : Job} {b : Bool} (hr : s.removeJobIfExists job = .ok (s', b)) :
    s'.profile.length ≤ s.profile.length := by
  rcases Schedule.removeJobIfExists_ok hr with ⟨_, rfl, _⟩ | ⟨_, before, pit, rest, ms, p', hprofile, hbefore, _, hp, rfl⟩
  · exact le_rfl
  · refine removeFrom_rule (P := fun p => p.length ≤ s.profile.length) (fun l u r h _ _ => ?_) (fun l previous u merged r h _ => ?_)
      (fun t ht => hbefore t (List.mem_reverse.1 ht)) (by rw [List.reverse_reverse, ← hprofile]) hp
    · simpa using h
    · simp only [List.length_append, List.length_cons] at h ⊢
      omega

/-- Placing a job puts it at the first anchor it fits at. -/
theorem anchor_of_addJobFirstFit {s s' : Schedule} {job : Job} {alloc : JobAlloc} (ha : s.addJobFirstFit job = .ok (s', alloc)) :
    s.containsJob job = false ∧ ∃ a, s.findAnchorWith .basic job = some a ∧ s' = s.placedAt job a ∧ alloc = s.allocAt job a := by
  rw [← Schedule.addJobFirstFitWith_basic] at ha
  obtain ⟨hc, ⟨-, hbad, -⟩ | hplaced⟩ := Schedule.addJobFirstFitWith_ok ha
  · cases hbad
  · exact ⟨hc, hplaced⟩

/-- What placing a job does: the job is where first fit found a place for it, and the others are where they were. -/
structure Placed (job : Job) (s s' : Schedule) (alloc : JobAlloc) : Prop where
  begins : ∃ a, s.findAnchorWith .basic job = some a ∧ s' = s.placedAt job a ∧ alloc = s.allocAt job a
  ends : s'.plannedEnd job = some (alloc.beginDate + job.walltime)
  others : ∀ k, k.id ≠ job.id → s'.plannedBegin k = s.plannedBegin k ∧ s'.plannedEnd k = s.plannedEnd k ∧
    machinesNow k s'.profile = machinesNow k s.profile

/-- A job that requests machines is planned, and does not run now. -/
structure Planned (s : Schedule) (job : Job) (b : ℚ) : Prop where
  begins : s.plannedBegin job = some b
  later : machinesNow job s.profile = none
  requests : 0 < job.nbRequestedResources

theorem Planned.congr {s s' : Schedule} {job : Job} {b : ℚ} (h : Planned s job b) (hb : s'.plannedBegin job = s.plannedBegin job)
    (hn : machinesNow job s'.profile = machinesNow job s.profile) : Planned s' job b :=
  ⟨hb.trans h.begins, hn.trans h.later, h.requests⟩

/-- The time that passes does not move a planned job. -/
theorem Planned.update {s s' : Schedule} {job : Job} {b date : ℚ} (h : Planned s job b) (hu : s.updateFirstSlice date = .ok s') :
    Planned s' job b := by
  obtain ⟨slice, rest, hprofile, hprofile', -⟩ := Schedule.updateFirstSlice_ok hu
  have hlater := h.later
  rw [hprofile] at hlater
  have hc : slice.containsJob job = false := by
    rw [containsJob_eq_isSome, show machinesOf job slice = none from hlater]
    rfl
  refine h.congr ?_ ?_
  · rw [Schedule.plannedBegin, Schedule.plannedBegin, hprofile, hprofile', firstBegin_cons, firstBegin_cons, containsJob_retime, hc]
    rfl
  · rw [hprofile, hprofile']
    rfl

/-- A job that is planned is in another slice than the first. -/
theorem Planned.two_le_length {s : Schedule} {job : Job} {b : ℚ} (h : Planned s job b) : 2 ≤ s.profile.length := by
  have hbegins := h.begins
  have hlater := h.later
  rw [Schedule.plannedBegin] at hbegins
  cases hp : s.profile with
  | nil =>
    rw [hp] at hbegins
    cases hbegins
  | cons first rest =>
    rw [hp] at hbegins hlater
    have hfirst : first.containsJob job = false := by
      rw [containsJob_eq_isSome, show machinesOf job first = none from hlater]
      rfl
    cases rest with
    | nil =>
      rw [firstBegin_cons, hfirst] at hbegins
      cases hbegins
    | cons second rest => simp

/-- A job that runs ends by some date. -/
def SomeEndsBy (W : NamedJobs) (start : String → ℚ) (held : List String) (b : ℚ) : Prop :=
  ∃ k ∈ W.jobs, k.id ∈ held ∧ start k.id + k.walltime ≤ b

/-- More jobs may be named, and held, and other jobs may have started at other dates. -/
theorem SomeEndsBy.mono {W V : NamedJobs} {start start' : String → ℚ} {held held' : List String} {b : ℚ}
    (h : SomeEndsBy W start held b) (hsub : W.jobs ⊆ V.jobs) (hheld : ∀ id ∈ held, id ∈ held')
    (hstart : ∀ id ∈ held, start' id = start id) : SomeEndsBy V start' held' b := by
  obtain ⟨k, hk, hid, hle⟩ := h
  exact ⟨k, hsub hk, hheld _ hid, by rwa [hstart _ hid]⟩

/-- The jobs held have run since known dates until the ends of their walltimes, and a slice ends where a job does or begins. -/
structure Dated (W : NamedJobs) (start : String → ℚ) (date : ℚ) (s : Schedule) (held : List String) : Prop where
  plans : PlansOk W .basic s
  differ : NeighboursDiffer s.profile
  begins : s.firstSliceBegin = date
  upright : 2 ≤ s.profile.length → s.Upright
  ends : ∀ job ∈ W.jobs, job.id ∈ held → s.plannedEnd job = some (start job.id + job.walltime)

namespace Dated

variable {W : NamedJobs} {start : String → ℚ} {date : ℚ} {s s' : Schedule} {held held' : List String} {job : Job} {alloc : JobAlloc}

theorem new (W : NamedJobs) (start : String → ℚ) (n : ℕ) (date : ℚ) : Dated W start date (Schedule.new n date) [] where
  plans := PlansOk.new W .basic n date
  differ := List.isChain_singleton _
  begins := rfl
  upright := fun h => absurd h (by simp [Schedule.new])
  ends := nofun

/-- A job that is planned or runs is in the schedule. -/
theorem containsJob_of_plannedEnd {e : ℚ} (h : s.plannedEnd job = some e) : s.containsJob job = true := by
  obtain ⟨t, ht, -⟩ := Option.map_eq_some_iff.1 h
  exact List.any_eq_true.2 ⟨t, List.mem_reverse.1 (List.mem_of_find?_eq_some ht), by simpa using List.find?_some ht⟩

theorem place (h : Dated W start date s held) (hjob : job ∈ W.jobs) (hw : job.hasWalltime = true) (hpos : 0 < job.walltime)
    (ha : s.addJobFirstFit job = .ok (s', alloc)) : Dated W start date s' held ∧ Placed job s s' alloc := by
  obtain ⟨hc, a, hanchor, rfl, rfl⟩ := anchor_of_addJobFirstFit ha
  obtain ⟨hshape, hfits, -⟩ := Schedule.findAnchorWith_ok hanchor
  obtain ⟨-, hbegins, hothers⟩ := @placedAt_plan s job a hshape
  have htimed := h.plans.timed
  rw [← hshape] at htimed
  have hwalltime : ∀ t, s.walltimeFrom job t = job.walltime := fun t => by rw [Schedule.walltimeFrom, if_pos hw]
  have hbounds := htimed.endDate_bounds hfits (by rw [hwalltime]; exact hpos)
  have hend : s.endDateAt job a = a.beginDate + job.walltime := by rw [Schedule.endDateAt, hwalltime]
  rw [hwalltime, ← hend] at hbounds
  have hup : s.Upright := by
    rcases Nat.lt_or_ge s.profile.length 2 with hlt | hle
    · -- the only slice is long enough for the job
      intro first hfirst
      obtain ⟨rest, hp⟩ : ∃ rest, s.profile = first :: rest := by
        cases hp : s.profile with
        | nil => simp [hp] at hfirst
        | cons t rest => exact ⟨rest, by rw [hp] at hfirst; rw [Option.some.inj hfirst]⟩
      have hlast : a.last ∈ first :: rest := by
        rw [← hp, ← hshape]
        simp
      rw [hp, List.length_cons] at hlt
      obtain rfl : rest = [] := List.length_eq_zero_iff.1 (by omega)
      rw [List.mem_singleton.1 hlast] at hbounds
      exact (hbounds.1.trans_le hbounds.2).le
    · exact h.upright hle
  refine ⟨⟨h.plans.place hjob (fun _ => hpos) hc hanchor, ?_, hbegins.trans h.begins, fun _ => upright_placedAt hshape hup, ?_⟩,
    ⟨⟨a, hanchor, rfl, rfl⟩, ?_, hothers⟩⟩
  · have hdiffer := h.differ
    have hnew := Schedule.containsJob_eq_false.1 hc
    rw [← hshape] at hdiffer hnew
    exact hdiffer.placeAt _ hnew
  · intro k hk hheld
    have hend := h.ends k hk hheld
    have hne : k.id ≠ job.id := by
      intro heq
      have hck := containsJob_of_plannedEnd hend
      rw [W.id_injOn hk hjob heq, hc] at hck
      cases hck
    rw [(hothers k hne).2.1, hend]
  · rw [plannedEnd_placedAt hc hshape hbounds.1 hbounds.2, hend]
    rfl

/-- A job placed in the first slice begins now. -/
theorem beginDate_of_started (h : Dated W start date s held) (hplaced : Placed job s s' alloc)
    (hstart : alloc.startedInFirstSlice = true) : alloc.beginDate = date := by
  obtain ⟨a, hanchor, -, rfl⟩ := hplaced.begins
  obtain ⟨hshape, -⟩ := Schedule.findAnchorWith_ok hanchor
  have hnil : a.before = [] := List.isEmpty_iff.1 hstart
  rw [← h.begins, Schedule.firstSliceBegin, ← hshape, hnil, Schedule.allocAt, Anchor.beginDate]
  cases a.covered <;> rfl

theorem remove {b : Bool} (h : Dated W start date s held) (hheld : ∀ id ∈ held', id ∈ held ∧ id ≠ job.id)
    (hr : s.removeJobIfExists job = .ok (s', b)) : Dated W start date s' held' := by
  obtain ⟨-, hbegins, hothers⟩ := removeJobIfExists_plan h.plans.machines.runs hr
  refine ⟨h.plans.removeJobIfExists hr, h.differ.removeJobIfExists h.plans.machines.runs hr, hbegins.trans h.begins, fun hle => ?_,
    fun k hk hid => ?_⟩
  · exact upright_removeJobIfExists h.plans.timed (h.upright (hle.trans (length_removeJobIfExists hr))) hr
  · rw [(hothers k (hheld _ hid).2).2.1, h.ends k hk (hheld _ hid).1]

/-- Where some job of the profile is in one of the first two slices only, it ends with the first or begins with the second. -/
theorem edge_of_neighbours {first second : TimeSlice} {rest : List TimeSlice} (hruns : RunsOk W (first :: second :: rest))
    (hne : machinesOf job first ≠ machinesOf job second) :
    (machinesOf job first ≠ none ∧ lastEnd (·.containsJob job) (first :: second :: rest) = some first.endDate) ∨
      (machinesOf job first = none ∧ firstBegin (·.containsJob job) (first :: second :: rest) = some second.beginDate) := by
  cases hfirst : machinesOf job first with
  | some m =>
    refine .inl ⟨nofun, ?_⟩
    have hrun := hruns.runs job
    rw [List.map_cons, List.map_cons] at hrun
    have hsecond : machinesOf job second = none := by
      by_contra hsome
      obtain ⟨m', hm'⟩ := Option.ne_none_iff_exists'.1 hsome
      refine hne ?_
      have heq : m = m' := hrun.eq_of_mem (by simp [hfirst]) (by simp [hm'])
      rw [hfirst, hm', heq]
    rw [hfirst, hsecond] at hrun
    have hnone : lastEnd (·.containsJob job) (second :: rest) = none := by
      rw [lastEnd, List.find?_eq_none.2 fun t ht => ?_]
      · rfl
      · rw [containsJob_eq_isSome]
        rcases List.mem_cons.1 (List.mem_reverse.1 ht) with rfl | ht
        · simp [hsecond]
        · have hafter := @List.OneRun.none_after _ m [some m] _ hrun List.mem_cons_self
          simp [hafter _ (List.mem_map_of_mem ht)]
    rw [lastEnd_cons, hnone, containsJob_eq_isSome, hfirst]
    rfl
  | none =>
    refine .inr ⟨rfl, ?_⟩
    obtain ⟨m, hm⟩ := Option.ne_none_iff_exists'.1 fun hbad => hne (hfirst.trans hbad.symm)
    rw [firstBegin_cons, firstBegin_cons, containsJob_eq_isSome, containsJob_eq_isSome, hfirst, hm]
    rfl

/-- The first slice may begin at a date by which no job of the schedule has ended or, but for those that run, begun. -/
theorem update {date' : ℚ} (h : Dated W start date s held) (hu : s.updateFirstSlice date' = .ok s')
    (hheld : ∀ job ∈ W.jobs, job.id ∈ held → date' ≤ start job.id + job.walltime)
    (hwaits : ∀ job ∈ W.jobs, job.id ∉ held → machinesNow job s.profile = none ∧ ∀ b, s.plannedBegin job = some b → date' ≤ b)
    (hnow : ∀ job ∈ W.jobs, job.id ∈ held → machinesNow job s.profile ≠ none) : Dated W start date' s' held := by
  obtain ⟨first, rest, hprofile, hprofile', -⟩ := Schedule.updateFirstSlice_ok hu
  refine ⟨h.plans.updateFirstSlice hu, h.differ.updateFirstSlice hu, ?_, fun hle => ?_, fun job hjob hid => ?_⟩
  · rw [Schedule.firstSliceBegin, hprofile']
    rfl
  · obtain ⟨second, rest, rfl⟩ : ∃ second tail, rest = second :: tail := by
      cases rest with
      | nil => simp [hprofile'] at hle
      | cons second tail => exact ⟨second, tail, rfl⟩
    have hruns := h.plans.machines.runs
    have hdiffer := h.differ
    have htimed := h.plans.timed
    rw [hprofile] at hruns hdiffer htimed
    obtain ⟨job, hjob, hne⟩ := hruns.exists_machinesOf_ne (by simp) (by simp) (List.isChain_cons_cons.1 hdiffer).1
    have hend : date' ≤ first.endDate := by
      rcases edge_of_neighbours hruns hne with ⟨hfirst, hlast⟩ | ⟨hfirst, hbegin⟩
      · have hid : job.id ∈ held := by
          by_contra hid
          refine hfirst ?_
          have hnone := (hwaits job hjob hid).1
          rw [hprofile] at hnone
          exact hnone
        have hdate := h.ends job hjob hid
        rw [Schedule.plannedEnd, hprofile, hlast] at hdate
        rw [Option.some.inj hdate]
        exact hheld job hjob hid
      · have hid : job.id ∉ held := by
          intro hid
          refine hnow job hjob hid ?_
          rw [hprofile]
          exact hfirst
        have hdate := (hwaits job hjob hid).2 second.beginDate (by rw [Schedule.plannedBegin, hprofile, hbegin])
        obtain ⟨e, hchain⟩ := htimed.chained
        exact hdate.trans (hchain.1).le
    intro slice hslice
    rw [hprofile'] at hslice
    rw [← Option.some.inj hslice]
    exact hend
  · rw [← h.ends job hjob hid, Schedule.plannedEnd, Schedule.plannedEnd, hprofile, hprofile', lastEnd_cons, lastEnd_cons]
    rfl

/-- A job that starts now is held. -/
theorem start_held (h : Dated W start date s held) (hend : s.plannedEnd job = some (start job.id + job.walltime))
    (hjob : job ∈ W.jobs) : Dated W start date s (held ++ [job.id]) where
  plans := h.plans
  differ := h.differ
  begins := h.begins
  upright := h.upright
  ends := by
    intro k hk hid
    rcases List.mem_append.1 hid with hid | hid
    · exact h.ends k hk hid
    · rw [W.id_injOn hk hjob (List.mem_singleton.1 hid), hend]

/-- A job that waits for a machine of one that runs begins when that one has ended. -/
theorem end_le_begin (h : Dated W start date s held) {k : Job} {b : ℚ} {ms mk : IntervalSet} {x : ℕ} (hk : k ∈ W.jobs)
    (hheld : k.id ∈ held) (hne : k.id ≠ job.id) (hnow : machinesNow k s.profile = some mk) (hb : s.plannedBegin job = some b)
    (hms : ∃ t ∈ s.profile, machinesOf job t = some ms) (hx : x ∈ ms) (hxk : x ∈ mk) : start k.id + k.walltime ≤ b := by
  have hruns := h.plans.machines.runs
  obtain ⟨head, hhead, hkhead⟩ : ∃ t ∈ s.profile, machinesOf k t = some mk := by
    obtain ⟨t, ht, hkt⟩ := Option.bind_eq_some_iff.1 hnow
    exact ⟨t, List.mem_of_mem_head? ht, hkt⟩
  have hapart : ∀ t ∈ s.profile, t.containsJob job = true → t.containsJob k = false := by
    -- a slice that held both would give both the machine
    intro t ht hjt
    rw [← Bool.not_eq_true]
    intro hkt
    rw [containsJob_eq_isSome] at hjt hkt
    obtain ⟨m, hm⟩ := Option.isSome_iff_exists.1 hjt
    obtain ⟨m', hm'⟩ := Option.isSome_iff_exists.1 hkt
    obtain ⟨u, hu, hju⟩ := hms
    obtain rfl := (hruns.runs job).eq_of_mem (List.mem_map.2 ⟨t, ht, hm⟩) (List.mem_map.2 ⟨u, hu, hju⟩)
    obtain rfl := (hruns.runs k).eq_of_mem (List.mem_map.2 ⟨t, ht, hm'⟩) (List.mem_map.2 ⟨head, hhead, hkhead⟩)
    obtain ⟨job', hjob', hid⟩ := KeyedMap.find?_eq_some.1 hm
    obtain ⟨k', hk', hid'⟩ := KeyedMap.find?_eq_some.1 hm'
    have hdisj := (h.plans.machines.slices t ht).disjoint _ hk' _ hjob' fun heq => hne (by rw [← hid, ← hid', (Prod.mk.inj heq).1])
    exact Finset.disjoint_left.1 hdisj hxk hx
  obtain ⟨e, hlast, hle⟩ := lastEnd_le_firstBegin hruns h.plans.timed (by rw [hnow]; nofun) hb hapart
  have hend := h.ends k hk hheld
  rw [Schedule.plannedEnd, hlast] at hend
  exact Option.some.inj hend ▸ hle

/-- Where only jobs that run are in a schedule, what is available now is available in every slice. -/
theorem available_of_now (h : Dated W start date s held) {first t : TimeSlice} {rest : List TimeSlice}
    (hpresent : ∀ k ∈ W.jobs, s.containsJob k = true → machinesNow k s.profile ≠ none) (hprofile : s.profile = first :: rest)
    (ht : t ∈ s.profile) : first.availableMachines ⊆ t.availableMachines := by
  have hok := h.plans.machines.slices
  have hruns := h.plans.machines.runs
  have hmem : first ∈ s.profile := by simp [hprofile]
  intro x hx
  have hfirst := ((hok first hmem).available x).1 hx
  refine ((hok t ht).available x).2 ⟨hfirst.1, hfirst.2.1, fun e he hxe => ?_⟩
  have hkt : machinesOf e.1 t = some e.2 := KeyedMap.find?_eq_some.2 ⟨e.1, he, rfl⟩
  have hnow := hpresent e.1 (hruns.known t ht e he)
    (containsJob_iff_present.2 ⟨t, ht, KeyedMap.contains_iff.2 ⟨e, he, rfl⟩⟩)
  rw [hprofile] at hnow
  obtain ⟨m, hm⟩ := Option.ne_none_iff_exists'.1 (show machinesOf e.1 first ≠ none from hnow)
  obtain rfl := (hruns.runs e.1).eq_of_mem (List.mem_map.2 ⟨first, hmem, hm⟩) (List.mem_map.2 ⟨t, ht, hkt⟩)
  obtain ⟨k, hk, -⟩ := KeyedMap.find?_eq_some.1 hm
  exact hfirst.2.2 _ hk hxe

/-- A job that fits behind the first slice is no longer than the schedule. -/
theorem walltime_le_totalLength (h : Dated W start date s held) {a : Anchor} (hw : job.hasWalltime = true)
    (hanchor : s.findAnchorWith .basic job = some a) (hlate : a.before ≠ []) : job.walltime ≤ totalLength s.profile := by
  obtain ⟨hshape, hfits, -⟩ := Schedule.findAnchorWith_ok hanchor
  obtain ⟨first, rest, hprofile, hbegin, hchain⟩ := exists_chain h.plans.timed
  have hlength : ∀ u ∈ first :: rest, u.length = u.endDate - u.beginDate := fun u hu => h.plans.timed.length u (hprofile ▸ hu)
  rw [hprofile, totalLength_chained hchain hlength]
  have htimed := h.plans.timed
  rw [← hshape] at htimed
  obtain ⟨-, htotal, -⟩ := htimed.anchor
  have hlong := hfits.enough
  rw [htotal, Schedule.walltimeFrom, if_pos hw] at hlong
  have hup : s.Upright := by
    refine h.upright ?_
    rw [← hshape]
    obtain ⟨b, bs, hb⟩ := List.exists_cons_of_ne_nil hlate
    simp only [hb, List.length_append, List.length_reverse, List.length_cons]
    omega
  obtain ⟨first', more, hmore, hfirst'⟩ := a.slices_eq
  have hmem : ∀ t ∈ a.slices, t ∈ s.profile := by
    intro t ht
    rw [← hshape]
    simp only [Anchor.slices, List.mem_append, List.mem_cons, List.mem_reverse, List.not_mem_nil, or_false] at ht ⊢
    tauto
  have hbegins := (slice_bounds h.plans.timed hup (hmem first' (by simp [hmore]))).1
  have hends := (slice_bounds h.plans.timed hup (hmem a.last (by simp [Anchor.slices]))).2.2
  rw [Anchor.beginDate, ← hfirst'] at hlong
  rw [hbegin]
  linarith

/-- Where only jobs that run are in a schedule and first fit does not place another job in the first slice, some of its machines are
not available now. -/
theorem exists_unavailable (h : Dated W start date s held) {a : Anchor} (hw : job.hasWalltime = true)
    (hpresent : ∀ k ∈ W.jobs, s.containsJob k = true → machinesNow k s.profile ≠ none)
    (hanchor : s.findAnchorWith .basic job = some a) (hlate : a.before ≠ []) :
    ∃ first rest, s.profile = first :: rest ∧ ∃ x ∈ a.usedMachines, x ∉ first.availableMachines := by
  obtain ⟨-, hfits, -⟩ := Schedule.findAnchorWith_ok hanchor
  obtain ⟨first, rest, hprofile, -⟩ := exists_chain h.plans.timed
  refine ⟨first, rest, hprofile, ?_⟩
  by_contra hall
  push Not at hall
  -- the machines are available in every slice, so first fit would have found the first
  have hslices : ∀ t ∈ first :: rest, a.usedMachines ⊆ t.availableMachines ∧
      (job.nbRequestedResources : ℤ) ≤ t.nbAvailableMachines := by
    intro t ht
    rw [← hprofile] at ht
    have hfree := Finset.Subset.trans hall (h.available_of_now hpresent hprofile ht)
    refine ⟨hfree, ?_⟩
    rw [(h.plans.machines.slices t ht).count, ← hfits.card]
    exact_mod_cast Finset.card_le_card hfree
  have henough : s.walltimeFrom job first ≤ totalLength (first :: rest) := by
    rw [Schedule.walltimeFrom, if_pos hw, ← hprofile]
    exact h.walltime_le_totalLength hw hanchor hlate
  obtain ⟨a', ha', hle⟩ := @scanAnchor_complete (BasicResourceSelector.fit job) job.nbRequestedResources a.usedMachines
    (fun available hsub => BasicResourceSelector.fit_isSome.2 (hfits.card ▸ Finset.card_le_card hsub)) hfits.card.ge
    (s.walltimeFrom job) [] [] rest [] first hslices henough
  rw [List.nil_append, List.append_nil, ← hprofile] at ha'
  obtain rfl : a' = a := Option.some.inj (ha'.symm.trans hanchor)
  exact hlate (List.length_eq_zero_iff.1 (Nat.le_zero.1 hle))

/-- A job that first fit does not place in the first slice of a schedule of jobs that run waits for one of them. -/
theorem waits_of_placed (h : Dated W start date s held) (hjob : job ∈ W.jobs) (hw : job.hasWalltime = true)
    (hpos : 0 < job.walltime) (hpresent : ∀ k ∈ W.jobs, s.containsJob k = true → k.id ∈ held)
    (hnow : ∀ k ∈ W.jobs, k.id ∈ held → machinesNow k s.profile ≠ none) (ha : s.addJobFirstFit job = .ok (s', alloc))
    (hlate : alloc.startedInFirstSlice = false) : Planned s' job alloc.beginDate ∧
      SomeEndsBy W start held alloc.beginDate := by
  obtain ⟨h', ⟨a, hanchor, rfl, rfl⟩, -, hothers⟩ := h.place hjob hw hpos ha
  obtain ⟨hc, -⟩ := anchor_of_addJobFirstFit ha
  obtain ⟨hshape, hfits, -⟩ := Schedule.findAnchorWith_ok hanchor
  have hbefore : a.before ≠ [] := fun hnil => by
    rw [Schedule.allocAt, hnil] at hlate
    cases hlate
  obtain ⟨first, rest, hprofile, x, hx, hbusy⟩ :=
    h.exists_unavailable hw (fun k hk hck => hnow k hk (hpresent k hk hck)) hanchor hbefore
  have hok := h.plans.machines.slices
  -- a job that runs is on one of the machines
  obtain ⟨e, he, hxe⟩ : ∃ e ∈ first.allocatedJobs.entries, x ∈ e.2 := by
    by_contra hnone
    push Not at hnone
    have hlast : a.last ∈ s.profile := by
      rw [← hshape]
      simp
    have hfree := ((hok a.last hlast).available x).1 (hfits.used a.last (by simp [Anchor.slices]) hx)
    exact hbusy (((hok first (by simp [hprofile])).available x).2 ⟨hfree.1, hfree.2.1, hnone⟩)
  have hfirst : first ∈ s.profile := by simp [hprofile]
  have hk : e.1 ∈ W.jobs := h.plans.machines.runs.known first hfirst e he
  have hcontains : s.containsJob e.1 = true :=
    containsJob_iff_present.2 ⟨first, hfirst, KeyedMap.contains_iff.2 ⟨e, he, rfl⟩⟩
  have hne : e.1.id ≠ job.id := by
    intro heq
    rw [W.id_injOn hk hjob heq, hc] at hcontains
    cases hcontains
  have hbegin := plannedBegin_placedAt hc hshape
  obtain ⟨first', more, after, hplace, -, hheld, -⟩ := placeAt_parts hshape hc (s.endDateAt job a)
  refine ⟨⟨hbegin, ?_, ?_⟩, e.1, hk, hpresent e.1 hk hcontains, ?_⟩
  · rw [show (s.placedAt job a).profile = Schedule.placeAt job a (s.endDateAt job a) from rfl, machinesNow_placeAt,
      if_neg fun hbad => hbefore (List.isEmpty_iff.1 hbad.1), hshape, hprofile]
    exact machinesOf_eq_none (Schedule.containsJob_eq_false.1 hc first hfirst)
  · rw [← hfits.card]
    exact Finset.card_pos.2 ⟨x, hx⟩
  · refine h'.end_le_begin hk (hpresent e.1 hk hcontains) hne ?_ hbegin ⟨first', ?_, hheld first' List.mem_cons_self⟩ hx hxe
    · rw [(hothers e.1 hne).2.2, hprofile]
      exact KeyedMap.find?_eq_some.2 ⟨e.1, he, rfl⟩
    · rw [show (s.placedAt job a).profile = Schedule.placeAt job a (s.endDateAt job a) from rfl, hplace]
      simp

/-- Where no machine is available now, a job that is planned waits for one that runs. -/
theorem someEndsBy_of_full (h : Dated W start date s held) {b : ℚ} (hjob : job ∈ W.jobs) (hplanned : Planned s job b)
    (hpresent : ∀ k ∈ W.jobs, k.id ≠ job.id → s.containsJob k = true → k.id ∈ held)
    (hfull : ∀ first ∈ s.profile.head?, first.availableMachines = ∅) : SomeEndsBy W start held b := by
  have hruns := h.plans.machines.runs
  have hok := h.plans.machines.slices
  obtain ⟨first, rest, hprofile, -⟩ := exists_chain h.plans.timed
  obtain ⟨-, ms, -, -, -, -, ⟨t, ht, hjt⟩, -⟩ := planned_span hruns h.plans.timed hplanned.begins hplanned.later
  obtain ⟨job', hjob', hid⟩ := KeyedMap.find?_eq_some.1 hjt
  obtain rfl := W.id_injOn (hruns.known t ht _ hjob') hjob hid
  -- one of its machines
  obtain ⟨x, hx⟩ : ms.Nonempty := by
    rw [← Finset.card_pos, (h.plans.suited t ht _ hjob').1]
    exact hplanned.requests
  obtain ⟨hrange, hrepair⟩ := (hok t ht).inRange _ hjob' x hx
  have hfirst : first ∈ s.profile := by simp [hprofile]
  obtain ⟨e, he, hxe⟩ : ∃ e ∈ first.allocatedJobs.entries, x ∈ e.2 := by
    by_contra hnone
    push Not at hnone
    have hfree := ((hok first hfirst).available x).2 ⟨hrange, hrepair, hnone⟩
    rw [hfull first (by rw [hprofile]; rfl)] at hfree
    exact Finset.notMem_empty x hfree
  have hk : e.1 ∈ W.jobs := hruns.known first hfirst e he
  have hnow : machinesNow e.1 s.profile = some e.2 := by
    rw [hprofile]
    exact KeyedMap.find?_eq_some.2 ⟨e.1, he, rfl⟩
  have hne : e.1.id ≠ job'.id := by
    intro heq
    have hlater := hplanned.later
    rw [← W.id_injOn hk hjob heq, hnow] at hlater
    cases hlater
  have hheld := hpresent e.1 hk hne (containsJob_iff_present.2 ⟨first, hfirst, KeyedMap.contains_iff.2 ⟨e, he, rfl⟩⟩)
  exact ⟨e.1, hk, hheld, h.end_le_begin hk hheld hne hnow hplanned.begins ⟨t, ht, hjt⟩ hx hxe⟩

/-- Fewer jobs may be held. -/
theorem fewer (h : Dated W start date s held) (hheld : ∀ id ∈ held', id ∈ held) : Dated W start date s held' :=
  ⟨h.plans, h.differ, h.begins, h.upright, fun job hjob hid => h.ends job hjob (hheld _ hid)⟩

/-- Other starts that agree for the jobs held. -/
theorem congr {start' : String → ℚ} (h : Dated W start date s held) (hstart : ∀ id ∈ held, start' id = start id) :
    Dated W start' date s held where
  plans := h.plans
  differ := h.differ
  begins := h.begins
  upright := h.upright
  ends := by
    intro job hjob hid
    rw [h.ends job hjob hid, hstart _ hid]

end Dated

/-- More jobs may be named. -/
theorem PlansOk.mono {W V : NamedJobs} {selector : ResourceSelector} {s : Schedule} (h : PlansOk W selector s)
    (hsub : W.jobs ⊆ V.jobs) : PlansOk V selector s where
  machines := ⟨h.machines.nonempty, h.machines.repair, h.machines.runs.mono hsub, h.machines.slices⟩
  timed := h.timed
  horizon := h.horizon
  suited := h.suited
  whole := by
    intro job hjob hnow b hb
    -- a job that is planned has been named before
    have hc : s.containsJob job = true := by
      rw [← plannedBegin_isSome, hb]
      rfl
    obtain ⟨t, ht, hcontains⟩ := containsJob_iff_present.1 hc
    obtain ⟨e, he, hid⟩ := KeyedMap.contains_iff.1 hcontains
    have hknown := h.machines.runs.known t ht e he
    obtain rfl := V.id_injOn (hsub hknown) hjob hid
    exact h.whole e.1 hknown hnow b hb

/-- More jobs may be named than the jobs held. -/
theorem Dated.mono {W V : NamedJobs} {start : String → ℚ} {date : ℚ} {s : Schedule} {held : List String}
    (h : Dated W start date s held) (hsub : W.jobs ⊆ V.jobs)
    (hheld : ∀ id ∈ held, ∃ job ∈ W.jobs, job.id = id) : Dated V start date s held where
  plans := h.plans.mono hsub
  differ := h.differ
  begins := h.begins
  upright := h.upright
  ends := by
    intro job hjob hid
    obtain ⟨k, hk, heq⟩ := hheld _ hid
    obtain rfl := V.id_injOn (hsub hk) hjob heq
    exact h.ends k hk hid

end ScheduleTest
