import ScheduleTest.Lemmas.FirstFit
import ScheduleTest.Lemmas.Exclusive

/-!
# The dates at which jobs are planned

A job that waits in a schedule has a run of slices: it is planned to begin with the first of them and to end with the last
(`Schedule.plannedBegin`, `Schedule.plannedEnd`). What is done to other jobs, and the time that passes, do not move it. So in every
state that a run of calls reaches, a job that does not run yet is planned for exactly its walltime (`PlansOk`).
-/

namespace ScheduleTest

open Timeline

/-! ## The first and the last slice that meet a condition -/

/-- The begin of the first slice that meets a condition. -/
def firstBegin (q : TimeSlice → Bool) (p : List TimeSlice) : Option ℚ := (p.find? q).map (·.beginDate)

/-- The end of the last slice that meets a condition. -/
def lastEnd (q : TimeSlice → Bool) (p : List TimeSlice) : Option ℚ := (p.reverse.find? q).map (·.endDate)

/-- A condition on the jobs of a slice that does not see some job. -/
structure Unseen (job : Job) (q : TimeSlice → Bool) : Prop where
  jobs : ∀ t u : TimeSlice, t.allocatedJobs = u.allocatedJobs → q t = q u
  allocate : ∀ (t : TimeSlice) used, q (t.allocateJob job used) = q t
  erase : ∀ (t : TimeSlice) ms, q (t.eraseJob job ms) = q t

/-- Whether a slice holds another job. -/
theorem Unseen.containsJob {job job' : Job} (hne : job'.id ≠ job.id) : Unseen job (·.containsJob job') where
  jobs := by
    intro t u heq
    simp only [TimeSlice.containsJob, heq]
  allocate := by
    intro t used
    rw [containsJob_eq_isSome, machinesOf_allocateJob, if_neg hne, containsJob_eq_isSome]
  erase := by
    intro t ms
    rw [containsJob_eq_isSome, machinesOf_eraseJob, if_neg hne, containsJob_eq_isSome]

theorem Unseen.true (job : Job) : Unseen job (fun _ => true) := ⟨fun _ _ _ => rfl, fun _ _ => rfl, fun _ _ => rfl⟩

section Edges

variable {q : TimeSlice → Bool} {l r : List TimeSlice} {t : TimeSlice} {job : Job}

theorem firstBegin_append : firstBegin q (l ++ r) = (firstBegin q l).or (firstBegin q r) := by
  simp only [firstBegin, List.find?_append]
  cases l.find? q <;> rfl

theorem firstBegin_cons : firstBegin q (t :: r) = if q t then some t.beginDate else firstBegin q r := by
  cases h : q t <;> simp [firstBegin, h]

theorem lastEnd_append : lastEnd q (l ++ r) = (lastEnd q r).or (lastEnd q l) := by
  simp only [lastEnd, List.reverse_append, List.find?_append]
  cases r.reverse.find? q <;> rfl

theorem lastEnd_cons : lastEnd q (t :: r) = (lastEnd q r).or (if q t then some t.endDate else none) := by
  rw [← List.singleton_append, lastEnd_append]
  cases h : q t <;> simp [lastEnd, h]

/-- A change of the slices that neither the condition nor the dates see. -/
theorem edges_map {f : TimeSlice → TimeSlice} (hq : ∀ t, q (f t) = q t)
    (hf : ∀ t, (f t).beginDate = t.beginDate ∧ (f t).endDate = t.endDate) :
    firstBegin q (l.map f) = firstBegin q l ∧ lastEnd q (l.map f) = lastEnd q l := by
  induction l with
  | nil => exact ⟨rfl, rfl⟩
  | cons t l ih =>
    rw [List.map_cons, firstBegin_cons, firstBegin_cons, lastEnd_cons, lastEnd_cons, hq, (hf t).1, (hf t).2, ih.1, ih.2]
    exact ⟨rfl, rfl⟩

/-- Cutting a slice in two moves neither date. -/
theorem edges_split (hq : Unseen job q) (date : ℚ) :
    firstBegin q ((t.splitSlice date).1 :: ((t.splitSlice date).2.toList ++ r)) = firstBegin q (t :: r) ∧
      lastEnd q ((t.splitSlice date).1 :: ((t.splitSlice date).2.toList ++ r)) = lastEnd q (t :: r) := by
  rw [TimeSlice.splitSlice]
  split
  · have h1 : ∀ b e l, q (t.retime b e l) = q t := fun _ _ _ => hq.jobs _ _ rfl
    simp only [Option.toList_some, List.singleton_append, firstBegin_cons, lastEnd_cons, TimeSlice.retime] at h1 ⊢
    simp only [h1]
    constructor
    · cases q t <;> simp
    · cases lastEnd q r <;> cases q t <;> simp
  · exact ⟨rfl, rfl⟩

/-- Merging neighbours that are alike moves neither date. -/
theorem edges_merge {previous pit merged : TimeSlice} (hq : Unseen job q) (heq : previous.allocatedJobs = pit.allocatedJobs)
    (hm : previous.mergeWithPrevious pit = .ok (some merged)) :
    firstBegin q (l ++ merged :: r) = firstBegin q (l ++ previous :: pit :: r) ∧
      lastEnd q (l ++ merged :: r) = lastEnd q (l ++ previous :: pit :: r) := by
  have h1 : q previous = q pit := hq.jobs _ _ heq
  have h2 : q merged = q pit := hq.jobs _ _ (by rw [(mergeWithPrevious_some hm).1]; rfl)
  simp only [firstBegin_append, lastEnd_append, firstBegin_cons, lastEnd_cons, h1, h2]
  rw [(mergeWithPrevious_some hm).1]
  cases q pit <;> cases lastEnd q r <;> simp [TimeSlice.retime]

/-- Removing a job moves no date of what does not see it. -/
theorem edges_removeFrom {W : NamedJobs} {ms : IntervalSet} {before after p' : List TimeSlice} (hq : Unseen job q)
    (hruns : RunsOk W (before.reverse ++ after)) (hb : ∀ s ∈ before, s.containsJob job = false)
    (hr : removeFrom job ms before after = .ok p') :
    firstBegin q p' = firstBegin q (before.reverse ++ after) ∧ lastEnd q p' = lastEnd q (before.reverse ++ after) := by
  refine (removeFrom_rule (P := fun p => RunsOk W p ∧ firstBegin q p = firstBegin q (before.reverse ++ after) ∧
    lastEnd q p = lastEnd q (before.reverse ++ after)) ?_ ?_ hb ⟨hruns, rfl, rfl⟩ hr).2
  · rintro l pit r ⟨hruns, hfirst, hlast⟩ hl _
    refine ⟨hruns.erase hl, ?_, ?_⟩
    · rw [← hfirst, firstBegin_append, firstBegin_append, firstBegin_cons, firstBegin_cons, hq.erase]
      rfl
    · rw [← hlast, lastEnd_append, lastEnd_append, lastEnd_cons, lastEnd_cons, hq.erase]
      rfl
  · rintro l previous pit merged r ⟨hruns, hfirst, hlast⟩ hm
    obtain ⟨h1, h2⟩ := edges_merge (l := l) (r := r) hq (hruns.allocatedJobs_eq_of_merge hm) hm
    exact ⟨hruns.merge hm, h1.trans hfirst, h2.trans hlast⟩

/-- Placing a job moves no date of what does not see it. -/
theorem edges_placeAt (hq : Unseen job q) (a : Anchor) (endDate : ℚ) :
    firstBegin q (Schedule.placeAt job a endDate) = firstBegin q (a.before.reverse ++ (a.covered ++ a.last :: a.rest)) ∧
      lastEnd q (Schedule.placeAt job a endDate) = lastEnd q (a.before.reverse ++ (a.covered ++ a.last :: a.rest)) := by
  have hmap := edges_map (l := a.covered ++ [(a.last.splitSlice endDate).1]) (f := TimeSlice.allocateJob job a.usedMachines)
    (fun t => hq.allocate t _) fun _ => ⟨rfl, rfl⟩
  have hsplit := edges_split (t := a.last) (r := a.rest) hq endDate
  have hparts : a.covered ++ [(a.last.splitSlice endDate).1] ++ ((a.last.splitSlice endDate).2.toList ++ a.rest) =
      a.covered ++ (a.last.splitSlice endDate).1 :: ((a.last.splitSlice endDate).2.toList ++ a.rest) := by
    simp
  rw [placeAt_eq]
  constructor
  · rw [firstBegin_append, firstBegin_append, hmap.1, ← firstBegin_append, hparts, firstBegin_append (l := a.covered), hsplit.1,
      ← firstBegin_append, ← firstBegin_append]
  · rw [lastEnd_append, lastEnd_append, hmap.2, ← lastEnd_append, hparts, lastEnd_append (l := a.covered), hsplit.2,
      ← lastEnd_append, ← lastEnd_append]

end Edges

/-! ## Planned jobs -/

/-- The date at which a job of the schedule is planned to begin. -/
def Schedule.plannedBegin (s : Schedule) (job : Job) : Option ℚ := firstBegin (·.containsJob job) s.profile

/-- The date at which a job of the schedule is planned to end. -/
def Schedule.plannedEnd (s : Schedule) (job : Job) : Option ℚ := lastEnd (·.containsJob job) s.profile

/-- A job that is in the schedule has a date. -/
theorem plannedBegin_isSome {s : Schedule} {job : Job} : (s.plannedBegin job).isSome = s.containsJob job := by
  rw [Schedule.plannedBegin, firstBegin, Option.isSome_map, Schedule.containsJob, Bool.eq_iff_iff, List.find?_isSome, List.any_eq_true]

/-- The slices of a planned job, which are one after the other. -/
theorem exists_planned {W : NamedJobs} {p : List TimeSlice} {job : Job} {b : ℚ} (hruns : RunsOk W p)
    (hb : firstBegin (·.containsJob job) p = some b) : ∃ l first more r ms, p = l ++ (first :: more ++ r) ∧ first.beginDate = b ∧
      (∀ t ∈ first :: more, machinesOf job t = some ms) ∧ (∀ t ∈ l, t.containsJob job = false) ∧
      ∀ t ∈ r, t.containsJob job = false := by
  obtain ⟨first, hfind, rfl⟩ := Option.map_eq_some_iff.1 hb
  obtain ⟨hc, l, rest, rfl, hl⟩ := List.find?_eq_some_iff_append.1 hfind
  rw [containsJob_eq_isSome] at hc
  obtain ⟨ms, hms⟩ := Option.isSome_iff_exists.1 hc
  have hl' : ∀ t ∈ l, t.containsJob job = false := fun t ht => by simpa using hl t ht
  have hrun := hruns.runs job
  rw [List.map_append, List.oneRun_append_none, List.map_cons, hms] at hrun
  · obtain ⟨mid, post, hsplit, hmid, hpost⟩ := List.RunTail.exists_append (show (rest.map (machinesOf job)).RunTail ms from hrun)
    obtain ⟨more, r, rfl, rfl, rfl⟩ := List.map_eq_append_iff.1 hsplit
    refine ⟨l, first, more, r, ms, rfl, rfl, fun t ht => ?_, hl', fun t ht => ?_⟩
    · rcases List.mem_cons.1 ht with rfl | ht
      · exact hms
      · exact hmid _ (List.mem_map_of_mem ht)
    · rw [containsJob_eq_isSome, hpost _ (List.mem_map_of_mem ht)]
      rfl
  · intro x hx
    obtain ⟨t, ht, rfl⟩ := List.mem_map.1 hx
    exact machinesOf_eq_none (hl' t ht)

/-- A job that is planned and does not run now has the same machines from the date it begins to the date it ends, which lie after the
first slice. -/
theorem planned_span {W : NamedJobs} {s : Schedule} {job : Job} {b : ℚ} (hruns : RunsOk W s.profile) (ht : Timed s.profile)
    (hb : s.plannedBegin job = some b) (hwaits : machinesNow job s.profile = none) :
    ∃ e ms, s.plannedEnd job = some e ∧ b < e ∧ e ≤ s.infiniteHorizon ∧ (∀ first ∈ s.profile.head?, first.endDate ≤ b) ∧
      (∃ t ∈ s.profile, machinesOf job t = some ms) ∧
      ∀ x, s.firstSliceBegin ≤ x → b ≤ x → x < e → ∃ t, sliceAt s.profile x = some t ∧ machinesOf job t = some ms := by
  obtain ⟨l, first, more, r, ms, hp, hfirst, hheld, hl, hr⟩ := exists_planned hruns hb
  obtain ⟨head, rest, hprofile, hbegin, hchain⟩ := exists_chain ht
  rw [← hprofile, hp] at hchain
  -- the job does not run now, so some slice comes before
  have hne : l ≠ [] := by
    rintro rfl
    rw [hp, machinesNow, List.nil_append, List.cons_append, List.head?_cons, Option.bind_some,
      hheld first List.mem_cons_self] at hwaits
    cases hwaits
  obtain ⟨c, hblock, hrest, hbefore⟩ := hchain.block
  obtain ⟨hl', htiling⟩ := hbefore hne
  have hhead : ∀ u ∈ (l ++ (first :: more ++ r)).head?, u = head := by
    intro u hu
    rw [← hp, hprofile] at hu
    exact (Option.some.inj hu).symm
  have hlast : s.plannedEnd job = some c := by
    obtain ⟨m, last, hlast⟩ := (List.eq_nil_or_concat (first :: more)).resolve_left (List.cons_ne_nil _ _)
    rw [List.concat_eq_append] at hlast
    have hnone : lastEnd (·.containsJob job) r = none := by
      rw [lastEnd, List.find?_eq_none.2 fun t ht => ?_]
      · rfl
      · simp [hr t (List.mem_reverse.1 ht)]
    have hcl : last.containsJob job = true := by
      rw [containsJob_eq_isSome, hheld last (by rw [hlast]; simp)]
      rfl
    rw [hlast] at hblock
    rw [Schedule.plannedEnd, hp, hlast, lastEnd_append, lastEnd_append, hnone, lastEnd_append, lastEnd_cons, if_pos hcl,
      hblock.eq_stop]
    rfl
  refine ⟨c, ms, hlast, ?_, hrest.le, ?_, ⟨first, by rw [hp]; simp, hheld first List.mem_cons_self⟩, ?_⟩
  · rw [← hfirst]
    exact lt_of_lt_of_le htiling.2.1 htiling.2.2.le
  · intro u hu
    rw [hp] at hu
    cases l with
    | nil => exact absurd rfl hne
    | cons t l =>
      rw [← Option.some.inj hu, ← hfirst]
      exact (hchain.order (l := t :: l) (r := more ++ r)).1 t List.mem_cons_self
  · intro x hx hbx hxe
    have hx' : ∀ u ∈ (l ++ (first :: more ++ r)).head?, u.beginDate ≤ x := by
      intro u hu
      rw [hhead u hu, hbegin]
      exact hx
    obtain ⟨hnone, t, hlookup⟩ := (hchain.lookup_block hblock hx').1 ⟨hfirst ▸ hbx, hxe⟩
    refine ⟨t, ?_, hheld t (mem_of_lookup hlookup).1⟩
    rw [hp, sliceAt, lookup_append, hnone, lookup_append, hlookup]
    rfl

/-! ## Plans over a run -/

/-- A job that is planned and does not run now is planned for exactly its walltime. -/
def Schedule.PlannedWhole (s : Schedule) (job : Job) : Prop :=
  machinesNow job s.profile = none → ∀ b, s.plannedBegin job = some b → s.plannedEnd job = some (s.endIfBegun job b)

/-- The machines of the slices are accounted for, jobs are on as many machines as they request, of the selector's kind, and those
that do not run now are planned for exactly their walltimes. -/
structure PlansOk (W : NamedJobs) (selector : ResourceSelector) (s : Schedule) : Prop where
  machines : MachinesOk W s
  timed : Timed s.profile
  horizon : s.infiniteHorizon = horizon
  suited : ∀ t ∈ s.profile, ∀ e ∈ t.allocatedJobs.entries,
    e.2.card = e.1.nbRequestedResources ∧ selector.Suited e.1.nbRequestedResources e.2
  whole : ∀ job ∈ W.jobs, s.PlannedWhole job

theorem infiniteHorizon_eq (s : Schedule) : s.infiniteHorizon = (lastEnd (fun _ => true) s.profile).getD 0 := by
  rw [Schedule.infiniteHorizon, lastEnd, ← List.head?_reverse]
  cases s.profile.reverse <;> rfl

theorem firstSliceBegin_eq (s : Schedule) : s.firstSliceBegin = (firstBegin (fun _ => true) s.profile).getD 0 := by
  rw [Schedule.firstSliceBegin, firstBegin]
  cases s.profile <;> rfl

/-- What changes neither the dates of a job nor the jobs that run leaves the job planned for its walltime. -/
theorem Schedule.PlannedWhole.congr {s s' : Schedule} {job : Job} (h : s.PlannedWhole job)
    (hnow : machinesNow job s'.profile = none → machinesNow job s.profile = none) (hhorizon : s'.infiniteHorizon = s.infiniteHorizon)
    (hbegin : machinesNow job s'.profile = none → s'.plannedBegin job = s.plannedBegin job)
    (hend : s'.plannedEnd job = s.plannedEnd job) : s'.PlannedWhole job := by
  intro hwaits b hb
  rw [hbegin hwaits] at hb
  rw [hend, h (hnow hwaits) b hb, Schedule.endIfBegun, Schedule.endIfBegun, hhorizon]

/-- A removal leaves the dates of the other jobs, of the schedule, and the jobs that run. -/
theorem removeJobIfExists_plan {W : NamedJobs} {s s' : Schedule} {job : Job} {b : Bool} (hruns : RunsOk W s.profile)
    (hr : s.removeJobIfExists job = .ok (s', b)) :
    s'.infiniteHorizon = s.infiniteHorizon ∧ s'.firstSliceBegin = s.firstSliceBegin ∧
      ∀ job', job'.id ≠ job.id → s'.plannedBegin job' = s.plannedBegin job' ∧ s'.plannedEnd job' = s.plannedEnd job' ∧
        machinesNow job' s'.profile = machinesNow job' s.profile := by
  rcases Schedule.removeJobIfExists_ok hr with ⟨_, rfl, _⟩ | ⟨_, before, pit, rest, ms, p', hprofile, hbefore, _, hp, rfl⟩
  · exact ⟨rfl, rfl, fun _ _ => ⟨rfl, rfl, rfl⟩⟩
  · have hbefore' : ∀ t ∈ before.reverse, t.containsJob job = false := fun t ht => hbefore t (List.mem_reverse.1 ht)
    rw [hprofile, ← List.reverse_reverse before] at hruns
    obtain ⟨h1, h2⟩ := edges_removeFrom (Unseen.true job) hruns hbefore' hp
    rw [List.reverse_reverse, ← hprofile] at h1 h2
    refine ⟨?_, ?_, fun job' hne => ?_⟩
    · rw [infiniteHorizon_eq, infiniteHorizon_eq, ← h2]
      rfl
    · rw [firstSliceBegin_eq, firstSliceBegin_eq, ← h1]
      rfl
    · obtain ⟨h3, h4⟩ := edges_removeFrom (Unseen.containsJob hne) hruns hbefore' hp
      have h5 := machinesNow_removeFrom hruns hbefore' hne hp
      rw [List.reverse_reverse, ← hprofile] at h3 h4 h5
      exact ⟨h3, h4, h5⟩

/-- Placing a job at an anchor leaves the dates of the other jobs, of the schedule, and the jobs that run. -/
theorem placedAt_plan {s : Schedule} {job : Job} {a : Anchor}
    (hshape : a.before.reverse ++ (a.covered ++ a.last :: a.rest) = s.profile) :
    (s.placedAt job a).infiniteHorizon = s.infiniteHorizon ∧ (s.placedAt job a).firstSliceBegin = s.firstSliceBegin ∧
      ∀ job', job'.id ≠ job.id → (s.placedAt job a).plannedBegin job' = s.plannedBegin job' ∧
        (s.placedAt job a).plannedEnd job' = s.plannedEnd job' ∧
        machinesNow job' (s.placedAt job a).profile = machinesNow job' s.profile := by
  obtain ⟨h1, h2⟩ := edges_placeAt (Unseen.true job) a (s.endDateAt job a)
  rw [hshape] at h1 h2
  refine ⟨?_, ?_, fun job' hne => ?_⟩
  · rw [infiniteHorizon_eq, infiniteHorizon_eq, ← h2]
    rfl
  · rw [firstSliceBegin_eq, firstSliceBegin_eq, ← h1]
    rfl
  · obtain ⟨h3, h4⟩ := edges_placeAt (Unseen.containsJob hne) a (s.endDateAt job a)
    rw [hshape] at h3 h4
    refine ⟨h3, h4, ?_⟩
    rw [← hshape]
    exact machinesNow_placeAt.trans (if_neg fun h => hne h.2)

/-- The job placed at an anchor begins with it. -/
theorem plannedBegin_placedAt {s : Schedule} {job : Job} {a : Anchor} (hc : s.containsJob job = false)
    (hshape : a.before.reverse ++ (a.covered ++ a.last :: a.rest) = s.profile) :
    (s.placedAt job a).plannedBegin job = some a.beginDate := by
  obtain ⟨first, more, after, hplace, hfirst, hheld, hbefore, _⟩ := placeAt_parts hshape hc (s.endDateAt job a)
  have hnone : firstBegin (·.containsJob job) a.before.reverse = none := by
    rw [firstBegin, List.find?_eq_none.2 fun t ht => ?_]
    · rfl
    · simp [hbefore t (List.mem_reverse.1 ht)]
  have hcf : first.containsJob job = true := by
    rw [containsJob_eq_isSome, machinesOf, hheld first List.mem_cons_self]
    rfl
  rw [Schedule.plannedBegin, show (s.placedAt job a).profile = _ from hplace, firstBegin_append, hnone, List.cons_append, firstBegin_cons,
    if_pos hcf, hfirst]
  rfl

/-- The job placed at an anchor ends where its last slice is cut. -/
theorem plannedEnd_placedAt {s : Schedule} {job : Job} {a : Anchor} (hc : s.containsJob job = false)
    (hshape : a.before.reverse ++ (a.covered ++ a.last :: a.rest) = s.profile) (hbegin : a.last.beginDate < s.endDateAt job a)
    (hend : s.endDateAt job a ≤ a.last.endDate) : (s.placedAt job a).plannedEnd job = some (s.endDateAt job a) := by
  have hnew := Schedule.containsJob_eq_false.1 hc
  have hafter : lastEnd (·.containsJob job) ((a.last.splitSlice (s.endDateAt job a)).2.toList ++ a.rest) = none := by
    rw [lastEnd, List.find?_eq_none.2 fun t ht => ?_]
    · rfl
    · rcases List.mem_append.1 (List.mem_reverse.1 ht) with ht | ht
      · obtain ⟨b, l, rfl⟩ := splitSlice_snd (Option.mem_toList.1 ht)
        rw [containsJob_retime, hnew a.last (by rw [← hshape]; simp)]
        simp
      · rw [hnew t (by rw [← hshape]; simp [ht])]
        simp
  have hheld : ((a.last.splitSlice (s.endDateAt job a)).1.allocateJob job a.usedMachines).containsJob job = true := by
    rw [containsJob_eq_isSome, machinesOf_allocateJob, if_pos rfl]
    rfl
  rw [Schedule.plannedEnd, show (s.placedAt job a).profile = _ from placeAt_eq job a (s.endDateAt job a), lastEnd_append, lastEnd_append,
    hafter, List.map_append, lastEnd_append, List.map_singleton, lastEnd_cons, if_pos hheld]
  exact congrArg some (splitSlice_fst_dates hbegin hend).2

/-- Removing a job leaves the first slice begin before it ends. -/
theorem upright_removeJobIfExists {s s' : Schedule} {job : Job} {b : Bool} (ht : Timed s.profile) (hup : s.Upright)
    (hr : s.removeJobIfExists job = .ok (s', b)) : s'.Upright := by
  rcases Schedule.removeJobIfExists_ok hr with ⟨_, rfl, _⟩ | ⟨_, before, pit, rest, ms, p', hprofile, hbefore, _, hp, rfl⟩
  · exact hup
  · rw [Schedule.Upright, hprofile, ← List.reverse_reverse before] at hup
    rw [hprofile, ← List.reverse_reverse before] at ht
    refine (removeFrom_rule (P := fun p => Timed p ∧ ∀ first ∈ p.head?, first.beginDate ≤ first.endDate) ?_ ?_
      (fun t ht => hbefore t (List.mem_reverse.1 ht)) ⟨ht, hup⟩ hp).2
    · rintro l u r ⟨ht, hup⟩ _ _
      refine ⟨ht.erase, ?_⟩
      cases l with
      | nil => exact fun v hv => Option.some.inj hv ▸ hup u rfl
      | cons v l => exact hup
    · rintro l previous u merged r ⟨ht, hup⟩ hm
      refine ⟨ht.merge hm, ?_⟩
      cases l with
      | nil =>
        intro v hv
        obtain ⟨e, hchain⟩ := ht.chained
        obtain ⟨hstart, hpos, _⟩ := (chained_append_cons.1 (show Chained TimeSlice.beginDate TimeSlice.endDate e
          ([] ++ previous :: u :: r) from hchain)).1
        rw [← Option.some.inj hv, (mergeWithPrevious_some hm).1]
        exact (hup previous rfl).trans (hstart ▸ hpos.le)
      | cons v l => exact hup

/-- So does placing one. -/
theorem upright_placedAt {s : Schedule} {job : Job} {a : Anchor}
    (hshape : a.before.reverse ++ (a.covered ++ a.last :: a.rest) = s.profile) (hup : s.Upright) : (s.placedAt job a).Upright := by
  rw [Schedule.Upright, ← hshape] at hup
  intro first hfirst
  rw [show (s.placedAt job a).profile = _ from placeAt_eq job a (s.endDateAt job a)] at hfirst
  rcases List.eq_nil_or_concat a.before with hb | ⟨older, u, hb⟩
  · rw [hb] at hfirst hup
    cases hc : a.covered with
    | nil =>
      rw [hc] at hfirst hup
      obtain rfl := Option.some.inj hfirst
      rw [TimeSlice.splitSlice]
      split
      · rename_i hd
        exact hd.1.le
      · exact hup a.last rfl
    | cons c cs =>
      rw [hc] at hfirst hup
      obtain rfl := Option.some.inj hfirst
      exact hup c rfl
  · rw [hb] at hfirst hup
    simp only [List.concat_eq_append, List.reverse_append, List.reverse_cons, List.reverse_nil, List.nil_append, List.cons_append,
      List.head?_cons] at hfirst hup
    exact hup first hfirst

namespace PlansOk

variable {W : NamedJobs} {selector : ResourceSelector} {s s' : Schedule} {job : Job}

theorem new (W : NamedJobs) (selector : ResourceSelector) (n : ℕ) (t0 : ℚ) : PlansOk W selector (Schedule.new n t0) where
  machines := MachinesOk.new W n t0
  timed := Timed.new n t0
  horizon := rfl
  suited := by
    intro t ht e he
    rw [List.mem_singleton.1 ht] at he
    nomatch he
  whole := by
    intro job _ _ b hb
    have hc : (Schedule.new n t0).containsJob job = true := by
      rw [← plannedBegin_isSome, hb]
      rfl
    nomatch hc

/-- A job placed where it fits is planned for its walltime. -/
theorem place {a : Anchor} (h : PlansOk W selector s) (hjob : job ∈ W.jobs) (hpos : job.hasWalltime = true → 0 < job.walltime)
    (hc : s.containsJob job = false) (ha : s.findAnchorWith selector job = some a) : PlansOk W selector (s.placedAt job a) := by
  obtain ⟨hshape, hfits, hsuited⟩ := Schedule.findAnchorWith_ok ha
  obtain ⟨hhorizon, _, hothers⟩ := @placedAt_plan s job a hshape
  have htimed := h.timed
  have hslices := h.suited
  rw [← hshape] at htimed hslices
  refine ⟨h.machines.place hjob hc hshape hfits rfl rfl rfl, htimed.placeAt _, hhorizon.trans h.horizon,
    forall_placeAt (fun _ _ _ _ h => h) hslices ?_, ?_⟩
  · intro t ht b e l x hx
    have hnew : t.containsJob job = false := Schedule.containsJob_eq_false.1 hc t (by
      rw [← hshape]
      simp only [Anchor.slices, List.mem_append, List.mem_cons, List.mem_reverse, List.not_mem_nil, or_false] at ht ⊢
      tauto)
    rcases (KeyedMap.mem_insert_of_new (KeyedMap.contains_eq_false_iff.1 hnew)).1 hx with rfl | hx
    · exact ⟨hfits.card, hsuited⟩
    · refine hslices t ?_ x hx
      simp only [Anchor.slices, List.mem_append, List.mem_cons, List.mem_reverse, List.not_mem_nil, or_false] at ht ⊢
      tauto
  · intro job' hjob'
    by_cases hid : job'.id = job.id
    · obtain rfl := W.id_injOn hjob' hjob hid
      intro hwaits b hb
      rw [plannedBegin_placedAt hc hshape] at hb
      cases hb
      have hnow := @machinesNow_placeAt job' job' a (s.endDateAt job' a)
      rw [show (s.placedAt job' a).profile = Schedule.placeAt job' a (s.endDateAt job' a) from rfl, hnow] at hwaits
      -- it does not run now, so it begins after the first slice, and before the horizon
      have hbefore : a.before.reverse ≠ [] := by
        intro hnil
        rw [if_pos ⟨by simpa using hnil, rfl⟩] at hwaits
        cases hwaits
      have hlate : a.beginDate < s.infiniteHorizon := by
        obtain ⟨_, _, hp, _, hchain⟩ := exists_chain h.timed
        obtain ⟨first, more, hslices', hfirst⟩ := a.slices_eq
        have hlist : s.profile = a.before.reverse ++ (first :: more ++ a.rest) := by
          rw [← hshape, ← hslices', Anchor.slices]
          simp
        rw [← hp, hlist] at hchain
        obtain ⟨c, _, hrest, hblock⟩ := hchain.block
        obtain ⟨_, _, hlt, htail⟩ := hblock hbefore
        rw [Anchor.beginDate, ← hfirst]
        exact hlt.trans_le (htail.le.trans hrest.le)
      have hendIf : s.endDateAt job' a = (s.placedAt job' a).endIfBegun job' a.beginDate := by
        rw [Schedule.endDateAt_eq, Schedule.endIfBegun, hhorizon]
        split
        · rfl
        · ring
      have hbounds := htimed.endDate_bounds hfits (by
        rw [Schedule.walltimeFrom]
        split
        · rename_i hw
          exact hpos hw
        · exact sub_pos.2 hlate)
      rw [plannedEnd_placedAt hc hshape hbounds.1 hbounds.2, hendIf]
    · obtain ⟨hbegin, hend, hnow⟩ := hothers job' hid
      exact (h.whole job' hjob').congr (fun hwaits => hnow ▸ hwaits) hhorizon (fun _ => hbegin) hend

/-- Removing a job leaves the others planned as they are. -/
theorem removeJobIfExists {b : Bool} (h : PlansOk W selector s) (hr : s.removeJobIfExists job = .ok (s', b)) :
    PlansOk W selector s' := by
  obtain ⟨hhorizon, _, hothers⟩ := removeJobIfExists_plan h.machines.runs hr
  refine ⟨h.machines.removeJobIfExists hr, h.timed.removeJobIfExists hr, hhorizon.trans h.horizon,
    (forall_removeJobIfExists (fun _ _ _ _ h => h) ?_ h.machines.runs h.suited hr).2, ?_⟩
  · intro t ms ht _ e he
    exact ht e (KeyedMap.mem_erase.1 he).1
  · intro job' hjob'
    by_cases hid : job'.id = job.id
    · intro _ b' hb'
      have hpres : Present job' s'.profile := by
        rw [← containsJob_iff_present, ← plannedBegin_isSome, hb']
        rfl
      exact absurd hid ((present_removeJobIfExists h.machines.runs hr).1 hpres).1
    · obtain ⟨hbegin, hend, hnow⟩ := hothers job' hid
      exact (h.whole job' hjob').congr (fun hwaits => hnow ▸ hwaits) hhorizon (fun _ => hbegin) hend

/-- The time that passes moves no job that does not run. -/
theorem updateFirstSlice {t : ℚ} (h : PlansOk W selector s) (hu : s.updateFirstSlice t = .ok s') : PlansOk W selector s' := by
  have hmachines := h.machines.updateFirstSlice hu
  have htimed := h.timed.updateFirstSlice hu
  obtain ⟨slice, rest, hprofile, hprofile', _⟩ := Schedule.updateFirstSlice_ok hu
  have hsuited := h.suited
  have hhorizon : s'.infiniteHorizon = s.infiniteHorizon := by
    rw [infiniteHorizon_eq, infiniteHorizon_eq, hprofile, hprofile', lastEnd_cons, lastEnd_cons]
    rfl
  refine ⟨hmachines, htimed, hhorizon.trans h.horizon, ?_, ?_⟩
  · rw [hprofile] at hsuited
    rw [hprofile']
    intro u hu
    rcases List.mem_cons.1 hu with rfl | hu
    · exact hsuited slice List.mem_cons_self
    · exact hsuited u (List.mem_cons_of_mem _ hu)
  · intro job hjob
    refine (h.whole job hjob).congr (fun hwaits => ?_) hhorizon (fun hwaits => ?_) ?_
    · rw [hprofile'] at hwaits
      rw [hprofile]
      exact hwaits
    · rw [hprofile'] at hwaits
      have hc : slice.containsJob job = false := by
        rw [containsJob_eq_isSome, show machinesOf job slice = none from hwaits]
        rfl
      rw [Schedule.plannedBegin, Schedule.plannedBegin, hprofile, hprofile', firstBegin_cons, firstBegin_cons, containsJob_retime,
        hc]
      rfl
    · rw [Schedule.plannedEnd, Schedule.plannedEnd, hprofile, hprofile', lastEnd_cons, lastEnd_cons]
      rfl

/-- A change of every slice that keeps the jobs and the dates. -/
theorem map {f : TimeSlice → TimeSlice} (h : PlansOk W selector s) (hmachines : MachinesOk W s') (hprofile : s'.profile = s.profile.map f)
    (hf : ∀ t, (f t).beginDate = t.beginDate ∧ (f t).endDate = t.endDate ∧ (f t).length = t.length)
    (hjobs : ∀ t, (f t).allocatedJobs = t.allocatedJobs) : PlansOk W selector s' := by
  have hedges : ∀ q : TimeSlice → Bool, (∀ t, q (f t) = q t) →
      firstBegin q s'.profile = firstBegin q s.profile ∧ lastEnd q s'.profile = lastEnd q s.profile := by
    intro q hq
    rw [hprofile]
    exact edges_map hq fun t => ⟨(hf t).1, (hf t).2.1⟩
  have hhorizon : s'.infiniteHorizon = s.infiniteHorizon := by
    rw [infiniteHorizon_eq, infiniteHorizon_eq, (hedges _ fun _ => rfl).2]
  refine ⟨hmachines, ?_, hhorizon.trans h.horizon, ?_, fun job hjob => ?_⟩
  · rw [hprofile]
    exact h.timed.map hf
  · rw [hprofile]
    intro t ht e he
    obtain ⟨u, hu, rfl⟩ := List.mem_map.1 ht
    rw [hjobs] at he
    exact h.suited u hu e he
  · obtain ⟨hbegin, hend⟩ := hedges (·.containsJob job) fun t => by simp only [TimeSlice.containsJob, hjobs]
    refine (h.whole job hjob).congr (fun hwaits => ?_) hhorizon (fun _ => hbegin) hend
    rw [← hwaits, hprofile, machinesNow, machinesNow]
    cases s.profile with
    | nil => rfl
    | cons t rest => simp only [List.map_cons, List.head?_cons, Option.bind_some, machinesOf, hjobs]

/-- Every call under its condition keeps the plans. -/
theorem runWith {call : ScheduleCall} (h : PlansOk W selector s)
    (hpos : ∀ job ∈ W.jobs, job.hasWalltime = true → 0 < job.walltime) (hcall : AccountedCall W s call)
    (hrun : ScheduleCall.runWith s (selector, call) = .ok s') : PlansOk W selector s' := by
  have hmachines : MachinesOk W s' := @MachinesOk.runWith W s s' (selector, call) h.machines hcall hrun
  cases call with
  | addJobFirstFit job b =>
    obtain ⟨⟨s1, alloc⟩, ha, rfl⟩ := Execution.map_eq_ok.1 hrun
    obtain ⟨hc, ⟨_, _, rfl, _⟩ | ⟨a, hanchor, rfl, _⟩⟩ := Schedule.addJobFirstFitWith_ok ha
    · exact h
    · exact h.place hcall (hpos job hcall) hc hanchor
  | removeJob job => exact h.removeJobIfExists (Schedule.removeJob_ok hrun)
  | removeJobIfExists job =>
    obtain ⟨⟨s1, b⟩, ha, rfl⟩ := Execution.map_eq_ok.1 hrun
    exact h.removeJobIfExists ha
  | updateFirstSlice t => exact h.updateFirstSlice hrun
  | addRepairMachine m =>
    cases hrun
    exact h.map hmachines rfl (fun _ => ⟨rfl, rfl, rfl⟩) fun _ => rfl
  | removeRepairMachines m =>
    cases hrun
    exact h.map hmachines rfl (fun _ => ⟨rfl, rfl, rfl⟩) fun _ => rfl

end PlansOk

end ScheduleTest
