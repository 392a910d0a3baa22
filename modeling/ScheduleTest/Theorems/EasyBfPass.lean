import ScheduleTest.Lemmas.RunDates
import ScheduleTest.Theorems.Compression
import ScheduleTest.Theorems.EasyBf

/-!
# The dates of a pass of easy_bf

Each part of a pass leaves the first job of the queue where it is planned, places it anew no later, or executes it (`NoLater`). When
the pass is over it is planned behind a job that runs (`FrontWaits`).
-/

namespace ScheduleTest

open Execution EasyBf EasyBfAux

/-- A job is at the front of the queue and planned to begin by a date, or is executed by the decisions made so far. -/
def EasyBfState.DueBy (s : EasyBfState) (job : Job) (b : ℚ) : Prop :=
  (s.queue.firstJob? = some job ∧ ∃ b', s.schedule.plannedBegin job = some b' ∧ b' ≤ b) ∨
    ∃ machines, (job.id, machines) ∈ executions s.decision.decisions

namespace EasyBfDelayAux

variable {W : NamedJobs} {c : EasyBfConfig} {s s' : EasyBfState} {base : List (String × IntervalSet)} {released : List Job}
  {planned : List String} {job : Job} {date currentDate : ℚ} {known : String → Option Job} {start : String → ℚ}
  {all : Set String}

/-- The jobs that run when the decisions made so far are carried out. -/
def heldIds (base : List (String × IntervalSet)) (s : EasyBfState) : List String := (heldBy base s).map (·.1)

/-- The state in the middle of a pass, with the dates of its schedule. The jobs executed in the pass start at its date, and are
among those that waited or were released before it. -/
structure Ready (W : NamedJobs) (known : String → Option Job) (start : String → ℚ) (date : ℚ) (base : List (String × IntervalSet))
    (all : Set String) (s : EasyBfState) (released : List Job) (planned : List String) : Prop extends
    Plan W known base s released planned where
  dated : Dated W start date s.schedule (heldIds base s)
  walltimes : ∀ job ∈ s.queue.jobs, job.hasWalltime = true
  fresh : ∀ id ∉ base.map (·.1), start id = date
  among : (∀ job ∈ s.queue.jobs, job.id ∈ all) ∧ ∀ e ∈ executions s.decision.decisions, e.1 ∈ all
  positive : ∀ job ∈ W.jobs, job.hasWalltime = true → 0 < job.walltime

/-- What is done to other jobs: the front of the queue stays, where it is planned. -/
structure FrontKept (s s' : EasyBfState) : Prop where
  first : s'.queue.firstJob? = s.queue.firstJob?
  plan : ∀ p ∈ s.queue.firstJob?, s'.schedule.plannedBegin p = s.schedule.plannedBegin p ∧
    machinesNow p s'.schedule.profile = machinesNow p s.schedule.profile
  executed : ∀ e ∈ executions s.decision.decisions, e ∈ executions s'.decision.decisions

/-- No job is due later. -/
def NoLater (s s' : EasyBfState) : Prop := ∀ job b, s.DueBy job b → s'.DueBy job b

/-- The first job of the queue is planned. -/
def FrontPlanned (s : EasyBfState) : Prop := ∀ p ∈ s.queue.firstJob?, ∃ b, Planned s.schedule p b

/-- The first job of the queue is planned, and waits for one that runs. -/
def FrontWaits (W : NamedJobs) (start : String → ℚ) (base : List (String × IntervalSet)) (s : EasyBfState) : Prop :=
  ∀ p ∈ s.queue.firstJob?, ∃ b, Planned s.schedule p b ∧ SomeEndsBy W start (heldIds base s) b

theorem FrontKept.noLater (h : FrontKept s s') : NoLater s s' := by
  rintro job b (⟨hfirst, b', hb, hle⟩ | ⟨machines, hmem⟩)
  · exact .inl ⟨h.first.trans hfirst, b', (h.plan job hfirst).1.trans hb, hle⟩
  · exact .inr ⟨machines, h.executed _ hmem⟩

theorem FrontKept.heldIds (h : FrontKept s s') : ∀ id ∈ heldIds base s, id ∈ EasyBfDelayAux.heldIds base s' := by
  intro id hid
  simp only [EasyBfDelayAux.heldIds, heldBy, List.map_append, List.mem_append, List.mem_map] at hid ⊢
  rcases hid with hid | ⟨e, he, heq⟩
  · exact .inl hid
  · exact .inr ⟨e, h.executed e he, heq⟩

theorem FrontKept.frontWaits (h : FrontKept s s') (hw : FrontWaits W start base s) : FrontWaits W start base s' := by
  intro p hp
  rw [h.first] at hp
  obtain ⟨b, hb, k, hk, hheld, hle⟩ := hw p hp
  exact ⟨b, hb.congr (h.plan p hp).1 (h.plan p hp).2, k, hk, h.heldIds _ hheld, hle⟩

namespace Ready

/-- A job of the queue has a positive walltime. -/
theorem walltime_pos (h : Ready W known start date base all s released planned) (hmem : job ∈ s.queue.jobs) : 0 < job.walltime :=
  h.positive job (h.jobs job (List.mem_append_left _ hmem)) (h.walltimes job hmem)

/-- Another job of the queue is not its first. -/
theorem front_ne (h : Ready W known start date base all s released planned) (hmem : job ∈ s.queue.jobs)
    (hfirst : some job ≠ s.queue.firstJob?) : ∀ p ∈ s.queue.firstJob?, p.id ≠ job.id := by
  intro p hp hid
  have hmem' : p ∈ s.queue.jobs := by
    rw [Queue.firstJob?_eq_head?] at hp
    exact List.mem_of_mem_head? hp
  obtain rfl := List.inj_on_of_nodup_map h.nodup_queue hmem' hmem hid
  exact hfirst hp.symm

/-- A job of the queue is executed where it has been placed in the first slice. -/
theorem execute {schedule : Schedule} {alloc : JobAlloc} (h : Ready W known start date base all s released planned)
    (hmem : job ∈ s.queue.jobs) (ha : s.schedule.addJobFirstFit job = .ok (schedule, alloc))
    (hstart : alloc.startedInFirstSlice = true) (hx : executeJob s schedule job alloc = .ok s') :
    Ready W known start date base all s' released planned ∧ s'.queue.jobs = s.queue.jobs.erase job ∧
      executions s'.decision.decisions = executions s.decision.decisions ++ [(job.id, alloc.usedMachines)] ∧
      s'.schedule = schedule := by
  obtain ⟨hplan, hjobs⟩ := h.toPlan.execute hmem ha hstart hx
  have hjob := h.jobs job (List.mem_append_left _ hmem)
  obtain ⟨hdated, hplaced⟩ := h.dated.place hjob (h.walltimes job hmem) (h.walltime_pos hmem) ha
  have hnot := h.notMem_held hmem
  obtain ⟨queue, -, rfl⟩ := map_eq_ok.1 hx
  have hexec : executions (s.decision.add (.executeJob job.id alloc.usedMachines)).decisions =
      executions s.decision.decisions ++ [(job.id, alloc.usedMachines)] := by
    simp
  have hamong : ∀ e ∈ executions (s.decision.add (.executeJob job.id alloc.usedMachines)).decisions, e.1 ∈ all := by
    intro e he
    rw [hexec, List.mem_append, List.mem_singleton] at he
    rcases he with he | rfl
    · exact h.among.2 e he
    · exact h.among.1 job hmem
  refine ⟨⟨hplan, ?_, fun k hk => h.walltimes k (List.mem_of_mem_erase (hjobs ▸ hk)), h.fresh,
    ⟨fun k hk => h.among.1 k (List.mem_of_mem_erase (hjobs ▸ hk)), hamong⟩, h.positive⟩, hjobs, hexec, rfl⟩
  have hbase : job.id ∉ base.map (·.1) := fun hbad => hnot (by simp [heldBy, hbad])
  have hend := hplaced.ends
  rw [h.dated.beginDate_of_started hplaced hstart, ← h.fresh job.id hbase] at hend
  have hids : heldIds base { s with
      schedule := schedule
      queue := queue
      decision := s.decision.add (.executeJob job.id alloc.usedMachines) } = heldIds base s ++ [job.id] := by
    simp [heldIds, heldBy]
  rw [hids]
  exact hdated.start_held hend hjob

/-- A job of the queue is planned where it does not start in the first slice. -/
theorem plan {schedule : Schedule} {alloc : JobAlloc} (h : Ready W known start date base all s released planned)
    (hmem : job ∈ s.queue.jobs) (ha : s.schedule.addJobFirstFit job = .ok (schedule, alloc)) :
    Ready W known start date base all { s with schedule := schedule } released (job.id :: planned) where
  toPlan := h.toPlan.plan hmem ha
  dated := (h.dated.place (h.jobs job (List.mem_append_left _ hmem)) (h.walltimes job hmem) (h.walltime_pos hmem) ha).1
  walltimes := h.walltimes
  fresh := h.fresh
  among := h.among
  positive := h.positive

/-- A job that is planned is taken out of the schedule. -/
theorem takeOut {schedule : Schedule} {b : Bool} (h : Ready W known start date base all s released planned)
    (hmem : job ∈ s.queue.jobs) (hr : s.schedule.removeJobIfExists job = .ok (schedule, b)) :
    Ready W known start date base all { s with schedule := schedule } released (planned.filter (· ≠ job.id)) where
  toPlan := h.toPlan.takeOut (h.notMem_held hmem) hr
  dated := h.dated.remove (fun _ hid => ⟨hid, fun heq => h.notMem_held hmem (heq ▸ hid)⟩) hr
  walltimes := h.walltimes
  fresh := h.fresh
  among := h.among
  positive := h.positive

/-- The jobs that run are in the first slice. -/
theorem now (h : Ready W known start date base all s released planned) :
    ∀ k ∈ W.jobs, k.id ∈ heldIds base s → machinesNow k s.schedule.profile ≠ none := by
  intro k _ hid
  obtain ⟨e, he, heq⟩ := List.mem_map.1 hid
  rw [h.holds.now k e.2 (heq ▸ he)]
  nofun

/-- Where nothing is planned, the schedule holds the jobs that run alone. -/
theorem present (h : Ready W known start date base all s released []) :
    ∀ k ∈ W.jobs, s.schedule.containsJob k = true → k.id ∈ heldIds base s :=
  fun _ _ hc => (h.holds.containsJob_iff.1 hc).resolve_right List.not_mem_nil

/-- The first job of the queue is placed where nothing else is planned, and waits unless it starts at once. -/
theorem planFront {schedule : Schedule} {alloc : JobAlloc} (h : Ready W known start date base all s released [])
    (hfirst : s.queue.firstJob? = some job) (ha : s.schedule.addJobFirstFit job = .ok (schedule, alloc))
    (hlate : alloc.startedInFirstSlice = false) :
    Ready W known start date base all { s with schedule := schedule } released (front s) ∧
      FrontWaits W start base { s with schedule := schedule } := by
  have hmem : job ∈ s.queue.jobs := by
    rw [Queue.firstJob?_eq_head?] at hfirst
    exact List.mem_of_mem_head? hfirst
  constructor
  · have hplan := h.plan hmem ha
    simpa [front, hfirst] using hplan
  · intro p hp
    obtain rfl : job = p := Option.some.inj (hfirst.symm.trans hp)
    exact ⟨_, h.dated.waits_of_placed (h.jobs job (List.mem_append_left _ hmem)) (h.walltimes job hmem) (h.walltime_pos hmem)
      h.present h.now ha hlate⟩

/-- Another queue of the same jobs. -/
theorem requeue (h : Ready W known start date base all s released planned) {queue : Queue} (hperm : queue.jobs.Perm s.queue.jobs) :
    Ready W known start date base all { s with queue := queue } released planned where
  toPlan := h.toPlan.requeue hperm
  dated := h.dated
  walltimes := fun job hmem => h.walltimes job (hperm.mem_iff.1 hmem)
  fresh := h.fresh
  among := ⟨fun job hmem => h.among.1 job (hperm.mem_iff.1 hmem), h.among.2⟩
  positive := h.positive

/-- Another job of the queue is executed, or taken out of the schedule again. -/
theorem tryJob {schedule : Schedule} {alloc : JobAlloc} (h : Ready W known start date base all s released (front s))
    (hmem : job ∈ s.queue.jobs) (hfirst : some job ≠ s.queue.firstJob?)
    (ha : s.schedule.addJobFirstFit job = .ok (schedule, alloc)) :
    (alloc.startedInFirstSlice = true → ∀ s', executeJob s schedule job alloc = .ok s' →
      Ready W known start date base all s' released (front s') ∧ s'.queue.jobs = s.queue.jobs.erase job ∧ FrontKept s s') ∧
    ∀ schedule', schedule.removeJob job = .ok schedule' →
      Ready W known start date base all { s with schedule := schedule' } released (front s) ∧
        FrontKept s { s with schedule := schedule' } := by
  have hne := h.front_ne hmem hfirst
  have hjob := h.jobs job (List.mem_append_left _ hmem)
  obtain ⟨hstarts, hwaits⟩ := h.toPlan.tryJob hmem hfirst ha
  obtain ⟨hdated, hplaced⟩ := h.dated.place hjob (h.walltimes job hmem) (h.walltime_pos hmem) ha
  constructor
  · intro hstart s' hx
    obtain ⟨hplan, hjobs, hsame⟩ := hstarts hstart s' hx
    obtain ⟨hready, -, hexec, rfl⟩ := h.execute hmem ha hstart hx
    refine ⟨⟨hplan, hready.dated, hready.walltimes, h.fresh, hready.among, h.positive⟩, hjobs, hsame, fun p hp => ?_,
      fun e he => ?_⟩
    · obtain ⟨hb, -, hn⟩ := hplaced.others p (hne p hp)
      exact ⟨hb, hn⟩
    · rw [hexec]
      exact List.mem_append_left _ he
  · intro schedule' hr
    have hr' := Schedule.removeJob_ok hr
    refine ⟨⟨hwaits schedule' hr, ?_, h.walltimes, h.fresh, h.among, h.positive⟩, rfl, fun p hp => ?_, fun e he => he⟩
    · exact hdated.remove (fun _ hid => ⟨hid, fun heq => h.notMem_held hmem (heq ▸ hid)⟩) hr'
    · obtain ⟨hb, -, hn⟩ := hplaced.others p (hne p hp)
      obtain ⟨-, -, hothers⟩ := removeJobIfExists_plan hdated.plans.machines.runs hr'
      obtain ⟨hb', -, hn'⟩ := hothers p (hne p hp)
      exact ⟨hb'.trans hb, hn'.trans hn⟩

end Ready

theorem noLater_refl (s : EasyBfState) : NoLater s s := fun _ _ h => h

/-- The loop over the first jobs of the queue leaves the first of those that cannot start planned. -/
theorem executePriorityJobs_ready {jobs : List Job} (h : Ready W known start date base all s released []) (hq : s.queue.jobs = jobs)
    (hx : executePriorityJobs s jobs = .ok s') :
    Ready W known start date base all s' released (front s') ∧ FrontWaits W start base s' := by
  induction jobs generalizing s with
  | nil =>
    have hnone : s.queue.firstJob? = none := by rw [Queue.firstJob?_eq_head?, hq]; rfl
    cases hx
    refine ⟨by simpa [front, hnone] using h, fun p hp => ?_⟩
    rw [hnone] at hp
    cases hp
  | cons job rest ih =>
    have hfirst : s.queue.firstJob? = some job := by rw [Queue.firstJob?_eq_head?, hq]; rfl
    have hmem : job ∈ s.queue.jobs := hq ▸ List.mem_cons_self
    rw [executePriorityJobs] at hx
    split at hx
    · rename_i schedule alloc ha
      split at hx
      · rename_i hstart
        split at hx
        · rename_i t ht
          obtain ⟨hready, hjobs, -, -⟩ := h.execute hmem ha hstart ht
          refine ih hready ?_ hx
          rw [hjobs, hq, List.erase_cons_head]
        · cases hx
      · rename_i hlate
        cases hx
        exact h.planFront hfirst ha (by simpa using hlate)
    · cases hx

/-- Backfilling a job just released leaves the first job of the queue where it is planned. -/
theorem backfillReleased_ready {priority : Option Job} {t t' : EasyBfState × ℤ}
    (h : Ready W known start date base all t.1 [] (front t.1) ∧ t.1.queue.firstJob? = priority)
    (hx : backfillReleased priority t job = .ok t') :
    (Ready W known start date base all t'.1 [] (front t'.1) ∧ t'.1.queue.firstJob? = priority) ∧ FrontKept t.1 t'.1 := by
  obtain ⟨s, nbAvailable⟩ := t
  obtain ⟨hready, hpriority⟩ := h
  rw [backfillReleased] at hx
  dsimp only at hx hready hpriority ⊢
  split at hx
  · rename_i hcan
    have hmem : job ∈ s.queue.jobs := Queue.containsJob_iff.1 hcan.2.1
    have hfirst : some job ≠ s.queue.firstJob? := hpriority ▸ hcan.2.2.1
    split at hx
    · rename_i schedule alloc ha
      obtain ⟨hstarts, hwaits⟩ := hready.tryJob hmem hfirst ha
      split at hx
      · rename_i hstart
        obtain ⟨s', hs', rfl⟩ := map_eq_ok.1 hx
        obtain ⟨hready', -, hkept⟩ := hstarts hstart s' hs'
        exact ⟨⟨hready', hkept.first.trans hpriority⟩, hkept⟩
      · obtain ⟨schedule', hr, rfl⟩ := map_eq_ok.1 hx
        obtain ⟨hready', hkept⟩ := hwaits schedule' hr
        exact ⟨⟨hready', hpriority⟩, hkept⟩
    · cases hx
  · cases hx
    exact ⟨⟨hready, hpriority⟩, rfl, fun _ _ => ⟨rfl, rfl⟩, fun _ he => he⟩

/-- Backfilling the jobs just released leaves the first job of the queue where it is planned, behind a job that runs. -/
theorem backfillAll_ready {jobs : List Job} {n : ℤ} {t : EasyBfState × ℤ}
    (h : Ready W known start date base all s [] (front s)) (hwaits : FrontWaits W start base s)
    (hx : runFrom (backfillReleased s.queue.firstJob?) (s, n) jobs = .ok t) :
    Ready W known start date base all t.1 [] (front t.1) ∧ FrontWaits W start base t.1 ∧ NoLater s t.1 := by
  obtain ⟨⟨hready, -⟩, hrest⟩ := runFrom_invariant (I := fun t : EasyBfState × ℤ =>
      (Ready W known start date base all t.1 [] (front t.1) ∧ t.1.queue.firstJob? = s.queue.firstJob?) ∧
        FrontWaits W start base t.1 ∧ NoLater s t.1)
    (fun _ _ _ hinv _ hstep => by
      obtain ⟨hready, hkept⟩ := backfillReleased_ready hinv.1 hstep
      exact ⟨hready, hkept.frontWaits hinv.2.1, fun job b hjob => hkept.noLater job b (hinv.2.2 job b hjob)⟩)
    ⟨⟨h, rfl⟩, hwaits, noLater_refl s⟩ (allSteps_of_forall fun _ _ => trivial) hx
  exact ⟨hready, hrest⟩

/-- The traversal of the queue, with the jobs passed that are left in it and those to come. Before a job has been left, the first
one may be planned as it was before the pass, or not be planned yet. -/
structure Passing (W : NamedJobs) (known : String → Option Job) (start : String → ℚ) (date : ℚ) (base : List (String × IntervalSet))
    (all : Set String) (t : EasyBfState × Option Job) (rest : List Job) : Prop where
  priority : t.2 = t.1.queue.firstJob?
  state : ∃ passed, t.1.queue.jobs = passed ++ rest ∧
    (passed = [] ∧ Ready W known start date base all t.1 [] (front t.1) ∧ FrontPlanned t.1 ∨
      passed = [] ∧ Ready W known start date base all t.1 [] [] ∨
      Ready W known start date base all t.1 [] (front t.1) ∧ FrontWaits W start base t.1)

/-- The first job of the queue is taken out of the schedule to be placed anew, which places it no later. -/
theorem takeFront {without : Schedule}
    (h : Ready W known start date base all s [] (front s) ∧ FrontPlanned s ∨ Ready W known start date base all s [] [])
    (hfirst : s.queue.firstJob? = some job)
    (hx : (if s.schedule.containsJob job then s.schedule.removeJob job else .ok s.schedule) = .ok without) :
    Ready W known start date base all { s with schedule := without } [] [] ∧
      ∀ schedule alloc, without.addJobFirstFit job = .ok (schedule, alloc) → ∀ b, s.schedule.plannedBegin job = some b →
        ∃ b', schedule.plannedBegin job = some b' ∧ b' ≤ b := by
  have hmem : job ∈ s.queue.jobs := by
    rw [Queue.firstJob?_eq_head?] at hfirst
    exact List.mem_of_mem_head? hfirst
  rcases h with ⟨hready, hplanned⟩ | hready
  · obtain ⟨b, hb⟩ := hplanned job hfirst
    have hc : s.schedule.containsJob job = true := by
      rw [← plannedBegin_isSome, hb.begins]
      rfl
    rw [if_pos hc] at hx
    have hr := Schedule.removeJob_ok hx
    have hout : Ready W known start date base all { s with schedule := without } [] [] := by
      simpa [front, hfirst] using hready.takeOut hmem hr
    refine ⟨hout, fun schedule alloc ha b₀ hb₀ => ?_⟩
    obtain rfl : b = b₀ := Option.some.inj (hb.begins.symm.trans hb₀)
    have hjob := hready.jobs job (List.mem_append_left _ hmem)
    have hup := hready.dated.upright hb.two_le_length
    have hbasic : ResourceSelector.basic = .contiguous → 0 < job.nbRequestedResources := fun _ => hb.requests
    obtain ⟨without', a, hr', ha', -, -, hreplanned⟩ := CompressionAux.replace_step hready.dated.plans hup hjob
      (hready.positive job hjob) hbasic ⟨hc, hb.later⟩
    obtain rfl : without = without' := (Prod.mk.inj (Except.ok.inj (hr.symm.trans hr'))).1
    -- the schedule is that in which compression would have placed the job
    have hsame : schedule = without.placedAt job a := by
      obtain ⟨-, a', hanchor, rfl, -⟩ := anchor_of_addJobFirstFit ha
      obtain ⟨-, ⟨hnone, -⟩ | ⟨a'', hanchor', hplace, -⟩⟩ := Schedule.addJobFirstFitWith_ok ha'
      · rw [hanchor] at hnone
        cases hnone
      · obtain rfl : a' = a'' := Option.some.inj (hanchor.symm.trans hanchor')
        exact hplace.symm
    rw [hsame]
    exact hreplanned.earlier job (List.mem_singleton.2 rfl) b hb.begins
  · have hc : s.schedule.containsJob job = false := by
      rw [← Bool.not_eq_true]
      intro hc
      exact hready.notMem_held hmem (hready.present job (hready.jobs job (List.mem_append_left _ hmem)) hc)
    rw [if_neg (by simp [hc])] at hx
    cases hx
    refine ⟨hready, fun _ _ _ b hb => ?_⟩
    rw [← plannedBegin_isSome, hb] at hc
    cases hc

/-- The first job of the queue is executed, or placed anew. -/
theorem traverseFront {t : EasyBfState × Option Job} {rest : List Job} (hq : s.queue.jobs = job :: rest)
    (h : Ready W known start date base all s [] (front s) ∧ FrontPlanned s ∨ Ready W known start date base all s [] [])
    (hx : traverseJob (s, s.queue.firstJob?) job = .ok t) :
    Passing W known start date base all t rest ∧ NoLater s t.1 := by
  have hmem : job ∈ s.queue.jobs := by
    rw [hq]
    exact List.mem_cons_self
  have hfirst : s.queue.firstJob? = some job := by
    rw [Queue.firstJob?_eq_head?, hq]
    rfl
  rw [traverseJob] at hx
  split at hx
  · rename_i without hwithout
    obtain ⟨hout, hsooner⟩ := takeFront h hfirst hwithout
    split at hx
    · rename_i schedule alloc ha
      split at hx
      · rename_i hstart
        obtain ⟨s', hs', rfl⟩ := map_eq_ok.1 hx
        obtain ⟨hready, hjobs, hexec, -⟩ := hout.execute hmem ha hstart hs'
        refine ⟨⟨by simp [hfirst], [], ?_, .inr (.inl ⟨rfl, hready⟩)⟩, ?_⟩
        · dsimp only at hjobs ⊢
          rw [hjobs, hq]
          simp
        · rintro k b (⟨hk, -⟩ | ⟨machines, hk⟩)
          · obtain rfl : job = k := Option.some.inj (hfirst.symm.trans hk)
            exact .inr ⟨alloc.usedMachines, by rw [hexec]; simp⟩
          · exact .inr ⟨machines, by rw [hexec]; exact List.mem_append_left _ hk⟩
      · rename_i hlate
        rw [if_pos hfirst.symm] at hx
        cases hx
        obtain ⟨hready, hwaits⟩ := hout.planFront hfirst ha (by simpa using hlate)
        refine ⟨⟨rfl, [job], hq, .inr (.inr ⟨hready, hwaits⟩)⟩, ?_⟩
        rintro k b (⟨hk, b₀, hb₀, hle⟩ | hk)
        · obtain rfl : job = k := Option.some.inj (hfirst.symm.trans hk)
          obtain ⟨b', hb', hle'⟩ := hsooner schedule alloc ha b₀ hb₀
          exact .inl ⟨hk, b', hb', hle'.trans hle⟩
        · exact .inr hk
    · cases hx
  · cases hx

/-- A job behind the first of the queue is executed, or left in the queue. -/
theorem traverseBehind {t : EasyBfState × Option Job} {first : Job} {passed rest : List Job}
    (hq : s.queue.jobs = first :: passed ++ job :: rest) (hready : Ready W known start date base all s [] (front s))
    (hwaits : FrontWaits W start base s) (hx : traverseJob (s, s.queue.firstJob?) job = .ok t) :
    Passing W known start date base all t rest ∧ NoLater s t.1 := by
  have hmem : job ∈ s.queue.jobs := by
    rw [hq]
    simp
  have hhead : s.queue.firstJob? = some first := by
    rw [Queue.firstJob?_eq_head?, hq]
    rfl
  have hnodup := hready.nodup_queue.of_map
  rw [hq, List.cons_append, List.nodup_cons, List.nodup_append] at hnodup
  have hne : first ≠ job := fun heq => hnodup.1 (by simp [heq])
  have hfirst : some job ≠ s.queue.firstJob? := by
    rw [hhead]
    exact fun heq => hne (Option.some.inj heq).symm
  have hnot : s.schedule.containsJob job = false := by
    rw [← Bool.not_eq_true, hready.holds.containsJob_iff, not_or]
    refine ⟨hready.notMem_held hmem, fun hbad => hready.front_ne hmem hfirst first hhead ?_⟩
    simpa [front, hhead, eq_comm] using hbad
  rw [traverseJob, if_neg (by simp [hnot])] at hx
  dsimp only at hx
  split at hx
  · rename_i schedule alloc ha
    obtain ⟨hstarts, hleaves⟩ := hready.tryJob hmem hfirst ha
    split at hx
    · rename_i hstart
      obtain ⟨s', hs', rfl⟩ := map_eq_ok.1 hx
      obtain ⟨hready', hjobs, hkept⟩ := hstarts hstart s' hs'
      refine ⟨⟨hkept.first.symm, first :: passed, ?_, .inr (.inr ⟨hready', hkept.frontWaits hwaits⟩)⟩, hkept.noLater⟩
      have hpassed : job ∉ passed := fun hin => hnodup.2.2.2 job hin job (by simp) rfl
      dsimp only
      rw [hjobs, hq, List.cons_append, List.erase_cons_tail (by simpa using hne), List.erase_append_right _ hpassed,
        List.erase_cons_head, List.cons_append]
    · obtain ⟨schedule', hr, rfl⟩ := map_eq_ok.1 hx
      obtain ⟨hready', hkept⟩ := hleaves schedule' hr
      exact ⟨⟨rfl, first :: passed ++ [job], by simp [hq], .inr (.inr ⟨hready', hkept.frontWaits hwaits⟩)⟩, hkept.noLater⟩
  · cases hx

/-- One job of the traversal. -/
theorem traverseJob_passing {t t' : EasyBfState × Option Job} {rest : List Job}
    (h : Passing W known start date base all t (job :: rest)) (hx : traverseJob t job = .ok t') :
    Passing W known start date base all t' rest ∧ NoLater t.1 t'.1 := by
  obtain ⟨s, priority⟩ := t
  obtain ⟨hpriority, passed, hq, hstate⟩ := h
  dsimp only at hpriority hq hstate
  subst hpriority
  rcases hstate with ⟨rfl, hready, hplanned⟩ | ⟨rfl, hready⟩ | ⟨hready, hwaits⟩
  · exact traverseFront hq (.inl ⟨hready, hplanned⟩) hx
  · exact traverseFront hq (.inr hready) hx
  · cases passed with
    | nil => exact traverseFront hq (.inl ⟨hready, fun p hp => (hwaits p hp).imp fun _ hb => hb.1⟩) hx
    | cons first passed => exact traverseBehind hq hready hwaits hx

/-- When all jobs have been passed, the first job of the queue is planned, if there is one. -/
theorem Passing.done {t : EasyBfState × Option Job} (h : Passing W known start date base all t []) :
    Ready W known start date base all t.1 [] (front t.1) ∧ FrontWaits W start base t.1 := by
  obtain ⟨-, passed, hq, hstate⟩ := h
  rw [List.append_nil] at hq
  have hempty : passed = [] → t.1.queue.firstJob? = none := by
    rintro rfl
    rw [Queue.firstJob?_eq_head?, hq]
    rfl
  have hwaits : passed = [] → FrontWaits W start base t.1 := by
    intro hnil p hp
    rw [hempty hnil] at hp
    cases hp
  rcases hstate with ⟨hnil, hready, -⟩ | ⟨hnil, hready⟩ | hready
  · exact ⟨hready, hwaits hnil⟩
  · exact ⟨by simpa [front, hempty hnil] using hready, hwaits hnil⟩
  · exact hready

/-- Traversing the queue leaves its first job planned behind a job that runs, and no job due later. -/
theorem traverseAll_ready {t : EasyBfState × Option Job} (h : Ready W known start date base all s [] (front s))
    (hplanned : FrontPlanned s) (hx : runFrom traverseJob (s, s.queue.firstJob?) s.queue.jobs = .ok t) :
    Ready W known start date base all t.1 [] (front t.1) ∧ FrontWaits W start base t.1 ∧ NoLater s t.1 := by
  obtain ⟨hpassing, hlater⟩ := runFrom_rest
    (R := fun t rest => Passing W known start date base all t rest ∧ NoLater s t.1)
    (fun _ _ _ _ hinv hstep => by
      obtain ⟨hpassing, hlater⟩ := traverseJob_passing hinv.1 hstep
      exact ⟨hpassing, fun job b hjob => hlater job b (hinv.2 job b hjob)⟩)
    ⟨⟨rfl, [], rfl, .inl ⟨rfl, h, hplanned⟩⟩, noLater_refl s⟩ hx
  obtain ⟨hready, hwaits⟩ := hpassing.done
  exact ⟨hready, hwaits, hlater⟩

/-- Where no machine is available, the first job of the queue waits for a job that runs. -/
theorem frontWaits_of_full (h : Ready W known start date base all s [] (front s)) (hplanned : FrontPlanned s)
    (hfull : ¬ 0 < nbAvailableMachines s) : FrontWaits W start base s := by
  intro q hq
  obtain ⟨b, hb⟩ := hplanned q hq
  have hmem : q ∈ s.queue.jobs := by
    rw [Queue.firstJob?_eq_head?] at hq
    exact List.mem_of_mem_head? hq
  have hjob := h.jobs q (List.mem_append_left _ hmem)
  refine ⟨b, hb, h.dated.someEndsBy_of_full hjob hb (fun k _ hne hc => ?_) fun first hfirst => ?_⟩
  · refine (h.holds.containsJob_iff.1 hc).resolve_right fun hbad => hne ?_
    rw [front, show s.queue.firstJob? = some q from hq] at hbad
    simpa using hbad
  · rw [nbAvailableMachines, show s.schedule.profile.head? = some first from hfirst] at hfull
    rw [← Finset.card_eq_zero]
    simpa using hfull

end EasyBfDelayAux

end ScheduleTest
