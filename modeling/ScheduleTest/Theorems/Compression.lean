import ScheduleTest.Compression
import ScheduleTest.Lemmas.Plan

/-!
# Compression is monotone

conservative_bf takes each job of the queue out of the schedule and plans it anew by first fit. The hole that a job leaves admits it
again, at the date it was planned for, so first fit finds that date or an earlier one, and the other jobs stay where they are. This
needs the first slice not to have been moved past its end, which the tolerance on dates allows: a job cannot begin before now.
-/

namespace ScheduleTest

open Execution Timeline

/-- The machines a schedule gives a job at a date. -/
def Schedule.heldAt (s : Schedule) (job : Job) (x : ℚ) : Option IntervalSet := (sliceAt s.profile x).bind (machinesOf job)

/-- A job that is in the schedule and does not run now. -/
def Schedule.IsPlanned (s : Schedule) (job : Job) : Prop := s.containsJob job = true ∧ machinesNow job s.profile = none

/-- The jobs are planned no later than before, all others are where they were, and no job has been lost. -/
structure Replanned (jobs : List Job) (s s' : Schedule) : Prop where
  earlier : ∀ job ∈ jobs, ∀ b, s.plannedBegin job = some b → ∃ b', s'.plannedBegin job = some b' ∧ b' ≤ b
  others : ∀ job, job.id ∉ jobs.map (·.id) → s'.plannedBegin job = s.plannedBegin job ∧
    machinesNow job s'.profile = machinesNow job s.profile ∧ ∀ x, s.firstSliceBegin ≤ x → s'.heldAt job x = s.heldAt job x
  contains : ∀ job, s'.containsJob job = s.containsJob job
  firstSliceBegin : s'.firstSliceBegin = s.firstSliceBegin

namespace CompressionAux

open ConservativeBf

variable {W : NamedJobs} {selector : ResourceSelector} {s s' : Schedule} {job : Job} {jobs : List Job}

theorem replanned_nil (s : Schedule) : Replanned [] s s := ⟨nofun, fun _ _ => ⟨rfl, rfl, fun _ _ => rfl⟩, fun _ => rfl, rfl⟩

/-- One job, then others. -/
theorem replanned_cons {s'' : Schedule} (h : Replanned [job] s s') (h' : Replanned jobs s' s'') (hnew : job.id ∉ jobs.map (·.id)) :
    Replanned (job :: jobs) s s'' where
  earlier := by
    intro k hk b hb
    by_cases hid : k.id = job.id
    · have hk' : k = job := by
        rcases List.mem_cons.1 hk with rfl | hk
        · rfl
        · exact absurd (hid ▸ List.mem_map_of_mem hk) hnew
      subst hk'
      obtain ⟨b', hb', hle⟩ := h.earlier k (List.mem_singleton.2 rfl) b hb
      exact ⟨b', by rw [(h'.others k hnew).1, hb'], hle⟩
    · have hk' : k ∈ jobs := (List.mem_cons.1 hk).resolve_left fun heq => hid (by rw [heq])
      exact h'.earlier k hk' b (by rw [(h.others k (by simpa using hid)).1, hb])
  others := by
    intro k hk
    rw [List.map_cons, List.mem_cons, not_or] at hk
    obtain ⟨hne, hrest⟩ := hk
    obtain ⟨h1, h2, h3⟩ := h.others k (by simpa using hne)
    obtain ⟨g1, g2, g3⟩ := h'.others k hrest
    exact ⟨g1.trans h1, g2.trans h2, fun x hx => (g3 x (h.firstSliceBegin ▸ hx)).trans (h3 x hx)⟩
  contains := fun k => (h'.contains k).trans (h.contains k)
  firstSliceBegin := h'.firstSliceBegin.trans h.firstSliceBegin

/-- The machines that a removed job had are available where it was. -/
theorem subset_available_of_removed {b : Bool} {x : ℚ} {t : TimeSlice} {ms : IntervalSet} (hm : MachinesOk W s) (ht : Timed s.profile)
    (hr : s.removeJobIfExists job = .ok (s', b)) (hx : s.firstSliceBegin ≤ x) (hlookup : sliceAt s.profile x = some t)
    (hms : machinesOf job t = some ms) : ∃ u, sliceAt s'.profile x = some u ∧ ms ⊆ u.availableMachines := by
  have hview := sliceAt_removeJobIfExists (f := fun t => t.allocatedJobs.erase job) (fun t u heq => by simp only [heq]) (fun t ms => ?_)
    hm.runs ht hr hx
  · rw [hlookup, Option.map_some] at hview
    obtain ⟨u, hu, hjobs⟩ := Option.map_eq_some_iff.1 hview
    have hmem : u ∈ s'.profile := (mem_of_lookup hu).1
    obtain ⟨job', hentry, hid⟩ := KeyedMap.find?_eq_some.1 hms
    have hm' := hm.removeJobIfExists hr
    have ht' := hm.slices t (mem_of_lookup hlookup).1
    obtain ⟨hn, hrepair⟩ := Schedule.removeJobIfExists_frame hr
    have habsent : u.containsJob job = false := by
      rw [← Bool.not_eq_true]
      intro hc
      exact ((present_removeJobIfExists hm.runs hr).1 ⟨u, hmem, hc⟩).1 rfl
    refine ⟨u, hu, fun y hy => ?_⟩
    obtain ⟨hlt, hnot⟩ := ht'.inRange _ hentry y hy
    refine ((hm'.slices u hmem).available y).2 ⟨hn ▸ hlt, hrepair ▸ hnot, fun e he hye => ?_⟩
    -- another job of the slice was beside the job before, on other machines
    have hne : e.1.id ≠ job.id := KeyedMap.contains_eq_false_iff.1 habsent e he
    have he' : e ∈ (t.allocatedJobs.erase job).entries := by
      rw [← hjobs]
      exact KeyedMap.mem_erase.2 ⟨he, hne⟩
    have hdisj := ht'.disjoint e (KeyedMap.mem_erase.1 he').1 (job', ms) hentry fun heq => hne (by rw [heq, ← hid])
    exact Finset.disjoint_left.1 hdisj hye hy
  · exact KeyedMap.ext_mem fun e => by
      simp only [TimeSlice.eraseJob, KeyedMap.mem_erase]
      tauto

/-- A job that is taken out of the schedule and placed anew begins no later, and nothing else has changed. -/
theorem replace_step (h : PlansOk W selector s) (hup : s.Upright) (hjob : job ∈ W.jobs)
    (hpos : job.hasWalltime = true → 0 < job.walltime) (hrequest : selector = .contiguous → 0 < job.nbRequestedResources)
    (hplanned : s.IsPlanned job) : ∃ s₁ a, s.removeJobIfExists job = .ok (s₁, true) ∧
      s₁.addJobFirstFitWith selector job false = .ok (s₁.placedAt job a, s₁.allocAt job a) ∧
      PlansOk W selector (s₁.placedAt job a) ∧ (s₁.placedAt job a).Upright ∧ Replanned [job] s (s₁.placedAt job a) := by
  obtain ⟨hc, hnow⟩ := hplanned
  obtain ⟨s₁, b, hr⟩ := h.machines.removeJobIfExists_total job
  obtain rfl : b = true := by
    rcases Schedule.removeJobIfExists_ok hr with ⟨_, _, hc'⟩ | ⟨rfl, _⟩
    · rw [hc] at hc'
      nomatch hc'
    · rfl
  obtain ⟨date, hdate⟩ := Option.isSome_iff_exists.1 (plannedBegin_isSome.trans hc)
  obtain ⟨e, ms, hend, hlt, hhorizon, hfirst, ⟨t, htmem, hms⟩, hheld⟩ := planned_span h.machines.runs h.timed hdate hnow
  have h₁ := h.removeJobIfExists hr
  have hup₁ := upright_removeJobIfExists h.timed hup hr
  obtain ⟨hhorizon₁, hbegin₁, hothers₁⟩ := removeJobIfExists_plan h.machines.runs hr
  have habsent : s₁.containsJob job = false := by
    rw [← Bool.not_eq_true, containsJob_iff_present, present_removeJobIfExists h.machines.runs hr]
    simp
  have hafter : s.firstSliceBegin ≤ date := by
    obtain ⟨first, rest, hp, hbegin, _⟩ := exists_chain h.timed
    rw [← hbegin]
    exact (hup first (by rw [hp]; rfl)).trans (hfirst first (by rw [hp]; rfl))
  -- the hole ends where the job would end if it began there again
  have he : e = s₁.endIfBegun job date := by
    have hwhole := h.whole job hjob hnow date hdate
    rw [hend, Schedule.endIfBegun] at hwhole
    rw [Option.some.inj hwhole, Schedule.endIfBegun, hhorizon₁]
  obtain ⟨job', hentry, hid⟩ := KeyedMap.find?_eq_some.1 hms
  obtain rfl := W.id_injOn (h.machines.runs.known t htmem _ hentry) hjob hid
  obtain ⟨hcard, hsuited⟩ := h.suited t htmem _ hentry
  obtain ⟨a, ha, hle⟩ := @exists_anchor_of_free W s₁ selector job' ms date h₁.machines h₁.timed hup₁ (fun available hsub => by
      rcases Nat.eq_zero_or_pos job'.nbRequestedResources with hzero | hr
      · cases selector with
        | basic => exact BasicResourceSelector.fit_isSome.2 (by rw [hzero]; exact Nat.zero_le _)
        | contiguous => exact absurd hzero (hrequest rfl).ne'
        | limitedRange range =>
          simp only [ResourceSelector.fit, LimitedRangeResourceSelector.fit, hzero]
          rfl
      · exact ResourceSelector.fit_complete hr hsub hcard hsuited) hcard.ge (he ▸ hlt)
    (by rw [← he, hhorizon₁]; exact hhorizon) (fun x hx hx' => by
      obtain ⟨t, hlookup, htms⟩ := hheld x (hafter.trans hx) hx (he ▸ hx')
      exact subset_available_of_removed h.machines h.timed hr (hafter.trans hx) hlookup htms)
  obtain ⟨hshape, _⟩ := Schedule.findAnchorWith_ok ha
  obtain ⟨_, hbegin₂, hothers₂⟩ := @placedAt_plan s₁ job' a hshape
  refine ⟨s₁, a, hr, by rw [Schedule.addJobFirstFitWith, habsent, ha]; rfl, h₁.place hjob hpos habsent ha,
    upright_placedAt hshape hup₁, ?_, ?_, ?_, hbegin₂.trans hbegin₁⟩
  · intro k hk b hb
    obtain rfl := List.mem_singleton.1 hk
    rw [hdate] at hb
    cases hb
    exact ⟨_, plannedBegin_placedAt habsent hshape, hle⟩
  · intro k hk
    have hne : k.id ≠ job'.id := by simpa using hk
    obtain ⟨g1, _, g2⟩ := hothers₁ k hne
    obtain ⟨k1, _, k2⟩ := hothers₂ k hne
    refine ⟨k1.trans g1, k2.trans g2, fun x hx => ?_⟩
    have hview₁ := sliceAt_removeJobIfExists (f := machinesOf k) (fun t u heq => by simp only [machinesOf, heq])
      (fun t ms => by rw [machinesOf_eraseJob, if_neg hne]) h.machines.runs h.timed hr hx
    have hview₂ := @sliceAt_placeAt_unseen _ (machinesOf k) x job' a (fun _ _ _ _ => rfl)
      (fun t _ => by rw [machinesOf_allocateJob, if_neg hne]) (s₁.endDateAt job' a)
    rw [hshape] at hview₂
    have hbind : ∀ o : Option TimeSlice, o.bind (machinesOf k) = (o.map (machinesOf k)).join := fun o => by cases o <;> rfl
    rw [Schedule.heldAt, Schedule.heldAt, hbind, hbind, ← hview₁, ← hview₂]
    rfl
  · intro k
    rw [Bool.eq_iff_iff, containsJob_iff_present, containsJob_iff_present,
      show (s₁.placedAt job' a).profile = Schedule.placeAt job' a (s₁.endDateAt job' a) from rfl, present_placeAt, hshape,
      present_removeJobIfExists h.machines.runs hr]
    constructor
    · rintro (hk | ⟨_, hk⟩)
      · rw [present_congr hk, ← containsJob_iff_present]
        exact hc
      · exact hk
    · intro hk
      by_cases hid : k.id = job'.id
      · exact Or.inl hid
      · exact Or.inr ⟨hid, hk⟩

/-- One job of the loop. -/
theorem replaceNextWith_step {t : ConservativeState × ℤ} (h : PlansOk W selector t.1.schedule) (hup : t.1.schedule.Upright)
    (hjob : job ∈ W.jobs) (hpos : job.hasWalltime = true → 0 < job.walltime)
    (hrequest : selector = .contiguous → 0 < job.nbRequestedResources) (hplanned : t.1.schedule.IsPlanned job)
    (hqueue : job ∈ t.1.queue.jobs) : ∃ t', replaceNextWith selector (-1) t job = .ok t' ∧ PlansOk W selector t'.1.schedule ∧
      t'.1.schedule.Upright ∧ Replanned [job] t.1.schedule t'.1.schedule ∧
      ∀ k ∈ t.1.queue.jobs, k ≠ job → k ∈ t'.1.queue.jobs := by
  obtain ⟨s₁, a, hr, ha, h', hup', hreplanned⟩ := replace_step h hup hjob hpos hrequest hplanned
  rw [replaceNextWith, if_neg (by simp), hr]
  dsimp only
  rw [placeJobWith, ha]
  dsimp only
  split
  · split
    · -- the job starts now and leaves the queue
      obtain ⟨queue, hq⟩ := Queue.removeJob_of_mem hqueue
      rw [hq]
      refine ⟨_, rfl, h', hup', hreplanned, fun k hk hne => ?_⟩
      obtain ⟨_, hjobs⟩ := Queue.jobs_removeJob hq
      exact hjobs ▸ (List.mem_erase_of_ne hne).2 hk
    · exact ⟨_, rfl, h', hup', hreplanned, fun k hk _ => hk⟩
  · exact ⟨_, rfl, h', hup', hreplanned, fun k hk _ => hk⟩

/-- The loop over jobs of the queue. -/
theorem replaceAll (hpos : ∀ job ∈ W.jobs, job.hasWalltime = true → 0 < job.walltime)
    (hrequest : selector = .contiguous → ∀ job ∈ W.jobs, 0 < job.nbRequestedResources) {t : ConservativeState × ℤ}
    (h : PlansOk W selector t.1.schedule) (hup : t.1.schedule.Upright) (hnodup : (jobs.map (·.id)).Nodup)
    (hjobs : ∀ job ∈ jobs, job ∈ t.1.queue.jobs ∧ job ∈ W.jobs ∧ t.1.schedule.IsPlanned job) :
    ∃ t', runFrom (replaceNextWith selector (-1)) t jobs = .ok t' ∧ Replanned jobs t.1.schedule t'.1.schedule := by
  induction jobs generalizing t with
  | nil => exact ⟨t, rfl, replanned_nil _⟩
  | cons job jobs ih =>
    rw [List.map_cons, List.nodup_cons] at hnodup
    obtain ⟨hnew, hnodup⟩ := hnodup
    obtain ⟨hqueue, hjob, hplanned⟩ := hjobs job List.mem_cons_self
    obtain ⟨t₁, hstep, h₁, hup₁, hreplanned, hkept⟩ :=
      replaceNextWith_step h hup hjob (hpos job hjob) (fun heq => hrequest heq job hjob) hplanned hqueue
    obtain ⟨t₂, hrun, hrest⟩ := ih h₁ hup₁ hnodup fun k hk => by
      obtain ⟨hkqueue, hkjob, hkc, hknow⟩ := hjobs k (List.mem_cons_of_mem _ hk)
      have hne : k.id ≠ job.id := fun heq => hnew (heq ▸ List.mem_map_of_mem hk)
      refine ⟨hkept k hkqueue fun heq => hne (by rw [heq]), hkjob, (hreplanned.contains k).trans hkc, ?_⟩
      rw [(hreplanned.others k (by simpa using hne)).2.1]
      exact hknow
    exact ⟨t₂, (runFrom_cons_ok hstep jobs).trans hrun, replanned_cons hreplanned hrest hnew⟩

end CompressionAux

/-- The loop goes through, and leaves the jobs of the queue planned no later, all others where they were, and no job out. -/
def CompressionKeeps (selector : ResourceSelector) (s : ConservativeState) : Prop :=
  ∃ s', ConservativeBf.compressWith selector (-1) s = .ok s' ∧ Replanned s.queue.jobs s.schedule s'.schedule

open CompressionAux in
/-- In every state with an upright first slice that a run of calls under their condition reaches, the compression of a queue of
jobs that are planned and do not run yet begins none of them later. -/
theorem compression_monotone (W : Workload) (selector : ResourceSelector) (n : ℕ) (t0 : ℚ) (calls : List ScheduleCall)
    (hpos : ∀ job ∈ W.jobs, job.hasWalltime = true → 0 < job.walltime)
    (hrequest : selector = .contiguous → ∀ job ∈ W.jobs, 0 < job.nbRequestedResources)
    (hcalls : AllSteps (ScheduleCall.runBy selector) (fun s call => AccountedCall W s call) (Schedule.new n t0) calls) :
    Always (ScheduleCall.runBy selector) (fun schedule => schedule.Upright → ∀ s : ConservativeState, s.schedule = schedule →
      (s.queue.jobs.map (·.id)).Nodup → (∀ job ∈ s.queue.jobs, job ∈ W.jobs ∧ schedule.IsPlanned job) →
        CompressionKeeps selector s) (Schedule.new n t0) calls := by
  refine always_of_invariant (I := PlansOk W selector) ?_ ?_ (PlansOk.new W selector n t0) hcalls
  · intro s call s' h hcall hrun
    exact h.runWith hpos hcall hrun
  · intro schedule h hup s hs hnodup hjobs
    subst hs
    obtain ⟨t, hrun, hreplanned⟩ := replaceAll (t := (s, 0)) hpos hrequest h hup hnodup fun job hjob => ⟨hjob, hjobs job hjob⟩
    exact ⟨t.1, by rw [ConservativeBf.compressWith, hrun]; rfl, hreplanned⟩

namespace CompressionWitness

/-- A job that runs first. -/
def running : Job := { id := "w!1", nbRequestedResources := 1, walltime := 10 }

/-- A job that waits for the machine. -/
def queued : Job := { id := "w!2", nbRequestedResources := 1, walltime := 10 }

/-- A workload of the two. -/
def workload : Workload := Workload.ofList [running, queued] (by decide) (by decide)

/-- One job runs, the other is planned behind it, and the first one ends at some date. -/
def calls (date : ℚ) : List ScheduleCall :=
  [.addJobFirstFit running true, .addJobFirstFit queued true, .updateFirstSlice date, .removeJob running]

/-- The scheduler with the other job in its queue. -/
def waiting (schedule : Schedule) : ConservativeState := { schedule := schedule, queue := [{ job := queued, releaseDate := 0 }] }

theorem calls_accounted (date : ℚ) :
    AllSteps (ScheduleCall.runBy .basic) (fun s call => AccountedCall workload s call) (Schedule.new 1 0) (calls date) :=
  ⟨by simp [AccountedCall, workload, Workload.ofList], fun _ _ => ⟨by simp [AccountedCall, workload, Workload.ofList],
    fun _ _ => ⟨trivial, fun _ _ => ⟨trivial, fun _ _ => trivial⟩⟩⟩⟩

theorem walltime_pos : ∀ job ∈ workload.jobs, job.hasWalltime = true → 0 < job.walltime := by
  simp [workload, Workload.ofList, running, queued]

end CompressionWitness

open CompressionWitness in
/-- The first job ends early, and the other is planned anew in a state that the run reaches. -/
theorem compression_monotone_witness :
    (runFrom (ScheduleCall.runBy .basic) (Schedule.new 1 0) (calls 4)).toOption.map (fun s => ((s.plannedBegin queued),
      (ConservativeBf.compressWith .basic (-1) (waiting s)).toOption.map (fun s' => s'.schedule.plannedBegin queued))) =
        some (some 10, some (some 4)) ∧
      Always (ScheduleCall.runBy .basic) (fun schedule => schedule.Upright → ∀ s : ConservativeState, s.schedule = schedule →
        (s.queue.jobs.map (·.id)).Nodup → (∀ job ∈ s.queue.jobs, job ∈ workload.jobs ∧ schedule.IsPlanned job) →
          CompressionKeeps .basic s) (Schedule.new 1 0) (calls 4) :=
  ⟨by decide +kernel, compression_monotone workload .basic 1 0 (calls 4) walltime_pos nofun (calls_accounted 4)⟩

open CompressionWitness in
/-- Where the first slice has been moved past its end, a job planned for that end begins later. -/
theorem compression_monotone_false :
    ¬ (∀ (W : Workload) (selector : ResourceSelector) (n : ℕ) (t0 : ℚ) (calls : List ScheduleCall),
      (∀ job ∈ W.jobs, job.hasWalltime = true → 0 < job.walltime) →
      (selector = .contiguous → ∀ job ∈ W.jobs, 0 < job.nbRequestedResources) →
      AllSteps (ScheduleCall.runBy selector) (fun s call => AccountedCall W s call) (Schedule.new n t0) calls →
      Always (ScheduleCall.runBy selector) (fun schedule => ∀ s : ConservativeState, s.schedule = schedule →
        (s.queue.jobs.map (·.id)).Nodup → (∀ job ∈ s.queue.jobs, job ∈ W.jobs ∧ schedule.IsPlanned job) →
          CompressionKeeps selector s) (Schedule.new n t0) calls) := by
  intro h
  have hrun : (runFrom (ScheduleCall.runBy .basic) (Schedule.new 1 0) (calls (10 + 1 / 16384))).toOption.map (fun s =>
      (s.containsJob queued, machinesNow queued s.profile, s.plannedBegin queued,
        (ConservativeBf.compressWith .basic (-1) (waiting s)).toOption.map (fun s' => s'.schedule.plannedBegin queued))) =
      some (true, none, some 10, some (some (10 + 1 / 16384))) := by decide +kernel
  obtain ⟨s, hs, hvalue⟩ := toOption_map_eq_some.1 hrun
  simp only [Prod.mk.injEq] at hvalue
  obtain ⟨hc, hnow, hplanned, hcompress⟩ := hvalue
  have halways := h workload .basic 1 0 (calls (10 + 1 / 16384)) walltime_pos nofun (calls_accounted _)
  obtain ⟨s', hok, hreplanned⟩ := halways.last hs (waiting s) rfl (by simp [waiting, Queue.jobs]) (by
    intro job hjob
    obtain rfl := List.mem_singleton.1 (show job ∈ [queued] from hjob)
    exact ⟨by simp [workload, Workload.ofList], hc, hnow⟩)
  obtain ⟨b', hb', hle⟩ := hreplanned.earlier queued (List.mem_singleton.2 rfl) 10 hplanned
  rw [hok] at hcompress
  rw [show s'.schedule.plannedBegin queued = some (10 + 1 / 16384) from Option.some.inj hcompress] at hb'
  rw [← Option.some.inj hb'] at hle
  revert hle
  decide +kernel

end ScheduleTest
