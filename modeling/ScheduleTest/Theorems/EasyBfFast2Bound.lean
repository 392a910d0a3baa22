import ScheduleTest.Lemmas.EasyBfFast2Bound
import ScheduleTest.Theorems.EasyBfFast2

/-!
# The start of the priority job of easy_bf_fast2

When a job becomes the priority job a date is computed for it. In a run without failures in which no job runs longer than its walltime
it is executed by that date, whatever is executed before it: a job that may precede it ends by the date, so the machines that were to
be free by then still are (`Feasible`), and a priority job that does not fit waits for a job that ends by then.
-/

namespace ScheduleTest

open Execution FastState FastMachines EasyBFFast2

/-- The messages of a run without failures. -/
def FastEvent.NoFailure : FastEvent → Prop
  | .requestedCall _ _ .smtbf _ => False
  | .requestedCall _ _ .mtbf _ => False
  | .requestedCall _ _ .fixedFailure _ => False
  | .requestedCall _ _ .repairDone _ => False
  | .machinesAvailable _ => False
  | .myKillJob _ => False
  | _ => True

instance : (event : FastEvent) → Decidable event.NoFailure
  | .requestedCall _ _ .smtbf _ => isFalse id
  | .requestedCall _ _ .mtbf _ => isFalse id
  | .requestedCall _ _ .fixedFailure _ => isFalse id
  | .requestedCall _ _ .repairDone _ => isFalse id
  | .requestedCall _ _ .reservationStart _ => isTrue trivial
  | .requestedCall _ _ .checkpointBatsched _ => isTrue trivial
  | .requestedCall _ _ .recoverFromCheckpoint _ => isTrue trivial
  | .machinesAvailable _ => isFalse id
  | .myKillJob _ => isFalse id
  | .jobSubmitted _ => isTrue trivial
  | .jobCompleted _ => isTrue trivial
  | .jobsKilled _ => isTrue trivial
  | .noMoreStaticJobToSubmit => isTrue trivial
  | .makeDecisions _ => isTrue trivial

/-- No job runs longer than its walltime when the scheduler decides. -/
def InTimeAt (p : Platform) : FastEvent → Prop
  | .makeDecisions date => p.InTime date
  | _ => True

instance (p : Platform) : (event : FastEvent) → Decidable (InTimeAt p event)
  | .makeDecisions date => inferInstanceAs (Decidable (p.InTime date))
  | .requestedCall .. => isTrue trivial
  | .machinesAvailable _ => isTrue trivial
  | .myKillJob _ => isTrue trivial
  | .jobSubmitted _ => isTrue trivial
  | .jobCompleted _ => isTrue trivial
  | .jobsKilled _ => isTrue trivial
  | .noMoreStaticJobToSubmit => isTrue trivial

/-- When the scheduler decides, the date computed for the priority job has not passed, and the job is executed or keeps the date. -/
def StartsInTime (c : FastConfig) (s : EasyState) (event : FastEvent) : Prop :=
  ∀ date, event = .makeDecisions date → ∀ entry ∈ s.priorityJob, date ≤ entry.2 ∧
    ∀ s', step c s event = .ok s' →
      s'.priorityJob = some entry ∨ ∃ machines, .executeJob entry.1.id machines ∈ s'.decision.decisions

/-- There is one point for each running job, in the order of the dates at which they end by, and no job is pending without a priority
job. -/
structure HorizonsKept (t : EasyState × Platform) : Prop where
  sorted : t.1.horizons.Pairwise (fun p q => p.date ≤ q.date)
  nodup : (t.1.horizons.map HorizonPoint.id).Nodup
  points : (t.1.horizons.map HorizonPoint.id).Perm ((t.2.running ++ t.2.reported).map (·.id))
  dates : ∀ point ∈ t.1.horizons, ∀ r ∈ t.2.running ++ t.2.reported, r.id = point.id → ∀ job ∈ t.2.submitted, job.id = r.id →
    point.date = r.start + job.walltime
  idle : t.1.priorityJob = none → t.1.pendingJobs = []

namespace EasyFast2BoundAux

variable {c : FastConfig} {s s' : EasyState} {job : Job} {waiting : List Job} {date : ℚ}

/-- The priority job does not fit, and it can be started by its date. -/
def Bounded (c : FastConfig) (s : EasyState) : Prop :=
  ∀ entry ∈ s.priorityJob, s.nbAvailableMachines < entry.1.nbRequestedResources ∧
    (c.shares entry.1 → s.freeCoreMachine? = none) ∧ Feasible c entry.1 (pointsAfter s entry.2)

/-- What each part of a pass keeps about the machines and the priority job. -/
structure Kept (c : FastConfig) (s : EasyState) : Prop where
  machines : ∃ holder, Represents c s.toFastMachines holder
  counts : Counts c s
  repair : s.repairMachines = ∅
  bounded : Bounded c s

/-- A job that ends by a date adds no point behind it. -/
theorem pointsAfter_started {f : FastState} {d : ℚ} (hd : date + job.walltime ≤ d) :
    (pointsAfter { s with toFastState := f, horizons := insertHorizonPoint (pointOf f job date) s.horizons } d).Perm
      (pointsAfter s d) := by
  refine ((insertHorizonPoint_perm _ _).filter _).trans (.of_eq ?_)
  rw [List.filter_cons_of_neg (by rw [decide_eq_true_eq, not_lt]; exact hd)]
  rfl

/-- Where no machine is available and no core is free, executing a job frees none. -/
theorem freeCoreMachine?_started {f : FastState} (hf : Started c s.toFastState job f) (hnone : s.freeCoreMachine? = none)
    (hav : s.nbAvailableMachines < 1) : f.freeCoreMachine? = none := by
  cases hf with
  | onCore hshares hm hcores => exact absurd (cores_of_freeCoreMachine?_none hnone hm) (not_lt.2 hcores)
  | onNewCoreMachine hshares _ hpos hm => exact absurd hav (not_lt.2 hpos)
  | onMachines hshares hfit => exact hnone

/-- Every act keeps the priority job bounded. -/
theorem act_kept {a b : EasyState × List Job} (h : Act c date a b) (hj : JobsOk a.1.toFastState (waitingJobs a.1 ++ a.2))
    (hk : Kept c a.1) : Kept c b.1 := by
  have hcounts := hk.counts.act h hj
  obtain ⟨holder, hr⟩ := hk.machines
  cases h with
  | @start s job pending released released' f hf hprecede hsub hjobs =>
    obtain ⟨holder', hr', -⟩ := hf.represents hr ((hj.perm (waiting_perm hjobs)).fresh job List.mem_cons_self)
    refine ⟨⟨holder', hr'⟩, hcounts, hf.frame.repair.trans hk.repair, fun entry hentry => ?_⟩
    obtain ⟨hfit, hcore, hfeasible⟩ := hk.bounded entry hentry
    have hd : date + job.walltime ≤ entry.2 := by
      have hprio : s.priorityJob = some entry := hentry
      simpa [mayPrecede, hprio] using hprecede
    refine ⟨hf.frame.available.trans_lt hfit, fun hshares => ?_, hfeasible.perm (pointsAfter_started hd)⟩
    have hone : entry.1.nbRequestedResources = 1 := by
      simpa [FastConfig.shares] using (Bool.and_eq_true_iff.1 hshares).2
    have hav : s.nbAvailableMachines < 1 := by
      rw [hone] at hfit
      exact_mod_cast hfit
    have hnone : f.freeCoreMachine? = none := freeCoreMachine?_started hf (hcore hshares) hav
    exact hnone
  | promote hnone hfit hcore hd =>
    refine ⟨⟨holder, hr⟩, hcounts, hk.repair, fun entry hentry => ?_⟩
    obtain rfl := Option.some.inj hentry
    have hfeasible := feasible_of_search hr hk.counts hfit hd
    exact ⟨hfit, hcore, hfeasible⟩
  | wait => exact ⟨⟨holder, hr⟩, hcounts, hk.repair, hk.bounded⟩
  | reject => exact ⟨⟨holder, hr⟩, hcounts, hk.repair, hk.bounded⟩

/-- The opening of a pass keeps the priority job bounded, where it is bounded already or jobs have ended and it is feasible. -/
theorem opening_kept {jobEnded : Bool} (h : Opening c date s jobEnded waiting s')
    (hj : JobsOk s.toFastState (waitingJobs s ++ waiting)) (hr : ∃ holder, Represents c s.toFastMachines holder)
    (hc : Counts c s) (hrepair : s.repairMachines = ∅)
    (hfeasible : ∀ entry ∈ s.priorityJob, Feasible c entry.1 (pointsAfter s entry.2))
    (hbounded : jobEnded = false → Bounded c s) : Kept c s' := by
  cases h with
  | nothing h =>
    refine ⟨hr, hc, hrepair, ?_⟩
    rcases h with h | h
    · exact hbounded h
    · intro entry hentry
      rw [h] at hentry
      cases hentry
  | blocked _ hprio hfit hcore =>
    refine ⟨hr, hc, hrepair, fun entry hentry => ?_⟩
    have hentry' := hentry
    rw [hprio] at hentry'
    obtain rfl := Option.some.inj hentry'
    exact ⟨hfit, hcore, hfeasible _ hentry⟩
  | executed _ hprio hf hacts =>
    obtain ⟨hnew, hjobs⟩ := priorityStarted_jobs hj hprio hf.frame
    obtain ⟨holder, hr⟩ := hr
    obtain ⟨holder', hr', -⟩ := hf.represents hr hnew
    have hstarted := hc.started date hnew hf
    refine Acts.keep (fun _ _ hact hj hk => act_kept hact hj hk) hacts (hjobs.congr rfl rfl rfl)
      ⟨⟨holder', hr'⟩, hstarted.congr rfl rfl rfl rfl, hf.frame.repair.trans hrepair, fun entry hentry => nomatch hentry⟩

/-- The jobs that end leave no more points behind any date. -/
theorem pointsAfter_finished {ended : List Job} (h : FinishedAll s ended s') (d : ℚ) :
    (pointsAfter s' d).Sublist (pointsAfter s d) := by
  rw [pointsAfter, h.horizons, pointsAfter]
  exact List.filter_sublist.filter _

/-- A pass keeps the priority job bounded. -/
theorem pass_kept {p : Platform} {t u v : EasyState} (h : Tracks s p) (hk : Kept c s) (hclear : s.decision.decisions = [])
    (hfinish : runFrom (finishJob c) s s.jobsEndedRecently = .ok t)
    (hopen : Opening c date (sendKills t) (!s.jobsEndedRecently.isEmpty) t.jobsReleasedRecently u)
    (hacts : Acts c date (u, t.jobsReleasedRecently) (v, [])) : Kept c v := by
  have hall := finishJobs_all hfinish
  obtain ⟨hcounts, hjobs⟩ := hk.counts.killsSent h hfinish
  have hok : EasyFast2Aux.Ok c s.toFastState (waitingJobs s ++ s.jobsReleasedRecently) :=
    ⟨hk.machines, h.jobs, by simp [hclear]⟩
  obtain ⟨hokt, -⟩ := EasyFast2Aux.finishJobs_ok hok h.jobs.ended (fun e _ _ => by simp [hk.repair]) hfinish
  obtain ⟨d, hkills, -⟩ := sendKills_eq t
  have hu : Kept c u := by
    refine opening_kept hopen hjobs ?_ hcounts ?_ ?_ ?_
    · rw [hkills]
      exact hokt.machines
    · rw [hkills]
      exact hall.repair.trans hk.repair
    · rw [hkills]
      intro entry hentry
      have hprio : entry ∈ s.priorityJob := hall.priority ▸ hentry
      exact (hk.bounded entry hprio).2.2.mono (pointsAfter_finished hall entry.2)
    · intro hnone
      have hended : s.jobsEndedRecently = [] := by simpa using hnone
      rw [hended] at hfinish
      cases hfinish
      rw [hkills]
      exact hk.bounded
  obtain ⟨_, hopened⟩ := hopen.progress hjobs
  exact Acts.keep (fun _ _ hact hj hk => act_kept hact hj hk) hacts hopened.jobs hu

/-- A priority job keeps its date until it is executed. -/
theorem acts_priority {a b : EasyState × List Job} {entry : Job × ℚ} (h : Acts c date a b) (ha : a.1.priorityJob = some entry) :
    b.1.priorityJob = some entry := by
  refine Acts.invariant (I := fun x => x.1.priorityJob = some entry) (fun x y hact hx => ?_) h ha
  cases hact with
  | start => exact hx
  | promote hnone => cases hnone.symm.trans hx
  | wait => exact hx
  | reject => exact hx

/-- The jobs wait only behind a priority job, whatever is done about them. -/
theorem acts_idle {a b : EasyState × List Job} (h : Acts c date a b) (ha : Idle a.1) : Idle b.1 := by
  refine Acts.invariant (I := fun x => Idle x.1) (fun x y hact hx => ?_) h ha
  cases hact with
  | start hf hprecede hsub => exact fun hnone => List.subset_nil.1 (hx hnone ▸ hsub)
  | promote => exact fun hnone => absurd hnone (by simp)
  | wait hprio => exact fun hnone => absurd hnone hprio
  | reject => exact hx

/-- The opening of a pass executes the priority job or leaves it as it is. -/
theorem opening_priority {jobEnded : Bool} {entry : Job × ℚ} (h : Opening c date s jobEnded waiting s')
    (hj : JobsOk s.toFastState (waitingJobs s ++ waiting)) (hprio : s.priorityJob = some entry) :
    s'.priorityJob = some entry ∨ ∃ machines, .executeJob entry.1.id machines ∈ s'.decision.decisions := by
  cases h with
  | nothing => exact .inl hprio
  | blocked => exact .inl hprio
  | @executed _ job d f _ hprio' hf hacts =>
    obtain rfl := Option.some.inj (hprio.symm.trans hprio')
    obtain ⟨-, hjobs⟩ := priorityStarted_jobs hj hprio' hf.frame
    obtain ⟨_, hprog⟩ := Acts.progress hacts (hjobs.congr rfl rfl rfl)
    obtain ⟨ds, hds, -⟩ := hprog.sent
    refine .inr ⟨f.allocated job, ?_⟩
    change s'.decision.decisions = f.decision.decisions ++ ds at hds
    rw [hds, hf.frame.decision]
    simp

/-- The opening of a pass leaves no job pending without a priority job. -/
theorem opening_idle {jobEnded : Bool} (h : Opening c date s jobEnded waiting s') (hs : Idle s) : Idle s' := by
  cases h with
  | nothing => exact hs
  | blocked => exact hs
  | executed _ _ _ _ hidle => exact hidle

/-- Only the machines, the points and the priority job matter. -/
theorem Kept.congr (h : Kept c s) (hm : s'.toFastMachines = s.toFastMachines) (hp : s'.horizons = s.horizons)
    (hprio : s'.priorityJob = s.priorityJob) : Kept c s' := by
  have hfree : s'.freeCoreMachine? = s.freeCoreMachine? := by
    unfold freeCoreMachine?
    rw [hm]
  refine ⟨by rw [hm]; exact h.machines, h.counts.congr (by rw [hm]) (by rw [hm]) (by rw [hm]) hp, by rw [hm]; exact h.repair, ?_⟩
  unfold Bounded pointsAfter
  rw [hm, hp, hprio, hfree]
  exact h.bounded

/-- The messages of a run without failures leave the machines as they are until the scheduler decides. -/
theorem step_machines {event : FastEvent} (hsafe : event.NoFailure) (hne : ∀ date, event ≠ .makeDecisions date)
    (hx : step c s event = .ok s') : s'.toFastMachines = s.toFastMachines ∧ s'.horizons = s.horizons ∧
      s'.priorityJob = s.priorityJob ∧ s'.pendingJobs = s.pendingJobs := by
  obtain ⟨f, hf, rfl⟩ := step_handler hne hx
  cases event with
  | jobSubmitted job =>
    change onJobSubmitted _ job = .ok f at hf
    rw [onJobSubmitted] at hf
    split at hf
    · cases hf
    · cases hf
      exact ⟨rfl, rfl, rfl, rfl⟩
  | jobCompleted id =>
    change onJobCompleted _ id = .ok f at hf
    rw [onJobCompleted] at hf
    split at hf
    · cases hf
      exact ⟨rfl, rfl, rfl, rfl⟩
    · cases hf
  | jobsKilled ids =>
    cases hf
    exact ⟨rfl, rfl, rfl, rfl⟩
  | requestedCall date id forWhat draws =>
    cases hf
    cases forWhat <;> first | exact hsafe.elim | exact ⟨rfl, rfl, rfl, rfl⟩
  | machinesAvailable machines => exact hsafe.elim
  | myKillJob victim => exact hsafe.elim
  | noMoreStaticJobToSubmit =>
    cases hf
    exact ⟨rfl, rfl, rfl, rfl⟩
  | makeDecisions date => exact absurd rfl (hne date)

/-- What every step of a run without failures keeps. -/
structure Invariant (c : FastConfig) (t : EasyState × Platform) : Prop where
  tracks : Tracks t.1 t.2
  kept : Kept c t.1
  idle : Idle t.1

theorem step_invariant {t t' : EasyState × Platform} {event : FastEvent} (h : Invariant c t) (hsafe : event.NoFailure)
    (hx : (scheduler c).run t event = .ok t') : Invariant c t' := by
  have htracks := h.tracks.run hx
  by_cases hdec : ∃ date, event = .makeDecisions date
  · obtain ⟨date, rfl⟩ := hdec
    obtain ⟨-, s', hs, rfl⟩ := JobScheduler.run_decided rfl hx
    obtain ⟨w, hw, rfl⟩ := map_eq_ok.1 hs
    obtain ⟨t', u, v, hfinish, hopen, hacts, rfl⟩ := makeDecisions_acts hw
    have hclear : Kept c { t.1 with decision := t.1.decision.clear } := h.kept.congr rfl rfl rfl
    have hv := pass_kept h.tracks.clear hclear rfl hfinish hopen hacts
    have hall := finishJobs_all hfinish
    have hidle : Idle (sendKills t') := by
      obtain ⟨d, hkills, -⟩ := sendKills_eq t'
      rw [hkills]
      exact fun hnone => hall.pending.trans (h.idle (hall.priority.symm.trans hnone))
    have hidle' : Idle v := acts_idle hacts (opening_idle hopen hidle)
    obtain ⟨d, need, heq, -⟩ := sendFinished_eq v.toFastState date
    refine ⟨htracks, ?_, ?_⟩
    · refine hv.congr ?_ rfl rfl
      change (v.toFastState.sendFinishedSubmittingJobs date).toFastMachines = _
      rw [heq]
    · change v.priorityJob = none → (v.toFastState.sendFinishedSubmittingJobs date).pendingJobs = []
      rw [heq]
      exact hidle'
  · have hne : ∀ date, event ≠ .makeDecisions date := fun date heq => hdec ⟨date, heq⟩
    have hmachines : ∀ {s'}, step c t.1 event = .ok s' → t'.1 = s' → Invariant c t' := by
      intro s' hs heq
      obtain ⟨hm, hp, hprio, hpending⟩ := step_machines hsafe hne hs
      rw [← heq] at hm hp hprio hpending
      refine ⟨htracks, h.kept.congr hm hp hprio, ?_⟩
      unfold Idle
      rw [hprio, hpending]
      exact h.idle
    cases hn : event.notice with
    | submitted job =>
      obtain ⟨s', hs, rfl⟩ := JobScheduler.run_submitted hn hx
      exact hmachines hs rfl
    | completed id =>
      obtain ⟨s', r, before, after, hs, -, -, rfl⟩ := JobScheduler.run_completed hn hx
      exact hmachines hs rfl
    | decided date => cases event <;> first | exact absurd rfl (hne _) | cases hn
    | other =>
      obtain ⟨s', hs, rfl⟩ := JobScheduler.run_other hn hx
      exact hmachines hs rfl

/-- A point is that of a job that runs, and ends by the walltime of that job. -/
theorem point_date {p : Platform} (h : Tracks s p) {point : HorizonPoint} (hpoint : point ∈ s.horizons) :
    ∃ r ∈ p.running ++ p.reported, ∃ job ∈ p.submitted, r.id = point.id ∧ job.id = r.id ∧ point.date = r.start + job.walltime := by
  have hmem := h.tables.ends.mem_iff.1 (List.mem_map_of_mem (f := fun point => (point.id, point.date)) hpoint)
  obtain ⟨r, hr, heq⟩ := List.mem_map.1 hmem
  obtain ⟨hid, hdate⟩ := Prod.mk.inj heq
  obtain ⟨job, hjob, hjid⟩ := h.tables.known h.jobs hr
  refine ⟨r, hr, job, (h.tables.submitted job).2 (hjid ▸ hjob), hid, hjid, ?_⟩
  rw [← hdate, walltimeOf, hjob, Option.map_some, Option.getD_some]

/-- The priority job starts in time. -/
theorem startsInTime {p : Platform} {event : FastEvent} (h : Invariant c (s, p)) (hintime : InTimeAt p event) :
    StartsInTime c s event := by
  rintro date rfl entry hentry
  obtain ⟨holder, hr⟩ := h.kept.machines
  obtain ⟨hfit, hcore, hfeasible⟩ := h.kept.bounded entry hentry
  constructor
  · obtain ⟨point, hpoint, hd⟩ := exists_point hr h.kept.counts h.kept.repair hfit hcore hfeasible
    obtain ⟨r, hr, job, hjob, -, hid, hdate⟩ := point_date h.tracks hpoint
    have := hintime r hr job hjob hid
    exact (hdate ▸ this).trans hd
  · intro s' hx
    obtain ⟨w, hw, rfl⟩ := map_eq_ok.1 hx
    obtain ⟨t, u, v, hfinish, hopen, hacts, rfl⟩ := makeDecisions_acts hw
    have hall := finishJobs_all hfinish
    have hclear : Kept c { s with decision := s.decision.clear } := h.kept.congr rfl rfl rfl
    obtain ⟨-, hjobs⟩ := hclear.counts.killsSent h.tracks.clear hfinish
    have hprio : (sendKills t).priorityJob = some entry := by
      obtain ⟨d, hkills, -⟩ := sendKills_eq t
      rw [hkills]
      exact hall.priority.trans hentry
    obtain ⟨d, need, heq, ds, hds, -⟩ := sendFinished_eq v.toFastState date
    rcases opening_priority hopen hjobs hprio with hsame | ⟨machines, hexec⟩
    · exact .inl (acts_priority hacts hsame)
    · obtain ⟨_, hopened⟩ := hopen.progress hjobs
      obtain ⟨_, hprog⟩ := Acts.progress hacts hopened.jobs
      obtain ⟨ds', hds', -⟩ := hprog.sent
      change v.decision.decisions = u.decision.decisions ++ ds' at hds'
      refine .inr ⟨machines, ?_⟩
      change _ ∈ (v.toFastState.sendFinishedSubmittingJobs date).decision.decisions
      rw [heq]
      change _ ∈ d.decisions
      rw [hds, hds']
      exact List.mem_append_left _ (List.mem_append_left _ hexec)

/-- What is kept is what is meant. -/
theorem horizonsKept {t : EasyState × Platform} (h : Invariant c t) : HorizonsKept t where
  sorted := h.kept.counts.sorted
  nodup := h.kept.counts.nodup_points
  points := by
    have hids := h.tracks.tables.ends.map Prod.fst
    rw [ends, List.map_map, List.map_map] at hids
    exact hids
  dates := by
    intro point hpoint r hr hid job hjob hjid
    obtain ⟨r', hr', job', hjob', hid', hjid', hdate⟩ := point_date h.tracks hpoint
    obtain rfl : r' = r := List.inj_on_of_nodup_map h.tracks.tables.nodup hr' hr (hid'.trans hid.symm)
    have hsub := (h.tracks.tables.submitted job).1 hjob
    have hsub' := (h.tracks.tables.submitted job').1 hjob'
    rw [hjid] at hsub
    rw [hjid', hsub] at hsub'
    exact Option.some.inj hsub' ▸ hdate
  idle := h.idle

/-- At the start every machine is available and nothing runs. -/
theorem invariant_new (c : FastConfig) (date failure : ℚ) :
    Invariant c (EasyBFFast2.new c date failure, Platform.new date) where
  tracks := tracks_new c date failure
  kept := ⟨⟨_, represents_new c date failure⟩, counts_new c date failure, rfl, fun _ hentry => nomatch hentry⟩
  idle := fun _ => rfl

end EasyFast2BoundAux

open EasyFast2BoundAux in
/-- In every run without failures in which no job runs longer than its walltime, the priority job starts by the date computed for it;
there is one point for each running job in every state reached, and no job is pending without a priority job. -/
theorem priority_job_starts_in_time (c : FastConfig) (date failure : ℚ) (events : List FastEvent)
    (hsafe : ∀ event ∈ events, event.NoFailure)
    (hintime : AllSteps (scheduler c).run (fun t event => InTimeAt t.2 event)
      (EasyBFFast2.new c date failure, Platform.new date) events) :
    AllSteps (scheduler c).run (fun t event => StartsInTime c t.1 event)
        (EasyBFFast2.new c date failure, Platform.new date) events ∧
      Always (scheduler c).run HorizonsKept (EasyBFFast2.new c date failure, Platform.new date) events := by
  have hall := (allSteps_of_forall hsafe).and hintime
  constructor
  · exact allSteps_of_invariant (fun _ _ _ h hin hx => step_invariant h hin.1 hx) (fun _ _ h hin => startsInTime h hin.2)
      (invariant_new c date failure) hall
  · exact always_of_invariant (fun _ _ _ h hin hx => step_invariant h hin.1 hx) (fun _ h => horizonsKept h)
      (invariant_new c date failure) hall

namespace SharePackingWitness

/-- Two machines that two jobs may share. -/
def config : FastConfig where
  nbMachines := 2
  sharePacking := true
  coreCount := fun _ => 2

def job (id : String) (nbRequestedResources : ℕ) (walltime : ℚ) : Job :=
  { id := id, nbRequestedResources := nbRequestedResources, walltime := walltime }

/-- Two jobs share machine 0, a job of both machines becomes the priority job, one that ends before is executed on machine 1, and the
two jobs on machine 0 end early. -/
def events : List FastEvent :=
  [.jobSubmitted (job "w!1" 1 10), .jobSubmitted (job "w!2" 1 12), .makeDecisions 0, .jobSubmitted (job "w!3" 2 5),
    .jobSubmitted (job "w!4" 1 7), .makeDecisions 2, .jobCompleted "w!1", .makeDecisions 6, .jobCompleted "w!2",
    .jobCompleted "w!4", .noMoreStaticJobToSubmit, .makeDecisions 9]

end SharePackingWitness

open SharePackingWitness in
/-- The priority job, whose date is 12, is executed at 9. -/
theorem priority_job_starts_in_time_witness :
    (runFrom (scheduler config).run (EasyBFFast2.new config 0 0, Platform.new 0) events).toOption.map (fun t => t.2.running) =
        some [{ id := "w!3", machines := {0, 1}, start := 9 }] ∧
      AllSteps (scheduler config).run (fun t event => StartsInTime config t.1 event)
        (EasyBFFast2.new config 0 0, Platform.new 0) events ∧
      Always (scheduler config).run HorizonsKept (EasyBFFast2.new config 0 0, Platform.new 0) events :=
  ⟨by decide +kernel, priority_job_starts_in_time config 0 0 events (by decide +kernel) (by decide +kernel)⟩

end ScheduleTest
