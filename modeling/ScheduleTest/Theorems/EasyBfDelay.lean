import ScheduleTest.Theorems.EasyBfPass

/-!
# The priority job of easy_bf is never delayed

The first job of the queue is planned by first fit, beside the jobs that run alone. When it is taken out of the schedule and placed
anew, whatever has been executed or has ended since, the hole it left admits it again, so it is planned no later. For this the first
slice must not end before now, which holds as long as the jobs end within their walltimes (`Punctual`).
-/

namespace ScheduleTest

open Execution EasyBf EasyBfAux

namespace EasyBf

/-- The queue when the jobs just released have been queued and it has been sorted. -/
def queueAfter (c : EasyBfConfig) (s : EasyBfState) (currentDate : ℚ) : Queue :=
  ((recentlyQueuedJobs c s).foldl (fun queue job => queue.appendJob job currentDate) s.queue).sortQueue c.order currentDate

/-- The first job of the queue stays first while it waits. -/
def KeepsFirst (c : EasyBfConfig) (s : EasyBfState) : EasyBf3Event → Prop
  | .makeDecisions _ currentDate => ∀ job ∈ s.queue.firstJob?, (queueAfter c s currentDate).firstJob? = some job
  | _ => True

instance (c : EasyBfConfig) (s : EasyBfState) : (event : EasyBf3Event) → Decidable (KeepsFirst c s event)
  | .makeDecisions _ currentDate =>
    inferInstanceAs (Decidable (∀ job ∈ s.queue.firstJob?, (queueAfter c s currentDate).firstJob? = some job))
  | .jobSubmitted _ => isTrue trivial
  | .jobCompleted _ => isTrue trivial

/-- No job runs longer than its walltime when the scheduler decides. -/
def EndsInTime (p : Platform) : EasyBf3Event → Prop
  | .makeDecisions date _ => p.InTime date
  | _ => True

instance (p : Platform) : (event : EasyBf3Event) → Decidable (EndsInTime p event)
  | .makeDecisions date _ => inferInstanceAs (Decidable (p.InTime date))
  | .jobSubmitted _ => isTrue trivial
  | .jobCompleted _ => isTrue trivial

/-- A job submitted has the name that Batsim gives it, and a positive walltime if it has one. -/
def IsSubmission (event : EasyBf3Event) : Prop :=
  ∀ job, event = .jobSubmitted job → (∃ i : JobIdentifier, job.id = i.representation) ∧ (job.hasWalltime = true → 0 < job.walltime)

/-- When the scheduler decides, the date planned for the first job of the queue has not passed, and the job is executed or stays
first, planned no later. -/
def NeverDelays (c : EasyBfConfig) (s : EasyBfState) (event : EasyBf3Event) : Prop :=
  ∀ date currentDate, event = .makeDecisions date currentDate → ∀ job ∈ s.queue.firstJob?, ∀ b,
    s.schedule.plannedBegin job = some b → date ≤ b ∧ ∀ s', step c s event = .ok s' → s'.DueBy job b

/-- A job is at the front of the queue and planned to begin by a date, or it has been executed and started by that date. -/
def StartsBy (job : Job) (b : ℚ) (t : EasyBfState × Platform) : Prop :=
  (t.1.queue.firstJob? = some job ∧ ∃ b', t.1.schedule.plannedBegin job = some b' ∧ b' ≤ b) ∨
    job.id ∈ t.2.executed ∧ ∀ r ∈ t.2.running ++ t.2.reported, r.id = job.id → r.start ≤ b

end EasyBf

namespace EasyBfDelayAux

variable {W : NamedJobs} {c : EasyBfConfig} {s s' : EasyBfState} {base : List (String × IntervalSet)} {released : List Job}
  {planned : List String} {job : Job} {date currentDate : ℚ} {known : String → Option Job} {start : String → ℚ}
  {all : Set String}

/-- Since when a job has run, or would if it were executed at a date. -/
def startOf (running : List RunningJob) (date : ℚ) (id : String) : ℚ := ((running.find? (·.id = id)).map (·.start)).getD date

theorem startOf_of_mem {running : List RunningJob} {r : RunningJob} (hnodup : (running.map (·.id)).Nodup) (hr : r ∈ running) :
    startOf running date r.id = r.start := by
  obtain ⟨r', hr'⟩ : ∃ r', running.find? (·.id = r.id) = some r' := by
    rw [← Option.isSome_iff_exists, List.find?_isSome]
    exact ⟨r, hr, decide_eq_true rfl⟩
  have hid : r'.id = r.id := by simpa using List.find?_some hr'
  obtain rfl := List.inj_on_of_nodup_map hnodup (List.mem_of_find?_eq_some hr') hr hid
  rw [startOf, hr']
  rfl

theorem startOf_of_notMem {running : List RunningJob} {id : String} (h : id ∉ running.map (·.id)) :
    startOf running date id = date := by
  rw [startOf, List.find?_eq_none.2 fun r hr heq => h (List.mem_map.2 ⟨r, hr, by simpa using heq⟩)]
  rfl

/-- The jobs released are queued in their order, but for those that are rejected. -/
theorem queue_releaseJobs (c : EasyBfConfig) (s : EasyBfState) (released : List Job) (currentDate : ℚ) :
    (released.foldl (releaseJob c currentDate) s).queue =
      (released.filter (!isRejected c ·)).foldl (fun queue job => queue.appendJob job currentDate) s.queue := by
  induction released generalizing s with
  | nil => rfl
  | cons job rest ih =>
    rw [List.foldl_cons, ih, releaseJob]
    cases hr : isRejected c job with
    | true => simp [hr]
    | false => simp [hr]

/-- Queueing the jobs released changes neither the schedule nor the jobs executed, and the jobs queued have walltimes. -/
theorem releaseJobs_same (c : EasyBfConfig) (currentDate : ℚ) (released : List Job)
    (hs : ∀ job ∈ s.queue.jobs, job.hasWalltime = true) :
    (released.foldl (releaseJob c currentDate) s).schedule = s.schedule ∧
      executions (released.foldl (releaseJob c currentDate) s).decision.decisions = executions s.decision.decisions ∧
      ∀ job ∈ (released.foldl (releaseJob c currentDate) s).queue.jobs, job.hasWalltime = true ∧
        job ∈ s.queue.jobs ++ released := by
  induction released generalizing s with
  | nil => exact ⟨rfl, rfl, fun job hjob => ⟨hs job hjob, List.mem_append_left _ hjob⟩⟩
  | cons job rest ih =>
    have hnext : ∀ k ∈ (releaseJob c currentDate s job).queue.jobs, k.hasWalltime = true ∧ (k ∈ s.queue.jobs ∨ k = job) := by
      intro k hk
      rw [releaseJob] at hk
      split at hk
      · exact ⟨hs k hk, .inl hk⟩
      · rename_i hrejected
        rw [Queue.jobs_appendJob, List.mem_append, List.mem_singleton] at hk
        rcases hk with hk | rfl
        · exact ⟨hs k hk, .inl hk⟩
        · simp only [isRejected, Bool.or_eq_true, Bool.not_eq_true', not_or, Bool.not_eq_false] at hrejected
          exact ⟨hrejected.2, .inr rfl⟩
    obtain ⟨h1, h2, h3⟩ := ih fun k hk => (hnext k hk).1
    rw [List.foldl_cons]
    refine ⟨h1.trans ?_, h2.trans ?_, fun k hk => ⟨(h3 k hk).1, ?_⟩⟩
    · rw [releaseJob]
      split <;> rfl
    · rw [releaseJob]
      split
      · simp
      · rfl
    · rw [List.mem_append, List.mem_cons]
      rcases List.mem_append.1 (h3 k hk).2 with hmem | hmem
      · exact (hnext k hmem).2.imp_right .inl
      · exact .inr (.inr hmem)

/-- The jobs that ended leave the schedule, and the others stay where they are. -/
theorem finishJobs_dated {schedule schedule' : Schedule} {held held' : List String} {ended : List Job}
    (h : Dated W start date schedule held) (hheld : ∀ id ∈ held', id ∈ held ∧ id ∉ ended.map (·.id))
    (hx : runFrom Schedule.removeJob schedule ended = .ok schedule') : Dated W start date schedule' held' ∧
      ∀ k : Job, k.id ∉ ended.map (·.id) → schedule'.plannedBegin k = schedule.plannedBegin k ∧
        machinesNow k schedule'.profile = machinesNow k schedule.profile := by
  induction ended generalizing schedule held with
  | nil =>
    cases hx
    exact ⟨h.fewer fun id hid => (hheld id hid).1, fun _ _ => ⟨rfl, rfl⟩⟩
  | cons job ended ih =>
    obtain ⟨schedule₁, hr, hrest⟩ := of_runFrom_cons hx
    have hr' := Schedule.removeJob_ok hr
    have h₁ : Dated W start date schedule₁ held' := h.remove (fun id hid => by
      obtain ⟨hmem, hnot⟩ := hheld id hid
      exact ⟨hmem, fun heq => hnot (heq ▸ List.mem_cons_self)⟩) hr'
    obtain ⟨hdated, hothers⟩ := ih h₁ (fun id hid => ⟨hid, fun hbad => (hheld id hid).2 (List.mem_cons_of_mem _ hbad)⟩) hrest
    refine ⟨hdated, fun k hk => ?_⟩
    rw [List.map_cons, List.mem_cons, not_or] at hk
    obtain ⟨-, -, hfirst⟩ := removeJobIfExists_plan h.plans.machines.runs hr'
    obtain ⟨hb, -, hn⟩ := hfirst k hk.1
    obtain ⟨hb', hn'⟩ := hothers k hk.2
    exact ⟨hb'.trans hb, hn'.trans hn⟩

/-- What every step keeps: the jobs that run end by their walltimes in the schedule, and the first job of the queue waits for one of
them. -/
structure Punctual (t : EasyBfState × Platform) : Prop where
  kept : Kept t
  dated : Dated (.registered t.1.workload) (startOf (t.2.running ++ t.2.reported) t.2.now) t.2.now t.1.schedule
    ((t.2.running ++ t.2.reported).map (·.id))
  walltimes : ∀ job ∈ t.1.queue.jobs, job.hasWalltime = true
  positive : ∀ id job, t.1.workload id = some job → job.hasWalltime = true → 0 < job.walltime
  submitted : ∀ id job, t.1.workload id = some job → job ∈ t.2.submitted
  waits : ∀ job ∈ t.1.queue.firstJob?, ∃ b, Planned t.1.schedule job b ∧
    SomeEndsBy (.registered t.1.workload) (startOf (t.2.running ++ t.2.reported) t.2.now)
      ((t.2.running ++ t.2.reported).map (·.id)) b

variable {p : Platform}

/-- The ids of the jobs that wait or have just been released. -/
def waitingIds (s : EasyBfState) : Set String := {id | id ∈ (s.queue.jobs ++ s.jobsReleasedRecently).map (·.id)}

/-- A job that runs started when it did, at whatever date the others would start. -/
theorem startOf_append {running reported : List RunningJob} {id : String} (hid : id ∈ running.map (·.id)) (d d' : ℚ) :
    startOf (running ++ reported) d id = startOf running d' id := by
  obtain ⟨r, hr, heq⟩ := List.mem_map.1 hid
  obtain ⟨r', hr'⟩ : ∃ r', running.find? (·.id = id) = some r' := by
    rw [← Option.isSome_iff_exists, List.find?_isSome]
    exact ⟨r, hr, decide_eq_true heq⟩
  rw [startOf, startOf, List.find?_append, hr']
  rfl

/-- The state in the middle of a pass at a date, in which the jobs released have been queued. -/
abbrev MidPass (s : EasyBfState) (p : Platform) (date : ℚ) (t : EasyBfState) (planned : List String) : Prop :=
  Ready (.registered s.workload) s.workload (startOf p.running date) date (p.running.map pair) (waitingIds s) t [] planned

/-- The first job of the queue waits for one that runs. -/
abbrev MidPassWaits (s : EasyBfState) (p : Platform) (date : ℚ) (t : EasyBfState) : Prop :=
  FrontWaits (.registered s.workload) (startOf p.running date) (p.running.map pair) t

namespace Punctual

theorem nodup (h : Punctual (s, p)) : ((p.running ++ p.reported).map (·.id)).Nodup := (List.nodup_append.1 h.kept.distinct).2.1

/-- The jobs that run end in time. -/
theorem endsInTime (h : Punctual (s, p)) (hin : p.InTime date) :
    ∀ k ∈ (NamedJobs.registered s.workload).jobs, k.id ∈ (p.running ++ p.reported).map (·.id) →
      date ≤ startOf (p.running ++ p.reported) p.now k.id + k.walltime := by
  intro k hk hid
  obtain ⟨r, hr, heq⟩ := List.mem_map.1 hid
  rw [← heq, startOf_of_mem h.nodup hr]
  exact hin r hr k (h.submitted _ _ hk.1) heq.symm

/-- The first job of the queue is not planned before the date of a message. -/
theorem date_le (h : Punctual (s, p)) (hin : p.InTime date) (hfirst : s.queue.firstJob? = some job) :
    ∃ b, Planned s.schedule job b ∧ date ≤ b := by
  obtain ⟨b, hb, k, hk, hid, hle⟩ := h.waits job hfirst
  exact ⟨b, hb, (h.endsInTime hin k hk hid).trans hle⟩

/-- When the jobs that ended have left the schedule, it holds the jobs that run and the first of the queue, where it was planned. -/
theorem finished (h : Punctual (s, p)) (date : ℚ) {schedule : Schedule}
    (hx : runFrom Schedule.removeJob s.schedule s.jobsEndedRecently = .ok schedule) :
    Plan (.registered s.workload) s.workload (p.running.map pair) { s with decision := s.decision.clear, schedule := schedule }
        s.jobsReleasedRecently (front s) ∧
      Dated (.registered s.workload) (startOf p.running date) p.now schedule (p.running.map (·.id)) ∧
      ∀ q ∈ s.queue.firstJob?, ∀ b, Planned s.schedule q b → Planned schedule q b := by
  have hplan := h.kept.finished hx
  have hids : s.jobsEndedRecently.map (·.id) = p.reported.map (·.id) := h.kept.ended
  have hnodup := h.nodup
  rw [List.map_append, List.nodup_append] at hnodup
  have hheld : ∀ id ∈ p.running.map (·.id), id ∈ (p.running ++ p.reported).map (·.id) ∧ id ∉ s.jobsEndedRecently.map (·.id) := by
    intro id hid
    refine ⟨?_, fun hbad => hnodup.2.2 id hid id (hids ▸ hbad) rfl⟩
    rw [List.map_append]
    exact List.mem_append_left _ hid
  obtain ⟨hdated, hothers⟩ := finishJobs_dated h.dated hheld hx
  refine ⟨hplan, hdated.congr fun id hid => (startOf_append hid p.now date).symm, fun q hq b hb => ?_⟩
  have hqueue : q ∈ s.queue.jobs := by
    rw [Queue.firstJob?_eq_head?] at hq
    exact List.mem_of_mem_head? hq
  have hnot : q.id ∉ s.jobsEndedRecently.map (·.id) := by
    intro hbad
    rw [hids] at hbad
    refine (List.nodup_append.1 h.kept.distinct).2.2 q.id ?_ q.id ?_ rfl
    · exact List.mem_map_of_mem (f := fun job : Job => job.id) (List.mem_append_left _ hqueue)
    · rw [List.map_append]
      exact List.mem_append_right _ hbad
  exact hb.congr (hothers q hnot).1 (hothers q hnot).2

/-- When the jobs that ended have left the schedule, a job of it that does not run is the first of the queue, and not planned before
the date of the message. -/
theorem behind (h : Punctual (s, p)) (hin : p.InTime date) {schedule : Schedule}
    (hx : runFrom Schedule.removeJob s.schedule s.jobsEndedRecently = .ok schedule) {k : Job}
    (hk : k ∈ (NamedJobs.registered s.workload).jobs) (hid : k.id ∉ p.running.map (·.id)) :
    machinesNow k schedule.profile = none ∧ ∀ b, schedule.plannedBegin k = some b → date ≤ b := by
  obtain ⟨hplan, -, hfront⟩ := h.finished date hx
  cases hc : schedule.containsJob k with
  | true =>
    rcases hplan.holds.containsJob_iff.1 hc with hheld | hfirst
    · refine absurd ?_ hid
      simpa [heldBy, pair, Function.comp_def] using hheld
    · obtain ⟨q, hq, heq⟩ : ∃ q ∈ s.queue.firstJob?, q.id = k.id := by simpa [front] using hfirst
      have hqueue : q ∈ s.queue.jobs := by
        rw [Queue.firstJob?_eq_head?] at hq
        exact List.mem_of_mem_head? hq
      obtain rfl := (NamedJobs.registered s.workload).id_injOn (h.kept.jobs q (List.mem_append_left _ hqueue)) hk heq
      obtain ⟨b, hb, hle⟩ := h.date_le hin hq
      have hb' := hfront q hq b hb
      refine ⟨hb'.later, fun b' hb'' => ?_⟩
      rw [hb'.begins] at hb''
      exact Option.some.inj hb'' ▸ hle
  | false =>
    constructor
    · rw [machinesNow, Option.bind_eq_none_iff]
      exact fun t ht => machinesOf_eq_none (Schedule.containsJob_eq_false.1 hc t (List.mem_of_mem_head? ht))
    · intro b hb
      rw [← plannedBegin_isSome, hb] at hc
      cases hc

/-- Then the first slice may begin at the date of the message. -/
theorem updated (h : Punctual (s, p)) (hin : p.InTime date) {schedule schedule' : Schedule}
    (hx : runFrom Schedule.removeJob s.schedule s.jobsEndedRecently = .ok schedule)
    (hu : schedule.updateFirstSlice date = .ok schedule') :
    Dated (.registered s.workload) (startOf p.running date) date schedule' (p.running.map (·.id)) := by
  obtain ⟨hplan, hdated, -⟩ := h.finished date hx
  refine hdated.update hu (fun k hk hid => ?_) (fun k hk hid => h.behind hin hx hk hid) fun k _ hid => ?_
  · have hend := h.endsInTime hin k hk (by
      rw [List.map_append]
      exact List.mem_append_left _ hid)
    rwa [startOf_append hid p.now date] at hend
  · obtain ⟨r, hr, heq⟩ := List.mem_map.1 hid
    have hnow := hplan.holds.now k r.machines (by
      rw [← heq, heldBy, SchedulingDecision.decisions_clear, executions_nil, List.append_nil]
      exact List.mem_map_of_mem (f := pair) hr)
    rw [hnow]
    exact Option.some_ne_none _

/-- The jobs that ended have left the schedule, those released have been queued, and the first slice begins at the date of the
message. The first job of the queue is where it was planned. -/
theorem ready (h : Punctual (s, p)) (hin : p.InTime date) {t : EasyBfState} {schedule : Schedule}
    (hx : handleJobs c { s with decision := s.decision.clear } currentDate = .ok t)
    (hu : t.schedule.updateFirstSlice date = .ok schedule) :
    MidPass s p date { t with schedule := schedule } (front s) ∧
      ∀ q ∈ s.queue.firstJob?, ∀ b, Planned s.schedule q b → Planned schedule q b := by
  obtain ⟨schedule₁, hfinish, rfl⟩ := map_eq_ok.1 hx
  obtain ⟨hplan, -, hfront⟩ := h.finished date hfinish
  obtain ⟨hqueued, -⟩ := releaseJobs_plan c currentDate hplan
  obtain ⟨hschedule, hexec, hwalltimes⟩ := releaseJobs_same c currentDate s.jobsReleasedRecently
    (s := { s with decision := s.decision.clear, schedule := schedule₁ }) h.walltimes
  dsimp only at hu hqueued hschedule hexec hwalltimes ⊢
  clear hx
  generalize s.jobsReleasedRecently.foldl _ _ = queued at hu hqueued hschedule hexec hwalltimes ⊢
  subst hschedule
  rw [SchedulingDecision.decisions_clear, executions_nil] at hexec
  have hids : (heldBy (p.running.map pair) queued).map (·.1) = p.running.map (·.id) := by
    simp [heldBy, hexec, pair, Function.comp_def]
  have hfresh : ∀ id ∉ (p.running.map pair).map (·.1), startOf p.running date id = date := by
    intro id hid
    refine startOf_of_notMem fun hbad => hid ?_
    rwa [List.map_map]
  have hamong : ∀ job ∈ queued.queue.jobs, job.id ∈ waitingIds s := fun job hjob => List.mem_map_of_mem (hwalltimes job hjob).2
  refine ⟨⟨⟨hqueued.holds.update hu, hqueued.jobs, hqueued.distinct, hqueued.workload⟩, ?_, fun job hjob => (hwalltimes job hjob).1,
    hfresh, ⟨hamong, fun e he => ?_⟩, fun job hjob => h.positive _ _ hjob.1⟩, fun q hq b hb => (hfront q hq b hb).update hu⟩
  · change Dated _ _ _ _ ((heldBy (p.running.map pair) queued).map (·.1))
    rw [hids]
    exact h.updated hin hfinish hu
  · rw [hexec] at he
    cases he

/-- The jobs of the first part of a pass are queued in the order in which the queue is sorted. -/
theorem queue_handleJobs {t : EasyBfState} (hx : handleJobs c { s with decision := s.decision.clear } currentDate = .ok t) :
    t.queue.sortQueue c.order currentDate = queueAfter c s currentDate := by
  obtain ⟨schedule, -, rfl⟩ := map_eq_ok.1 hx
  rw [queue_releaseJobs]
  rfl

/-- Where no job has ended, the first job of the queue still waits for one that runs. -/
theorem waits_of_none_ended (h : Punctual (s, p)) (hnone : s.jobsEndedRecently = []) {b : ℚ} {t : EasyBfState}
    (hends : SomeEndsBy (.registered s.workload) (startOf (p.running ++ p.reported) p.now)
      ((p.running ++ p.reported).map (·.id)) b) :
    SomeEndsBy (.registered s.workload) (startOf p.running date) (heldIds (p.running.map pair) t) b := by
  have hreported : p.reported = [] := by
    have hids := h.kept.ended
    dsimp only at hids
    rw [hnone] at hids
    exact List.map_eq_nil_iff.1 hids.symm
  rw [hreported, List.append_nil] at hends
  refine hends.mono (fun _ hk => hk) (fun id hid => ?_) fun id hid => ?_
  · simp only [heldIds, heldBy, List.map_append, List.mem_append]
    refine .inl ?_
    rwa [List.map_map]
  · rw [← startOf_append hid date p.now, List.append_nil]

/-- Up to the backfilling, the first job of the queue stays where it is planned, or where there is none, one is planned. -/
theorem prepared (h : Punctual (s, p)) (hin : p.InTime date)
    (hkeeps : ∀ job ∈ s.queue.firstJob?, (queueAfter c s currentDate).firstJob? = some job) {t : EasyBfState}
    (hx : prepare c { s with decision := s.decision.clear } date currentDate = .ok t) :
    MidPass s p date t (front t) ∧ FrontPlanned t ∧ (s.jobsEndedRecently = [] → MidPassWaits s p date t) ∧
      ∀ job b, s.queue.firstJob? = some job → s.schedule.plannedBegin job = some b → t.DueBy job b := by
  unfold prepare at hx
  split at hx
  · rename_i u hu
    split at hx
    · rename_i schedule hupdate
      obtain ⟨hready, hfront⟩ := h.ready hin hu hupdate
      have hqueue := queue_handleJobs hu
      have hsorted := hready.requeue (Queue.jobs_sortQueue u.queue c.order currentDate)
      unfold sortQueueWhileHandlingPriorityJob at hx
      dsimp only at hx
      rw [hqueue] at hx hsorted
      cases hf : s.queue.firstJob? with
      | some q =>
        -- the first job stays first
        have hsame := hkeeps q hf
        rw [hf, if_neg (by simp [hsame])] at hx
        cases hx
        obtain ⟨b, hb, hends⟩ := h.waits q hf
        have hplanned := hfront q hf b hb
        refine ⟨by simpa [front, hf, hsame] using hsorted, fun r hr => ?_, fun hnone r hr => ?_, fun job b' hjob hb' => ?_⟩
        · obtain rfl : q = r := Option.some.inj (hsame.symm.trans hr)
          exact ⟨b, hplanned⟩
        · obtain rfl : q = r := Option.some.inj (hsame.symm.trans hr)
          exact ⟨b, hplanned, h.waits_of_none_ended hnone hends⟩
        · cases hjob
          rw [hb.begins] at hb'
          cases hb'
          exact .inl ⟨hsame, b, hplanned.begins, le_rfl⟩
      | none =>
        have hempty : MidPass s p date { u with schedule := schedule, queue := queueAfter c s currentDate } [] := by
          simpa [front, hf] using hsorted
        rw [hf] at hx
        have hboth : MidPass s p date t (front t) ∧ MidPassWaits s p date t := by
          split at hx
          · exact executePriorityJobs_ready hempty rfl hx
          · rename_i hnone
            rw [ne_eq, not_not] at hnone
            cases hx
            refine ⟨by simpa [front, hnone] using hempty, fun r hr => ?_⟩
            dsimp only at hr
            rw [hnone] at hr
            cases hr
        refine ⟨hboth.1, fun r hr => (hboth.2 r hr).imp fun _ hb => hb.1, fun _ => hboth.2, fun job b hbad => ?_⟩
        cases hbad
    · cases hx
  · cases hx

/-- A pass leaves the first job of the queue planned and waiting for a job that runs, and makes none due later. -/
theorem decided (h : Punctual (s, p)) (hin : p.InTime date)
    (hkeeps : ∀ job ∈ s.queue.firstJob?, (queueAfter c s currentDate).firstJob? = some job)
    (hx : makeDecisions c { s with decision := s.decision.clear } date currentDate = .ok s') :
    MidPass s p date s' (front s') ∧ MidPassWaits s p date s' ∧
      ∀ job b, s.queue.firstJob? = some job → s.schedule.plannedBegin job = some b → s'.DueBy job b := by
  unfold makeDecisions at hx
  split at hx
  · rename_i t ht
    obtain ⟨hready, hplanned, hwaits, hdue⟩ := h.prepared hin hkeeps ht
    dsimp only at hx
    split at hx
    · rename_i hnone
      obtain ⟨v, hv, rfl⟩ := map_eq_ok.1 hx
      obtain ⟨hready', hwaits', hlater⟩ := backfillAll_ready hready (hwaits (List.isEmpty_iff.1 hnone)) hv
      exact ⟨hready', hwaits', fun job b hjob hb => hlater job b (hdue job b hjob hb)⟩
    · split at hx
      · obtain ⟨v, hv, rfl⟩ := map_eq_ok.1 hx
        obtain ⟨hready', hwaits', hlater⟩ := traverseAll_ready hready hplanned hv
        exact ⟨hready', hwaits', fun job b hjob hb => hlater job b (hdue job b hjob hb)⟩
      · rename_i hfull
        cases hx
        exact ⟨hready, frontWaits_of_full hready hplanned hfull, hdue⟩
  · cases hx

end Punctual

/-- The jobs executed start at the date of the message, as those that do not run would. -/
theorem startOf_started (running : List RunningJob) (l : List (String × IntervalSet)) (date : ℚ) :
    startOf (running ++ l.map (startedAt date)) date = startOf running date := by
  funext id
  rw [startOf, startOf, List.find?_append]
  cases running.find? (·.id = id) with
  | some r => rfl
  | none =>
    rw [Option.none_or]
    cases hfind : (l.map (startedAt date)).find? (·.id = id) with
    | none => rfl
    | some r =>
      obtain ⟨e, -, rfl⟩ := List.mem_map.1 (List.mem_of_find?_eq_some hfind)
      rfl

/-- The order of the jobs does not matter. -/
theorem startOf_perm {running running' : List RunningJob} (hnodup : (running.map (·.id)).Nodup) (hperm : running'.Perm running)
    (date : ℚ) : startOf running' date = startOf running date := by
  funext id
  have hids := hperm.map (·.id)
  by_cases hid : id ∈ running.map (·.id)
  · obtain ⟨r, hr, rfl⟩ := List.mem_map.1 hid
    rw [startOf_of_mem hnodup hr, startOf_of_mem (hids.nodup_iff.2 hnodup) (hperm.mem_iff.2 hr)]
  · rw [startOf_of_notMem hid, startOf_of_notMem fun hbad => hid (hids.mem_iff.1 hbad)]

/-- A job registered after one more has been is that job, or was registered before. -/
theorem of_registered {workload : String → Option Job} {id : String} {k : Job}
    (h : Function.update workload job.id (some job) id = some k) : k = job ∨ workload id = some k := by
  by_cases heq : id = job.id
  · subst heq
    rw [Function.update_self] at h
    exact .inl (Option.some.inj h).symm
  · rw [Function.update_of_ne heq] at h
    exact .inr h

namespace Punctual

/-- The jobs that run are registered. -/
theorem held_known (h : Punctual (s, p)) :
    ∀ id ∈ (p.running ++ p.reported).map (·.id), ∃ job ∈ (NamedJobs.registered s.workload).jobs, job.id = id := by
  intro id hid
  obtain ⟨r, hr, rfl⟩ := List.mem_map.1 hid
  obtain ⟨t, rest, job, hp, hmem, heq⟩ := h.kept.holds.entry (List.mem_map_of_mem (f := pair) hr)
  have hp' : t ∈ s.schedule.profile := by
    rw [show s.schedule.profile = t :: rest from hp]
    exact List.mem_cons_self
  exact ⟨job, h.kept.holds.exclusive.runs.known t hp' _ hmem, heq⟩

/-- A job is submitted. -/
theorem submit (h : Punctual (s, p)) (hid : ∃ i : JobIdentifier, job.id = i.representation)
    (hpos : job.hasWalltime = true → 0 < job.walltime) (hnew : s.workload job.id = none) :
    Punctual ({ s with
      workload := Function.update s.workload job.id (some job)
      jobsReleasedRecently := s.jobsReleasedRecently ++ [job] }, { p with submitted := p.submitted ++ [job] }) where
  kept := h.kept.submit hid hnew
  dated := h.dated.mono (JobsKept.registered_subset hnew) h.held_known
  walltimes := h.walltimes
  positive := by
    intro id k hk
    rcases of_registered hk with rfl | hk
    · exact hpos
    · exact h.positive id k hk
  submitted := by
    intro id k hk
    rcases of_registered hk with rfl | hk
    · exact List.mem_append_right _ List.mem_cons_self
    · exact List.mem_append_left _ (h.submitted id k hk)
  waits := by
    intro q hq
    obtain ⟨b, hb, hends⟩ := h.waits q hq
    exact ⟨b, hb, hends.mono (JobsKept.registered_subset hnew) (fun _ hid => hid) fun _ _ => rfl⟩

/-- The end of a job that runs is reported. -/
theorem complete {r : RunningJob} {before after : List RunningJob} (h : Punctual (s, p))
    (hrunning : p.running = before ++ r :: after) (hid : job.id = r.id) :
    Punctual ({ s with jobsEndedRecently := s.jobsEndedRecently ++ [job] },
      { p with running := before ++ after, reported := p.reported ++ [r] }) := by
  have hperm := JobsKept.perm_complete hrunning
  have hstart := startOf_perm h.nodup hperm p.now
  have hids := hperm.map (·.id)
  refine ⟨h.kept.complete hrunning hid, ?_, h.walltimes, h.positive, h.submitted, fun q hq => ?_⟩
  · dsimp only
    rw [hstart]
    exact h.dated.fewer fun id hid => hids.mem_iff.1 hid
  · obtain ⟨b, hb, hends⟩ := h.waits q hq
    refine ⟨b, hb, hends.mono (fun _ hk => hk) (fun id hid => hids.mem_iff.2 hid) fun id _ => ?_⟩
    dsimp only
    rw [hstart]

/-- The decisions of a pass are sent. -/
theorem decide (h : Punctual (s, p)) (hin : p.InTime date)
    (hkeeps : ∀ job ∈ s.queue.firstJob?, (queueAfter c s currentDate).firstJob? = some job)
    (hx : makeDecisions c { s with decision := s.decision.clear } date currentDate = .ok s') :
    Punctual ({ s' with jobsReleasedRecently := [], jobsEndedRecently := [] },
      ({ p with now := date } : Platform).send s'.decision.decisions) := by
  obtain ⟨hready, hwaits, -⟩ := h.decided hin hkeeps hx
  have hlist : (p.running ++ (executions s'.decision.decisions).map (startedAt date) ++ []).map RunningJob.id =
      heldIds (p.running.map pair) s' := by
    simp [heldIds, heldBy, pair, startedAt, Function.comp_def]
  have hstart : startOf (p.running ++ (executions s'.decision.decisions).map (startedAt date) ++ []) date =
      startOf p.running date := by
    rw [List.append_nil, startOf_started]
  refine ⟨h.kept.decide hx, ?_, hready.walltimes, ?_, ?_, fun q hq => ?_⟩
  · change Dated (.registered s'.workload) (startOf _ date) date s'.schedule (List.map _ _)
    rw [hready.workload]
    exact hlist ▸ hstart ▸ hready.dated
  · change ∀ id job, s'.workload id = some job → _
    rw [hready.workload]
    exact h.positive
  · change ∀ id job, s'.workload id = some job → _
    rw [hready.workload]
    exact h.submitted
  · obtain ⟨b, hb, hends⟩ := hwaits q hq
    refine ⟨b, hb, ?_⟩
    change SomeEndsBy (.registered s'.workload) (startOf _ date) (List.map _ _) b
    rw [hready.workload]
    exact hlist ▸ hstart ▸ hends

theorem new (c : EasyBfConfig) (date : ℚ) : Punctual (EasyBf.new c date, Platform.new date) where
  kept := Kept.new c date
  dated := Dated.new _ _ c.nbMachines date
  walltimes := by simp [EasyBf.new, Queue.jobs]
  positive := nofun
  submitted := nofun
  waits := by simp [EasyBf.new, Queue.firstJob?_eq_head?, Queue.jobs]

/-- Every event of such a run keeps the jobs ending in time, and the first job of the queue behind one of them. -/
theorem step {t t' : EasyBfState × Platform} {event : EasyBf3Event} (h : Punctual t) (hsubmitted : IsSubmission event)
    (hin : EndsInTime t.2 event) (hkeeps : KeepsFirst c t.1 event) (hx : (scheduler c).run t event = .ok t') : Punctual t' := by
  rcases run_cases hx with ⟨job, rfl, hnew, rfl⟩ | ⟨id, job, r, before, after, rfl, hjob, hr, hrunning, rfl⟩ |
    ⟨date, currentDate, s', rfl, -, hmade, rfl⟩
  · obtain ⟨hid, hpos⟩ := hsubmitted job rfl
    exact h.submit hid hpos hnew
  · exact h.complete hrunning ((h.kept.workload id job hjob).trans hr.symm)
  · exact h.decide hin hkeeps hmade

end Punctual

/-- A job has been executed and started by a date. It does not wait any more, and cannot be submitted again. -/
structure Started (job : Job) (b : ℚ) (t : EasyBfState × Platform) : Prop where
  executed : job.id ∈ t.2.executed
  start : ∀ r ∈ t.2.running ++ t.2.reported, r.id = job.id → r.start ≤ b
  notWaiting : job.id ∉ waitingIds t.1
  isKnown : t.1.workload job.id ≠ none

/-- A job is at the front of the queue and planned to begin by a date, or has started by then. -/
def OnTime (job : Job) (b : ℚ) (t : EasyBfState × Platform) : Prop :=
  (t.1.queue.firstJob? = some job ∧ ∃ b', t.1.schedule.plannedBegin job = some b' ∧ b' ≤ b) ∨ Started job b t

theorem OnTime.startsBy {t : EasyBfState × Platform} (h : OnTime job b t) : StartsBy job b t :=
  h.imp_right fun h => ⟨h.executed, h.start⟩

/-- A job that has been executed is not executed again. -/
theorem Started.decide (h : Started job b (s, p)) (hready : MidPass s p date s' (front s')) :
    Started job b ({ s' with jobsReleasedRecently := [], jobsEndedRecently := [] },
      ({ p with now := date } : Platform).send s'.decision.decisions) where
  executed := List.mem_append_left _ h.executed
  start := by
    intro r hr hid
    simp only [Platform.send, List.append_nil, List.mem_append, List.mem_map] at hr
    rcases hr with hr | ⟨e, he, rfl⟩
    · exact h.start r (List.mem_append_left _ hr) hid
    · exact absurd (hid ▸ hready.among.2 e he) h.notWaiting
  notWaiting := by
    rintro hwaits
    obtain ⟨k, hk, hid⟩ := List.mem_map.1 hwaits
    rw [List.append_nil] at hk
    exact h.notWaiting (hid ▸ hready.among.1 k hk)
  isKnown := by
    change s'.workload job.id ≠ none
    rw [hready.workload]
    exact h.isKnown

/-- A job of the front of the queue that is executed starts by the date planned for it. -/
theorem started_of_executed (h : Punctual (s, p)) (hfirst : s.queue.firstJob? = some job) (hle : date ≤ b)
    (hready : MidPass s p date s' (front s')) {machines : IntervalSet}
    (hexec : (job.id, machines) ∈ executions s'.decision.decisions) :
    Started job b ({ s' with jobsReleasedRecently := [], jobsEndedRecently := [] },
      ({ p with now := date } : Platform).send s'.decision.decisions) := by
  have hmem : job ∈ s.queue.jobs := by
    rw [Queue.firstJob?_eq_head?] at hfirst
    exact List.mem_of_mem_head? hfirst
  refine ⟨List.mem_append_right _ (List.mem_map_of_mem (f := Prod.fst) hexec), fun r hr hid => ?_, fun hwaits => ?_, ?_⟩
  · simp only [Platform.send, List.append_nil, List.mem_append, List.mem_map] at hr
    rcases hr with hr | ⟨e, -, rfl⟩
    · -- a job that ran before does not wait
      refine absurd rfl ((List.nodup_append.1 h.kept.distinct).2.2 job.id ?_ job.id ?_)
      · exact List.mem_map_of_mem (f := fun job : Job => job.id) (List.mem_append_left _ hmem)
      · exact hid ▸ List.mem_map_of_mem (List.mem_append_left _ hr)
    · exact hle
  · obtain ⟨k, hk, hid⟩ := List.mem_map.1 hwaits
    rw [List.append_nil] at hk
    refine hready.notMem_held hk (hid ▸ ?_)
    exact List.mem_map_of_mem (f := Prod.fst) (List.mem_append_right _ hexec)
  · change s'.workload job.id ≠ none
    rw [hready.workload, (h.kept.jobs job (List.mem_append_left _ hmem)).1]
    nofun

/-- Every event of such a run leaves a job on time. -/
theorem OnTime.step {t t' : EasyBfState × Platform} {event : EasyBf3Event} (ht : OnTime job b t) (h : Punctual t)
    (hin : EndsInTime t.2 event) (hkeeps : KeepsFirst c t.1 event) (hx : (scheduler c).run t event = .ok t') : OnTime job b t' := by
  obtain ⟨s, p⟩ := t
  rcases run_cases hx with ⟨k, rfl, hnew, rfl⟩ | ⟨id, k, r, before, after, rfl, hjob, hr, hrunning, rfl⟩ |
    ⟨date, currentDate, s', rfl, -, hmade, rfl⟩
  · refine ht.imp_right fun hstarted => ⟨hstarted.executed, hstarted.start, fun hwaits => ?_, ?_⟩
    · simp only [waitingIds, ← List.append_assoc, List.map_append, List.mem_append, List.map_cons, List.map_nil, Set.mem_ofPred_eq,
        List.mem_singleton] at hwaits
      rcases hwaits with hwaits | heq
      · exact hstarted.notWaiting (by simpa [waitingIds] using hwaits)
      · exact hstarted.isKnown (heq ▸ hnew)
    · dsimp only
      rw [Function.update_of_ne]
      · exact hstarted.isKnown
      · exact fun heq => hstarted.isKnown (heq ▸ hnew)
  · have hperm := JobsKept.perm_complete hrunning
    exact ht.imp_right fun hstarted => ⟨hstarted.executed, fun r' hr' => hstarted.start r' (hperm.mem_iff.1 hr'),
      hstarted.notWaiting, hstarted.isKnown⟩
  · obtain ⟨hready, -, hdue⟩ := h.decided hin hkeeps hmade
    rcases ht with ⟨hfirst, b₀, hb₀, hle⟩ | hstarted
    · rcases hdue job b₀ hfirst hb₀ with ⟨hfirst', b', hb', hle'⟩ | ⟨machines, hexec⟩
      · exact .inl ⟨hfirst', b', hb', hle'.trans hle⟩
      · obtain ⟨b₁, hb₁, hdate⟩ := h.date_le hin hfirst
        obtain rfl : b₁ = b₀ := Option.some.inj (hb₁.begins.symm.trans hb₀)
        exact .inr (started_of_executed h hfirst (hdate.trans hle) hready hexec)
    · exact .inr (hstarted.decide hready)

end EasyBfDelayAux

open EasyBfDelayAux in
/-- In a run in which the jobs end within their walltimes and the first job of the queue stays first while it waits, no pass delays
it: the pass executes it, or leaves it planned no later. So it starts no later than the date first planned for it. The jobs have the
names that Batsim gives them, and walltimes that are positive, as they are read. -/
theorem priority_job_never_delayed (c : EasyBfConfig) (date : ℚ) (events later : List EasyBf3Event)
    (hsubmitted : ∀ event ∈ events ++ later, IsSubmission event)
    (hsteps : AllSteps (scheduler c).run (fun t event => EndsInTime t.2 event ∧ KeepsFirst c t.1 event)
      (EasyBf.new c date, Platform.new date) (events ++ later)) :
    AllSteps (scheduler c).run (fun t event => NeverDelays c t.1 event) (EasyBf.new c date, Platform.new date) (events ++ later) ∧
      ∀ t, runFrom (scheduler c).run (EasyBf.new c date, Platform.new date) events = .ok t → ∀ job ∈ t.1.queue.firstJob?, ∀ b,
        t.1.schedule.plannedBegin job = some b → Always (scheduler c).run (StartsBy job b) t later := by
  have hall := (allSteps_of_forall hsubmitted).and hsteps
  constructor
  · refine allSteps_of_invariant (I := Punctual) (fun t event t' h hc hx => h.step hc.1 hc.2.1 hc.2.2 hx) ?_
      (Punctual.new c date) hall
    rintro ⟨s, p⟩ event h ⟨-, hin, hkeeps⟩ now currentDate rfl job hfirst b hb
    obtain ⟨b', hb', hle⟩ := h.date_le hin hfirst
    obtain rfl : b' = b := Option.some.inj (hb'.begins.symm.trans hb)
    refine ⟨hle, fun s' hs' => ?_⟩
    obtain ⟨s'', hmade, rfl⟩ := map_eq_ok.1 hs'
    exact (h.decided hin hkeeps hmade).2.2 job b' hfirst hb
  · intro t ht job hfirst b hb
    have hpunctual : Punctual t :=
      runFrom_invariant (fun t event t' h hc hx => h.step hc.1 hc.2.1 hc.2.2 hx) (Punctual.new c date) hall.left ht
    exact always_of_invariant (I := fun t => Punctual t ∧ OnTime job b t)
      (fun t event t' h hc hx => ⟨h.1.step hc.1 hc.2.1 hc.2.2 hx, h.2.step h.1 hc.2.1 hc.2.2 hx⟩)
      (fun t h => h.2.startsBy) ⟨hpunctual, .inl ⟨hfirst, b, hb, le_rfl⟩⟩ (hall.right ht)

namespace EasyBfDelayAux

private def longJob : Job := { id := "w0!1", nbRequestedResources := 2, walltime := 10 }

private def wideJob : Job := { id := "w0!2", nbRequestedResources := 3, walltime := 10 }

private def shortJob : Job := { id := "w0!3", nbRequestedResources := 1, walltime := 3 }

private theorem validName : '!' ∉ "w0".toList ∧ ',' ∉ "w0".toList := by decide

private def nameOf (jobName : String) (h : '!' ∉ jobName.toList) : JobIdentifier where
  workloadName := "w0"
  jobName := jobName
  workloadName_valid := validName
  jobName_valid := h

/-- A job that needs all machines waits for the first one. -/
private def firstEvents : List EasyBf3Event := [.jobSubmitted longJob, .jobSubmitted wideJob, .makeDecisions 0 0]

/-- A job is backfilled, and the jobs that run end. -/
private def laterEvents : List EasyBf3Event :=
  [.jobSubmitted shortJob, .makeDecisions 1 1, .jobCompleted "w0!3", .makeDecisions 4 4, .jobCompleted "w0!1", .makeDecisions 6 6]

end EasyBfDelayAux

open EasyBfDelayAux in
/-- The second job is planned for the date 10, and starts at 6 when the first job has ended early. -/
theorem priority_job_never_delayed_witness :
    ∃ t, runFrom (scheduler { nbMachines := 3 }).run (EasyBf.new { nbMachines := 3 } 0, Platform.new 0) firstEvents = .ok t ∧
      t.1.queue.firstJob? = some wideJob ∧ t.1.schedule.plannedBegin wideJob = some 10 ∧
      (runFrom (scheduler { nbMachines := 3 }).run t laterEvents).toOption.map
        (fun t' => t'.2.running.map fun r => (r.id, r.start)) = some [("w0!2", 6)] ∧
      Always (scheduler { nbMachines := 3 }).run (StartsBy wideJob 10) t laterEvents := by
  have hok : (runFrom (scheduler { nbMachines := 3 }).run (EasyBf.new { nbMachines := 3 } 0, Platform.new 0)
      firstEvents).toOption.map (fun t => (t.1.queue.firstJob?, t.1.schedule.plannedBegin wideJob,
        (runFrom (scheduler { nbMachines := 3 }).run t laterEvents).toOption.map
          fun t' => t'.2.running.map fun r => (r.id, r.start))) = some (some wideJob, some 10, some [("w0!2", 6)]) := by
    decide +kernel
  obtain ⟨t, ht, hseen⟩ := toOption_map_eq_some.1 hok
  obtain ⟨hfirst, hb, hlast⟩ : _ ∧ _ ∧ _ := by simpa only [Prod.mk.injEq] using hseen
  refine ⟨t, ht, hfirst, hb, hlast, ?_⟩
  have hdelay := priority_job_never_delayed { nbMachines := 3 } 0 firstEvents laterEvents (fun event hevent job heq => ?_)
    (by decide +kernel)
  · exact hdelay.2 t ht wideJob hfirst 10 hb
  · subst heq
    simp only [firstEvents, laterEvents, List.cons_append, List.nil_append, List.mem_cons, EasyBf3Event.jobSubmitted.injEq,
      reduceCtorEq, List.not_mem_nil, or_false, false_or] at hevent
    rcases hevent with rfl | rfl | rfl
    · exact ⟨⟨nameOf "1" (by decide), rfl⟩, fun _ => by decide +kernel⟩
    · exact ⟨⟨nameOf "2" (by decide), rfl⟩, fun _ => by decide +kernel⟩
    · exact ⟨⟨nameOf "3" (by decide), rfl⟩, fun _ => by decide +kernel⟩

end ScheduleTest
