import ScheduleTest.ConservativeBf
import ScheduleTest.Lemmas.AtDate

/-!
# Reservations whose calls come late

The calls for the reservations that start at a date may come a little later, all in one message. Each of them moves the end of the
first slice and the begin of the second by what it is late, and takes that from the walltime of the one reservation it is for
(`Handled`). So the slices are at the date of the message after exactly one call, and that is right for its reservation only.
-/

namespace ScheduleTest

open Execution

namespace LateReservations

/-- A call that a message delivers. -/
structure Delivered where
  id : ℕ
  forWhat : CallMeLaterType
  draws : Draws

/-- Whether it is about the start of a reservation. -/
def Delivered.isStart (call : Delivered) : Bool := call.forWhat = .reservationStart

/-- What the scheduler is told by a message with some calls. -/
def events (date : ℚ) (calls : List Delivered) : List ConservativeEvent :=
  calls.map fun call => .requestedCall date call.id call.forWhat call.draws

/-- The reservations of a slice that start at a date. -/
def reservationsAt (slice : TimeSlice) (date : ℚ) : List Job :=
  slice.allocatedJobs.keys.filter fun job => job.isReservation && decide (job.start = date)

/-- The job that a call asked for is for. -/
def jobIdOf (s : ConservativeState) (call : Delivered) : Option String := (s.decision.callMeLaters call.id).map (·.jobId)

/-- The second slice begins with reservations at `t`, and a message at `t + d`, before it ends, delivers calls that the scheduler
has asked for, those about starts of reservations for `t`. -/
structure LateMessage (s : ConservativeState) (t d : ℚ) (first second : TimeSlice) (rest : List TimeSlice)
    (calls : List Delivered) : Prop where
  profile : s.schedule.profile = first :: second :: rest
  timed : Timed s.schedule.profile
  upright : first.beginDate ≤ first.endDate
  begins : second.beginDate = t
  hasReservation : second.hasReservation = true
  reserved : reservationsAt second t ≠ []
  registered : ∀ job ∈ second.allocatedJobs.keys, s.workload job.id = some job
  named : ∀ id job, s.workload id = some job → job.id = id
  late : 0 < d
  short : d < second.length
  distinct : (calls.map (·.id)).Nodup
  asked : ∀ call ∈ calls, call.id < s.decision.nbCallMeLaters ∧ ∃ asked, s.decision.callMeLaters call.id = some asked ∧
    asked.forWhat = call.forWhat ∧ (call.isStart = true → asked.time = t ∧ s.workload asked.jobId ≠ none)

/-- The slices follow each other without gaps and none is inverted, the second begins at `t + d` and is seen as due, and the
reservations that were to start at `t` end as planned if they start at `t + d`. -/
structure Aligned (t d : ℚ) (second : TimeSlice) (schedule : Schedule) : Prop where
  contiguous : schedule.profile.IsChain fun a b => a.endDate = b.beginDate
  lengths : ∀ u ∈ schedule.profile, u.length = u.endDate - u.beginDate ∧ 0 ≤ u.length
  due : ∃ first slice, schedule.reservationsDue = some (first, slice) ∧ slice.beginDate = t + d ∧
    ∀ job ∈ reservationsAt second t, ∃ job' ∈ slice.allocatedJobs.keys, job'.id = job.id ∧ t + d + job'.walltime = t + job.walltime

/-- The message is handled, and the first slice brought to its date. -/
def HandledInTime (c : ConservativeConfig) (s : ConservativeState) (t d : ℚ) (second : TimeSlice) (calls : List Delivered) : Prop :=
  ∃ s' schedule, runFrom (ConservativeBf.step c) s (events (t + d) calls) = .ok s' ∧
    s'.schedule.updateFirstSlice (t + d) = .ok schedule ∧ Aligned t d second schedule

/-! ## What one call does -/

/-- The dates and the length of a slice. -/
def sliceDates (u : TimeSlice) : ℚ × ℚ × ℚ := (u.beginDate, u.endDate, u.length)

/-- A job whose walltime has been cut a number of times. -/
def cut (d : ℚ) (n : ℕ) (job : Job) : Job := { job with walltime := job.walltime - n * d }

section

variable {c : ConservativeConfig} {s s' : ConservativeState} {p : List TimeSlice} {date d : ℚ} {id : ℕ} {draws : Draws}

/-- What a call leaves of the calls asked for before. -/
def Remembers (id : ℕ) (s s' : ConservativeState) : Prop :=
  s.decision.nbCallMeLaters ≤ s'.decision.nbCallMeLaters ∧
    ∀ i < s.decision.nbCallMeLaters, i ≠ id → s'.decision.callMeLaters i = s.decision.callMeLaters i

/-- What a slice says besides the machines that are free. -/
def outline (u : TimeSlice) : (ℚ × ℚ × ℚ) × Bool × KeyedMap Job.id IntervalSet := (sliceDates u, u.hasReservation, u.allocatedJobs)

/-- What answering a call changes beside the calls asked for: machines that have been repaired. -/
theorem answerCall_frame (c : ConservativeConfig) (s : ConservativeState) (date : ℚ) (id : ℕ) (draws : Draws)
    (forWhat : CallMeLaterType) :
    (ConservativeBf.answerCall c s date id draws forWhat).workload = s.workload ∧
      s.decision.nbCallMeLaters ≤ (ConservativeBf.answerCall c s date id draws forWhat).decision.nbCallMeLaters ∧
      (∀ i < s.decision.nbCallMeLaters,
        (ConservativeBf.answerCall c s date id draws forWhat).decision.callMeLaters i = s.decision.callMeLaters i) ∧
      (ConservativeBf.answerCall c s date id draws forWhat).schedule.profile.map outline = s.schedule.profile.map outline := by
  have hnote : ∀ forWhat time, (ConservativeBf.noteFailure c s forWhat time).workload = s.workload ∧
      s.decision.nbCallMeLaters ≤ (ConservativeBf.noteFailure c s forWhat time).decision.nbCallMeLaters ∧
      (∀ i < s.decision.nbCallMeLaters,
        (ConservativeBf.noteFailure c s forWhat time).decision.callMeLaters i = s.decision.callMeLaters i) ∧
      (ConservativeBf.noteFailure c s forWhat time).schedule.profile.map outline = s.schedule.profile.map outline := by
    intro forWhat time
    unfold ConservativeBf.noteFailure
    split
    · exact ⟨rfl, Nat.le_succ _, fun i hi => Function.update_of_ne hi.ne _ _, rfl⟩
    · exact ⟨rfl, le_rfl, fun _ _ => rfl, rfl⟩
  cases forWhat with
  | smtbf => exact hnote _ _
  | fixedFailure => exact hnote _ _
  | repairDone =>
    refine ⟨rfl, le_rfl, fun _ _ => rfl, ?_⟩
    simp only [ConservativeBf.answerCall, Schedule.removeRepairMachines, List.map_map]
    rfl
  | reservationStart => exact ⟨rfl, le_rfl, fun _ _ => rfl, rfl⟩
  | mtbf => exact ⟨rfl, le_rfl, fun _ _ => rfl, rfl⟩
  | checkpointBatsched => exact ⟨rfl, le_rfl, fun _ _ => rfl, rfl⟩
  | recoverFromCheckpoint => exact ⟨rfl, le_rfl, fun _ _ => rfl, rfl⟩

/-- A call about something else changes neither the slices, as far as it matters here, nor the jobs. -/
theorem step_other (c : ConservativeConfig) (date : ℚ) (draws : Draws) {forWhat : CallMeLaterType} {asked : CallMeLater}
    (hother : forWhat ≠ .reservationStart)
    (hid : id < s.decision.nbCallMeLaters) (hasked : s.decision.callMeLaters id = some asked) (hwhat : asked.forWhat = forWhat) :
    ∃ s', ConservativeBf.step c s (.requestedCall date id forWhat draws) = .ok s' ∧ s'.workload = s.workload ∧ Remembers id s s' ∧
      s'.schedule.profile.map outline = s.schedule.profile.map outline := by
  obtain ⟨hworkload, hnumber, hcalls, hprofile⟩ :=
    answerCall_frame c { s with decision := s.decision.clear, executions := [] } date id draws forWhat
  simp only [ConservativeBf.step, ConservativeBf.onRequestedCall]
  generalize ConservativeBf.answerCall c { s with decision := s.decision.clear, executions := [] } date id draws forWhat = s₁ at *
  have hforget : ConservativeBf.forgetCall s₁ date id = .ok ({ s₁ with decision := (s₁.decision.removeCallMeLater id date).1 },
      (s₁.decision.removeCallMeLater id date).2) := by
    simp only [ConservativeBf.forgetCall]
    rw [show s₁.decision.callMeLaters id = some asked from (hcalls id hid).trans hasked]
    dsimp only
    rw [if_neg fun h => hother (hwhat ▸ h.2)]
  rw [hforget]
  dsimp only
  rw [if_neg fun h => hother h.2]
  refine ⟨_, rfl, hworkload, ⟨hnumber, fun i hi hne => ?_⟩, hprofile⟩
  exact (Function.update_of_ne hne _ _).trans (hcalls i hi)

/-- The slices with a job in another version. -/
theorem outline_replaceJob (schedule : Schedule) (job job' : Job) :
    (schedule.replaceJob job job').profile.map sliceDates = schedule.profile.map sliceDates ∧
      (schedule.replaceJob job job').profile.map (·.hasReservation) = schedule.profile.map (·.hasReservation) := by
  simp only [Schedule.replaceJob, List.map_map]
  constructor
  · refine List.map_congr_left fun u _ => ?_
    simp only [Function.comp_apply]
    split <;> rfl
  · refine List.map_congr_left fun u _ => ?_
    simp only [Function.comp_apply]
    split <;> rfl

/-- The jobs of a slice in which a job has got another version. -/
theorem mem_keys_replace {u : TimeSlice} {job job' other : Job} {machines : IntervalSet} (hid : job'.id = job.id) :
    other ∈ ((u.allocatedJobs.erase job).insert job' machines).keys ↔
      other = job' ∨ other ∈ u.allocatedJobs.keys ∧ other.id ≠ job.id := by
  have hnew : ∀ e ∈ (u.allocatedJobs.erase job).entries, e.1.id ≠ job'.id := fun e he => hid ▸ (KeyedMap.mem_erase.1 he).2
  simp only [KeyedMap.keys, List.mem_map]
  constructor
  · rintro ⟨e, he, rfl⟩
    rcases (KeyedMap.mem_insert_of_new hnew).1 he with rfl | he
    · exact Or.inl rfl
    · exact Or.inr ⟨⟨e, (KeyedMap.mem_erase.1 he).1, rfl⟩, (KeyedMap.mem_erase.1 he).2⟩
  · rintro (rfl | ⟨⟨e, he, rfl⟩, hne⟩)
    · exact ⟨(other, machines), (KeyedMap.mem_insert_of_new hnew).2 (Or.inl rfl), rfl⟩
    · exact ⟨e, (KeyedMap.mem_insert_of_new hnew).2 (Or.inr (KeyedMap.mem_erase.2 ⟨he, hne⟩)), rfl⟩

/-- A slice in which a job has got another version. -/
theorem replaceJob_slice {schedule : Schedule} {i : ℕ} {u : TimeSlice} (job job' : Job) (hu : schedule.profile[i]? = some u)
    (hid : job'.id = job.id) :
    ∃ u', (schedule.replaceJob job job').profile[i]? = some u' ∧ u'.hasReservation = u.hasReservation ∧
      (∀ other ∈ u.allocatedJobs.keys, other.id ≠ job.id → other ∈ u'.allocatedJobs.keys) ∧
      (job ∈ u.allocatedJobs.keys → job' ∈ u'.allocatedJobs.keys) := by
  rw [Schedule.replaceJob, List.getElem?_map, hu]
  refine ⟨_, rfl, ?_⟩
  dsimp only
  cases hfind : u.allocatedJobs.find? job with
  | none =>
    refine ⟨rfl, fun other hother _ => hother, fun hjob => ?_⟩
    obtain ⟨e, he, rfl⟩ := List.mem_map.1 hjob
    exact absurd rfl (KeyedMap.find?_eq_none.1 hfind e he)
  | some machines =>
    exact ⟨rfl, fun other hother hne => (mem_keys_replace hid).2 (Or.inr ⟨hother, hne⟩),
      fun _ => (mem_keys_replace hid).2 (Or.inl rfl)⟩

/-- The call for a reservation cuts its walltime, and moves the border between the first two slices. -/
theorem step_start (c : ConservativeConfig) (date : ℚ) (draws : Draws) {asked : CallMeLater} {job : Job} {first second : TimeSlice}
    {rest : List TimeSlice} (hlate : asked.time < date) (hasked : s.decision.callMeLaters id = some asked)
    (hwhat : asked.forWhat = .reservationStart) (hjob : s.workload asked.jobId = some job)
    (hprofile : (s.schedule.replaceJob job { job with walltime := job.walltime - (date - asked.time) }).profile =
      first :: second :: rest) :
    ∃ s', ConservativeBf.step c s (.requestedCall date id .reservationStart draws) = .ok s' ∧
      s'.workload = Function.update s.workload job.id (some { job with walltime := job.walltime - (date - asked.time) }) ∧
      Remembers id s s' ∧
      s'.schedule.profile = { first with
          endDate := first.endDate + (date - asked.time)
          length := first.length + (date - asked.time) } ::
        { second with
          beginDate := second.beginDate + (date - asked.time)
          length := second.length - (date - asked.time) } :: rest := by
  have hdifference : date - asked.time ≠ 0 := (sub_pos.2 hlate).ne'
  simp only [ConservativeBf.step, ConservativeBf.onRequestedCall, ConservativeBf.answerCall, ConservativeBf.forgetCall,
    SchedulingDecision.removeCallMeLater, SchedulingDecision.clear, hasked, if_pos hlate]
  rw [if_pos ⟨hdifference, hwhat⟩, hjob]
  dsimp only
  rw [if_pos ⟨hdifference, trivial⟩]
  simp only [ConservativeBf.replaceJob, Schedule.incorrectCallMeLater, hprofile]
  exact ⟨_, rfl, rfl, ⟨le_rfl, fun i _ hne => Function.update_of_ne hne _ _⟩, rfl⟩

end

/-! ## What the message does -/

section

variable {c : ConservativeConfig} {s s' : ConservativeState} {t d : ℚ} {first second : TimeSlice} {rest : List TimeSlice}
  {calls done todo : List Delivered} {call : Delivered}

/-- How many calls there are for a job. -/
def callsFor (s : ConservativeState) (done : List Delivered) (id : String) : ℕ :=
  done.countP fun call => call.isStart && decide (jobIdOf s call = some id)

/-- The first two slices when the border between them has been moved. -/
def movedDates (first second : TimeSlice) (rest : List TimeSlice) (e : ℚ) : List (ℚ × ℚ × ℚ) :=
  (first.beginDate, first.endDate + e, first.length + e) :: (second.beginDate + e, second.endDate, second.length - e) ::
    rest.map sliceDates

/-- What holds when some of the calls have been handled: the border has been moved once for each call about a reservation, and each
reservation has been cut once for each call for it. -/
structure Handled (s : ConservativeState) (d : ℚ) (first second : TimeSlice) (rest : List TimeSlice) (done : List Delivered)
    (s' : ConservativeState) : Prop where
  dates : s'.schedule.profile.map sliceDates = movedDates first second rest (done.countP Delivered.isStart * d)
  second : ∃ u, s'.schedule.profile[1]? = some u ∧ u.hasReservation = true ∧
    ∀ job ∈ second.allocatedJobs.keys, cut d (callsFor s done job.id) job ∈ u.allocatedJobs.keys
  workload : ∀ id, s'.workload id = (s.workload id).map (cut d (callsFor s done id))
  number : s.decision.nbCallMeLaters ≤ s'.decision.nbCallMeLaters
  calls : ∀ i < s.decision.nbCallMeLaters, i ∉ done.map Delivered.id → s'.decision.callMeLaters i = s.decision.callMeLaters i

theorem Handled.start (h : LateMessage s t d first second rest calls) : Handled s d first second rest [] s where
  dates := by simp [h.profile, movedDates, sliceDates]
  second := by
    refine ⟨second, by rw [h.profile]; rfl, h.hasReservation, fun job hjob => ?_⟩
    simpa [callsFor, cut] using hjob
  workload := by
    intro id
    cases s.workload id <;> simp [callsFor, cut]
  number := le_rfl
  calls := fun _ _ _ => rfl

/-- What is remembered when one more call has been handled. -/
theorem Handled.remembers {s'' : ConservativeState} (h : Handled s d first second rest done s') (hr : Remembers call.id s' s'') :
    s.decision.nbCallMeLaters ≤ s''.decision.nbCallMeLaters ∧
      ∀ i < s.decision.nbCallMeLaters, i ∉ (done ++ [call]).map Delivered.id →
        s''.decision.callMeLaters i = s.decision.callMeLaters i := by
  refine ⟨h.number.trans hr.1, fun i hi hnot => ?_⟩
  rw [List.map_append, List.mem_append, not_or] at hnot
  rw [hr.2 i (hi.trans_le h.number) fun heq => hnot.2 (List.mem_singleton.2 heq), h.calls i hi hnot.1]

theorem callsFor_append (id : String) : callsFor s (done ++ [call]) id =
    callsFor s done id + if call.isStart = true ∧ jobIdOf s call = some id then 1 else 0 := by
  simp [callsFor, List.countP_append, List.countP_singleton]

theorem cut_cut (d : ℚ) (n : ℕ) (job : Job) : { cut d n job with walltime := (cut d n job).walltime - d } = cut d (n + 1) job := by
  simp only [cut, Nat.cast_add, Nat.cast_one]
  congr 1
  ring

/-- One more call. -/
theorem Handled.step (h : LateMessage s t d first second rest (done ++ call :: todo))
    (hdone : Handled s d first second rest done s') :
    ∃ s'', ConservativeBf.step c s' (.requestedCall (t + d) call.id call.forWhat call.draws) = .ok s'' ∧
      Handled s d first second rest (done ++ [call]) s'' := by
  obtain ⟨hid, asked, hasked, hwhat, hstart⟩ := h.asked call (List.mem_append_right _ List.mem_cons_self)
  have hfresh : call.id ∉ done.map Delivered.id := by
    have hnodup := h.distinct
    rw [List.map_append, List.map_cons] at hnodup
    exact fun hin => (List.nodup_append.1 hnodup).2.2 _ hin _ List.mem_cons_self rfl
  have hasked' : s'.decision.callMeLaters call.id = some asked := (hdone.calls call.id hid hfresh).trans hasked
  have hnow : jobIdOf s call = some asked.jobId := by rw [jobIdOf, hasked]; rfl
  cases hcall : call.isStart with
  | false =>
    have hother : call.forWhat ≠ .reservationStart := of_decide_eq_false hcall
    obtain ⟨s'', hstep, hworkload, hremembers, hprofile⟩ := step_other c (t + d) call.draws hother
      (hid.trans_le hdone.number) hasked' hwhat
    have hcalls : ∀ id, callsFor s (done ++ [call]) id = callsFor s done id := by simp [callsFor_append, hcall]
    obtain ⟨hnumber, hkept⟩ := hdone.remembers hremembers
    refine ⟨s'', hstep, ?_, ?_, ?_, hnumber, hkept⟩
    · rw [List.countP_append, List.countP_singleton, hcall, if_neg Bool.false_ne_true, Nat.add_zero, ← hdone.dates]
      simpa [Function.comp_def, outline] using congrArg (List.map Prod.fst) hprofile
    · obtain ⟨u, hu, hreservation, hkeys⟩ := hdone.second
      have hget := congrArg (·[1]?) hprofile
      simp only [List.getElem?_map, hu, Option.map_some] at hget
      obtain ⟨u', hu', heq⟩ := Option.map_eq_some_iff.1 hget
      simp only [outline, Prod.mk.injEq] at heq
      refine ⟨u', hu', heq.2.1.trans hreservation, fun job hjob => ?_⟩
      rw [hcalls, heq.2.2]
      exact hkeys job hjob
    · intro id
      rw [hworkload, hdone.workload, hcalls]
  | true =>
    obtain ⟨htime, hknown⟩ := hstart hcall
    have hforWhat : call.forWhat = .reservationStart := of_decide_eq_true hcall
    obtain ⟨job, hjob⟩ := Option.ne_none_iff_exists'.1 hknown
    have hjobId : job.id = asked.jobId := h.named _ _ hjob
    have hcurrent : s'.workload asked.jobId = some (cut d (callsFor s done asked.jobId) job) := by
      rw [hdone.workload, hjob, Option.map_some]
    have hd : t + d - asked.time = d := by rw [htime]; ring
    -- the slices after the reservation has got its new walltime
    generalize hold : cut d (callsFor s done asked.jobId) job = old at hcurrent
    have hnew : { old with walltime := old.walltime - d } = cut d (callsFor s done asked.jobId + 1) job := by
      rw [← hold, cut_cut]
    have hid' : old.id = asked.jobId := by rw [← hold]; exact hjobId
    obtain ⟨u, hu, hreservation, hkeys⟩ := hdone.second
    obtain ⟨u', hu', hsame, hothers, hself⟩ :=
      replaceJob_slice old { old with walltime := old.walltime - (t + d - asked.time) } hu rfl
    have hmoved := (outline_replaceJob s'.schedule old { old with walltime := old.walltime - (t + d - asked.time) }).1
    rw [hdone.dates, movedDates] at hmoved
    obtain ⟨first', rest₁, hprofile, hfirst, hrest₁⟩ := List.map_eq_cons_iff.1 hmoved
    obtain ⟨second', rest', rfl, hsecond, hrest'⟩ := List.map_eq_cons_iff.1 hrest₁
    obtain ⟨s'', hstep, hworkload, hremembers, hprofile'⟩ := step_start c (t + d) call.draws
      (by rw [htime]; exact lt_add_of_pos_right t h.late) hasked' (hwhat.trans hforWhat) hcurrent hprofile
    rw [hprofile] at hu'
    obtain rfl : second' = u' := Option.some.inj hu'
    rw [hd] at hprofile' hworkload hself
    rw [hnew] at hworkload hself
    obtain ⟨hnumber, hkept⟩ := hdone.remembers hremembers
    have hcalls : ∀ id, callsFor s (done ++ [call]) id = callsFor s done id + if id = asked.jobId then 1 else 0 := by
      intro id
      rw [callsFor_append, hcall, hnow]
      simp only [true_and, Option.some.injEq, eq_comm]
    refine ⟨s'', by rw [hforWhat]; exact hstep, ?_, ?_, ?_, hnumber, hkept⟩
    · rw [hprofile', List.countP_append, List.countP_singleton, hcall, if_pos rfl, movedDates]
      simp only [List.map_cons, hrest', sliceDates] at hfirst hsecond ⊢
      simp only [Prod.mk.injEq] at hfirst hsecond
      push_cast
      simp only [hfirst, hsecond, List.cons.injEq, Prod.mk.injEq, and_true, true_and]
      refine ⟨⟨?_, ?_⟩, ?_, ?_⟩ <;> ring
    · refine ⟨{ second' with beginDate := second'.beginDate + d, length := second'.length - d }, by rw [hprofile']; rfl,
        hsame.trans hreservation, fun other hother => ?_⟩
      have hregistered := h.registered other hother
      rw [hcalls]
      by_cases heq : other.id = asked.jobId
      · rw [heq] at hregistered
        obtain rfl := Option.some.inj (hjob.symm.trans hregistered)
        rw [if_pos heq, heq]
        refine hself ?_
        rw [← hold, ← hjobId]
        exact hkeys job hother
      · rw [if_neg heq, Nat.add_zero]
        exact hothers _ (hkeys other hother) fun hbad => heq (hbad.trans hid')
    · intro id
      rw [hworkload, hid', hcalls]
      by_cases heq : id = asked.jobId
      · rw [heq, Function.update_self, if_pos rfl, hjob, Option.map_some]
      · rw [Function.update_of_ne heq, if_neg heq, Nat.add_zero, hdone.workload]

/-- The whole message. -/
theorem Handled.run (h : LateMessage s t d first second rest calls) :
    ∃ s', runFrom (ConservativeBf.step c) s (events (t + d) calls) = .ok s' ∧ Handled s d first second rest calls s' := by
  have hrun : ∀ todo done s', calls = done ++ todo → Handled s d first second rest done s' →
      ∃ s'', runFrom (ConservativeBf.step c) s' (events (t + d) todo) = .ok s'' ∧ Handled s d first second rest calls s'' := by
    intro todo
    induction todo with
    | nil =>
      intro done s' heq hdone
      rw [heq, List.append_nil]
      exact ⟨s', rfl, hdone⟩
    | cons call todo ih =>
      intro done s' heq hdone
      obtain ⟨s₁, hstep, hnext⟩ := Handled.step (c := c) (heq ▸ h) hdone
      obtain ⟨s'', hrest, hall⟩ := ih (done ++ [call]) s₁ (by rw [heq]; simp) hnext
      exact ⟨s'', (runFrom_cons_ok hstep _).trans hrest, hall⟩
  exact hrun calls [] s rfl (.start h)

/-- The slices after the message. -/
theorem Handled.slices (h : LateMessage s t d first second rest calls) (hall : Handled s d first second rest calls s') :
    ∃ first' second' rest', s'.schedule.profile = first' :: second' :: rest' ∧ first'.beginDate = first.beginDate ∧
      first'.endDate = t + calls.countP Delivered.isStart * d ∧ second'.beginDate = t + calls.countP Delivered.isStart * d ∧
      second'.endDate = second.endDate ∧ second'.length = second.length - calls.countP Delivered.isStart * d ∧
      rest'.map sliceDates = rest.map sliceDates ∧ second'.hasReservation = true ∧
      ∀ job ∈ second.allocatedJobs.keys, cut d (callsFor s calls job.id) job ∈ second'.allocatedJobs.keys := by
  obtain ⟨first', rest₁, hprofile, hfirst, hrest₁⟩ := List.map_eq_cons_iff.1 hall.dates
  obtain ⟨second', rest', rfl, hsecond, hrest⟩ := List.map_eq_cons_iff.1 hrest₁
  obtain ⟨u, hu, hreservation, hkeys⟩ := hall.second
  rw [hprofile] at hu
  obtain rfl : second' = u := Option.some.inj hu
  simp only [sliceDates, Prod.mk.injEq] at hfirst hsecond
  have hborder : first.endDate = t := by
    obtain ⟨e, hchain⟩ := h.timed.chained
    rw [h.profile] at hchain
    exact hchain.1.symm.trans h.begins
  refine ⟨first', second', rest', hprofile, hfirst.1, ?_, ?_, hsecond.2.1, hsecond.2.2, hrest, hreservation, hkeys⟩
  · rw [hfirst.2.1, hborder]
  · rw [hsecond.1, h.begins]

/-- Slices that follow each other in time leave no gaps. -/
theorem isChain_of_chained {e : ℚ} {p : List TimeSlice} (h : Timeline.Chained TimeSlice.beginDate TimeSlice.endDate e p) :
    p.IsChain fun a b => a.endDate = b.beginDate := by
  induction p with
  | nil => exact h.elim
  | cons a p ih =>
    cases p with
    | nil => exact List.IsChain.singleton a
    | cons b p =>
      obtain ⟨hbegin, _, hrest⟩ := h
      exact List.isChain_cons_cons.2 ⟨hbegin.symm, ih hrest⟩

/-- After one call, and it is at the date of the message. -/
theorem aligned_of_one (h : LateMessage s t d first second rest calls) (hall : Handled s d first second rest calls s')
    (hone : calls.countP Delivered.isStart = 1) (hown : ∀ job ∈ reservationsAt second t, callsFor s calls job.id = 1) :
    ∃ schedule, s'.schedule.updateFirstSlice (t + d) = .ok schedule ∧ Aligned t d second schedule := by
  obtain ⟨first', second', rest', hprofile, hfirst, hend, hbegin, hend', hlength, hrest, hreservation, hkeys⟩ := hall.slices h
  rw [hone, Nat.cast_one, one_mul] at hend hbegin hlength
  obtain ⟨e, hchain⟩ := h.timed.chained
  rw [h.profile] at hchain
  obtain ⟨hborder, _, htail⟩ := hchain
  have hlengths := h.timed.length
  rw [h.profile] at hlengths
  have hpos : 0 < epsilon := by norm_num [epsilon]
  have hsecond : second.length = second.endDate - t := by
    rw [hlengths second (by simp), h.begins]
  have hslice : first'.beginDate ≤ t + d + epsilon ∧ t + d ≤ first'.endDate + epsilon := by
    have hup := h.upright
    have hlate := h.late
    rw [← hborder, h.begins] at hup
    rw [hfirst, hend]
    constructor <;> linarith
  refine ⟨_, by rw [Schedule.updateFirstSlice, hprofile]; exact if_pos hslice, ?_, ?_, ?_⟩
  · have hbegins : rest'.map (·.beginDate) = rest.map (·.beginDate) := by
      simpa [Function.comp_def, sliceDates] using congrArg (List.map Prod.fst) hrest
    have hends : rest'.map (·.endDate) = rest.map (·.endDate) := by
      simpa [Function.comp_def, sliceDates] using congrArg (List.map fun x => x.2.1) hrest
    refine List.isChain_cons_cons.2 ⟨hend.trans hbegin.symm, isChain_of_chained (e := e) ?_⟩
    refine Timeline.Chained.congr (l := second' :: rest) ?_ (by simp [hbegins]) (by simp [hends])
    exact Timeline.Chained.restart (a := second) htail hend'
  · intro u hu
    have hlate := h.late
    have hshort := h.short
    rcases List.mem_cons.1 hu with rfl | hu
    · dsimp only
      rw [hend]
      exact ⟨rfl, by simp⟩
    rcases List.mem_cons.1 hu with rfl | hu
    · rw [hlength, hend', hbegin, hsecond]
      constructor
      · ring
      · linarith
    · obtain ⟨v, hv, heq⟩ := List.mem_map.1 (hrest ▸ List.mem_map_of_mem hu : sliceDates u ∈ rest.map sliceDates)
      simp only [sliceDates, Prod.mk.injEq] at heq
      have hvlength := hlengths v (by simp [hv])
      have hvpos := (htail.bounds hv).2.1
      rw [← heq.1, ← heq.2.1, ← heq.2.2]
      exact ⟨hvlength, by linarith⟩
  · have hready : |t + d - second'.beginDate| ≤ epsilon := by
      rw [hbegin, sub_self, abs_zero]
      exact hpos.le
    refine ⟨{ first' with beginDate := t + d, length := first'.endDate - (t + d) }, second', if_pos ⟨hreservation, hready⟩, hbegin,
      fun job hjob => ?_⟩
    refine ⟨cut d (callsFor s calls job.id) job, hkeys job (List.mem_filter.1 hjob).1, rfl, ?_⟩
    rw [hown job hjob]
    simp only [cut]
    push_cast
    ring

/-- The jobs of a slice have different ids. -/
theorem keys_unique {u : TimeSlice} {job job' : Job} (h : job ∈ u.allocatedJobs.keys) (h' : job' ∈ u.allocatedJobs.keys)
    (hid : job.id = job'.id) : job = job' := by
  obtain ⟨e, he, rfl⟩ := List.mem_map.1 h
  obtain ⟨e', he', rfl⟩ := List.mem_map.1 h'
  rw [KeyedMap.entry_unique he he' hid]

/-- The calls for a job among those about reservations. -/
theorem callsFor_eq (s : ConservativeState) (calls : List Delivered) (id : String) :
    callsFor s calls id = (calls.filter Delivered.isStart).countP fun call => decide (jobIdOf s call = some id) := by
  rw [callsFor, List.countP_filter]
  exact List.countP_congr fun call _ => by rw [Bool.and_comm]

/-- Calls that come late are handled right exactly where the message has one call about a reservation, and it is for the only one
that starts then. -/
theorem late_callbacks_iff (c : ConservativeConfig) (s : ConservativeState) (t d : ℚ) (first second : TimeSlice)
    (rest : List TimeSlice) (calls : List Delivered) (h : LateMessage s t d first second rest calls) :
    HandledInTime c s t d second calls ↔
      ∃ call job, calls.filter Delivered.isStart = [call] ∧ reservationsAt second t = [job] ∧ jobIdOf s call = some job.id := by
  obtain ⟨s', hrun, hall⟩ := Handled.run (c := c) h
  constructor
  · rintro ⟨s'', schedule, hrun', hupdate, haligned⟩
    obtain rfl : s' = s'' := Except.ok.inj (hrun.symm.trans hrun')
    obtain ⟨_, second', rest', hprofile, _, _, hbegin, _, _, _, _, hkeys⟩ := hall.slices h
    obtain ⟨_, slice, hdue, hdate, hends⟩ := haligned.due
    obtain rfl : second' = slice := by
      obtain ⟨_, _, hold, hnew, _⟩ := Schedule.updateFirstSlice_ok hupdate
      have hsame := reservationsDue_some hdue
      rw [hprofile] at hold
      rw [hnew, ← (List.cons.inj hold).2] at hsame
      exact (List.cons.inj (List.cons.inj hsame).2).1
    -- the border is at the date of the message
    have hone : (calls.filter Delivered.isStart).length = 1 := by
      rw [← List.countP_eq_length_filter]
      rw [hbegin] at hdate
      have hcount : (calls.countP Delivered.isStart : ℚ) * d = 1 * d := by rw [one_mul]; exact add_left_cancel hdate
      exact_mod_cast mul_right_cancel₀ h.late.ne' hcount
    obtain ⟨call, hcall⟩ := List.length_eq_one_iff.1 hone
    have hown : ∀ job ∈ reservationsAt second t, jobIdOf s call = some job.id := by
      intro job hjob
      obtain ⟨job', hjob', hid, hend⟩ := hends job hjob
      obtain rfl := keys_unique hjob' (hkeys job (List.mem_filter.1 hjob).1) hid
      rw [callsFor_eq, hcall, List.countP_singleton] at hend
      by_contra hother
      rw [decide_eq_false hother, if_neg Bool.false_ne_true] at hend
      simp only [cut, Nat.cast_zero, zero_mul, sub_zero] at hend
      linarith [h.late]
    obtain ⟨job, more, hjobs⟩ := List.exists_cons_of_ne_nil h.reserved
    refine ⟨call, job, hcall, ?_, hown job (by rw [hjobs]; exact List.mem_cons_self)⟩
    cases more with
    | nil => exact hjobs
    | cons job' more =>
      have hnodup : ((reservationsAt second t).map Job.id).Nodup := by
        refine (List.filter_sublist.map _).nodup ?_
        rw [KeyedMap.keys, List.map_map]
        exact second.allocatedJobs.nodup_key
      have h1 := hown job (by rw [hjobs]; simp)
      have h2 := hown job' (by rw [hjobs]; simp)
      rw [hjobs] at hnodup
      simp [Option.some.inj (h1.symm.trans h2)] at hnodup
  · rintro ⟨call, job, hcall, hjobs, hown⟩
    have hone : calls.countP Delivered.isStart = 1 := by
      rw [List.countP_eq_length_filter, hcall]
      rfl
    obtain ⟨schedule, hupdate, haligned⟩ := aligned_of_one h hall hone fun job' hjob' => by
      rw [hjobs] at hjob'
      rw [List.mem_singleton.1 hjob', callsFor_eq, hcall, List.countP_singleton, hown]
      simp
    exact ⟨s', schedule, hrun, hupdate, haligned⟩

end

namespace LateReservationsWitness

/-- A reservation of one machine from the tenth second on. -/
def reservation (id : String) (machine : ℕ) : Job where
  id := id
  nbRequestedResources := 1
  walltime := 10
  purpose := "reservation"
  futureAllocations := {machine}
  start := 10

/-- Nothing runs. -/
def first : TimeSlice where
  beginDate := 0
  endDate := 10
  length := 10
  availableMachines := {0, 1}
  allocatedMachines := ∅
  nbAvailableMachines := 2
  allocatedJobs := .empty

/-- The slice of the reservations. -/
def second (allocatedJobs : KeyedMap Job.id IntervalSet) : TimeSlice where
  beginDate := 10
  endDate := 20
  length := 10
  hasReservation := true
  nbReservations := allocatedJobs.entries.length
  availableMachines := {0, 1} \ allocatedJobs.entries.foldl (fun machines entry => machines ∪ entry.2) ∅
  allocatedMachines := allocatedJobs.entries.foldl (fun machines entry => machines ∪ entry.2) ∅
  nbAvailableMachines := 2 - allocatedJobs.entries.length
  allocatedJobs := allocatedJobs

/-- Nothing is planned. -/
def idle : TimeSlice where
  beginDate := 20
  endDate := horizon
  length := horizon - 20
  availableMachines := {0, 1}
  allocatedMachines := ∅
  nbAvailableMachines := 2
  allocatedJobs := .empty

/-- A call has been asked for each of two reservations. -/
def state (allocatedJobs : KeyedMap Job.id IntervalSet) : ConservativeState where
  schedule := { profile := [first, second allocatedJobs, idle], nbMachines := 2 }
  workload := fun id =>
    if id = "w!0" then some (reservation "w!0" 0) else if id = "w!1" then some (reservation "w!1" 1) else none
  decision := ((({} : SchedulingDecision).addCallMeLater .reservationStart 0 10 "w!0").addCallMeLater .reservationStart 0 10 "w!1")

/-- The call for a reservation. -/
def start (id : ℕ) : Delivered where
  id := id
  forWhat := .reservationStart
  draws := { number := 0, failure := 0, repair := 0, victim := "" }

/-- One reservation, and two. -/
def one : KeyedMap Job.id IntervalSet := KeyedMap.insert .empty (reservation "w!0" 0) {0}
def two : KeyedMap Job.id IntervalSet := one.insert (reservation "w!1" 1) {1}

/-- The calls come half a second late. -/
theorem lateMessage {allocatedJobs : KeyedMap Job.id IntervalSet} {calls : List Delivered}
    (hreserved : reservationsAt (second allocatedJobs) 10 ≠ [])
    (hregistered : ∀ job ∈ allocatedJobs.keys, (state allocatedJobs).workload job.id = some job)
    (hdistinct : (calls.map (·.id)).Nodup) (hcalls : ∀ call ∈ calls, call = start 0 ∨ call = start 1) :
    LateMessage (state allocatedJobs) 10 (1 / 2) first (second allocatedJobs) [idle] calls where
  profile := rfl
  timed := ⟨⟨horizon, rfl, by norm_num [second], rfl, by norm_num [second, idle, horizon], rfl⟩, by
    intro u hu
    simp only [state, List.mem_cons, List.not_mem_nil, or_false] at hu
    rcases hu with rfl | rfl | rfl
    · norm_num [first]
    · norm_num [second]
    · rfl⟩
  upright := by norm_num [first]
  begins := rfl
  hasReservation := rfl
  reserved := hreserved
  registered := hregistered
  named := by
    intro id job h
    simp only [state] at h
    split_ifs at h with h0 h1
    · cases h
      exact h0.symm
    · cases h
      exact h1.symm
  late := by norm_num
  short := by norm_num [second]
  distinct := hdistinct
  asked := by
    intro call hcall
    rcases hcalls call hcall with rfl | rfl
    · exact ⟨Nat.zero_lt_two, _, rfl, rfl, fun _ => ⟨rfl, nofun⟩⟩
    · exact ⟨Nat.one_lt_two, _, rfl, rfl, fun _ => ⟨rfl, nofun⟩⟩

end LateReservationsWitness

open LateReservationsWitness in
/-- One reservation, whose call comes late. -/
theorem late_callbacks_iff_witness : HandledInTime { nbMachines := 2 } (state one) 10 (1 / 2) (second one) [start 0] :=
  (late_callbacks_iff { nbMachines := 2 } (state one) 10 (1 / 2) first (second one) [idle] [start 0]
    (lateMessage (by decide +kernel) (by decide +kernel) (by decide) (by simp))).2
    ⟨start 0, reservation "w!0" 0, rfl, by decide +kernel, rfl⟩

open LateReservationsWitness in
/-- Two reservations start at the same date, and both calls come half a second late: the second slice begins a second late, and the
reservations are not due. -/
theorem late_callbacks_false :
    (¬ ∀ (c : ConservativeConfig) (s : ConservativeState) (t d : ℚ) (first second : TimeSlice) (rest : List TimeSlice)
      (calls : List Delivered), LateMessage s t d first second rest calls → HandledInTime c s t d second calls) ∧
    ((runFrom (ConservativeBf.step { nbMachines := 2 }) (state two) (events (10 + 1 / 2) [start 0, start 1])).toOption.bind
      fun s => (s.schedule.updateFirstSlice (10 + 1 / 2)).toOption.map fun schedule =>
        (schedule.profile.map (·.beginDate), schedule.reservationsDue.isSome)) = some ([21 / 2, 11, 20], false) := by
  have hrun : ((runFrom (ConservativeBf.step { nbMachines := 2 }) (state two) (events (10 + 1 / 2) [start 0, start 1])).toOption.bind
      fun s => (s.schedule.updateFirstSlice (10 + 1 / 2)).toOption.map fun schedule =>
        (schedule.profile.map (·.beginDate), schedule.reservationsDue.isSome)) = some ([21 / 2, 11, 20], false) := by
    decide +kernel
  refine ⟨fun h => ?_, hrun⟩
  obtain ⟨s', schedule, hok, hupdate, haligned⟩ := h { nbMachines := 2 } (state two) 10 (1 / 2) first (second two) [idle]
    [start 0, start 1] (lateMessage (by decide +kernel) (by decide +kernel) (by decide) (by simp))
  obtain ⟨_, _, hdue, _⟩ := haligned.due
  rw [hok] at hrun
  change (s'.schedule.updateFirstSlice (10 + 1 / 2)).toOption.map _ = _ at hrun
  rw [hupdate] at hrun
  have hnone := congrArg Prod.snd (Option.some.inj hrun)
  simp [hdue] at hnone

end LateReservations

end ScheduleTest
