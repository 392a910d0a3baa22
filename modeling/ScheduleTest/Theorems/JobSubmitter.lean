import ScheduleTest.JobSubmitter
import Mathlib.Tactic

/-!
# Static submission is exact

While the submitter goes through the jobs in their order, the jobs it has met are those in the messages sent and those it is about to
send. Where a message takes no time, the latter are due at the date reached, and all messages have earlier dates
(`JobSubmitter.Met`).
-/

namespace ScheduleTest

/-- The order of the submission times and the ids. -/
def SubmittedBefore (a b : StaticJob) : Prop := a.submissionTime < b.submissionTime ∨ a.submissionTime = b.submissionTime ∧ a.id ≤ b.id

theorem sorted_iff {a b : StaticJob} : jobComparatorSubtimeNumber b a = false ↔ SubmittedBefore a b := by
  unfold jobComparatorSubtimeNumber SubmittedBefore
  split
  · rename_i heq
    rw [decide_eq_false_iff_not, not_lt, heq]
    exact ⟨fun hid => .inr ⟨rfl, hid⟩, fun h => (h.resolve_left (lt_irrefl _)).2⟩
  · rename_i hne
    rw [decide_eq_false_iff_not, not_lt]
    exact ⟨fun hle => .inl (lt_of_le_of_ne hle (Ne.symm hne)), fun h => (h.resolve_right fun heq => hne heq.1.symm).le⟩

instance : Std.Total fun a b : StaticJob => jobComparatorSubtimeNumber b a = false where
  total a b := by
    rw [sorted_iff, sorted_iff]
    rcases lt_trichotomy a.submissionTime b.submissionTime with hlt | heq | hlt
    · exact .inl (.inl hlt)
    · exact (le_total a.id b.id).imp (fun hid => .inr ⟨heq, hid⟩) fun hid => .inr ⟨heq.symm, hid⟩
    · exact .inr (.inl hlt)

instance : IsTrans StaticJob fun a b => jobComparatorSubtimeNumber b a = false where
  trans a b c hab hbc := by
    rw [sorted_iff] at hab hbc ⊢
    rcases hab with hab | ⟨hab, hid⟩
    · rcases hbc with hbc | ⟨hbc, -⟩
      · exact .inl (hab.trans hbc)
      · exact .inl (hbc ▸ hab)
    · rcases hbc with hbc | ⟨hbc, hid'⟩
      · exact .inl (hab ▸ hbc)
      · exact .inr ⟨hab.trans hbc, hid.trans hid'⟩

theorem SubmittedBefore.le {a b : StaticJob} (h : SubmittedBefore a b) : a.submissionTime ≤ b.submissionTime := by
  rcases h with hlt | ⟨heq, -⟩
  · exact hlt.le
  · exact heq.le

namespace JobSubmitter

/-- A message with jobs. -/
def batchMessage (submitterName : String) (batch : ℚ × List StaticJob) : ℚ × SubmitterMessage :=
  (batch.1, .jobSubmitted submitterName batch.2)

/-- Jobs that are due at a date, for a submitter that starts at another one. -/
def DueAt (startDate date : ℚ) (jobs : List StaticJob) : Prop := ∀ job ∈ jobs, date = max job.submissionTime startDate

/-- Messages with jobs: one for each date, and none without jobs. -/
structure Exact (startDate : ℚ) (batches : List (ℚ × List StaticJob)) : Prop where
  increasing : (batches.map Prod.fst).Pairwise (· < ·)
  nonempty : ∀ batch ∈ batches, batch.2 ≠ []
  due : ∀ batch ∈ batches, DueAt startDate batch.1 batch.2

/-- What is known of the submitter when it has met some jobs and sent some messages after its first one. -/
structure Met (startDate : ℚ) (first : ℚ × SubmitterMessage) (met : List StaticJob) (batches : List (ℚ × List StaticJob))
    (s : JobSubmitter) : Prop where
  date : s.currentSubmissionDate = s.clock
  sent : s.sent = first :: batches.map (batchMessage s.submitterName)
  jobs : batches.flatMap Prod.snd ++ s.jobsToSend = met
  dated : Exact startDate batches
  earlier : ∀ batch ∈ batches, batch.1 < s.clock
  due : DueAt startDate s.clock s.jobsToSend
  reached : s.clock = startDate ∨ startDate < s.clock ∧ ∃ job ∈ met, job.submissionTime = s.clock

variable {startDate : ℚ} {first : ℚ × SubmitterMessage} {met : List StaticJob} {batches : List (ℚ × List StaticJob)}
  {s : JobSubmitter} {job : StaticJob} {sendTime : SubmitterMessage → ℚ}

/-- A message later than the others. -/
theorem Exact.append (h : Exact startDate batches) {date : ℚ} {jobs : List StaticJob} (hne : jobs ≠ [])
    (hdue : DueAt startDate date jobs) (hearlier : ∀ batch ∈ batches, batch.1 < date) :
    Exact startDate (batches ++ [(date, jobs)]) where
  increasing := by
    rw [List.map_append, List.pairwise_append]
    refine ⟨h.increasing, List.pairwise_singleton _ _, fun a ha b hb => ?_⟩
    obtain ⟨batch, hbatch, rfl⟩ := List.mem_map.1 ha
    obtain rfl := List.mem_singleton.1 hb
    exact hearlier batch hbatch
  nonempty := List.forall_mem_append.2 ⟨h.nonempty, List.forall_mem_singleton.2 hne⟩
  due := List.forall_mem_append.2 ⟨h.due, List.forall_mem_singleton.2 hdue⟩

/-- The jobs that are due are sent, if there are any. -/
theorem Met.submitJobsToServer (sendTime : SubmitterMessage → ℚ) (h : Met startDate first met batches s) :
    ∃ batches', (s.submitJobsToServer sendTime).sent = first :: batches'.map (batchMessage s.submitterName) ∧
      batches'.flatMap Prod.snd = met ∧ Exact startDate batches' ∧ ∀ batch ∈ batches', batch.1 ≤ s.clock := by
  unfold JobSubmitter.submitJobsToServer
  by_cases hempty : s.jobsToSend = []
  · have hjobs := h.jobs
    rw [hempty, List.append_nil] at hjobs
    rw [if_pos (List.isEmpty_iff.2 hempty)]
    exact ⟨batches, h.sent, hjobs, h.dated, fun batch hbatch => (h.earlier batch hbatch).le⟩
  · rw [if_neg fun hnil => hempty (List.isEmpty_iff.1 hnil)]
    refine ⟨batches ++ [(s.clock, s.jobsToSend)], ?_, ?_, h.dated.append hempty h.due h.earlier, ?_⟩
    · simp [sendMessage, h.sent, batchMessage]
    · rw [List.flatMap_append, List.flatMap_singleton]
      exact h.jobs
    · exact List.forall_mem_append.2 ⟨fun batch hbatch => (h.earlier batch hbatch).le, List.forall_mem_singleton.2 le_rfl⟩

@[simp] theorem submitterName_submitJobsToServer (s : JobSubmitter) :
    (s.submitJobsToServer sendTime).submitterName = s.submitterName := by
  unfold submitJobsToServer sendMessage
  split <;> rfl

@[simp] theorem currentSubmissionDate_submitJobsToServer (s : JobSubmitter) :
    (s.submitJobsToServer sendTime).currentSubmissionDate = s.currentSubmissionDate := by
  unfold submitJobsToServer sendMessage
  split <;> rfl

/-- The clock stands still where a message takes no time. -/
theorem clock_submitJobsToServer (hfree : ∀ message, sendTime message = 0) (s : JobSubmitter) :
    (s.submitJobsToServer sendTime).clock = s.clock := by
  unfold submitJobsToServer sendMessage
  split
  · rfl
  · dsimp only
    rw [hfree, add_zero]

@[simp] theorem submitterName_meet (s : JobSubmitter) (job : StaticJob) : (s.meet sendTime job).submitterName = s.submitterName := by
  unfold meet waitFor sleepFor
  dsimp only
  split
  · exact submitterName_submitJobsToServer s
  · rfl

/-- A job that is not before those met already is met. -/
theorem Met.meet (hfree : ∀ message, sendTime message = 0) (h : Met startDate first met batches s)
    (hjob : ∀ other ∈ met, other.submissionTime ≤ job.submissionTime) :
    ∃ batches', Met startDate first (met ++ [job]) batches' (s.meet sendTime job) := by
  unfold JobSubmitter.meet
  by_cases hlater : s.currentSubmissionDate < job.submissionTime
  · obtain ⟨batches', hsent, hjobs, hexact, hearlier⟩ := h.submitJobsToServer sendTime
    have hnow : s.clock + (job.submissionTime - s.currentSubmissionDate) = job.submissionTime := by
      rw [h.date]
      ring
    have hstart : startDate < job.submissionTime := by
      rw [h.date] at hlater
      rcases h.reached with heq | ⟨hlt, -⟩
      · rwa [← heq]
      · exact hlt.trans hlater
    rw [h.date] at hlater
    refine ⟨batches', ?_⟩
    dsimp only
    rw [if_pos (by rwa [h.date])]
    unfold waitFor sleepFor
    dsimp only
    rw [clock_submitJobsToServer hfree, currentSubmissionDate_submitJobsToServer, hnow]
    exact {
      date := rfl
      sent := by
        dsimp only
        rw [submitterName_submitJobsToServer]
        exact hsent
      jobs := by
        dsimp only
        rw [hjobs, List.nil_append]
      dated := hexact
      earlier := fun batch hbatch => (hearlier batch hbatch).trans_lt hlater
      due := by
        intro other hother
        obtain rfl := List.mem_singleton.1 hother
        exact (max_eq_left hstart.le).symm
      reached := .inr ⟨hstart, job, by simp, rfl⟩ }
  · rw [h.date] at hlater
    have hdue : s.clock = max job.submissionTime startDate := by
      rcases h.reached with heq | ⟨hlt, other, hother, htime⟩
      · rw [heq] at hlater ⊢
        exact (max_eq_right (not_lt.1 hlater)).symm
      · have hle := hjob other hother
        rw [htime] at hle
        have heq : job.submissionTime = s.clock := le_antisymm (not_lt.1 hlater) hle
        rw [heq]
        exact (max_eq_left hlt.le).symm
    refine ⟨batches, ?_⟩
    dsimp only
    rw [if_neg (by rwa [h.date])]
    exact {
      date := h.date
      sent := h.sent
      jobs := by
        dsimp only
        rw [← List.append_assoc, h.jobs]
      dated := h.dated
      earlier := h.earlier
      due := List.forall_mem_append.2 ⟨h.due, List.forall_mem_singleton.2 hdue⟩
      reached := h.reached.imp_right fun hlater =>
        ⟨hlater.1, hlater.2.imp fun other hother => ⟨List.mem_append_left _ hother.1, hother.2⟩⟩ }

@[simp] theorem submitterName_foldl (s : JobSubmitter) (rest : List StaticJob) :
    (rest.foldl (JobSubmitter.meet sendTime) s).submitterName = s.submitterName := by
  induction rest generalizing s with
  | nil => rfl
  | cons job rest ih => rw [List.foldl_cons, ih, submitterName_meet]

/-- All the jobs of a list in order are met. -/
theorem Met.foldl (hfree : ∀ message, sendTime message = 0) {rest : List StaticJob} (h : Met startDate first met batches s)
    (hsorted : (met ++ rest).Pairwise SubmittedBefore) :
    ∃ batches', Met startDate first (met ++ rest) batches' (rest.foldl (JobSubmitter.meet sendTime) s) := by
  induction rest generalizing met batches s with
  | nil =>
    rw [List.append_nil]
    exact ⟨batches, h⟩
  | cons job rest ih =>
    have hbefore : ∀ other ∈ met, other.submissionTime ≤ job.submissionTime := fun other hother =>
      ((List.pairwise_append.1 hsorted).2.2 other hother job List.mem_cons_self).le
    obtain ⟨batches', hmet⟩ := h.meet hfree hbefore
    rw [List.append_cons] at hsorted ⊢
    exact ih hmet hsorted

end JobSubmitter

open JobSubmitter in
/-- Where a message takes no time, the submitter greets the server, sends every job once, in order, each at its submission time or at
the date at which the submitter starts, those of one date in one message, and takes its leave. -/
theorem static_submission_exact (sendTime : SubmitterMessage → ℚ) (hfree : ∀ message, sendTime message = 0)
    (sorter : Sorter fun a b => jobComparatorSubtimeNumber b a = false) (workloadName : String) (jobs : List StaticJob) (startDate : ℚ) :
    ∃ (batches : List (ℚ × List StaticJob)) (endDate : ℚ),
      staticJobSubmitterProcess sendTime sorter workloadName jobs startDate =
        (startDate, .submitterHello (workloadName ++ "_submitter")) ::
          batches.map (fun batch => (batch.1, .jobSubmitted (workloadName ++ "_submitter") batch.2)) ++
        [(endDate, .submitterBye (workloadName ++ "_submitter"))] ∧
      (batches.flatMap Prod.snd).Perm jobs ∧
      (batches.flatMap Prod.snd).Pairwise SubmittedBefore ∧
      (∀ batch ∈ batches, batch.2 ≠ [] ∧ ∀ job ∈ batch.2, batch.1 = max job.submissionTime startDate) ∧
      (batches.map Prod.fst).Pairwise (· < ·) ∧
      ∀ batch ∈ batches, batch.1 ≤ endDate := by
  have hsorted : (sorter.sort jobs).Pairwise SubmittedBefore := (sorter.sorted jobs).imp sorted_iff.1
  obtain ⟨s, hs⟩ : ∃ s, s = JobSubmitter.sendMessage sendTime
      { submitterName := workloadName ++ "_submitter", clock := startDate, currentSubmissionDate := startDate }
      (.submitterHello (workloadName ++ "_submitter")) := ⟨_, rfl⟩
  have hclock : s.clock = startDate := by
    rw [hs, sendMessage, hfree, add_zero]
  have hstart : Met startDate (startDate, .submitterHello (workloadName ++ "_submitter")) [] []
      { s with currentSubmissionDate := s.clock } := {
    date := rfl
    sent := by rw [hs]; rfl
    jobs := by rw [hs]; rfl
    dated := ⟨.nil, by simp, by simp⟩
    earlier := by simp
    due := by
      rw [hs]
      exact fun job hjob => absurd hjob List.not_mem_nil
    reached := .inl hclock }
  obtain ⟨batches', hmet⟩ := hstart.foldl hfree hsorted
  obtain ⟨batches, hsent, hjobs, hdated, hearlier⟩ := hmet.submitJobsToServer sendTime
  rw [List.nil_append] at hjobs
  rw [submitterName_foldl] at hsent
  have hname : s.submitterName = workloadName ++ "_submitter" := by rw [hs]; rfl
  refine ⟨batches, _, ?_, hjobs ▸ sorter.perm jobs, hjobs ▸ hsorted,
    fun batch hbatch => ⟨hdated.nonempty batch hbatch, hdated.due batch hbatch⟩, hdated.increasing, hearlier⟩
  unfold staticJobSubmitterProcess
  dsimp only
  rw [← hs, sendMessage, hsent, clock_submitJobsToServer hfree]
  simp only [hname]
  rfl

/-- Three jobs, two of which have the same date: the first is submitted before the submitter starts. -/
theorem static_submission_exact_witness :
    ∃ (batches : List (ℚ × List StaticJob)) (endDate : ℚ),
      staticJobSubmitterProcess (fun _ => 0) (Sorter.stable _) "w"
        [{ id := "w!2", submissionTime := 5 }, { id := "w!1", submissionTime := 5 }, { id := "w!3", submissionTime := 0 }] 1 =
        (1, .submitterHello "w_submitter") :: batches.map (fun batch => (batch.1, .jobSubmitted "w_submitter" batch.2)) ++
          [(endDate, .submitterBye "w_submitter")] ∧
      (batches.flatMap Prod.snd).Perm
        [{ id := "w!2", submissionTime := 5 }, { id := "w!1", submissionTime := 5 }, { id := "w!3", submissionTime := 0 }] ∧
      (batches.map Prod.fst).Pairwise (· < ·) := by
  obtain ⟨batches, endDate, hsent, hperm, -, -, hincreasing, -⟩ := static_submission_exact (fun _ => 0) (fun _ => rfl)
    (Sorter.stable _) "w"
    [{ id := "w!2", submissionTime := 5 }, { id := "w!1", submissionTime := 5 }, { id := "w!3", submissionTime := 0 }] 1
  exact ⟨batches, endDate, hsent, hperm, hincreasing⟩

end ScheduleTest
