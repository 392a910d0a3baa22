import ScheduleTest.Theorems.Alteration

/-!
# The dates of altered jobs

A job's date is kept in four places, and an alteration writes two of them: the dates of all submissions stay, in the job and in its
description. So all four agree afterwards exactly where every job is given the date that its submissions begin with (`BeginWith`).
-/

namespace ScheduleTest

variable {F P : Type*}

/-- The date of a job is the same in the four places where it is kept. -/
structure WorkloadJob.TimesAgree (job : WorkloadJob F) : Prop where
  subtime : job.jsonDescription.subtime = job.submissionTime
  submissionTimes : job.submissionTimes.head? = some job.submissionTime
  described : job.jsonDescription.submissionTimes.bind List.head? = some job.submissionTime

/-- Two jobs differ at most in their dates. -/
def WorkloadJob.SameButTimes (job job' : WorkloadJob F) : Prop :=
  job' = { job with
    submissionTime := job'.submissionTime
    submissionTimes := job'.submissionTimes
    jsonDescription := { job.jsonDescription with
      subtime := job'.jsonDescription.subtime
      submissionTimes := job'.jsonDescription.submissionTimes } }

namespace Alteration

/-- The submissions of some jobs begin with some dates. -/
def BeginWith (jobs : List (WorkloadJob F)) (dates : List ℚ) : Prop :=
  List.Forall₂ (fun job t => job.submissionTimes.head? = some t) jobs dates

/-- The dates that `change_submits` gives to some jobs in order, before it shuffles. -/
def editedSubtimes (opts : SubmissionTimes) (jobs : List (WorkloadJob F)) : List ℚ :=
  opts.value1.elim (jobs.map (·.submissionTime)) fun value1 => newSubtimes value1 opts.random opts.draws jobs.length (-1) 0

/-- The dates of some jobs, shuffled. -/
def shuffledSubtimes (opts : SubmissionTimes) (jobs : List (WorkloadJob F)) : List ℚ :=
  (opts.indices jobs.length).1.filterMap fun index => (jobs.map (·.submissionTime))[index]?

/-- The dates that `copyComponents` gives to the copies of jobs with these dates. -/
def copiedSubtimes (c : Copies) : CopyState → List ℚ → List ℚ
  | _, [] => []
  | st, t :: ts =>
    match copySubtime c st t with
    | .ok (date, st') => date.elim t (·.1) :: copiedSubtimes c { st' with startId := st.startId + 1 } ts
    | .error _ => []

theorem timesAgree_iff {job : WorkloadJob F} (hjob : job.Described) :
    job.TimesAgree ↔ job.submissionTimes.head? = some job.submissionTime :=
  ⟨fun h => h.submissionTimes, fun h => ⟨hjob.subtime, h, by rw [hjob.submissionTimes]; exact h⟩⟩

theorem timesAgree_setSubtime {job : WorkloadJob F} (hjob : job.Described) (t : ℚ) :
    (setSubtime job t).TimesAgree ↔ job.submissionTimes.head? = some t :=
  timesAgree_iff ⟨hjob.profile, rfl, hjob.submissionTimes⟩

theorem timesAgree_zipWith {jobs : List (WorkloadJob F)} {dates : List ℚ} (hjobs : ∀ job ∈ jobs, job.Described)
    (h : dates.length = jobs.length) : (∀ job ∈ jobs.zipWith setSubtime dates, job.TimesAgree) ↔ BeginWith jobs dates := by
  induction jobs generalizing dates with
  | nil =>
    rw [List.length_eq_zero_iff.1 h]
    exact ⟨fun _ => .nil, fun _ _ hjob => absurd hjob List.not_mem_nil⟩
  | cons job jobs ih =>
    cases dates with
    | nil => cases h
    | cons t dates =>
      rw [List.forall_mem_cons] at hjobs
      rw [List.zipWith_cons_cons, List.forall_mem_cons, timesAgree_setSubtime hjobs.1, ih hjobs.2 (Nat.succ.inj h), BeginWith,
        BeginWith, List.forall₂_cons]

/-- Jobs that keep their dates. -/
theorem beginWith_self {jobs : List (WorkloadJob F)} (hjobs : ∀ job ∈ jobs, job.Described) :
    BeginWith jobs (jobs.map (·.submissionTime)) ↔ ∀ job ∈ jobs, job.TimesAgree := by
  rw [BeginWith, List.forall₂_map_right_iff, List.forall₂_same]
  exact forall₂_congr fun job hjob => (timesAgree_iff (hjobs job hjob)).symm

variable {reader : DescriptionReader F P}

theorem Again.timesAgree_iff {job job' : WorkloadJob F} (h : Again reader job job') : job'.TimesAgree ↔ job.TimesAgree := by
  obtain ⟨fields, -, rfl⟩ := h
  exact ⟨fun h => ⟨h.subtime, h.submissionTimes, h.described⟩, fun h => ⟨h.subtime, h.submissionTimes, h.described⟩⟩

theorem Again.timesAgree_all {jobs jobs' : List (WorkloadJob F)} (h : List.Forall₂ (Again reader) jobs jobs') :
    (∀ job ∈ jobs', job.TimesAgree) ↔ ∀ job ∈ jobs, job.TimesAgree := by
  induction h with
  | nil => exact Iff.rfl
  | cons hone _ ih => rw [List.forall_mem_cons, List.forall_mem_cons, hone.timesAgree_iff, ih]

theorem Again.map_submissionTime {jobs jobs' : List (WorkloadJob F)} (h : List.Forall₂ (Again reader) jobs jobs') :
    jobs'.map (·.submissionTime) = jobs.map (·.submissionTime) := by
  induction h with
  | nil => rfl
  | cons hone _ ih =>
    obtain ⟨fields, -, rfl⟩ := hone
    rw [List.map_cons, List.map_cons, ih]

theorem Again.exists_right {jobs jobs' : List (WorkloadJob F)} (h : List.Forall₂ (Again reader) jobs jobs') {job : WorkloadJob F}
    (hjob : job ∈ jobs) : ∃ job' ∈ jobs', Again reader job job' := by
  induction h with
  | nil => cases hjob
  | cons hone _ ih =>
    rcases List.mem_cons.1 hjob with rfl | hjob
    · exact ⟨_, List.mem_cons_self, hone⟩
    · obtain ⟨job', hjob', hagain⟩ := ih hjob
      exact ⟨job', List.mem_cons_of_mem _ hjob', hagain⟩

theorem Again.exists_left {jobs jobs' : List (WorkloadJob F)} (h : List.Forall₂ (Again reader) jobs jobs') {job' : WorkloadJob F}
    (hjob : job' ∈ jobs') : ∃ job ∈ jobs, Again reader job job' := by
  induction h with
  | nil => cases hjob
  | cons hone _ ih =>
    rcases List.mem_cons.1 hjob with rfl | hjob
    · exact ⟨_, List.mem_cons_self, hone⟩
    · obtain ⟨job, hmem, hagain⟩ := ih hjob
      exact ⟨job, List.mem_cons_of_mem _ hmem, hagain⟩

theorem exists_mem_zipWith {jobs : List (WorkloadJob F)} {dates : List ℚ} (h : dates.length = jobs.length) {job : WorkloadJob F}
    (hjob : job ∈ jobs) : ∃ t, setSubtime job t ∈ jobs.zipWith setSubtime dates := by
  obtain ⟨i, hi, rfl⟩ := List.mem_iff_getElem.1 hjob
  refine ⟨dates[i], List.mem_iff_getElem.2 ⟨i, ?_, List.getElem_zipWith⟩⟩
  rw [List.length_zipWith, h, Nat.min_self]
  exact hi

/-- Whether the jobs of a workload agree is a matter of the reservations and of the others. -/
theorem forall_jobs_iff (w : AlterableWorkload F P) (p : WorkloadJob F → Prop) :
    (∀ job ∈ w.jobs, p job) ↔ (∀ job ∈ w.jobs, job.isReservation = true → p job) ∧ ∀ job ∈ w.others, p job := by
  constructor
  · exact fun h => ⟨fun job hjob _ => h job hjob, fun job hjob => h job (AlterableWorkload.mem_others.1 hjob).1⟩
  · rintro ⟨hres, hothers⟩ job hjob
    cases hone : job.isReservation with
    | true => exact hres job hjob hone
    | false => exact hothers job (AlterableWorkload.mem_others.2 ⟨hjob, hone⟩)

/-! ## `change_submits` -/

section

variable {w : AlterableWorkload F P} (hw : w.WellFormed) {jobs : List (WorkloadJob F)}
  (hagain : List.Forall₂ (Again reader) w.others jobs) {sorted : List (WorkloadJob F)} (hsorted : sorted.Perm jobs)

include hw hagain

theorem described_again : ∀ job ∈ jobs, job.Described :=
  Again.described_all hagain fun job hjob => hw.described job (AlterableWorkload.mem_others.1 hjob).1

include hsorted

/-- The jobs agree after dates were given to those that are not reservations. -/
theorem timesAgree_altered {dates : List ℚ} (hdates : dates.length = sorted.length) :
    (∀ job ∈ setJobs w.jobs (sorted.zipWith setSubtime dates), job.TimesAgree) ↔
      (∀ job ∈ w.jobs, job.isReservation = true → job.TimesAgree) ∧ BeginWith sorted dates := by
  rw [← timesAgree_zipWith (fun job hjob => described_again hw hagain job (hsorted.mem_iff.1 hjob)) hdates]
  constructor
  · intro h
    exact ⟨fun job hjob hres => h job ((mem_of_altered hw hagain hsorted hdates).2 (.inr ⟨hjob, hres⟩)),
      fun job hjob => h job ((mem_of_altered hw hagain hsorted hdates).2 (.inl hjob))⟩
  · rintro ⟨hres, hnew⟩ job hjob
    rcases (mem_of_altered hw hagain hsorted hdates).1 hjob with hjob | ⟨hjob, hone⟩
    · exact hnew job hjob
    · exact hres job hjob hone

/-- The jobs are those that got dates and the reservations, each once. -/
theorem perm_altered {dates : List ℚ} (hdates : dates.length = sorted.length) :
    (setJobs w.jobs (sorted.zipWith setSubtime dates)).Perm
      (sorted.zipWith setSubtime dates ++ w.jobs.filter (·.isReservation)) := by
  have hkeys := keys_of_altered hagain hsorted hdates
  have hnew := nodup_of_altered hw hagain hsorted hdates
  have hold : (w.jobs.filter (·.isReservation)).Nodup := (List.Nodup.of_map _ hw.unique).filter _
  have hids : (setJobs w.jobs (sorted.zipWith setSubtime dates)).map (·.id) = w.jobs.map (·.id) :=
    map_id_eq (keeps_of_altered hw (.refl _) hagain hsorted hdates).keys
  refine (List.perm_ext_iff_of_nodup (List.Nodup.of_map _ (hids ▸ hw.unique)) ?_).2 fun job => ?_
  · refine List.nodup_append.2 ⟨List.Nodup.of_map _ hnew, hold, fun job hjob job' hjob' hsame => ?_⟩
    obtain ⟨other, hother, hkey⟩ := List.mem_map.1 (hkeys.mem_iff.1 (List.mem_map_of_mem hjob))
    have hone := (AlterableWorkload.mem_others.1 hother).2
    rw [isReservation_eq_of_key hkey, hsame, (List.mem_filter.1 hjob').2] at hone
    cases hone
  · rw [mem_of_altered hw hagain hsorted hdates, List.mem_append, List.mem_filter]

/-- Where dates are only given to other jobs, they are the same dates. -/
theorem submissionTimes_perm {dates : List ℚ} (hdates : dates.Perm (jobs.map (·.submissionTime))) :
    ((setJobs w.jobs (sorted.zipWith setSubtime dates)).map (·.submissionTime)).Perm (w.jobs.map (·.submissionTime)) := by
  have hlength : dates.length = sorted.length := by rw [hdates.length_eq, List.length_map, hsorted.length_eq]
  have hothers : jobs.map (·.submissionTime) = w.others.map (·.submissionTime) := Again.map_submissionTime hagain
  have hsplit : (w.others ++ w.jobs.filter (·.isReservation)).Perm w.jobs :=
    List.perm_append_comm.trans (List.filter_append_perm _ w.jobs)
  refine ((perm_altered hw hagain hsorted hlength).map _).trans (List.Perm.trans ?_ (hsplit.map _))
  rw [List.map_append, List.map_append, zipWith_setSubtime_submissionTime hlength]
  exact (hothers ▸ hdates).append_right _

/-- Jobs stay what they were but for their dates if reading them again changes nothing, and they have no jitter. -/
theorem sameButTimes_altered {dates : List ℚ} (hdates : dates.length = sorted.length) :
    (∀ job ∈ w.jobs, ∀ job' ∈ setJobs w.jobs (sorted.zipWith setSubtime dates), job'.id = job.id → job.SameButTimes job') ↔
      ∀ job ∈ w.others, job.jitter = "" ∧ reader.readFields job.fields = some job.fields := by
  constructor
  · intro h job hjob
    obtain ⟨again, hmem, hone⟩ := Again.exists_right hagain hjob
    obtain ⟨t, ht⟩ := exists_mem_zipWith hdates (hsorted.mem_iff.2 hmem)
    obtain ⟨fields, hfields, rfl⟩ := hone
    have hsame := h job (AlterableWorkload.mem_others.1 hjob).1 _ ((mem_of_altered hw hagain hsorted hdates).2 (.inl ht)) rfl
    have hjitter : "" = job.jitter := congrArg (·.jitter) hsame
    have hkept : fields = job.fields := congrArg (·.fields) hsame
    exact ⟨hjitter.symm, hkept ▸ hfields⟩
  · intro h job hjob job' hjob' hid
    rcases (mem_of_altered hw hagain hsorted hdates).1 hjob' with hnew | ⟨hold, -⟩
    · obtain ⟨again, hmem, t, rfl⟩ := exists_of_mem_zipWith hnew
      obtain ⟨other, hother, fields, hfields, rfl⟩ := Again.exists_left hagain (hsorted.mem_iff.1 hmem)
      obtain rfl := hw.eq_of_id (AlterableWorkload.mem_others.1 hother).1 hjob hid
      obtain ⟨hjitter, hkept⟩ := h _ hother
      rw [Option.some.inj (hfields.symm.trans hkept)]
      simp only [WorkloadJob.SameButTimes, setSubtime, hjitter]
    · obtain rfl := hw.eq_of_id hold hjob hid
      rfl

end

theorem editSubmits_agree (sorter : Sorter (SortJobBySubmit (F := F))) {opts : SubmissionTimes} {w w' : AlterableWorkload F P}
    (hw : w.WellFormed) (h : editSubmits reader sorter opts w = .ok w') :
    ∃ read, getJobsAsCopiedVector reader w.profiles w.jobs = .ok read ∧
      ((∀ job ∈ w'.jobs, job.TimesAgree) ↔ (∀ job ∈ w.jobs, job.isReservation = true → job.TimesAgree) ∧
        BeginWith (sorter.sort read.2) (editedSubtimes opts (sorter.sort read.2))) := by
  obtain ⟨read, hread, rfl⟩ := Execution.map_eq_ok.1 h
  obtain ⟨-, hagain⟩ := getJobsAsCopiedVector_ok hw.described hread
  refine ⟨read, hread, ?_⟩
  rw [editedSubtimes]
  cases opts.value1 with
  | none =>
    have hdescribed := described_again hw hagain
    have hsorted : (∀ job ∈ sorter.sort read.2, job.TimesAgree) ↔ ∀ job ∈ read.2, job.TimesAgree := by
      simp only [sorter.mem_sort]
    simp only [Option.elim_none]
    rw [beginWith_self fun job hjob => hdescribed job (sorter.mem_sort.1 hjob), hsorted, Again.timesAgree_all hagain]
    exact forall_jobs_iff w _
  | some value1 => exact timesAgree_altered hw hagain (sorter.perm _) (length_newSubtimes ..)

theorem shuffleSubmits_agree (sorter : Sorter (SortJobBySubmit (F := F))) {opts : SubmissionTimes} {w w' : AlterableWorkload F P}
    (hw : w.WellFormed) (h : shuffleSubmits reader sorter opts w = .ok w') :
    ∃ read again, getJobsAsCopiedVector reader w.profiles w.jobs = .ok read ∧
      getJobsAsCopiedVector reader read.1 w.jobs = .ok again ∧
      ((∀ job ∈ w'.jobs, job.TimesAgree) ∧ (w'.jobs.map (·.submissionTime)).Perm (w.jobs.map (·.submissionTime)) ∧
          (∀ job ∈ w.jobs, ∀ job' ∈ w'.jobs, job'.id = job.id → job.SameButTimes job') ↔
        (∀ job ∈ w.jobs, job.isReservation = true → job.TimesAgree) ∧
          BeginWith (sorter.sort again.2) (shuffledSubtimes opts (sorter.sort read.2)) ∧
          ∀ job ∈ w.others, job.jitter = "" ∧ reader.readFields job.fields = some job.fields) := by
  rw [shuffleSubmits] at h
  cases hread : getJobsAsCopiedVector reader w.profiles w.jobs with
  | error e => rw [hread] at h; cases h
  | ok read =>
    rw [hread] at h
    obtain ⟨again, hagain, rfl⟩ := Execution.map_eq_ok.1 h
    obtain ⟨-, hold⟩ := getJobsAsCopiedVector_ok hw.described hread
    obtain ⟨-, hnew⟩ := getJobsAsCopiedVector_ok hw.described hagain
    have hlength : (sorter.sort again.2).length = (sorter.sort read.2).length := by
      rw [(sorter.perm _).length_eq, (sorter.perm _).length_eq, ← hold.length_eq, hnew.length_eq]
    have hdates : (shuffledSubtimes opts (sorter.sort read.2)).Perm ((sorter.sort read.2).map (·.submissionTime)) := by
      have hperm := shuffled_dates_perm reader sorter opts hold hnew
      rwa [hlength] at hperm
    have hperm : (shuffledSubtimes opts (sorter.sort read.2)).Perm (again.2.map (·.submissionTime)) := by
      refine hdates.trans ?_
      rw [Again.map_submissionTime hnew, ← Again.map_submissionTime hold]
      exact (sorter.perm _).map _
    have hcount : (shuffledSubtimes opts (sorter.sort read.2)).length = (sorter.sort again.2).length := by
      rw [hdates.length_eq, List.length_map, hlength]
    have hshuffled : ((opts.indices (sorter.sort again.2).length).1.filterMap fun index =>
        ((sorter.sort read.2).map (·.submissionTime))[index]?) = shuffledSubtimes opts (sorter.sort read.2) := by
      rw [hlength, shuffledSubtimes]
    refine ⟨read, again, rfl, hagain, ?_⟩
    dsimp only
    rw [hshuffled]
    exact Iff.trans (and_congr (timesAgree_altered hw hnew (sorter.perm _) hcount)
      (and_congr (iff_true_intro (submissionTimes_perm hw hnew (sorter.perm _) hperm))
        (sameButTimes_altered hw hnew (sorter.perm _) hcount))) (by rw [true_and, and_assoc])

/-! ## `copyComponents` -/

theorem timesAgree_setCopied {job : WorkloadJob F} (hjob : job.Described) (workload : String) (n : ℤ)
    (date : Option (ℚ × Option String)) : (setCopied (renumber workload n job) date).TimesAgree ↔
      job.submissionTimes.head? = some (date.elim job.submissionTime (·.1)) := by
  cases date with
  | none => exact timesAgree_iff ⟨rfl, hjob.subtime, hjob.submissionTimes⟩
  | some date => exact timesAgree_iff ⟨rfl, rfl, hjob.submissionTimes⟩

theorem timesAgree_copyLoop {c : Copies} {workload : String} {profiles : String → Option P} {st : CopyState}
    {jobs : List (WorkloadJob F)} (hjobs : ∀ job ∈ jobs, job.Described) {copied : List (WorkloadJob F × P) × CopyState}
    (h : copyLoop reader c workload profiles st jobs = .ok copied) :
    (∀ copy ∈ copied.1, copy.1.TimesAgree) ↔ BeginWith jobs (copiedSubtimes c st (jobs.map (·.submissionTime))) := by
  induction jobs generalizing st copied with
  | nil =>
    cases h
    exact ⟨fun _ => .nil, fun _ _ hcopy => absurd hcopy List.not_mem_nil⟩
  | cons job jobs ih =>
    rw [List.forall_mem_cons] at hjobs
    rw [copyLoop] at h
    cases hprofile : (profiles job.profile).bind (reader.copyProfile (toString st.startId)) with
    | none => rw [hprofile] at h; cases h
    | some profile =>
      cases hdate : copySubtime c st job.submissionTime with
      | error e => simp only [hprofile, hdate] at h; cases h
      | ok dated =>
        simp only [hprofile, hdate] at h
        split_ifs at h
        obtain ⟨rest, hrest, rfl⟩ := Execution.map_eq_ok.1 h
        simp only [List.map_cons, copiedSubtimes, hdate]
        rw [List.forall_mem_cons, timesAgree_setCopied hjobs.1, ih hjobs.2 hrest, BeginWith, BeginWith, List.forall₂_cons]

theorem copyComponents_agree (sorter : Sorter (SortJobBySubmit (F := F))) {c : Copies} {workload : String}
    {profiles profiles' : String → Option P} {st st' : CopyState} {oldJobs : List (WorkloadJob F)}
    {copies : List (WorkloadJob F × P)} (hold : ∀ job ∈ oldJobs, job.Described)
    (h : copyComponents reader sorter c workload profiles st oldJobs = .ok (profiles', copies, st')) :
    ∃ read, getJobsAsCopiedVector reader profiles oldJobs = .ok read ∧
      ((∀ copy ∈ copies, copy.1.TimesAgree) ↔ BeginWith (sorter.sort read.2)
        (copiedSubtimes c { st with previousSubtime := -1 } ((sorter.sort read.2).map (·.submissionTime)))) := by
  rw [copyComponents] at h
  cases hread : getJobsAsCopiedVector reader profiles oldJobs with
  | error e => rw [hread] at h; cases h
  | ok read =>
    rw [hread] at h
    obtain ⟨copied, hcopied, hout⟩ := Execution.map_eq_ok.1 h
    obtain ⟨-, hagain⟩ := getJobsAsCopiedVector_ok hold hread
    have hdescribed := Again.described_all hagain fun job hjob => hold job (List.mem_filter.1 hjob).1
    have hcopies : copied.1 = copies := congrArg (·.2.1) hout
    rw [← hcopies]
    exact ⟨read, rfl, timesAgree_copyLoop (fun job hjob => hdescribed job (sorter.mem_sort.1 hjob)) hcopied⟩

end Alteration

open Alteration

namespace AlteredWorkload

/-- Two jobs submitted at 0. -/
def twoJobs : AlterableWorkload (ProfileType × LoadedJob) Profile := { workload 2 with jobs := [job 1 "job", job 2 "job"] }

theorem twoJobs_wellFormed : twoJobs.WellFormed where
  unique := (workload_wellFormed (n := 2) (by decide)).unique
  described := by
    intro j hj
    rcases List.mem_pair.1 hj with rfl | rfl
    all_goals exact ⟨rfl, rfl, rfl⟩
  profile := by
    intro j hj
    rcases List.mem_pair.1 hj with rfl | rfl
    all_goals rfl

/-- All jobs are submitted at 0, and their dates are then taken in the reverse order. -/
def reversed : SubmissionTimes where
  value1 := some 0
  shuffle := true
  indices n := ⟨(List.range n).reverse, List.reverse_perm _⟩

end AlteredWorkload

end ScheduleTest
