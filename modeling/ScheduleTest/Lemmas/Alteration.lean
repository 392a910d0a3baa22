import ScheduleTest.Alteration
import ScheduleTest.Lib.Execution
import Mathlib.Data.List.Forall2
import Mathlib.Logic.Relation

/-!
# What an alteration leaves of a workload

A job that is read again is the job that was there, but for its jitter and the fields that are left to the reader (`Again`). Jobs
that are put back take the places of those of the same identifiers. So an alteration of dates leaves the key of every job, and
reservations whole (`Keeps`).
-/

namespace ScheduleTest

variable {F P : Type*}

/-- What no alteration writes: how a job is told apart, its purpose and its profile. -/
def WorkloadJob.key (job : WorkloadJob F) : String × ℤ × String × String := (job.id, job.jobNumber, job.purpose, job.profile)

/-- A job and its description say the same. -/
structure WorkloadJob.Described (job : WorkloadJob F) : Prop where
  profile : job.jsonDescription.profile = job.profile
  subtime : job.jsonDescription.subtime = job.submissionTime
  submissionTimes : job.jsonDescription.submissionTimes = some job.submissionTimes

namespace AlterableWorkload

/-- The jobs that are not reservations. -/
def others (w : AlterableWorkload F P) : List (WorkloadJob F) := w.jobs.filter fun job => !job.isReservation

/-- Jobs are under their identifiers, as described, and have profiles. -/
structure WellFormed (w : AlterableWorkload F P) : Prop where
  unique : (w.jobs.map (·.id)).Nodup
  described : ∀ job ∈ w.jobs, job.Described
  profile : ∀ job ∈ w.jobs, (w.profiles job.profile).isSome

theorem mem_others {w : AlterableWorkload F P} {job : WorkloadJob F} :
    job ∈ w.others ↔ job ∈ w.jobs ∧ job.isReservation = false := by
  simp [others]

theorem WellFormed.unique_others {w : AlterableWorkload F P} (h : w.WellFormed) : (w.others.map (·.id)).Nodup :=
  h.unique.sublist (List.filter_sublist.map _)

/-- Two jobs of the same identifier are one. -/
theorem WellFormed.eq_of_id {w : AlterableWorkload F P} (h : w.WellFormed) {job job' : WorkloadJob F} (hjob : job ∈ w.jobs)
    (hjob' : job' ∈ w.jobs) (hid : job.id = job'.id) : job = job' :=
  List.inj_on_of_nodup_map h.unique hjob hjob' hid

end AlterableWorkload

namespace Alteration

theorem id_eq_of_key {job job' : WorkloadJob F} (h : job.key = job'.key) : job.id = job'.id := congrArg (·.1) h

theorem isReservation_eq_of_key {job job' : WorkloadJob F} (h : job.key = job'.key) :
    job.isReservation = job'.isReservation := by
  have hpurpose : job.purpose = job'.purpose := congrArg (·.2.2.1) h
  simp only [WorkloadJob.isReservation, hpurpose]

theorem profile_eq_of_key {job job' : WorkloadJob F} (h : job.key = job'.key) : job.profile = job'.profile :=
  congrArg (·.2.2.2) h

theorem map_id_eq {jobs jobs' : List (WorkloadJob F)} (h : jobs'.map (·.key) = jobs.map (·.key)) :
    jobs'.map (·.id) = jobs.map (·.id) := by
  simpa only [List.map_map, Function.comp_def, WorkloadJob.key] using congrArg (List.map (·.1)) h

@[simp] theorem setSubtime_key (job : WorkloadJob F) (t : ℚ) : (setSubtime job t).key = job.key := rfl

@[simp] theorem setSubtime_id (job : WorkloadJob F) (t : ℚ) : (setSubtime job t).id = job.id := rfl

variable (reader : DescriptionReader F P)

/-! ## Profiles -/

/-- A profile is still there, and was changed only by reading; or there is still none. -/
def EditedTo : Option P → Option P → Prop :=
  Option.Rel (Relation.ReflTransGen fun p p' => ∃ fields, p' = reader.editProfile fields p)

/-- All profiles are still there. -/
def Edited (profiles profiles' : String → Option P) : Prop := ∀ name, EditedTo reader (profiles name) (profiles' name)

variable {reader}

theorem EditedTo.refl : ∀ p : Option P, EditedTo reader p p
  | none => .none
  | some _ => .some .refl

theorem EditedTo.trans {p₁ p₂ p₃ : Option P} (h : EditedTo reader p₁ p₂) (h' : EditedTo reader p₂ p₃) : EditedTo reader p₁ p₃ := by
  cases h with
  | none => exact h'
  | some h₁₂ =>
    cases h' with
    | some h₂₃ => exact .some (h₁₂.trans h₂₃)

theorem EditedTo.isSome_eq {p p' : Option P} (h : EditedTo reader p p') : p'.isSome = p.isSome := by
  cases h <;> rfl

theorem Edited.refl (profiles : String → Option P) : Edited reader profiles profiles := fun _ => .refl _

theorem Edited.trans {profiles₁ profiles₂ profiles₃ : String → Option P} (h : Edited reader profiles₁ profiles₂)
    (h' : Edited reader profiles₂ profiles₃) : Edited reader profiles₁ profiles₃ := fun name => (h name).trans (h' name)

theorem Edited.update {profiles : String → Option P} {name : String} {p : P} (h : profiles name = some p) (fields : F) :
    Edited reader profiles (Function.update profiles name (some (reader.editProfile fields p))) := by
  intro other
  by_cases hother : other = name
  · rw [hother, Function.update_self, h]
    exact .some (.single ⟨fields, rfl⟩)
  · rw [Function.update_of_ne hother]
    exact Edited.refl profiles other

/-! ## Reading jobs again -/

variable (reader)

/-- One job is another that was read again. -/
def Again (job job' : WorkloadJob F) : Prop :=
  ∃ fields, reader.readFields job.fields = some fields ∧ job' = { job with jitter := "", fields := fields }

variable {reader}

theorem Again.key_eq {job job' : WorkloadJob F} (h : Again reader job job') : job'.key = job.key := by
  obtain ⟨fields, -, rfl⟩ := h
  rfl

theorem Again.described {job job' : WorkloadJob F} (h : Again reader job job') (hjob : job.Described) : job'.Described := by
  obtain ⟨fields, -, rfl⟩ := h
  exact ⟨hjob.profile, hjob.subtime, hjob.submissionTimes⟩

theorem readAgain_ok {profiles : String → Option P} {job : WorkloadJob F} {read : (String → Option P) × WorkloadJob F}
    (hjob : job.Described) (h : readAgain reader profiles job = .ok read) :
    Edited reader profiles read.1 ∧ Again reader job read.2 := by
  unfold readAgain at h
  split at h
  case h_1 p fields hp hfields =>
    cases h
    refine ⟨.update hp fields, fields, hfields, ?_⟩
    simp only [hjob.profile, hjob.subtime, hjob.submissionTimes, Option.getD_some]
    congr 1
    rw [← hjob.profile, ← hjob.subtime, ← hjob.submissionTimes]
  case h_2 => cases h

theorem readAgain_error {profiles : String → Option P} {job : WorkloadJob F} {e : AlterationAbort}
    (h : readAgain reader profiles job = .error e) : e = .refused := by
  unfold readAgain at h
  split at h
  · cases h
  · cases h
    rfl

/-- All jobs but the reservations are read again. -/
theorem getJobsAsCopiedVector_ok {profiles : String → Option P} {jobs : List (WorkloadJob F)}
    {read : (String → Option P) × List (WorkloadJob F)} (hjobs : ∀ job ∈ jobs, job.Described)
    (h : getJobsAsCopiedVector reader profiles jobs = .ok read) :
    Edited reader profiles read.1 ∧ List.Forall₂ (Again reader) (jobs.filter fun job => !job.isReservation) read.2 := by
  induction jobs generalizing profiles read with
  | nil =>
    cases h
    exact ⟨.refl _, .nil⟩
  | cons job jobs ih =>
    have hrest := fun j hj => hjobs j (List.mem_cons_of_mem _ hj)
    rw [getJobsAsCopiedVector] at h
    by_cases hres : job.isReservation = true
    · rw [if_pos hres] at h
      rw [List.filter_cons_of_neg (by simp [hres])]
      exact ih hrest h
    · rw [if_neg hres] at h
      rw [List.filter_cons_of_pos (by simp [hres])]
      cases hone : readAgain reader profiles job with
      | error e => rw [hone] at h; cases h
      | ok one =>
        obtain ⟨hedit, hagain⟩ := readAgain_ok (hjobs job List.mem_cons_self) hone
        simp only [hone] at h
        obtain ⟨all, hall, rfl⟩ := Execution.map_eq_ok.1 h
        obtain ⟨hedit', hagain'⟩ := ih hrest hall
        exact ⟨hedit.trans hedit', .cons hagain hagain'⟩

theorem getJobsAsCopiedVector_error {profiles : String → Option P} {jobs : List (WorkloadJob F)} {e : AlterationAbort}
    (h : getJobsAsCopiedVector reader profiles jobs = .error e) : e = .refused := by
  induction jobs generalizing profiles with
  | nil => cases h
  | cons job jobs ih =>
    rw [getJobsAsCopiedVector] at h
    split_ifs at h
    · exact ih h
    · cases hone : readAgain reader profiles job with
      | error e' =>
        rw [hone] at h
        cases h
        exact readAgain_error hone
      | ok one =>
        simp only [hone] at h
        exact ih (Execution.map_eq_error.1 h)

theorem Again.map_key {jobs jobs' : List (WorkloadJob F)} (h : List.Forall₂ (Again reader) jobs jobs') :
    jobs'.map (·.key) = jobs.map (·.key) := by
  induction h with
  | nil => rfl
  | cons hone _ ih => rw [List.map_cons, List.map_cons, hone.key_eq, ih]

/-! ## Putting jobs back -/

/-- A job takes the place of the one of its identifier. -/
theorem mem_setJob {jobs : List (WorkloadJob F)} {job x : WorkloadJob F} :
    x ∈ setJob jobs job ↔ x = job ∨ x ∈ jobs ∧ job.id ≠ x.id := by
  by_cases hany : jobs.any (·.id = job.id) = true
  · obtain ⟨old, hold, hid⟩ := List.any_eq_true.1 hany
    have hid := of_decide_eq_true hid
    rw [setJob, if_pos hany, List.mem_map]
    constructor
    · rintro ⟨other, hother, rfl⟩
      split_ifs with hsame
      · exact .inl rfl
      · exact .inr ⟨hother, Ne.symm hsame⟩
    · rintro (rfl | ⟨hx, hne⟩)
      · exact ⟨old, hold, if_pos hid⟩
      · exact ⟨x, hx, if_neg (Ne.symm hne)⟩
  · have hnone : ∀ other ∈ jobs, other.id ≠ job.id := fun other hother hsame =>
      hany (List.any_eq_true.2 ⟨other, hother, decide_eq_true hsame⟩)
    rw [setJob, if_neg hany, List.mem_append, List.mem_singleton]
    constructor
    · rintro (hx | rfl)
      · exact .inr ⟨hx, Ne.symm (hnone x hx)⟩
      · exact .inl rfl
    · rintro (rfl | ⟨hx, -⟩)
      · exact .inr rfl
      · exact .inl hx

theorem mem_setJobs {jobs new : List (WorkloadJob F)} {x : WorkloadJob F} (hnew : (new.map (·.id)).Nodup) :
    x ∈ setJobs jobs new ↔ x ∈ new ∨ x ∈ jobs ∧ ∀ job ∈ new, job.id ≠ x.id := by
  induction new generalizing jobs with
  | nil => simp [setJobs]
  | cons job new ih =>
    rw [List.map_cons, List.nodup_cons] at hnew
    have hstep : setJobs jobs (job :: new) = setJobs (setJob jobs job) new := rfl
    rw [hstep, ih hnew.2, mem_setJob, List.forall_mem_cons, List.mem_cons]
    constructor
    · rintro (hx | ⟨rfl | ⟨hx, hne⟩, hrest⟩)
      · exact .inl (.inr hx)
      · exact .inl (.inl rfl)
      · exact .inr ⟨hx, hne, hrest⟩
    · rintro ((rfl | hx) | ⟨hx, hne, hrest⟩)
      · exact .inr ⟨.inl rfl, fun other hother hid => hnew.1 (hid ▸ List.mem_map_of_mem hother)⟩
      · exact .inl hx
      · exact .inr ⟨.inr ⟨hx, hne⟩, hrest⟩

theorem setJob_key {jobs : List (WorkloadJob F)} {job : WorkloadJob F} (hjobs : (jobs.map (·.id)).Nodup)
    (hjob : job.key ∈ jobs.map (·.key)) : (setJob jobs job).map (·.key) = jobs.map (·.key) := by
  obtain ⟨old, hold, hkey⟩ := List.mem_map.1 hjob
  rw [setJob, if_pos (List.any_eq_true.2 ⟨old, hold, decide_eq_true (id_eq_of_key hkey)⟩), List.map_map]
  refine List.map_congr_left fun other hother => ?_
  rw [Function.comp_apply]
  split_ifs with hsame
  · rw [← hkey, List.inj_on_of_nodup_map hjobs hother hold (hsame.trans (id_eq_of_key hkey).symm)]
  · rfl

theorem setJobs_key {jobs new : List (WorkloadJob F)} (hjobs : (jobs.map (·.id)).Nodup)
    (hnew : ∀ job ∈ new, job.key ∈ jobs.map (·.key)) : (setJobs jobs new).map (·.key) = jobs.map (·.key) := by
  induction new generalizing jobs with
  | nil => rfl
  | cons job new ih =>
    have hkey := setJob_key hjobs (hnew job List.mem_cons_self)
    refine Eq.trans (ih (map_id_eq hkey ▸ hjobs) fun other hother => ?_) hkey
    exact hkey ▸ hnew other (List.mem_cons_of_mem _ hother)

/-! ## Alterations of dates -/

variable (reader)

/-- Nothing is lost: keys and reservations are as they were, profiles but for what reading does. -/
structure Keeps (w w' : AlterableWorkload F P) : Prop where
  name : w'.name = w.name
  keys : w'.jobs.map (·.key) = w.jobs.map (·.key)
  reservations : ∀ job ∈ w.jobs, job.isReservation = true → job ∈ w'.jobs
  profiles : Edited reader w.profiles w'.profiles

variable {reader}

theorem Keeps.refl (w : AlterableWorkload F P) : Keeps reader w w := ⟨rfl, rfl, fun _ hjob _ => hjob, .refl _⟩

theorem Keeps.trans {w₁ w₂ w₃ : AlterableWorkload F P} (h : Keeps reader w₁ w₂) (h' : Keeps reader w₂ w₃) : Keeps reader w₁ w₃ where
  name := h'.name.trans h.name
  keys := h'.keys.trans h.keys
  reservations := fun job hjob hres => h'.reservations job (h.reservations job hjob hres) hres
  profiles := h.profiles.trans h'.profiles

theorem Keeps.wellFormed {w w' : AlterableWorkload F P} (h : Keeps reader w w') (hw : w.WellFormed)
    (hdescribed : ∀ job ∈ w'.jobs, job.Described) : w'.WellFormed where
  unique := map_id_eq h.keys ▸ hw.unique
  described := hdescribed
  profile := by
    intro job hjob
    obtain ⟨old, hold, hkey⟩ := List.mem_map.1 (h.keys ▸ List.mem_map_of_mem hjob : job.key ∈ w.jobs.map (·.key))
    rw [(h.profiles job.profile).isSome_eq, ← profile_eq_of_key hkey]
    exact hw.profile old hold

theorem zipWith_setSubtime_key {jobs : List (WorkloadJob F)} {dates : List ℚ} (h : dates.length = jobs.length) :
    (jobs.zipWith setSubtime dates).map (·.key) = jobs.map (·.key) := by
  induction jobs generalizing dates with
  | nil => simp
  | cons job jobs ih =>
    cases dates with
    | nil => cases h
    | cons t dates => simp [ih (Nat.succ.inj h)]

theorem zipWith_setSubtime_submissionTime {jobs : List (WorkloadJob F)} {dates : List ℚ} (h : dates.length = jobs.length) :
    (jobs.zipWith setSubtime dates).map (·.submissionTime) = dates := by
  induction jobs generalizing dates with
  | nil => rw [List.length_eq_zero_iff.1 h, List.zipWith_nil_left, List.map_nil]
  | cons job jobs ih =>
    cases dates with
    | nil => cases h
    | cons t dates => rw [List.zipWith_cons_cons, List.map_cons, ih (Nat.succ.inj h), setSubtime]

theorem exists_of_mem_zipWith {jobs : List (WorkloadJob F)} {dates : List ℚ} {x : WorkloadJob F}
    (h : x ∈ jobs.zipWith setSubtime dates) : ∃ job ∈ jobs, ∃ t, x = setSubtime job t := by
  induction jobs generalizing dates with
  | nil => cases h
  | cons job jobs ih =>
    cases dates with
    | nil => cases h
    | cons t dates =>
      rcases List.mem_cons.1 h with rfl | h
      · exact ⟨job, List.mem_cons_self, t, rfl⟩
      · obtain ⟨old, hold, htime⟩ := ih h
        exact ⟨old, List.mem_cons_of_mem _ hold, htime⟩

theorem Again.described_all {jobs jobs' : List (WorkloadJob F)} (h : List.Forall₂ (Again reader) jobs jobs')
    (hjobs : ∀ job ∈ jobs, job.Described) : ∀ job' ∈ jobs', job'.Described := by
  induction h with
  | nil => exact fun _ h => absurd h List.not_mem_nil
  | cons hone _ ih =>
    rw [List.forall_mem_cons] at hjobs ⊢
    exact ⟨hone.described hjobs.1, ih hjobs.2⟩

section

variable {w : AlterableWorkload F P} (hw : w.WellFormed) {profiles : String → Option P}
  {jobs : List (WorkloadJob F)} (hedited : Edited reader w.profiles profiles) (hagain : List.Forall₂ (Again reader) w.others jobs)
  {sorted : List (WorkloadJob F)} (hsorted : sorted.Perm jobs) {dates : List ℚ} (hdates : dates.length = sorted.length)

include hagain hsorted hdates

/-- The jobs that get dates are the jobs that are not reservations. -/
theorem keys_of_altered : ((sorted.zipWith setSubtime dates).map (·.key)).Perm (w.others.map (·.key)) := by
  rw [zipWith_setSubtime_key hdates, ← Again.map_key hagain]
  exact hsorted.map _

include hw

theorem nodup_of_altered : ((sorted.zipWith setSubtime dates).map (·.id)).Nodup := by
  have hperm := (keys_of_altered hagain hsorted hdates).map (·.1)
  simp only [List.map_map, Function.comp_def, WorkloadJob.key] at hperm
  exact hperm.nodup_iff.2 hw.unique_others

/-- The jobs of the workload are those that got dates, and the reservations. -/
theorem mem_of_altered {x : WorkloadJob F} : x ∈ setJobs w.jobs (sorted.zipWith setSubtime dates) ↔
    x ∈ sorted.zipWith setSubtime dates ∨ x ∈ w.jobs ∧ x.isReservation = true := by
  have hkeys := keys_of_altered hagain hsorted hdates
  rw [mem_setJobs (nodup_of_altered hw hagain hsorted hdates)]
  refine or_congr Iff.rfl (and_congr_right fun hx => ⟨fun hne => ?_, fun hres job hjob hid => ?_⟩)
  · by_contra hres
    have hother : x ∈ w.others := AlterableWorkload.mem_others.2 ⟨hx, eq_false_of_ne_true hres⟩
    obtain ⟨job, hjob, hkey⟩ := List.mem_map.1 (hkeys.mem_iff.2 (List.mem_map_of_mem hother))
    exact hne job hjob (id_eq_of_key hkey)
  · obtain ⟨old, hold, hkey⟩ := List.mem_map.1 (hkeys.mem_iff.1 (List.mem_map_of_mem hjob))
    obtain ⟨hold, hother⟩ := AlterableWorkload.mem_others.1 hold
    have hsame := hw.eq_of_id hold hx ((id_eq_of_key hkey).trans hid)
    rw [hsame, hres] at hother
    cases hother

include hedited

theorem keeps_of_altered :
    Keeps reader w { w with profiles, jobs := setJobs w.jobs (sorted.zipWith setSubtime dates) } where
  name := rfl
  keys := by
    refine setJobs_key hw.unique fun job hjob => ?_
    obtain ⟨old, hold, hkey⟩ :=
      List.mem_map.1 ((keys_of_altered hagain hsorted hdates).mem_iff.1 (List.mem_map_of_mem hjob))
    exact hkey ▸ List.mem_map_of_mem (AlterableWorkload.mem_others.1 hold).1
  reservations := fun job hjob hres => (mem_of_altered hw hagain hsorted hdates).2 (.inr ⟨hjob, hres⟩)
  profiles := hedited

theorem wellFormed_of_altered :
    AlterableWorkload.WellFormed { w with profiles, jobs := setJobs w.jobs (sorted.zipWith setSubtime dates) } := by
  refine (keeps_of_altered hw hedited hagain hsorted hdates).wellFormed hw fun x hx => ?_
  rcases (mem_of_altered hw hagain hsorted hdates).1 hx with hx | ⟨hx, -⟩
  · obtain ⟨job, hjob, t, rfl⟩ := exists_of_mem_zipWith hx
    have hjob := Again.described_all hagain (fun j hj => hw.described j (AlterableWorkload.mem_others.1 hj).1) job
      (hsorted.mem_iff.1 hjob)
    exact ⟨hjob.profile, rfl, hjob.submissionTimes⟩
  · exact hw.described x hx

end

/-! ## `change_submits` -/

@[simp] theorem length_newSubtimes (value1 : ℚ) (random : RandomKind) (draws : ℕ → ℚ) (n : ℕ) (previousSubtime : ℚ) (drawn : ℕ) :
    (newSubtimes value1 random draws n previousSubtime drawn).length = n := by
  induction n generalizing previousSubtime drawn with
  | zero => rfl
  | succ n ih => cases random <;> simp [newSubtimes, ih]

/-- What is at all the positions of a list is the list. -/
theorem filterMap_range (dates : List ℚ) : ((List.range dates.length).filterMap fun index => dates[index]?) = dates := by
  induction dates using List.reverseRecOn with
  | nil => rfl
  | append_singleton dates t ih =>
    have hfront : ((List.range dates.length).filterMap fun index => (dates ++ [t])[index]?)
        = (List.range dates.length).filterMap fun index => dates[index]? :=
      List.filterMap_congr fun index hindex => List.getElem?_append_left (List.mem_range.1 hindex)
    rw [List.length_append, List.length_singleton, List.range_succ, List.filterMap_append, hfront, ih]
    simp

/-- A shuffle keeps the dates. -/
theorem shuffled_perm {indices : List ℕ} {dates : List ℚ} (h : indices.Perm (List.range dates.length)) :
    (indices.filterMap fun index => dates[index]?).Perm dates := by
  simpa only [filterMap_range] using h.filterMap fun index => dates[index]?

variable (reader) (sorter : Sorter (SortJobBySubmit (F := F)))

theorem editSubmits_yields (opts : SubmissionTimes) {w : AlterableWorkload F P} (hw : w.WellFormed) :
    Execution.Yields (fun w' => Keeps reader w w' ∧ w'.WellFormed) (· = .refused) (editSubmits reader sorter opts w) := by
  refine .intro (fun w' h => ?_) fun e h => getJobsAsCopiedVector_error (Execution.map_eq_error.1 h)
  obtain ⟨read, hread, rfl⟩ := Execution.map_eq_ok.1 h
  obtain ⟨hedited, hagain⟩ := getJobsAsCopiedVector_ok hw.described hread
  cases opts.value1 with
  | none =>
    have hkeeps : Keeps reader w { w with profiles := read.1 } := ⟨rfl, rfl, fun _ hjob _ => hjob, hedited⟩
    exact ⟨hkeeps, hkeeps.wellFormed hw hw.described⟩
  | some value1 =>
    exact ⟨keeps_of_altered hw hedited hagain (sorter.perm _) (length_newSubtimes ..),
      wellFormed_of_altered hw hedited hagain (sorter.perm _) (length_newSubtimes ..)⟩

/-- A shuffle of the dates of some jobs has a date for each of those of another reading. -/
theorem shuffled_dates_perm (opts : SubmissionTimes) {jobs old new : List (WorkloadJob F)}
    (hold : List.Forall₂ (Again reader) jobs old) (hnew : List.Forall₂ (Again reader) jobs new) :
    ((opts.indices (sorter.sort new).length).1.filterMap fun index => ((sorter.sort old).map (·.submissionTime))[index]?).Perm
      ((sorter.sort old).map (·.submissionTime)) := by
  refine shuffled_perm ?_
  have hlength : (sorter.sort new).length = ((sorter.sort old).map (·.submissionTime)).length := by
    rw [List.length_map, (sorter.perm new).length_eq, (sorter.perm old).length_eq, ← hold.length_eq, hnew.length_eq]
  exact hlength ▸ (opts.indices (sorter.sort new).length).2

theorem shuffleSubmits_yields (opts : SubmissionTimes) {w : AlterableWorkload F P} (hw : w.WellFormed) :
    Execution.Yields (fun w' => Keeps reader w w' ∧ w'.WellFormed) (· = .refused) (shuffleSubmits reader sorter opts w) := by
  unfold shuffleSubmits
  cases hread : getJobsAsCopiedVector reader w.profiles w.jobs with
  | error e => exact getJobsAsCopiedVector_error hread
  | ok read =>
    obtain ⟨hedited, hold⟩ := getJobsAsCopiedVector_ok hw.described hread
    refine .intro (fun w' h => ?_) fun e h => getJobsAsCopiedVector_error (Execution.map_eq_error.1 h)
    obtain ⟨again, hagain, rfl⟩ := Execution.map_eq_ok.1 h
    obtain ⟨hedited', hnew⟩ := getJobsAsCopiedVector_ok hw.described hagain
    have hdates : ((opts.indices (sorter.sort again.2).length).1.filterMap
        fun index => ((sorter.sort read.2).map (·.submissionTime))[index]?).length = (sorter.sort again.2).length := by
      rw [(shuffled_dates_perm reader sorter opts hold hnew).length_eq, List.length_map, (sorter.perm _).length_eq,
        (sorter.perm _).length_eq, ← hold.length_eq, hnew.length_eq]
    exact ⟨keeps_of_altered hw (hedited.trans hedited') hnew (sorter.perm _) hdates,
      wellFormed_of_altered hw (hedited.trans hedited') hnew (sorter.perm _) hdates⟩

theorem changeSubmits_yields (opts : Option SubmissionTimes) {w : AlterableWorkload F P} (hw : w.WellFormed) :
    Execution.Yields (fun w' => Keeps reader w w' ∧ w'.WellFormed) (· = .refused) (changeSubmits reader sorter w opts) := by
  cases opts with
  | none => exact ⟨.refl w, hw⟩
  | some opts =>
    have hedit := editSubmits_yields reader sorter opts hw
    simp only [changeSubmits]
    cases hrun : editSubmits reader sorter opts w with
    | error e => exact hedit.of_error hrun
    | ok w₁ =>
      obtain ⟨hkeeps, hw₁⟩ := hedit.of_ok hrun
      have hnext := shuffleSubmits_yields reader sorter opts hw₁
      cases hshuffle : opts.shuffle with
      | true => exact .intro (fun w' h => ⟨hkeeps.trans (hnext.of_ok h).1, (hnext.of_ok h).2⟩) fun e h => hnext.of_error h
      | false => exact ⟨hkeeps, hw₁⟩

variable {reader sorter}

theorem changeSubmits_some {opts : SubmissionTimes} {w w' : AlterableWorkload F P}
    (h : changeSubmits reader sorter w (some opts) = .ok w') : ∃ w₁, editSubmits reader sorter opts w = .ok w₁ ∧
      (if opts.shuffle then shuffleSubmits reader sorter opts w₁ else .ok w₁) = .ok w' := by
  simp only [changeSubmits] at h
  cases hedit : editSubmits reader sorter opts w with
  | error e => rw [hedit] at h; cases h
  | ok w₁ =>
    rw [hedit] at h
    exact ⟨w₁, rfl, h⟩

end Alteration

end ScheduleTest
