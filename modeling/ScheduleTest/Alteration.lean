import ScheduleTest.Loading
import ScheduleTest.Lib.Sorter
import ScheduleTest.Lib.Text

/-!
# How a workload is altered

`alter_workload` (`workload.cpp`): the jobs of a workload that has just been loaded get other submission times, and copies are made
of them. Jobs are not changed in place: they are read again from the descriptions that they keep, with `Job::from_json`, and put
back. Reservations are left out of all this. A job keeps the date of its submission, and the dates of all its submissions, both in
itself and in its description. What else reading a job does, to its other fields and to its profile, is left to a reader.

The random generators of the source are sequences of numbers here, and a shuffle is some order of the positions.
-/

namespace ScheduleTest

inductive AlterationAbort where
  /-- A description, or an option, is not accepted. -/
  | refused
  | jobExists (id : String)
  | profileExists (name : String)
  /-- An `int` overflows. -/
  | overflow
  deriving DecidableEq

/-- What is read of a description, beside the times: the other fields of the job, for which something is done to its profile, and a
profile, under a name. Either may be refused. -/
structure DescriptionReader (F P : Type*) where
  readFields : F → Option F
  editProfile : F → P → P
  copyProfile : String → P → Option P

/-- The fields of a job's description that alterations write. The identifier is written as well, in a way that reads back. -/
structure AlteredDescription where
  profile : String
  subtime : ℚ
  submissionTimes : Option (List ℚ) := none
  deriving DecidableEq

structure WorkloadJob (F : Type*) where
  id : String
  jobNumber : ℤ
  purpose : String := "job"
  profile : String
  submissionTime : ℚ
  submissionTimes : List ℚ
  jitter : String := ""
  jsonDescription : AlteredDescription
  fields : F
  deriving DecidableEq

structure AlterableWorkload (F P : Type*) where
  name : String
  jobs : List (WorkloadJob F)
  profiles : String → Option P

/-- `job->purpose == "reservation"`. -/
def WorkloadJob.isReservation {F : Type*} (job : WorkloadJob F) : Bool := job.purpose == "reservation"

/-- `sort_job_by_submit`, up to the jobs that are alike. -/
def SortJobBySubmit {F : Type*} (j1 j2 : WorkloadJob F) : Prop :=
  j1.submissionTime < j2.submissionTime ∨ j1.submissionTime = j2.submissionTime ∧ j1.jobNumber ≤ j2.jobNumber

instance {F : Type*} : DecidableRel (SortJobBySubmit (F := F)) := fun _ _ => inferInstanceAs (Decidable (_ ∨ _))

instance {F : Type*} : Std.Total (SortJobBySubmit (F := F)) where
  total := fun j1 j2 => by
    rcases lt_trichotomy j1.submissionTime j2.submissionTime with h | h | h
    · exact .inl (.inl h)
    · exact (le_total j1.jobNumber j2.jobNumber).imp (fun hle => .inr ⟨h, hle⟩) fun hle => .inr ⟨h.symm, hle⟩
    · exact .inr (.inl h)

instance {F : Type*} : IsTrans (WorkloadJob F) SortJobBySubmit where
  trans := by
    rintro j1 j2 j3 (h | ⟨h, hle⟩) (h' | ⟨h', hle'⟩)
    · exact .inl (h.trans h')
    · exact .inl (h' ▸ h)
    · exact .inl (h ▸ h')
    · exact .inr ⟨h.trans h', hle.trans hle'⟩

/-- How the dates of `--submission-time-before` and `--submission-time-after` are drawn. -/
inductive RandomKind where
  | fixed | exp | unif
  deriving DecidableEq

/-- `MainArguments::SubmissionTimes`. There may be no first value, if the dates are only shuffled. -/
structure SubmissionTimes where
  value1 : Option ℚ := none
  random : RandomKind := .fixed
  shuffle : Bool := false
  /-- What the generator draws. -/
  draws : ℕ → ℚ := fun _ => 0
  /-- `std::shuffle` of the numbers from 0 on. -/
  indices : (n : ℕ) → { l : List ℕ // l.Perm (List.range n) } := fun n => ⟨List.range n, .refl _⟩

/-- The symbol of `--copy`: `=`, `+` or `-`. -/
inductive CopySymbol where
  | set | plus | minus
  deriving DecidableEq

/-- How often `--copy` draws a number. -/
inductive HowMany where
  | single | eachCopy | all
  deriving DecidableEq

/-- What `--copy` does to the submission times of the copies. -/
inductive CopyTimes where
  | unchanged
  | fixed (symbol : CopySymbol) (value1 : ℤ)
  | exp (symbol : CopySymbol)
  | unif (symbol : CopySymbol) (howMany : HowMany)
  deriving DecidableEq

/-- `MainArguments::Copies`. -/
structure Copies where
  copies : ℕ
  times : CopyTimes := .unchanged
  /-- What the two distributions draw. -/
  expDraws : ℕ → ℚ := fun _ => 0
  unifDraws : ℕ → ℤ := fun _ => 0

namespace Alteration

section

variable {F P : Type*} (reader : DescriptionReader F P) (sorter : Sorter (SortJobBySubmit (F := F)))

/-! ## Reading jobs again -/

/-- `Job::from_json` for the description that a job keeps. The jitter is not in it. -/
def readAgain (profiles : String → Option P) (job : WorkloadJob F) :
    Except AlterationAbort ((String → Option P) × WorkloadJob F) :=
  match profiles job.jsonDescription.profile, reader.readFields job.fields with
  | some p, some fields =>
    let submissionTimes := job.jsonDescription.submissionTimes.getD [job.jsonDescription.subtime]
    .ok (Function.update profiles job.jsonDescription.profile (some (reader.editProfile fields p)), { job with
      profile := job.jsonDescription.profile
      submissionTime := job.jsonDescription.subtime
      submissionTimes := submissionTimes
      jitter := ""
      jsonDescription := { job.jsonDescription with submissionTimes := some submissionTimes }
      fields := fields })
  | _, _ => .error .refused

/-- `get_jobs_as_copied_vector`. -/
def getJobsAsCopiedVector (profiles : String → Option P) :
    List (WorkloadJob F) → Except AlterationAbort ((String → Option P) × List (WorkloadJob F))
  | [] => .ok (profiles, [])
  | job :: jobs =>
    if job.isReservation then getJobsAsCopiedVector profiles jobs
    else match readAgain reader profiles job with
      | .ok read => (getJobsAsCopiedVector read.1 jobs).map fun rest => (rest.1, read.2 :: rest.2)
      | .error e => .error e

/-- `_jobs[job->id] = job`. -/
def setJob (jobs : List (WorkloadJob F)) (job : WorkloadJob F) : List (WorkloadJob F) :=
  if jobs.any (·.id = job.id) then jobs.map fun other => if other.id = job.id then job else other else jobs ++ [job]

/-- `Jobs::set_jobs`. -/
def setJobs (jobs new : List (WorkloadJob F)) : List (WorkloadJob F) := new.foldl setJob jobs

/-- A job gets another submission time, and so does its description. -/
def setSubtime (job : WorkloadJob F) (newSubtime : ℚ) : WorkloadJob F :=
  { job with
    submissionTime := newSubtime
    jsonDescription := { job.jsonDescription with subtime := newSubtime } }

/-! ## `change_submits` -/

/-- The next date behind one: `-1` stands for none. -/
def behind (previousSubtime value : ℚ) : ℚ := if previousSubtime = -1 then value else value + previousSubtime

/-- The dates for some jobs in order, given the date before and how many numbers have been drawn. -/
def newSubtimes (value1 : ℚ) (random : RandomKind) (draws : ℕ → ℚ) : ℕ → ℚ → ℕ → List ℚ
  | 0, _, _ => []
  | n + 1, previousSubtime, drawn =>
    match random with
    | .fixed =>
      let newSubtime := behind previousSubtime value1
      newSubtime :: newSubtimes value1 random draws n (if value1 ≠ 0 then newSubtime else previousSubtime) drawn
    | .exp =>
      let newSubtime := behind previousSubtime (draws drawn)
      newSubtime :: newSubtimes value1 random draws n newSubtime (drawn + 1)
    | .unif =>
      let newSubtime := behind previousSubtime (draws drawn)
      newSubtime :: newSubtimes value1 random draws n newSubtime (drawn + 1)

/-- The first half of `change_submits`. The jobs are read again also where there is no first value. -/
def editSubmits (opts : SubmissionTimes) (w : AlterableWorkload F P) : Except AlterationAbort (AlterableWorkload F P) :=
  (getJobsAsCopiedVector reader w.profiles w.jobs).map fun read =>
    let oldJobs := sorter.sort read.2
    match opts.value1 with
    | some value1 => { w with
        profiles := read.1
        jobs := setJobs w.jobs (oldJobs.zipWith setSubtime (newSubtimes value1 opts.random opts.draws oldJobs.length (-1) 0)) }
    | none => { w with profiles := read.1 }

/-- The second half of `change_submits`: the jobs get the dates of the jobs at other positions. -/
def shuffleSubmits (opts : SubmissionTimes) (w : AlterableWorkload F P) : Except AlterationAbort (AlterableWorkload F P) :=
  match getJobsAsCopiedVector reader w.profiles w.jobs with
  | .error e => .error e
  | .ok read => (getJobsAsCopiedVector reader read.1 w.jobs).map fun readAgain =>
      let oldSubtimes := (sorter.sort read.2).map (·.submissionTime)
      let newJobs := sorter.sort readAgain.2
      { w with
        profiles := readAgain.1
        jobs := setJobs w.jobs
          (newJobs.zipWith setSubtime ((opts.indices newJobs.length).1.filterMap fun index => oldSubtimes[index]?)) }

/-- `Workload::change_submits`. -/
def changeSubmits (w : AlterableWorkload F P) : Option SubmissionTimes → Except AlterationAbort (AlterableWorkload F P)
  | none => .ok w
  | some opts =>
    match editSubmits reader sorter opts w with
    | .ok w' => if opts.shuffle then shuffleSubmits reader sorter opts w' else .ok w'
    | .error e => .error e

/-! ## `copyComponents` -/

/-- The variables of `copyComponents`. The last two outlive a call. -/
structure CopyState where
  startId : ℤ
  previousSubtime : ℚ := -1
  randomNumber : ℤ := -1
  /-- How many numbers have been drawn. -/
  drawn : ℕ := 0

/-- The date of a copy, if it is not that of the job, and its jitter. An exponential distribution may only set dates. -/
def copySubtime (c : Copies) (st : CopyState) (oldSubtime : ℚ) : Except AlterationAbort (Option (ℚ × Option String) × CopyState) :=
  match c.times with
  | .unchanged => .ok (none, st)
  | .fixed .set value1 =>
    let newSubtime := behind st.previousSubtime value1
    .ok (some (newSubtime, none), { st with previousSubtime := if value1 ≠ 0 then newSubtime else st.previousSubtime })
  | .fixed .plus value1 => .ok (some (oldSubtime + value1, some ("+" ++ toString value1)), st)
  | .fixed .minus value1 => .ok (some (oldSubtime - value1, some ("-" ++ toString value1)), st)
  | .exp .set =>
    let newSubtime := behind st.previousSubtime (c.expDraws st.drawn)
    .ok (some (newSubtime, none), { st with previousSubtime := newSubtime, drawn := st.drawn + 1 })
  | .exp _ => .error .refused
  | .unif .set _ =>
    let newSubtime := behind st.previousSubtime (c.unifDraws st.drawn)
    .ok (some (newSubtime, none), { st with previousSubtime := newSubtime, drawn := st.drawn + 1 })
  | .unif symbol howMany =>
    let randomNumber := if st.randomNumber = -1 then c.unifDraws st.drawn else st.randomNumber
    let st' : CopyState := { st with
      randomNumber := if howMany = .all then -1 else randomNumber
      drawn := if st.randomNumber = -1 then st.drawn + 1 else st.drawn }
    if symbol = .plus then .ok (some (oldSubtime + randomNumber, some ("+" ++ toString randomNumber)), st')
    else .ok (some (oldSubtime - randomNumber, some ("-" ++ toString randomNumber)), st')

/-- The identifier of a job with a number (`JobIdentifier`). -/
def identifier (workload : String) (number : ℤ) : String := workload ++ "!" ++ toString number

/-- A job read again becomes a copy: it gets a number, and a profile of that name. -/
def renumber (workload : String) (number : ℤ) (job : WorkloadJob F) : WorkloadJob F :=
  { job with
    id := identifier workload number
    jobNumber := number
    profile := toString number
    jsonDescription := { job.jsonDescription with profile := toString number } }

/-- The date of a copy is noted. -/
def setCopied (job : WorkloadJob F) : Option (ℚ × Option String) → WorkloadJob F
  | none => job
  | some (newSubtime, jitter) => { setSubtime job newSubtime with jitter := jitter.getD job.jitter }

/-- The loop of `copyComponents`. A copy is a job and its profile, which the workload does not have yet. -/
def copyLoop (c : Copies) (workload : String) (profiles : String → Option P) (st : CopyState) :
    List (WorkloadJob F) → Except AlterationAbort (List (WorkloadJob F × P) × CopyState)
  | [] => .ok ([], st)
  | job :: jobs =>
    match (profiles job.profile).bind (reader.copyProfile (toString st.startId)) with
    | none => .error .refused
    | some profile =>
      match copySubtime c st job.submissionTime with
      | .error e => .error e
      | .ok (date, st') =>
        if 2 ^ 31 ≤ st.startId + 1 then .error .overflow
        else (copyLoop c workload profiles { st' with startId := st.startId + 1 } jobs).map fun rest =>
          ((setCopied (renumber workload st.startId job) date, profile) :: rest.1, rest.2)

/-- `Workload::copyComponents`. -/
def copyComponents (c : Copies) (workload : String) (profiles : String → Option P) (st : CopyState)
    (oldJobs : List (WorkloadJob F)) :
    Except AlterationAbort ((String → Option P) × List (WorkloadJob F × P) × CopyState) :=
  match getJobsAsCopiedVector reader profiles oldJobs with
  | .error e => .error e
  | .ok read =>
    (copyLoop reader c workload read.1 { st with previousSubtime := -1 } (sorter.sort read.2)).map fun copied =>
      (read.1, copied.1, { copied.2 with
        randomNumber := match c.times with
          | .unif _ .eachCopy => -1
          | _ => copied.2.randomNumber })

/-- `Jobs::extend`. -/
def extend (w : AlterableWorkload F P) : List (WorkloadJob F × P) → Except AlterationAbort (AlterableWorkload F P)
  | [] => .ok w
  | (job, profile) :: rest =>
    if w.jobs.any (·.id = job.id) then .error (.jobExists job.id)
    else if (w.profiles job.profile).isSome then .error (.profileExists job.profile)
    else extend { w with
      jobs := w.jobs ++ [job]
      profiles := Function.update w.profiles job.profile (some profile) } rest

/-- A `size_t` that becomes an `int`. -/
def toInt (z : ℤ) : ℤ := z.bmod (2 ^ 32)

/-- The loop of `alter_workload` that makes copies. One number is left out between them. -/
def copyRounds (c : Copies) (oldJobs : List (WorkloadJob F)) :
    ℕ → CopyState → AlterableWorkload F P → Except AlterationAbort (AlterableWorkload F P)
  | 0, _, w => .ok w
  | rounds + 1, st, w =>
    match copyComponents reader sorter c w.name w.profiles st oldJobs with
    | .error e => .error e
    | .ok (profiles, newJobs, st') =>
      match extend { w with profiles := profiles } newJobs with
      | .error e => .error e
      | .ok w' => copyRounds c oldJobs rounds { st' with startId := toInt (st.startId + newJobs.length + 1) } w'

/-- `largest_id`. -/
def largestId (jobs : List (WorkloadJob F)) : ℤ :=
  (jobs.map (·.jobNumber)).foldl (fun largest num => if largest < num then num else largest) 0

/-- The part of `alter_workload` that makes copies. -/
def copyJobs (w : AlterableWorkload F P) : Option Copies → Except AlterationAbort (AlterableWorkload F P)
  | none => .ok w
  | some c =>
    match getJobsAsCopiedVector reader w.profiles w.jobs with
    | .error e => .error e
    | .ok read =>
      if 2 ^ 31 ≤ largestId read.2 + 1 then .error .overflow
      else copyRounds reader sorter c read.2 (c.copies - 1) { startId := largestId read.2 + 1 }
        { w with profiles := read.1 }

/-- `Workload::alter_workload`. -/
def alterWorkload (before : Option SubmissionTimes) (copy : Option Copies) (after : Option SubmissionTimes)
    (w : AlterableWorkload F P) : Except AlterationAbort (AlterableWorkload F P) :=
  match changeSubmits reader sorter w before with
  | .error e => .error e
  | .ok w₁ => match copyJobs reader sorter w₁ copy with
    | .error e => .error e
    | .ok w₂ => changeSubmits reader sorter w₂ after

end

end Alteration

/-! ## The reader of the source -/

/-- What `Job::from_json` and `Profile::from_json` do to the fields that have to do with checkpoints and to the delay or the
computation of a profile. Some profiles can be read from a file only. -/
def LoadOptions.reader (o : LoadOptions) (fromFileOnly : Profile → Bool) : DescriptionReader (ProfileType × LoadedJob) Profile where
  readFields := fun f => (timesOf o f.1 f.2.description).toOption.map fun t =>
    (f.1, if f.1 = .other then { description := f.2.description }
      else { description := keptDescription o f.2.description t, times := t })
  editProfile := fun f p => match f.1 with
    | .delay => p.editDelay o f.2.description f.2.times
    | .parallelHomogeneous => p.editParallelHomogeneous o f.2.description f.2.times
    | .other => p
  copyProfile := fun name p => if fromFileOnly p then none else (Profile.fromJson name p.description).toOption

end ScheduleTest
