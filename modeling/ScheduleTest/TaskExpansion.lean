import ScheduleTest.Lib.Execution

/-!
# The expansion of a job into tasks

The composed profiles of a workload name the profiles that they execute. `check_validity` (`workload.cpp`) looks these up, and
`initialize_sequential_tasks` (`jobs_execution.cpp`) makes the tree of the tasks of a job, from its profile down. The recursion is
given a depth at which it is cut off, so that what does not end is what is cut off at every depth. A pointer to a profile is the name
of the profile.
-/

namespace ScheduleTest

/-- What a composed profile says. -/
structure SequenceProfileData where
  repeats : ℕ
  sequence : List String

/-- A profile, as far as it is checked and expanded. -/
inductive WorkloadProfile where
  | sequence (data : SequenceProfileData)
  | parallel (nbRes : ℕ)
  | other

structure ProfiledJob where
  id : String
  profile : String
  requestedNbRes : ℕ

structure ProfiledWorkload where
  profiles : List (String × WorkloadProfile)
  jobs : List ProfiledJob

/-- The assertions on the validity of a workload. -/
inductive ValidityAbort where
  /-- `Invalid composed profile '%s': the used profile '%s' does not exist`. -/
  | invalidComposedProfile (profile used : String)
  /-- `Invalid job %s: the associated profile '%s' does not exist`. -/
  | noProfile (job profile : String)
  /-- `Invalid job %s: the requested number of resources (%d) do NOT match ...`. -/
  | wrongNbRes (job : String)
  deriving DecidableEq

/-- A workload that has been checked, with the pointers that have been put into its composed profiles (`profile_sequence`). -/
structure CheckedWorkload extends ProfiledWorkload where
  profileSequences : List (String × List String)

namespace ProfiledWorkload

variable (w : ProfiledWorkload)

/-- `Profiles::at`, where a name that does not exist is an assertion. -/
def profile? (name : String) : Option WorkloadProfile := (w.profiles.find? (·.1 = name)).map (·.2)

/-- A profile that a composed profile uses. -/
def checkUsed (profile used : String) : Except ValidityAbort String :=
  if (w.profile? used).isSome then .ok used else .error (.invalidComposedProfile profile used)

/-- The pointers of a profile of the workload. -/
def checkProfile (entry : String × WorkloadProfile) : Except ValidityAbort (String × List String) :=
  match entry.2 with
  | .sequence data => (data.sequence.mapM (w.checkUsed entry.1)).map (entry.1, ·)
  | _ => .ok (entry.1, [])

/-- `Workload::check_single_job_validity`. -/
def checkSingleJobValidity (job : ProfiledJob) : Except ValidityAbort ProfiledJob :=
  match w.profile? job.profile with
  | none => .error (.noProfile job.id job.profile)
  | some (.parallel nbRes) => if nbRes = job.requestedNbRes then .ok job else .error (.wrongNbRes job.id)
  | some _ => .ok job

/-- `Workload::check_validity`. -/
def checkValidity : Except ValidityAbort CheckedWorkload :=
  (w.profiles.mapM w.checkProfile).bind fun profileSequences =>
    (w.jobs.mapM w.checkSingleJobValidity).map fun _ => { w with profileSequences := profileSequences }

end ProfiledWorkload

/-- A task of a job (`BatTask`), as it is made. -/
inductive SequentialTask where
  | mk (profile : String) (ioProfile : Option String) (subTasks : List SequentialTask)

/-- Why an expansion has no result. -/
inductive ExpansionError where
  /-- The recursion is deeper than it was given. -/
  | tooDeep
  /-- What is not there was read. -/
  | undefinedRead
  deriving DecidableEq

namespace CheckedWorkload

variable (w : CheckedWorkload)

/-- `data->profile_sequence[i]`, for a composed profile. -/
def subProfile (name : String) (i : ℕ) : Except ExpansionError String :=
  match (w.profileSequences.find? (·.1 = name)).bind (·.2[i]?) with
  | some profile => .ok profile
  | none => .error .undefinedRead

/-- The IO profile of a sub-task. The IO profile is taken for a composed one without a check. -/
def subIoProfile (ioProfile : Option String) (i : ℕ) : Except ExpansionError (Option String) :=
  match ioProfile with
  | none => .ok none
  | some io =>
    match w.profile? io with
    | some (.sequence _) => (w.subProfile io i).map some
    | _ => .error .undefinedRead

/-- `initialize_sequential_tasks`. -/
def initializeSequentialTasks : ℕ → String → Option String → Except ExpansionError SequentialTask
  | 0, _, _ => .error .tooDeep
  | depth + 1, profile, ioProfile =>
    match w.profile? profile with
    | none => .error .undefinedRead
    | some (.sequence data) =>
      ((List.replicate data.repeats (List.range data.sequence.length)).flatten.mapM fun i =>
        (w.subProfile profile i).bind fun subProfile => (w.subIoProfile ioProfile i).bind fun subIoProfile =>
          initializeSequentialTasks depth subProfile subIoProfile).map (.mk profile ioProfile)
    | some _ => .ok (.mk profile ioProfile [])

end CheckedWorkload

end ScheduleTest
