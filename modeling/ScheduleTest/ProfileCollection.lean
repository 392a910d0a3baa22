import ScheduleTest.TaskExpansion
import Mathlib.Data.Finset.Basic

/-!
# The profiles that a workload keeps

The jobs and the profiles of a workload (`jobs.cpp`, `profiles.cpp`) from when it has been loaded: profiles and jobs are registered,
jobs complete, and jobs are deleted, with their profiles. A pointer to a profile is the name of the profile. A name is never given
to another profile, so the profile that pointers point to is found under its name, also when the map `_profiles` has a null pointer
there. The recursion of `remove_profile` is given a depth at which it is cut off.
-/

namespace ScheduleTest

/-- A profile in memory, with the pointers that a composed one has. -/
structure StoredProfile where
  profile : WorkloadProfile
  profileSequence : List String

/-- The profiles that the jobs and the composed profiles point to. -/
def StoredProfile.subprofiles (stored : StoredProfile) : List String :=
  match stored.profile with
  | .sequence _ => stored.profileSequence
  | _ => []

/-- The jobs and the profiles of a workload. -/
structure WorkloadJobs where
  /-- The profiles that there have been, by name. -/
  stored : List (String × StoredProfile)
  /-- The names under which the map `_profiles` has a null pointer. -/
  removed : Finset String := ∅
  jobs : List ProfiledJob
  jobsMet : List String

/-- What Batsim aborts with. -/
inductive ProfilesAbort where
  /-- `Cannot get profile '%s': it does not exist`. -/
  | doesNotExist (profile : String)
  /-- `Cannot get profile '%s': it existed some time ago but is no longer accessible`. -/
  | noLongerAccessible (profile : String)
  /-- `Bad Profiles::add_profile call: A profile with name='%s' already exists.`. -/
  | profileExists (profile : String)
  /-- `Bad Profiles::remove_profile call: Profile with name='%s' never existed in this workload.`. -/
  | neverExisted (profile : String)
  /-- `Cannot register new job '%s', it already exists in the workload.`. -/
  | jobExists (job : String)
  /-- `Bad Jobs::delete_job call: The job with name='%s' does not exist.`. -/
  | noJob (job : String)
  /-- A null pointer to a job is followed. -/
  | nullJob (job : String)
  | invalid (abort : ValidityAbort)
  /-- The recursion is deeper than it was given. -/
  | tooDeep
  deriving DecidableEq

/-- What happens to the jobs and the profiles. -/
inductive ProfilesEvent where
  | registerProfile (name : String) (profile : WorkloadProfile)
  | registerJob (job : ProfiledJob)
  | completeJob (id : String)
  | deleteJob (id : String)

/-- The profile under a name. -/
def findProfile (stored : List (String × StoredProfile)) (name : String) : Option StoredProfile :=
  (stored.find? (·.1 = name)).map (·.2)

/-- `Profiles::remove_profile`: the names under which there is a null pointer then. -/
def removeProfile (stored : List (String × StoredProfile)) : ℕ → Finset String → String → Except ProfilesAbort (Finset String)
  | 0, _, _ => .error .tooDeep
  | depth + 1, removed, name =>
    match findProfile stored name with
    | none => .error (.neverExisted name)
    | some profile =>
      if name ∈ removed then .ok removed
      else (Execution.runFrom (removeProfile stored depth) removed profile.subprofiles).map (insert name)

namespace WorkloadJobs

variable (w : WorkloadJobs)

/-- `Profiles::exists`. -/
def profileExists (name : String) : Bool := (findProfile w.stored name).isSome

/-- `Profiles::at`. -/
def profileAt (name : String) : Except ProfilesAbort StoredProfile :=
  match findProfile w.stored name with
  | none => .error (.doesNotExist name)
  | some profile => if name ∈ w.removed then .error (.noLongerAccessible name) else .ok profile

/-- The workload as its validity is checked. -/
def toProfiledWorkload : ProfiledWorkload := { profiles := w.stored.map fun entry => (entry.1, entry.2.profile), jobs := w.jobs }

/-- `handle_register_profile` and `Profiles::add_profile`. Nothing fills the pointers of a composed profile that is registered. -/
def registerProfile (name : String) (profile : WorkloadProfile) : Except ProfilesAbort WorkloadJobs :=
  if w.profileExists name then .error (.profileExists name)
  else .ok { w with stored := w.stored ++ [(name, { profile := profile, profileSequence := [] })] }

/-- `handle_register_job`: `Job::from_json` looks the profile up, and `Jobs::add_job` adds the job. -/
def registerJob (job : ProfiledJob) : Except ProfilesAbort WorkloadJobs :=
  if job.id ∈ w.jobsMet then .error (.jobExists job.id)
  else
    match w.profileAt job.profile with
    | .error e => .error e
    | .ok _ =>
      match w.toProfiledWorkload.checkSingleJobValidity job with
      | .error e => .error (.invalid e)
      | .ok _ => .ok { w with jobs := w.jobs ++ [job], jobsMet := w.jobsMet ++ [job.id] }

/-- `Jobs::delete_job`. -/
def deleteJob (depth : ℕ) (id : String) (garbageCollectProfiles : Bool) : Except ProfilesAbort WorkloadJobs :=
  if id ∉ w.jobsMet then .error (.noJob id)
  else
    match w.jobs.find? (·.id = id) with
    | none => .error (.nullJob id)
    | some job =>
      if garbageCollectProfiles then
        (removeProfile w.stored depth w.removed job.profile).map fun removed =>
          { w with jobs := w.jobs.filter (·.id ≠ id), removed := removed }
      else .ok { w with jobs := w.jobs.filter (·.id ≠ id) }

/-- An event, where profiles are garbage collected. The completion of a job changes neither the jobs nor the profiles. -/
def step (depth : ℕ) (w : WorkloadJobs) : ProfilesEvent → Except ProfilesAbort WorkloadJobs
  | .registerProfile name profile => w.registerProfile name profile
  | .registerJob job => w.registerJob job
  | .completeJob id => if w.jobs.any (·.id = id) then .ok w else .error (.noJob id)
  | .deleteJob id => w.deleteJob depth id true

/-! ## The workload that is loaded -/

/-- `use_count` of the pointer in the map `_profiles`: the map, the jobs, and the composed profiles. A composed profile that has
been removed while loading had no other pointer to it, so that it is not in memory any more. -/
def useCount (name : String) : ℕ :=
  (if name ∈ w.removed then 0 else 1) + w.jobs.countP (·.profile = name) +
    ((w.stored.filter (·.1 ∉ w.removed)).flatMap (·.2.subprofiles)).count name

/-- The loop of `Profiles::remove_unreferenced_profiles`, for a name of the map. -/
def removeIfUnreferenced (name : String) : WorkloadJobs :=
  if w.profileExists name ∧ w.useCount name < 2 then { w with removed := insert name w.removed } else w

/-- `Profiles::remove_unreferenced_profiles`, which goes through the names in an order that nothing is known of. -/
def removeUnreferencedProfiles (names : List String) : WorkloadJobs := names.foldl removeIfUnreferenced w

end WorkloadJobs

/-- The pointers that have been put into a composed profile. -/
def CheckedWorkload.pointers (w : CheckedWorkload) (name : String) : List String :=
  ((w.profileSequences.find? (·.1 = name)).map (·.2)).getD []

/-- The jobs and the profiles of a workload that has been checked. -/
def CheckedWorkload.workloadJobs (w : CheckedWorkload) : WorkloadJobs where
  stored := w.profiles.map fun entry => (entry.1, { profile := entry.2, profileSequence := w.pointers entry.1 })
  jobs := w.jobs
  jobsMet := w.jobs.map (·.id)

/-- The end of `Workload::load_from_json`. -/
def ProfiledWorkload.load (w : ProfiledWorkload) (names : List String) : Except ValidityAbort WorkloadJobs :=
  w.checkValidity.map fun checked => checked.workloadJobs.removeUnreferencedProfiles names

end ScheduleTest
