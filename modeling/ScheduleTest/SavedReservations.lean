import ScheduleTest.JobParts
import ScheduleTest.Reservation
import ScheduleTest.Lib.JsonText

/-!
# Saved reservations in a checkpoint

The text of the saved reservations that `conservative_bf` writes into a checkpoint (`Schedule::vector_to_json_string`,
`ReservedTimeSlice::to_json_string`), and how they are read back from it (`on_ingest_variables`, `ReservedTimeSlice_from_json`).
-/

namespace ScheduleTest

/-- The values in a checkpoint whose texts and roundings come from libraries. -/
structure ValueTexts where
  /-- The nearest double (`Rational::convert_to<double>`, `std::stod`). -/
  toDouble : ℚ → ℚ
  /-- The double that the JSON library makes of a number. It is not always the nearest one. -/
  parseDouble : ℚ → ℚ
  /-- `IntervalSet::to_string_hyphen`. -/
  toStringHyphen : IntervalSet → String
  /-- `IntervalSet::from_string_hyphen`, where it does not throw. -/
  fromStringHyphen : String → Option IntervalSet

/-! ### Writing -/

/-- A text between quotes. Nothing in it is escaped. -/
def quoted (text : List Char) : List Char := '"' :: (text ++ ['"'])

/-- The member of an object with a key and the text of its value. -/
def memberText (key : String) (value : List Char) : List Char := '"' :: (key.toList ++ '"' :: ':' :: value)

/-- The members of an object with a comma between two of them. -/
def objectText (members : List (List Char)) : List Char := '\x7b' :: ([','].intercalate members ++ ['\x7d'])

/-- `batsched_tools::vector_to_json_string` of the texts of the elements. -/
def vectorToJsonString (elements : List (List Char)) : List Char := '[' :: ([',', ' '].intercalate elements ++ [']'])

def boolText (b : Bool) : List Char := (if b then "true" else "false").toList

/-- `batsched_tools::to_json_string` of a job. -/
def Job.toJsonString (job : Job) : List Char := quoted job.id.toList

/-- `batsched_tools::to_json_string` of a number. -/
def ValueTexts.numberText (t : ValueTexts) (value : ℚ) : List Char := Text.printFixed 15 (t.toDouble value)

/-- `batsched_tools::to_json_string` of an allocation. There is no text where its job is not set. -/
def JobAlloc.toJsonString (t : ValueTexts) (alloc : JobAlloc) : Option (List Char) :=
  alloc.job.map fun job => objectText [
    memberText "begin" (quoted (t.numberText alloc.beginDate)),
    memberText "end" (quoted (t.numberText alloc.endDate)),
    memberText "has_been_inserted" (boolText alloc.hasBeenInserted),
    memberText "started_in_first_slice" (boolText alloc.startedInFirstSlice),
    memberText "used_machines" (quoted (t.toStringHyphen alloc.usedMachines).toList),
    memberText "job" job.toJsonString]

/-- `ReservedTimeSlice::to_json_string`. There is no text where a job is not set. -/
def ReservedTimeSlice.toJsonString (t : ValueTexts) (reservation : ReservedTimeSlice) : Option (List Char) :=
  (reservation.alloc.toJsonString t).bind fun alloc => reservation.job.map fun job => objectText [
    memberText "alloc" alloc,
    memberText "job" job.toJsonString,
    memberText "jobs_affected" (vectorToJsonString (reservation.jobsAffected.map Job.toJsonString)),
    memberText "jobs_needed_to_be_killed" (vectorToJsonString (reservation.jobsNeededToBeKilled.map Job.toJsonString)),
    memberText "jobs_to_reschedule" (vectorToJsonString (reservation.jobsToReschedule.map Job.toJsonString)),
    memberText "success" (boolText reservation.success)]

/-- The texts of all reservations, if each has one. -/
def reservationTexts (t : ValueTexts) : List ReservedTimeSlice → Option (List (List Char))
  | [] => some []
  | reservation :: reservations => (reservation.toJsonString t).bind fun text =>
      (reservationTexts t reservations).map (text :: ·)

/-- `Schedule::vector_to_json_string`. The statement for the comma between two elements computes a text and drops it, so
nothing stands between them. -/
def savedReservationsToJsonString (t : ValueTexts) (reservations : List ReservedTimeSlice) : Option String :=
  (reservationTexts t reservations).map fun texts => String.ofList ('[' :: (texts.flatten ++ [']']))

/-! ### Reading -/

/-- Why the reader stops. -/
inductive ReadAbort where
  | missingMember (key : String)
  | wrongType (key : String)
  | noNumber (text : String)
  | noMachines (text : String)
  | unknownJob (jobId : String)
  | invalidId (jobId : String)
  /-- A pointer that was not set is written through. -/
  | pointerNotSet
  deriving DecidableEq

/-- A reservation that was read. A pointer that the reader does not set is `none`. -/
structure ReadTimeSlice where
  success : Bool := false
  jobsAffected : List Job := []
  jobsNeededToBeKilled : List Job := []
  jobsToReschedule : List Job := []
  sliceBegin : ℕ
  sliceEnd : ℕ
  alloc : Option JobAlloc := none
  job : Option Job
  deriving DecidableEq

namespace SavedReservations

/-- The value of a key. It is an assertion of the JSON library that it is there. -/
def getMember (key : String) (value : JsonValue) : Except ReadAbort JsonValue :=
  match value.member? key with
  | some member => .ok member
  | none => .error (.missingMember key)

def getString (key : String) : JsonValue → Except ReadAbort String
  | .string text => .ok text
  | _ => .error (.wrongType key)

def getBool (key : String) : JsonValue → Except ReadAbort Bool
  | .bool b => .ok b
  | _ => .error (.wrongType key)

def getArray (key : String) : JsonValue → Except ReadAbort (List JsonValue)
  | .array values => .ok values
  | _ => .error (.wrongType key)

/-- The number of a date, as a `double`. -/
def getDate (t : ValueTexts) (text : String) : Except ReadAbort ℚ :=
  match Text.stod text.toList with
  | some value => .ok (t.toDouble value)
  | none => .error (.noNumber text)

def getMachines (t : ValueTexts) (text : String) : Except ReadAbort IntervalSet :=
  match t.fromStringHyphen text with
  | some machines => .ok machines
  | none => .error (.noMachines text)

/-- `Workload::operator[]`. -/
def getJob (workload : String → Option Job) (jobId : String) : Except ReadAbort Job :=
  match workload jobId with
  | some job => .ok job
  | none => .error (.unknownJob jobId)

/-- `Schedule::JobAlloc_from_json`. The job of the allocation is not set. -/
def jobAllocFromJson (t : ValueTexts) (value : JsonValue) : Except ReadAbort JobAlloc := do
  let alloc ← if (value.member? "begin").isSome then do
      let beginDate ← getMember "begin" value >>= getString "begin" >>= getDate t
      let endDate ← getMember "end" value >>= getString "end" >>= getDate t
      let hasBeenInserted ← getMember "has_been_inserted" value >>= getBool "has_been_inserted"
      let startedInFirstSlice ← getMember "started_in_first_slice" value >>= getBool "started_in_first_slice"
      .ok {
        beginDate := beginDate
        endDate := endDate
        hasBeenInserted := hasBeenInserted
        startedInFirstSlice := startedInFirstSlice : JobAlloc }
    else .ok {}
  let usedMachines ← getMember "used_machines" value >>= getString "used_machines" >>= getMachines t
  .ok { alloc with usedMachines := usedMachines }

/-- `Schedule::JobVector_from_json`. The ids are looked up as they were written. -/
def jobVectorFromJson (workload : String → Option Job) (key : String) : List JsonValue → Except ReadAbort (List Job)
  | [] => .ok []
  | value :: values => do
    let job ← getString key value >>= getJob workload
    let jobs ← jobVectorFromJson workload key values
    .ok (job :: jobs)

/-- `Schedule::ReservedTimeSlice_from_json`. The id of the job and the success flag are read and not used; the job is that of the
allocation, which is not set. Each of the two slices is the first one in the profile that begins at the date. -/
def reservedTimeSliceFromJson (t : ValueTexts) (workload : String → Option Job) (profile : List TimeSlice) (value : JsonValue) :
    Except ReadAbort ReadTimeSlice := do
  let allocValue ← getMember "alloc" value
  let _ ← getMember "job" value >>= getString "job"
  let affectedValues ← getMember "jobs_affected" value >>= getArray "jobs_affected"
  let killedValues ← getMember "jobs_to_be_killed" value >>= getArray "jobs_to_be_killed"
  let rescheduleValues ← getMember "jobs_to_reschedule" value >>= getArray "jobs_to_reschedule"
  let _ ← getMember "success" value >>= getBool "success"
  let alloc ← jobAllocFromJson t allocValue
  let jobsAffected ← jobVectorFromJson workload "jobs_affected" affectedValues
  let jobsNeededToBeKilled ← jobVectorFromJson workload "jobs_to_be_killed" killedValues
  let jobsToReschedule ← jobVectorFromJson workload "jobs_to_reschedule" rescheduleValues
  .ok {
    jobsAffected := jobsAffected
    jobsNeededToBeKilled := jobsNeededToBeKilled
    jobsToReschedule := jobsToReschedule
    job := alloc.job
    sliceBegin := profile.findIdx (fun slice => slice.beginDate = alloc.beginDate)
    sliceEnd := profile.findIdx (fun slice => slice.beginDate = alloc.endDate) }

def readAll (t : ValueTexts) (workload : String → Option Job) (profile : List TimeSlice) :
    List JsonValue → Except ReadAbort (List ReadTimeSlice)
  | [] => .ok []
  | value :: values => do
    let reservation ← reservedTimeSliceFromJson t workload profile value
    let reservations ← readAll t workload profile values
    .ok (reservation :: reservations)

/-- The saved reservations of a checkpoint (`on_ingest_variables`). -/
def savedReservationsFromJson (t : ValueTexts) (workload : String → Option Job) (profile : List TimeSlice) (value : JsonValue) :
    Except ReadAbort (List ReadTimeSlice) :=
  getArray "_saved_reservations" value >>= readAll t workload profile

end SavedReservations

end ScheduleTest
