import ScheduleTest.SavedReservations

/-!
# The variables in a checkpoint

The text of `batsched_variables.chkpt`, which `ISchedulingAlgorithm::on_checkpoint_batsched` begins and
`ConservativeBackfilling::on_checkpoint_batsched` goes on with, and how the variables are read back from it
(`ISchedulingAlgorithm::ingest_variables`).
-/

namespace ScheduleTest

/-- `batsched_tools::KILL_TYPES`. -/
inductive KillType where
  | none
  | fixedFailure
  | smtbf
  | mtbf
  | reservation
  deriving DecidableEq

/-- The number of a kill type. -/
def KillType.toInt : KillType → ℤ
  | none => 0
  | fixedFailure => 1
  | smtbf => 2
  | mtbf => 3
  | reservation => 4

/-- `batsched_tools::Job_Message`. -/
structure JobMessage where
  id : String
  progressStr : String
  progress : ℚ
  forWhat : KillType := .none
  deriving DecidableEq

/-- A value of type `int`. -/
abbrev CInt := {z : ℤ // Text.IsInt z}

/-- The variables that are written, in this order: first those of every algorithm, then those of `conservative_bf`. The policies
are their numbers. -/
structure CheckpointVariables where
  consumedJoules : ℚ := 0
  machinesThatBecameAvailableRecently : IntervalSet := ∅
  machinesThatBecameUnavailableRecently : IntervalSet := ∅
  machinesWhosePstateChangedRecently : KeyedMap (id : ℤ → ℤ) IntervalSet := .empty
  jobsWhoseWaitingTimeEstimationHasBeenRequestedRecently : List String := []
  /-- The entries of an `unordered_map`, in the order in which it lists them. -/
  jobsKilledRecently : List (String × JobMessage) := []
  jobsEndedRecently : List String := []
  jobsReleasedRecently : List String := []
  nbCallMeLaters : CInt := ⟨0, by decide⟩
  outputSvg : String := "none"
  svgFrameStart : ℤ := 1
  svgFrameEnd : ℤ := -1
  svgOutputStart : ℤ := 1
  svgOutputEnd : ℤ := -1
  reschedulePolicy : CInt := ⟨0, by decide⟩
  impactPolicy : CInt := ⟨0, by decide⟩
  previousDate : ℚ := 0
  savedReservations : List ReservedTimeSlice := []
  killedJobs : Bool := false
  needToSendFinishedSubmittingJobs : Bool := true
  savedRecentlyQueuedJobs : List String := []
  savedRecentlyEndedJobs : List String := []
  recentlyUnderRepairMachines : IntervalSet := ∅
  needToCompress : Bool := false
  checkpointingOn : Bool := false
  startAReservation : Bool := false
  resubmittedJobs : List (String × KillType) := []
  resubmittedJobsReleased : List (Job × KillType) := []
  onMachineInstantDownUps : List KillType := []
  onMachineDownForRepairs : List KillType := []

/-! ### Writing -/

def intText (z : ℤ) : List Char := (toString z).toList

/-- `batsched_tools::to_json_string` of a string. -/
def stringText (text : String) : List Char := quoted text.toList

/-- `batsched_tools::vector_to_json_string` of strings. -/
def stringsText (texts : List String) : List Char := vectorToJsonString (texts.map stringText)

/-- `batsched_tools::pair_to_json_string`. -/
def pairText (key value : List Char) : List Char := objectText [' ' :: memberText "key" key, ' ' :: memberText "value" value]

/-- `batsched_tools::to_json_string` of a message about a job. -/
def JobMessage.toJsonString (t : ValueTexts) (message : JobMessage) : List Char := objectText [
  memberText "id" (stringText message.id),
  memberText "progress_str" (stringText message.progressStr),
  memberText "progress" (t.numberText message.progress),
  memberText "forWhat" (intText message.forWhat.toInt)]

/-- A member on a line of its own. -/
def lineText (indent : String) (key : String) (value : List Char) : List Char := '\n' :: (indent.toList ++ memberText key value)

namespace CheckpointVariables

/-- What `batsched_tools::map_to_json_string` writes for the machines whose power state changed: the machines stand without
quotes. -/
def pstateText (t : ValueTexts) (entry : ℤ × IntervalSet) : List Char :=
  pairText (intText entry.1) (t.toStringHyphen entry.2).toList

/-- `ISchedulingAlgorithm::on_checkpoint_batsched`. -/
def baseLines (t : ValueTexts) (v : CheckpointVariables) : List (List Char) := [
  lineText "\t\t" "_consumed_joules" (t.numberText v.consumedJoules),
  lineText "\t\t" "_machines_that_became_available_recently"
    (stringText (t.toStringHyphen v.machinesThatBecameAvailableRecently)),
  lineText "\t\t" "_machines_that_became_unavailable_recently"
    (stringText (t.toStringHyphen v.machinesThatBecameUnavailableRecently)),
  lineText "\t\t" "_machines_whose_pstate_changed_recently"
    (vectorToJsonString (v.machinesWhosePstateChangedRecently.entries.map (pstateText t))),
  lineText "\t\t" "_jobs_whose_waiting_time_estimation_has_been_requested_recently"
    (stringsText v.jobsWhoseWaitingTimeEstimationHasBeenRequestedRecently),
  lineText "\t\t" "_jobs_killed_recently"
    (vectorToJsonString (v.jobsKilledRecently.map fun entry => pairText (stringText entry.1) (entry.2.toJsonString t))),
  lineText "\t\t" "_jobs_ended_recently" (stringsText v.jobsEndedRecently),
  lineText "\t\t" "_jobs_released_recently" (stringsText v.jobsReleasedRecently),
  lineText "\t\t" "_nb_call_me_laters" (intText v.nbCallMeLaters) ++ ['\n', '\t']]

/-- `ConservativeBackfilling::on_checkpoint_batsched`, with the text of the saved reservations. -/
def derivedLines (t : ValueTexts) (v : CheckpointVariables) (savedReservations : String) : List (List Char) := [
  lineText "\t" "_output_svg" (stringText v.outputSvg),
  lineText "\t" "_svg_frame_start" (intText v.svgFrameStart),
  lineText "\t" "_svg_frame_end" (intText v.svgFrameEnd),
  lineText "\t" "_svg_output_start" (intText v.svgOutputStart),
  lineText "\t" "_svg_output_end" (intText v.svgOutputEnd),
  lineText "\t" "_reschedule_policy" (intText v.reschedulePolicy),
  lineText "\t" "_impact_policy" (intText v.impactPolicy),
  lineText "\t" "_previous_date" (t.numberText v.previousDate),
  lineText "\t" "_saved_reservations" savedReservations.toList,
  lineText "\t" "_killed_jobs" (boolText v.killedJobs),
  lineText "\t" "_need_to_send_finished_submitting_jobs" (boolText v.needToSendFinishedSubmittingJobs),
  lineText "\t" "_saved_recently_queued_jobs" (stringsText v.savedRecentlyQueuedJobs),
  lineText "\t" "_saved_recently_ended_jobs" (stringsText v.savedRecentlyEndedJobs),
  lineText "\t" "_recently_under_repair_machines" (stringText (t.toStringHyphen v.recentlyUnderRepairMachines)),
  lineText "\t" "_need_to_compress" (boolText v.needToCompress),
  lineText "\t" "_checkpointing_on" (boolText v.checkpointingOn),
  lineText "\t" "_start_a_reservation" (boolText v.startAReservation),
  lineText "\t" "_resubmitted_jobs"
    (vectorToJsonString (v.resubmittedJobs.map fun entry => pairText (stringText entry.1) (intText entry.2.toInt))),
  lineText "\t" "_resubmitted_jobs_released"
    (vectorToJsonString (v.resubmittedJobsReleased.map fun entry => pairText entry.1.toJsonString (intText entry.2.toInt))),
  lineText "\t" "_on_machine_instant_down_ups"
    (vectorToJsonString (v.onMachineInstantDownUps.map fun killType => intText killType.toInt)),
  lineText "\t" "_on_machine_down_for_repairs"
    (vectorToJsonString (v.onMachineDownForRepairs.map fun killType => intText killType.toInt)) ++ ['\n']]

/-- The document of the two parts (`checkpoint_batsched`). -/
def documentText (t : ValueTexts) (v : CheckpointVariables) (savedReservations : String) : List Char := objectText [
  lineText "\t" "base" (objectText (baseLines t v)) ++ ['\n', '\t'],
  lineText "\t" "derived" (objectText (derivedLines t v savedReservations)) ++ ['\n']]

/-- `batsched_variables.chkpt`. There is no text where a job of a saved reservation is not set. -/
def toText (t : ValueTexts) (v : CheckpointVariables) : Option String :=
  (savedReservationsToJsonString t v.savedReservations).map fun savedReservations =>
    String.ofList (documentText t v savedReservations)

end CheckpointVariables

/-! ### Reading -/

/-- The variables that `ISchedulingAlgorithm::on_ingest_variables` restores. -/
structure BaseVariables where
  consumedJoules : ℚ
  machinesThatBecameAvailableRecently : IntervalSet
  machinesThatBecameUnavailableRecently : IntervalSet
  machinesWhosePstateChangedRecently : KeyedMap (id : ℤ → ℤ) IntervalSet
  jobsKilledRecently : List (String × JobMessage)
  nbCallMeLaters : CInt

/-- The variables that `ConservativeBackfilling::on_ingest_variables` restores. The kinds of failures are their numbers. -/
structure DerivedVariables where
  reschedulePolicy : CInt
  impactPolicy : CInt
  previousDate : ℚ
  savedReservations : List ReadTimeSlice
  killedJobs : Bool
  needToSendFinishedSubmittingJobs : Bool
  recentlyUnderRepairMachines : IntervalSet
  checkpointingOn : Bool
  startAReservation : Bool
  onMachineInstantDownUps : List CInt
  onMachineDownForRepairs : List CInt

namespace CheckpointVariables

open SavedReservations

/-- The number of a key, as a `double`. -/
def getDouble (t : ValueTexts) (key : String) : JsonValue → Except ReadAbort ℚ
  | .int z => .ok (t.toDouble z.val)
  | .double x => .ok (t.parseDouble x)
  | _ => .error (.wrongType key)

def getInt (key : String) : JsonValue → Except ReadAbort CInt
  | .int z => if h : Text.IsInt z.val then .ok ⟨z.val, h⟩ else .error (.wrongType key)
  | _ => .error (.wrongType key)

/-- Machines whose text may be empty. -/
def getMachinesOrNone (t : ValueTexts) (text : String) : Except ReadAbort IntervalSet :=
  if text = "" then .ok ∅ else getMachines t text

/-- The machines that became unavailable: where their text is not empty, the text of those that became available is read. -/
def getUnavailable (t : ValueTexts) (available unavailable : String) : Except ReadAbort IntervalSet :=
  if unavailable = "" then .ok ∅ else getMachines t available

def readPstates (t : ValueTexts) (machines : KeyedMap (id : ℤ → ℤ) IntervalSet) :
    List JsonValue → Except ReadAbort (KeyedMap (id : ℤ → ℤ) IntervalSet)
  | [] => .ok machines
  | entry :: entries => do
    let key ← getMember "key" entry >>= getInt "key"
    let value ← getMember "value" entry >>= getString "value" >>= getMachines t
    readPstates t (machines.insert key.1 value) entries

/-- The messages about killed jobs: each is written through a pointer that was not set. -/
def readKilled : List JsonValue → Except ReadAbort (List (String × JobMessage))
  | [] => .ok []
  | entry :: _ => do
    let _ ← getMember "key" entry >>= getString "key"
    let jobId ← getMember "value" entry >>= getMember "id" >>= getString "id"
    match BatschedTools.getJobParts jobId with
    | none => .error (.invalidId jobId)
    | some _ => .error .pointerNotSet

def readInts (key : String) : List JsonValue → Except ReadAbort (List CInt)
  | [] => .ok []
  | value :: values => do
    let first ← getInt key value
    let rest ← readInts key values
    .ok (first :: rest)

/-- `ISchedulingAlgorithm::on_ingest_variables`. -/
def ingestBase (t : ValueTexts) (doc : JsonValue) : Except ReadAbort BaseVariables := do
  let base ← getMember "base" doc
  let consumedJoules ← getMember "_consumed_joules" base >>= getDouble t "_consumed_joules"
  let mtbar ← getMember "_machines_that_became_available_recently" base >>=
    getString "_machines_that_became_available_recently"
  let available ← getMachinesOrNone t mtbar
  let mtbur ← getMember "_machines_that_became_unavailable_recently" base >>=
    getString "_machines_that_became_unavailable_recently"
  let unavailable ← getUnavailable t mtbar mtbur
  let pstates ← getMember "_machines_whose_pstate_changed_recently" base >>=
    getArray "_machines_whose_pstate_changed_recently" >>= readPstates t .empty
  let killed ← getMember "_jobs_killed_recently" base >>= getArray "_jobs_killed_recently" >>= readKilled
  let nbCallMeLaters ← getMember "_nb_call_me_laters" base >>= getInt "_nb_call_me_laters"
  .ok {
    consumedJoules := consumedJoules
    machinesThatBecameAvailableRecently := available
    machinesThatBecameUnavailableRecently := unavailable
    machinesWhosePstateChangedRecently := pstates
    jobsKilledRecently := killed
    nbCallMeLaters := nbCallMeLaters }

/-- `ConservativeBackfilling::on_ingest_variables`. -/
def ingestDerived (t : ValueTexts) (workload : String → Option Job) (profile : List TimeSlice) (doc : JsonValue) :
    Except ReadAbort DerivedVariables := do
  let derived ← getMember "derived" doc
  let reschedulePolicy ← getMember "_reschedule_policy" derived >>= getInt "_reschedule_policy"
  let impactPolicy ← getMember "_impact_policy" derived >>= getInt "_impact_policy"
  let previousDate ← getMember "_previous_date" derived >>= getDouble t "_previous_date"
  let savedReservations ← getMember "_saved_reservations" derived >>= savedReservationsFromJson t workload profile
  let killedJobs ← getMember "_killed_jobs" derived >>= getBool "_killed_jobs"
  let needToSend ← getMember "_need_to_send_finished_submitting_jobs" derived >>=
    getBool "_need_to_send_finished_submitting_jobs"
  let rurm ← getMember "_recently_under_repair_machines" derived >>= getString "_recently_under_repair_machines"
  let underRepair ← getMachinesOrNone t rurm
  let checkpointingOn ← getMember "_checkpointing_on" derived >>= getBool "_checkpointing_on"
  let startAReservation ← getMember "_start_a_reservation" derived >>= getBool "_start_a_reservation"
  let downUps ← getMember "_on_machine_instant_down_ups" derived >>= getArray "_on_machine_instant_down_ups" >>=
    readInts "_on_machine_instant_down_ups"
  let downs ← getMember "_on_machine_down_for_repairs" derived >>= getArray "_on_machine_down_for_repairs" >>=
    readInts "_on_machine_down_for_repairs"
  .ok {
    reschedulePolicy := reschedulePolicy
    impactPolicy := impactPolicy
    previousDate := previousDate
    savedReservations := savedReservations
    killedJobs := killedJobs
    needToSendFinishedSubmittingJobs := needToSend
    recentlyUnderRepairMachines := underRepair
    checkpointingOn := checkpointingOn
    startAReservation := startAReservation
    onMachineInstantDownUps := downUps
    onMachineDownForRepairs := downs }

/-- `ISchedulingAlgorithm::ingest_variables`. -/
def ingest (t : ValueTexts) (workload : String → Option Job) (profile : List TimeSlice) (doc : JsonValue) :
    Except ReadAbort (BaseVariables × Option DerivedVariables) := do
  let base ← ingestBase t doc
  match doc.member? "derived" with
  | none => .ok (base, none)
  | some _ => do
    let derived ← ingestDerived t workload profile doc
    .ok (base, some derived)

end CheckpointVariables

end ScheduleTest
