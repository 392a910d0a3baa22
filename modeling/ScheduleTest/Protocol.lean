import ScheduleTest.CheckpointVariables
import ScheduleTest.Decision
import ScheduleTest.Lib.Double
import ScheduleTest.Lib.Execution
import ScheduleTest.Lib.JsonWrite

/-!
# The messages from the scheduler to the simulator

The scheduler puts its decisions into a JSON document (`JsonProtocolWriter` of batsched, `protocol.cpp`) and sends the text of the
document. The simulator reads the text (`JsonProtocolReader` of Batsim, `protocol.cpp`) and sends its server one message for each
decision, at the date of the decision, and at the end that the scheduler is ready. What a job or a profile that the scheduler
registers does to the workloads is left to a registrar, and so is which jobs there are. How doubles are printed and read is the
library's, but the simulator prints them with six decimals (`Writer`, `protocol.hpp`).
-/

namespace ScheduleTest

/-- A decision, as the writer is given it (`append_*`). -/
inductive ProtocolEvent where
  | queryConsumedEnergy
  | answerEstimateWaitingTime (jobId : String) (estimatedWaitingTime : ℚ)
  | registerJob (jobId jobDescription profileDescription : String) (sendProfile : Bool)
  | registerProfile (workloadName profileName profileDescription : String)
  | executeJob (jobId : String) (allocatedResources : IntervalSet) (mapping : List CInt)
  | rejectJob (jobId : String)
  | killJob (jobMsgs : List (String × KillType))
  | setResourceState (resources : IntervalSet) (newState : String)
  | setJobMetadata (jobId metadata : String)
  | callMeLater (forWhat : CallMeLaterType) (id : CInt) (futureDate : ℚ)
  | genericNotification (type notifyData : String)
  | schedulerFinishedSubmittingJobs
  | schedulerContinueSubmittingJobs

theorem isInt_zero : Text.IsInt 0 := by decide

/-- The number of a purpose. -/
def CallMeLaterType.toInt : CallMeLaterType → ℤ
  | fixedFailure => 0
  | smtbf => 1
  | mtbf => 2
  | repairDone => 3
  | reservationStart => 4
  | checkpointBatsched => 5
  | recoverFromCheckpoint => 6

/-- A message to the server (`IPMessageType`), with what the reader puts into it. A job is given by the representation of its
identifier. -/
inductive ServerMessage where
  | schedTellMeEnergy
  | schedRejectJob (jobId : String)
  | schedExecuteJob (jobId : String) (machineIds : IntervalSet) (mapping : List ℤ)
  | schedKillJob (jobsMsgs : List (String × ℤ))
  | pstateModification (machineIds : IntervalSet) (newPstate : ℤ)
  | schedSetJobMetadata (jobId metadata : String)
  | schedChangeJobState (jobId jobState : String)
  | schedCallMeLater (targetTime : ℚ) (id forWhat : ℤ)
  | toJobMsg (jobId message : String)
  | jobRegisteredByDP (jobId jobDescription : String)
  | profileRegisteredByDP (workloadName profileName profile : String)
  | endDynamicRegister
  | continueDynamicRegister
  | schedReady

/-- Why an event of a message is refused: an assertion, or an exception. -/
inductive EventAbort where
  | notAnObject
  | missingKey (key : String)
  | wrongType (key : String)
  | wrongSize (key : String)
  /-- The timestamp is later than the date of the message. -/
  | lateTimestamp
  | unknownType (type : String)
  | invalidJobId (jobId : String)
  | unknownJob (jobId : String)
  | noMachines (text : String)
  /-- A set of machines that is empty. -/
  | noResources
  | noNumber (text : String)
  | missingExecutor (executor : ℤ)
  | outsideAllocation (executor resource : ℤ)
  | doubleQuotes (metadata : String)
  | registrationDisabled
  | registrationFinished
  | refusedJob (jobId : String)
  | refusedProfile (profileName : String)
  deriving DecidableEq

/-- Why the writer or the reader stops. -/
inductive ProtocolAbort where
  | dateInconsistency
  /-- The description of a job or a profile is no JSON text. -/
  | invalidDescription (text : String)
  /-- The text is no JSON document. -/
  | notParsed
  | message (reason : EventAbort)
  | event (number : ℕ) (reason : EventAbort)
  deriving DecidableEq

/-- How the libraries write and read doubles and sets of machines. -/
structure ProtocolTexts where
  /-- The double that the JSON library makes of a number. -/
  toDouble : ℚ → ℚ
  /-- What the JSON library prints for a double, and the number that this is. -/
  print : ℚ → List Char
  printed : ℚ → ℚ
  reads : ∀ x, JsonValue.Reads (print x) (.double (printed x))
  /-- `IntervalSet::to_string_hyphen`. -/
  toStringHyphen : IntervalSet → String
  /-- `IntervalSet::from_string_hyphen`, where it does not throw. -/
  fromStringHyphen : String → Option IntervalSet

namespace ProtocolTexts

variable (t : ProtocolTexts)

/-- `Document::Parse`. -/
def parse (text : String) : Option JsonValue := (JsonValue.parse text).map (·.mapDoubles t.toDouble)

/-- What becomes of a double that the scheduler writes when it is read. -/
def readBack (x : ℚ) : ℚ := t.toDouble (t.printed x)

/-- What becomes of a double that the simulator writes when it is read. -/
def seen (x : ℚ) : ℚ := t.toDouble (Text.fixedValue 6 x)

end ProtocolTexts

/-- The text of a value that the simulator writes (`Writer`, `protocol.hpp`): doubles are printed with six decimals. -/
def simulatorText (value : JsonValue) : String := String.ofList (value.write (Text.printFixed 6))

/-! ### Writing -/

/-- `JsonProtocolWriter` of batsched: the date of the last decision, and the events of the message. -/
structure JsonProtocolWriter where
  lastDate : ℚ := -1
  isEmpty : Bool := true
  events : List JsonValue := []

/-- The type of an event. -/
def ProtocolEvent.type : ProtocolEvent → String
  | queryConsumedEnergy => "QUERY"
  | answerEstimateWaitingTime _ _ => "ANSWER"
  | registerJob _ _ _ _ => "REGISTER_JOB"
  | registerProfile _ _ _ => "REGISTER_PROFILE"
  | executeJob _ _ _ => "EXECUTE_JOB"
  | rejectJob _ => "REJECT_JOB"
  | killJob _ => "KILL_JOB"
  | setResourceState _ _ => "SET_RESOURCE_STATE"
  | setJobMetadata _ _ => "SET_JOB_METADATA"
  | callMeLater _ _ _ => "CALL_ME_LATER"
  | genericNotification _ _ | schedulerFinishedSubmittingJobs | schedulerContinueSubmittingJobs => "NOTIFY"

/-- The members for a description that is parsed; one that is empty is left out. -/
def descriptionMember (t : ProtocolTexts) (key description : String) : Except ProtocolAbort (List (String × JsonValue)) :=
  if description = "" then .ok []
  else match t.parse description with
    | some value => .ok [(key, value)]
    | none => .error (.invalidDescription description)

/-- The size of a vector as an `int`. -/
def intSize {α : Type*} (l : List α) : ℤ := (l.length : ℤ).bmod (2 ^ 32)

/-- The members of a mapping: each executor and the place of its resource, as texts. -/
def mappingMembers (mapping : List CInt) : List (String × JsonValue) :=
  (mapping.take (intSize mapping).toNat).mapIdx fun i resource => (toString (i : ℤ), .string (toString resource.val))

open JsonValue in
/-- The `data` of an event. -/
def ProtocolEvent.data (t : ProtocolTexts) : ProtocolEvent → Except ProtocolAbort JsonValue
  | queryConsumedEnergy => .ok (object [("requests", object [("consumed_energy", object [])])])
  | answerEstimateWaitingTime jobId estimatedWaitingTime => .ok (object [("estimate_waiting_time",
      object [("job_id", string jobId), ("estimated_waiting_time", double estimatedWaitingTime)])])
  | registerJob jobId jobDescription profileDescription sendProfile => do
    let job ← descriptionMember t "job" jobDescription
    let profile ← if sendProfile then descriptionMember t "profile" profileDescription else .ok []
    .ok (object (("job_id", string jobId) :: (job ++ profile)))
  | registerProfile workloadName profileName profileDescription =>
    match t.parse profileDescription with
    | some profile => .ok (object [("workload_name", string workloadName), ("profile_name", string profileName), ("profile", profile)])
    | none => .error (.invalidDescription profileDescription)
  | executeJob jobId allocatedResources mapping => .ok (object ([("job_id", string jobId),
      ("alloc", string (t.toStringHyphen allocatedResources))] ++
      if mapping = [] then [] else [("mapping", object (mappingMembers mapping))]))
  | rejectJob jobId => .ok (object [("job_id", string jobId)])
  | killJob jobMsgs => .ok (object [("job_msgs", array (jobMsgs.map fun msg =>
      object [("id", string msg.1), ("forWhat", ofInt msg.2.toInt)]))])
  | setResourceState resources newState => .ok (object [("resources", string (t.toStringHyphen resources)), ("state", string newState)])
  | setJobMetadata jobId metadata => .ok (object [("job_id", string jobId), ("metadata", string metadata)])
  | callMeLater forWhat id futureDate => .ok (object [("timestamp", double futureDate), ("id", ofInt id.val),
      ("forWhat", ofInt forWhat.toInt)])
  | genericNotification type notifyData => .ok (object [("type", string type), ("data", string notifyData)])
  | schedulerFinishedSubmittingJobs => .ok (object [("type", string "registration_finished")])
  | schedulerContinueSubmittingJobs => .ok (object [("type", string "continue_registration")])

/-- The object of an event. -/
def eventObject (date : ℚ) (type : String) (data : JsonValue) : JsonValue :=
  .object [("timestamp", .double date), ("type", .string type), ("data", data)]

namespace JsonProtocolWriter

/-- `JsonProtocolWriter::append_*`. -/
def append (t : ProtocolTexts) (w : JsonProtocolWriter) (decision : ℚ × ProtocolEvent) : Except ProtocolAbort JsonProtocolWriter :=
  if w.lastDate ≤ decision.1 then
    (decision.2.data t).map fun data =>
      { lastDate := decision.1, isEmpty := false, events := w.events ++ [eventObject decision.1 decision.2.type data] }
  else .error .dateInconsistency

/-- `JsonProtocolWriter::clear`. The date of the last decision stays. -/
def clear (w : JsonProtocolWriter) : JsonProtocolWriter := { w with isEmpty := true, events := [] }

/-- The document of a message. -/
def document (w : JsonProtocolWriter) (date : ℚ) : JsonValue := .object [("now", .double date), ("events", .array w.events)]

/-- `JsonProtocolWriter::generate_current_message`. -/
def generateCurrentMessage (t : ProtocolTexts) (w : JsonProtocolWriter) (date : ℚ) : Except ProtocolAbort String :=
  if w.lastDate ≤ date then .ok (String.ofList ((w.document date).write t.print)) else .error .dateInconsistency

end JsonProtocolWriter

/-! ### Reading -/

/-- What becomes of the workloads. A job or a profile that cannot be registered is refused. -/
structure Registrar (ρ : Type) where
  /-- `registration_sched_enabled`. -/
  enabled : Bool
  /-- `Workloads::job_at` finds the job. -/
  jobExists : ρ → String → Bool
  /-- `Job::from_json`, `check_single_job_validity` and `Jobs::add_job`. -/
  registerJob : ρ → String → String → Option ρ
  /-- `Profile::from_json` and `Profiles::add_profile`. -/
  registerProfile : ρ → String → String → String → Option ρ

/-- What the scheduler tells the simulator about itself. -/
structure Notified where
  queueSize : ℤ := 0
  scheduleSize : ℤ := 0
  nbRunningJobs : ℤ := 0
  utilization : ℚ := 0
  utilizationNoResv : ℚ := 0
  batschedPID : ℤ := 0

/-- The process that reads a message: its clock, what it has sent to the server and when. -/
structure JsonProtocolReader (ρ : Type) where
  clock : ℚ
  workloads : ρ
  /-- `registration_sched_finished`, as the server has set it. -/
  registrationFinished : Bool := false
  notified : Notified := {}
  sent : List (ℚ × ServerMessage) := []

/-- `JobIdentifier::JobIdentifier`: two parts with exclamation marks between them, of which several count as one; the second part
begins with a number. -/
def readJobIdentifier (text : String) : Except EventAbort String :=
  let workloadName := text.toList.takeWhile (· ≠ '!')
  let marked := text.toList.dropWhile (· ≠ '!')
  let jobName := marked.dropWhile (· = '!')
  if marked = [] ∨ '!' ∈ jobName then .error (.invalidJobId text)
  else match Text.stoi jobName with
    | some _ => .ok (String.ofList (workloadName ++ '!' :: jobName))
    | none => .error (.noNumber (String.ofList jobName))

namespace EventReader

def getMember (key : String) (value : JsonValue) : Except EventAbort JsonValue :=
  match value.member? key with
  | some member => .ok member
  | none => .error (.missingKey key)

def getString (key : String) : JsonValue → Except EventAbort String
  | .string text => .ok text
  | _ => .error (.wrongType key)

def getNumber (key : String) : JsonValue → Except EventAbort ℚ
  | .int z => .ok (Double.nearest z.val)
  | .double x => .ok x
  | _ => .error (.wrongType key)

def getInt (key : String) : JsonValue → Except EventAbort ℤ
  | .int z => if Text.IsInt z.val then .ok z.val else .error (.wrongType key)
  | _ => .error (.wrongType key)

def getObject (key : String) : JsonValue → Except EventAbort (List (String × JsonValue))
  | .object members => .ok members
  | _ => .error (.wrongType key)

def getArray (key : String) : JsonValue → Except EventAbort (List JsonValue)
  | .array values => .ok values
  | _ => .error (.wrongType key)

def stringAt (key : String) (value : JsonValue) : Except EventAbort String := getMember key value >>= getString key

/-- `std::stoi`. -/
def getStoi (text : String) : Except EventAbort ℤ :=
  match Text.stoi text.toList with
  | some z => .ok z
  | none => .error (.noNumber text)

/-- `std::stod`. -/
def getStod (text : String) : Except EventAbort ℚ :=
  match Text.stod text.toList with
  | some x => .ok x
  | none => .error (.noNumber text)

/-- A set of machines that has to be there. -/
def getMachines (t : ProtocolTexts) (text : String) : Except EventAbort IntervalSet :=
  match t.fromStringHyphen text with
  | some machines => if machines = ∅ then .error .noResources else .ok machines
  | none => .error (.noMachines text)

/-- An entry of a mapping: the executor, and the place of its resource, which is a number or a text. -/
def getMapped (entry : String × JsonValue) : Except EventAbort (ℤ × ℤ) := do
  let executor ← getStoi entry.1
  let resource ← match entry.2 with
    | .string text => getStoi text
    | value => getInt entry.1 value
  .ok (executor, resource)

/-- The entries of a mapping in order: the executors from a number on, each with a place within the allocation. -/
def checkMapping (nbAllocatedResources : ℕ) : ℤ → List (ℤ × ℤ) → Except EventAbort (List ℤ)
  | _, [] => .ok []
  | executor, (key, resource) :: rest =>
    if key ≠ executor then .error (.missingExecutor executor)
    else if 0 ≤ resource ∧ resource < nbAllocatedResources then
      (checkMapping nbAllocatedResources (executor + 1) rest).map (resource :: ·)
    else .error (.outsideAllocation executor resource)

/-- The mapping of a job. A key that is there twice has its last value. -/
def getMapping (nbAllocatedResources : ℕ) (data : JsonValue) : Except EventAbort (List ℤ) :=
  match data.member? "mapping" with
  | none => .ok []
  | some value => do
    let members ← getObject "mapping" value
    if members = [] then .error (.wrongSize "mapping") else
    let entries ← members.mapM getMapped
    let mapping := entries.foldl (fun map entry => map.insert entry.1 entry.2) (.empty : KeyedMap (fun z : ℤ => z) ℤ)
    checkMapping nbAllocatedResources 0 mapping.entries

/-- A message about a job to be killed. -/
def getJobMsg (value : JsonValue) : Except EventAbort (String × ℤ) := do
  let id ← stringAt "id" value >>= readJobIdentifier
  let forWhat ← getMember "forWhat" value >>= getInt "forWhat"
  .ok (id, forWhat)

/-- The states that the scheduler can put a job in. -/
def allowedStates : List String :=
  ["NOT_SUBMITTED", "RUNNING", "COMPLETED_SUCCESSFULLY", "COMPLETED_WALLTIME_REACHED", "COMPLETED_KILLED", "REJECTED"]

end EventReader

namespace JsonProtocolReader

open EventReader

variable {ρ : Type} (t : ProtocolTexts) (g : Registrar ρ)

/-- What the server makes of `registration_sched_finished` upon a message (`server_on_end_dynamic_register`,
`server_on_continue_dynamic_register`). -/
def finishedAfter (finished : Bool) : ServerMessage → Bool
  | .endDynamicRegister => true
  | .continueDynamicRegister => false
  | _ => finished

/-- `JsonProtocolReader::send_message_at_time`: the process sleeps until the date, if it is still to come, and waits until the server
takes the message. -/
def sendMessageAtTime (r : JsonProtocolReader ρ) (date : ℚ) (message : ServerMessage) : JsonProtocolReader ρ := {
  r with
  clock := max r.clock date
  registrationFinished := finishedAfter r.registrationFinished message
  sent := r.sent ++ [(max r.clock date, message)] }

/-- The members of the data of an event, as many as there are to be. -/
def membersOf (data : JsonValue) (sizes : List ℕ) : Except EventAbort Unit := do
  let members ← getObject "data" data
  if members.length ∈ sizes then .ok () else .error (.wrongSize "data")

/-- A request of a query. -/
def handleRequest (date : ℚ) (r : JsonProtocolReader ρ) (request : String × JsonValue) : Except EventAbort (JsonProtocolReader ρ) :=
  if request.1 = "consumed_energy" then do
    let members ← getObject request.1 request.2
    if members = [] then .ok (r.sendMessageAtTime date .schedTellMeEnergy) else .error (.wrongSize request.1)
  else .error (.unknownType request.1)

/-- `handle_query`. -/
def handleQuery (r : JsonProtocolReader ρ) (date : ℚ) (data : JsonValue) : Except EventAbort (JsonProtocolReader ρ) := do
  membersOf data [1]
  let requests ← getMember "requests" data >>= getObject "requests"
  if requests = [] then .error (.wrongSize "requests") else Execution.runFrom (handleRequest date) r requests

/-- What the scheduler answers is read, and not used. -/
def handleEstimation (r : JsonProtocolReader ρ) (answer : String × JsonValue) : Except EventAbort (JsonProtocolReader ρ) :=
  if answer.1 = "estimate_waiting_time" then do
    let _ ← getObject answer.1 answer.2
    let _ ← stringAt "job_id" answer.2
    let _ ← getMember "estimated_waiting_time" answer.2 >>= getNumber "estimated_waiting_time"
    .ok r
  else .error (.unknownType answer.1)

/-- `handle_answer`. -/
def handleAnswer (r : JsonProtocolReader ρ) (_date : ℚ) (data : JsonValue) : Except EventAbort (JsonProtocolReader ρ) := do
  let answers ← getObject "data" data
  if answers = [] then .error (.wrongSize "data") else Execution.runFrom handleEstimation r answers

/-- `handle_reject_job`. -/
def handleRejectJob (r : JsonProtocolReader ρ) (date : ℚ) (data : JsonValue) : Except EventAbort (JsonProtocolReader ρ) := do
  membersOf data [1]
  let jobId ← stringAt "job_id" data >>= readJobIdentifier
  .ok (r.sendMessageAtTime date (.schedRejectJob jobId))

/-- `handle_execute_job`, without the members `storage_mapping` and `additional_io_job`, which the scheduler does not write. -/
def handleExecuteJob (r : JsonProtocolReader ρ) (date : ℚ) (data : JsonValue) : Except EventAbort (JsonProtocolReader ρ) := do
  membersOf data [2, 3]
  let jobId ← stringAt "job_id" data >>= readJobIdentifier
  if !g.jobExists r.workloads jobId then .error (.unknownJob jobId) else
  let machineIds ← stringAt "alloc" data >>= getMachines t
  let mapping ← getMapping machineIds.card data
  .ok (r.sendMessageAtTime date (.schedExecuteJob jobId machineIds mapping))

/-- `handle_call_me_later`. -/
def handleCallMeLater (r : JsonProtocolReader ρ) (date : ℚ) (data : JsonValue) : Except EventAbort (JsonProtocolReader ρ) := do
  membersOf data [3]
  let targetTime ← getMember "timestamp" data >>= getNumber "timestamp"
  let forWhat ← getMember "forWhat" data >>= getInt "forWhat"
  let id ← getMember "id" data >>= getInt "id"
  .ok (r.sendMessageAtTime date (.schedCallMeLater targetTime id forWhat))

/-- `handle_set_resource_state`. -/
def handleSetResourceState (r : JsonProtocolReader ρ) (date : ℚ) (data : JsonValue) :
    Except EventAbort (JsonProtocolReader ρ) := do
  membersOf data [2]
  let machineIds ← stringAt "resources" data >>= getMachines t
  let newPstate ← stringAt "state" data >>= getStoi
  .ok (r.sendMessageAtTime date (.pstateModification machineIds newPstate))

/-- `handle_set_job_metadata`. -/
def handleSetJobMetadata (r : JsonProtocolReader ρ) (date : ℚ) (data : JsonValue) : Except EventAbort (JsonProtocolReader ρ) := do
  membersOf data [2]
  let jobId ← stringAt "job_id" data
  let metadata ← stringAt "metadata" data
  if '"' ∈ metadata.toList then .error (.doubleQuotes metadata) else
  let jobId ← readJobIdentifier jobId
  .ok (r.sendMessageAtTime date (.schedSetJobMetadata jobId metadata))

/-- `handle_change_job_state`. -/
def handleChangeJobState (r : JsonProtocolReader ρ) (date : ℚ) (data : JsonValue) : Except EventAbort (JsonProtocolReader ρ) := do
  let _ ← getObject "data" data
  let jobId ← stringAt "job_id" data
  let jobState ← stringAt "job_state" data
  if jobState ∉ allowedStates then .error (.unknownType jobState) else
  let jobId ← readJobIdentifier jobId
  .ok (r.sendMessageAtTime date (.schedChangeJobState jobId jobState))

/-- `handle_notify`, without the files of a checkpoint. -/
def handleNotify (r : JsonProtocolReader ρ) (date : ℚ) (data : JsonValue) : Except EventAbort (JsonProtocolReader ρ) := do
  let _ ← getObject "data" data
  let type ← stringAt "type" data
  if type = "registration_finished" then .ok (r.sendMessageAtTime date .endDynamicRegister)
  else if type = "continue_registration" then .ok (r.sendMessageAtTime date .continueDynamicRegister)
  else if type = "queue_size" then do
    let value ← stringAt "data" data >>= getStoi
    .ok { r with notified := { r.notified with queueSize := value } }
  else if type = "schedule_size" then do
    let value ← stringAt "data" data >>= getStoi
    .ok { r with notified := { r.notified with scheduleSize := value } }
  else if type = "number_running_jobs" then do
    let value ← stringAt "data" data >>= getStoi
    .ok { r with notified := { r.notified with nbRunningJobs := value } }
  else if type = "utilization" then do
    let value ← stringAt "data" data >>= getStod
    .ok { r with notified := { r.notified with utilization := value } }
  else if type = "utilization_no_resv" then do
    let value ← stringAt "data" data >>= getStod
    .ok { r with notified := { r.notified with utilizationNoResv := value } }
  else if type = "PID" then do
    let value ← stringAt "data" data >>= getStoi
    .ok { r with notified := { r.notified with batschedPID := value } }
  else if type = "checkpoint" then
    .ok (r.sendMessageAtTime date (.schedCallMeLater r.clock 1 CallMeLaterType.checkpointBatsched.toInt))
  else if type = "recover_from_checkpoint" then
    .ok (r.sendMessageAtTime date (.schedCallMeLater r.clock 1 CallMeLaterType.recoverFromCheckpoint.toInt))
  else .error (.unknownType type)

/-- `handle_to_job_msg`. -/
def handleToJobMsg (r : JsonProtocolReader ρ) (date : ℚ) (data : JsonValue) : Except EventAbort (JsonProtocolReader ρ) := do
  let _ ← getObject "data" data
  let jobId ← stringAt "job_id" data
  let message ← stringAt "msg" data
  let jobId ← readJobIdentifier jobId
  .ok (r.sendMessageAtTime date (.toJobMsg jobId message))

/-- The scheduler may register jobs and profiles, and has not told that it has finished. -/
def checkRegistration (r : JsonProtocolReader ρ) : Except EventAbort Unit :=
  if !g.enabled then .error .registrationDisabled
  else if r.registrationFinished then .error .registrationFinished
  else .ok ()

/-- `handle_register_job`, without a data storage. -/
def handleRegisterJob (r : JsonProtocolReader ρ) (date : ℚ) (data : JsonValue) : Except EventAbort (JsonProtocolReader ρ) := do
  checkRegistration g r
  let _ ← getObject "data" data
  let jobId ← stringAt "job_id" data >>= readJobIdentifier
  let job ← getMember "job" data
  let _ ← getObject "job" job
  match g.registerJob r.workloads jobId (simulatorText job) with
  | some workloads =>
    .ok ({ r with workloads := workloads }.sendMessageAtTime date (.jobRegisteredByDP jobId (simulatorText job)))
  | none => .error (.refusedJob jobId)

/-- `handle_register_profile`. -/
def handleRegisterProfile (r : JsonProtocolReader ρ) (date : ℚ) (data : JsonValue) :
    Except EventAbort (JsonProtocolReader ρ) := do
  checkRegistration g r
  let _ ← getObject "data" data
  let workloadName ← stringAt "workload_name" data
  let profileName ← stringAt "profile_name" data
  let profile ← getMember "profile" data
  let _ ← getObject "profile" profile
  match g.registerProfile r.workloads workloadName profileName (simulatorText profile) with
  | some workloads => .ok ({ r with workloads := workloads }.sendMessageAtTime date
      (.profileRegisteredByDP workloadName profileName (simulatorText profile)))
  | none => .error (.refusedProfile profileName)

/-- `handle_kill_job`. -/
def handleKillJob (r : JsonProtocolReader ρ) (date : ℚ) (data : JsonValue) : Except EventAbort (JsonProtocolReader ρ) := do
  membersOf data [1]
  let values ← getMember "job_msgs" data >>= getArray "job_msgs"
  if values = [] then .error (.wrongSize "job_msgs") else
  let jobsMsgs ← values.mapM getJobMsg
  .ok (r.sendMessageAtTime date (.schedKillJob jobsMsgs))

/-- The handler of a type (`_type_to_handler_map`). -/
def handle (r : JsonProtocolReader ρ) (type : String) (date : ℚ) (data : JsonValue) : Except EventAbort (JsonProtocolReader ρ) :=
  if type = "QUERY" then handleQuery r date data
  else if type = "ANSWER" then handleAnswer r date data
  else if type = "REJECT_JOB" then handleRejectJob r date data
  else if type = "EXECUTE_JOB" then handleExecuteJob t g r date data
  else if type = "CHANGE_JOB_STATE" then handleChangeJobState r date data
  else if type = "CALL_ME_LATER" then handleCallMeLater r date data
  else if type = "KILL_JOB" then handleKillJob r date data
  else if type = "REGISTER_JOB" then handleRegisterJob g r date data
  else if type = "REGISTER_PROFILE" then handleRegisterProfile g r date data
  else if type = "SET_RESOURCE_STATE" then handleSetResourceState t r date data
  else if type = "SET_JOB_METADATA" then handleSetJobMetadata r date data
  else if type = "NOTIFY" then handleNotify r date data
  else if type = "TO_JOB_MSG" then handleToJobMsg r date data
  else .error (.unknownType type)

/-- `JsonProtocolReader::parse_and_apply_event`. -/
def parseAndApplyEvent (now : ℚ) (r : JsonProtocolReader ρ) (event : JsonValue) : Except EventAbort (JsonProtocolReader ρ) := do
  match event with
  | .object _ => do
    let timestamp ← getMember "timestamp" event >>= getNumber "timestamp"
    if now < timestamp then .error .lateTimestamp else
    let type ← stringAt "type" event
    let data ← getMember "data" event
    handle t g r type timestamp data
  | _ => .error .notAnObject

/-- The events of a message, from one number on. -/
def parseAndApplyEvents (now : ℚ) : ℕ → JsonProtocolReader ρ → List JsonValue → Except ProtocolAbort (JsonProtocolReader ρ)
  | _, r, [] => .ok r
  | number, r, event :: events =>
    match parseAndApplyEvent t g now r event with
    | .ok r' => parseAndApplyEvents now (number + 1) r' events
    | .error reason => .error (.event number reason)

/-- The date and the events of a document. -/
def readDocument (document : JsonValue) : Except EventAbort (ℚ × List JsonValue) := do
  match document with
  | .object _ => do
    let now ← getMember "now" document >>= getNumber "now"
    let events ← getMember "events" document >>= getArray "events"
    .ok (now, events)
  | _ => .error .notAnObject

/-- `JsonProtocolReader::parse_and_apply_message`. -/
def parseAndApplyMessage (r : JsonProtocolReader ρ) (message : String) : Except ProtocolAbort (JsonProtocolReader ρ) :=
  match t.parse message with
  | none => .error .notParsed
  | some document =>
    match readDocument document with
    | .error reason => .error (.message reason)
    | .ok (now, events) => (parseAndApplyEvents t g now 0 r events).map fun r' => r'.sendMessageAtTime now .schedReady

end JsonProtocolReader

/-- A message from the simulator at a date, and what the scheduler decides upon it. -/
structure Exchange where
  messageDate : ℚ
  decisions : List (ℚ × ProtocolEvent)

/-- The answer to a message: batsched writes it at the end of the loop of `run`, and Batsim reads it in
`request_reply_scheduler_process`, which starts at the date of the message. -/
def exchange {ρ : Type} (t : ProtocolTexts) (g : Registrar ρ) (s : JsonProtocolWriter × JsonProtocolReader ρ) (e : Exchange) :
    Except ProtocolAbort (JsonProtocolWriter × JsonProtocolReader ρ) := do
  let writer ← Execution.runFrom (JsonProtocolWriter.append t) s.1.clear e.decisions
  let text ← writer.generateCurrentMessage t (max e.messageDate writer.lastDate)
  let reader ← JsonProtocolReader.parseAndApplyMessage t g { s.2 with clock := e.messageDate } text
  .ok (writer, reader)

end ScheduleTest
