import ScheduleTest.Protocol

/-!
# The messages from the simulator to the scheduler

The server of Batsim appends what has happened to a JSON document (`JsonProtocolWriter` of Batsim, `protocol.cpp`) and sends its text.
Batsched reads the text (`run`, `main.cpp`): each event is a call of the algorithm, and at the end the algorithm makes its decisions.
What becomes of the workload of the scheduler is left to its book of jobs. The data of the first event, with the platform and the
configuration, are given. Doubles are written with six decimals.
-/

namespace ScheduleTest

/-- How far the execution of a task was when its job was killed (`BatTask`, as `generate_task_tree` shows it). -/
inductive TaskProgress where
  | leaf (profileName : String) (progress : ℚ)
  | composed (profileName : String) (currentTaskIndex : CInt) (currentTask : TaskProgress)
  | notStarted (profileName : String)

/-- `batsim_tools::Kill_Message`. -/
structure JobKilledMessage where
  id : String
  forWhat : KillType
  progress : Option TaskProgress

theorem isInt_neg_one : Text.IsInt (-1) := by decide

/-- What is added to the description of a job. The numbers of its checkpoint are texts. -/
structure JobSubmission where
  originalSubmit : ℚ := -1
  originalStart : ℚ := -1
  originalWalltime : ℚ := -1
  allocation : String := "null"
  consumedEnergy : String := "-1.0"
  jitter : String := "null"
  progress : String := "-1.0"
  state : CInt := ⟨-1, isInt_neg_one⟩
  runtime : String := "-1.0"
  progressTimeCpu : String := "-1.0"

/-- What has happened, as the writer is given it (`append_*`). -/
inductive SchedulerEvent where
  | simulationBegins (data : JsonValue)
  | simulationEnds
  | jobSubmitted (jobId jobDescription profileDescription : String) (job : JobSubmission)
  | jobCompleted (jobId jobState jobAlloc : String) (returnCode : CInt)
  | jobKilled (jobMsgs : List JobKilledMessage)
  | fromJobMessage (jobId : String) (message : JsonValue)
  | resourceStateChanged (resources : IntervalSet) (newState : String)
  | queryEstimateWaitingTime (jobId jobDescription : String)
  | answerEnergy (consumedEnergy : ℚ)
  | requestedCall (id forWhat : CInt)
  | notify (notifyType : String)
  | notifyResourceEvent (notifyType : String) (resources : IntervalSet)
  | notifyJobFaultEvent (notifyType job : String)
  | notifyGenericEvent (jsonDesc : String)

/-- A call of the algorithm (`ISchedulingAlgorithm`). -/
inductive SchedulerCallback where
  | onSimulationStart (date : ℚ) (batsimConfig : JsonValue)
  | onStartFromCheckpoint (date : ℚ) (batsimConfig : JsonValue)
  | onSimulationEnd (date : ℚ)
  | onJobRelease (date : ℚ) (jobId : String)
  | onJobEnd (date : ℚ) (jobId : String)
  /-- The jobs with the number of the purpose, the progress and its text. -/
  | onJobKilled (date : ℚ) (jobMsgs : KeyedMap (fun id : String => id) (ℤ × ℚ × String))
  | onMachineStateChanged (date : ℚ) (machines : IntervalSet) (newState : ℤ)
  | onRequestedCall (date : ℚ) (id forWhat : ℤ)
  | onAnswerEnergyConsumption (date consumedJoules : ℚ)
  | onQueryEstimateWaitingTime (date : ℚ) (jobId : String)
  | onNoMoreStaticJobToSubmitReceived (date : ℚ)
  | onNoMoreExternalEventToOccur (date : ℚ)
  | onMachineAvailableNotifyEvent (date : ℚ) (machines : IntervalSet)
  | onMachineUnavailableNotifyEvent (date : ℚ) (machines : IntervalSet)
  | onMyKillJobNotifyEvent (date : ℚ)
  | onJobFaultNotifyEvent (date : ℚ) (job : String)
  /-- The decisions, with the date that the queue knows. -/
  | makeDecisions (date updateDate : ℚ)

/-- Why the writer of the server or the scheduler stops. -/
inductive CallbackAbort where
  | dateInconsistency
  | invalidDescription (text : String)
  | notParsed
  | event (reason : EventAbort)
  | refusedJob (jobId : String)
  | refusedConfig
  | unknownJob (jobId : String)
  | noMachines (text : String)
  /-- A second value is written where the writer of the JSON library has one root. -/
  | secondRoot
  | unknownEvent (type : String)
  | unknownNotify (type : String)
  deriving DecidableEq

/-! ### Writing -/

namespace SchedulerEvent

open JsonValue

/-- The type of an event. -/
def type : SchedulerEvent → String
  | simulationBegins _ => "SIMULATION_BEGINS"
  | simulationEnds => "SIMULATION_ENDS"
  | jobSubmitted _ _ _ _ => "JOB_SUBMITTED"
  | jobCompleted _ _ _ _ => "JOB_COMPLETED"
  | jobKilled _ => "JOB_KILLED"
  | fromJobMessage _ _ => "FROM_JOB_MSG"
  | resourceStateChanged _ _ => "RESOURCE_STATE_CHANGED"
  | queryEstimateWaitingTime _ _ => "QUERY"
  | answerEnergy _ => "ANSWER"
  | requestedCall _ _ => "REQUESTED_CALL"
  | notify _ | notifyResourceEvent _ _ | notifyJobFaultEvent _ _ | notifyGenericEvent _ => "NOTIFY"

/-- `generate_task_tree`. -/
def generateTaskTree : TaskProgress → JsonValue
  | .leaf profileName progress => object [("profile_name", string profileName), ("progress", double progress)]
  | .composed profileName currentTaskIndex currentTask => object [("profile_name", string profileName),
      ("current_task_index", ofInt currentTaskIndex.val), ("current_task", generateTaskTree currentTask)]
  | .notStarted profileName => object [("profile_name", string profileName), ("current_task_index", ofInt (-1))]

/-- A message about a job that was killed. -/
def killObject (msg : JobKilledMessage) : JsonValue :=
  object ([("id", string msg.id), ("forWhat", ofInt msg.forWhat.toInt)] ++
    (msg.progress.map fun progress => ("job_progress", generateTaskTree progress)).toList)

/-- A member is added at the end where there is none of its name. -/
def addMissing (key : String) (value : JsonValue) (members : List (String × JsonValue)) : List (String × JsonValue) :=
  if ((object members).member? key).isSome then members else members ++ [(key, value)]

/-- The description of a job with what is added to it. -/
def describe (job : JobSubmission) (members : List (String × JsonValue)) : JsonValue :=
  object (addMissing "original_walltime" (double job.originalWalltime)
      (addMissing "original_start" (double job.originalStart)
        (addMissing "original_submit" (double job.originalSubmit) members)) ++
    [("checkpoint_job_data", object [("allocation", string job.allocation), ("consumed_energy", string job.consumedEnergy),
      ("jitter", string job.jitter), ("progress", string job.progress), ("state", ofInt job.state.val),
      ("runtime", string job.runtime), ("progressTimeCpu", string job.progressTimeCpu)])])

/-- A text that is parsed. -/
def parseDescription (t : ProtocolTexts) (text : String) : Except CallbackAbort JsonValue :=
  match t.parse text with
  | some value => .ok value
  | none => .error (.invalidDescription text)

/-- The members of an object. It is an assertion of the JSON library that a value is one. -/
def membersOf : JsonValue → Except CallbackAbort (List (String × JsonValue))
  | object members => .ok members
  | _ => .error (.event .notAnObject)

/-- The member for the profile of a job, which is sent where profiles are forwarded. -/
def profileMember (t : ProtocolTexts) (forwardProfiles : Bool) (profileDescription : String) :
    Except CallbackAbort (List (String × JsonValue)) :=
  if forwardProfiles then (parseDescription t profileDescription).map fun profile => [("profile", profile)] else .ok []

/-- The `data` of an event, without a data storage. -/
def data (t : ProtocolTexts) (forwardProfiles : Bool) : SchedulerEvent → Except CallbackAbort JsonValue
  | simulationBegins data => .ok data
  | simulationEnds => .ok (object [])
  | jobSubmitted jobId jobDescription profileDescription job => do
    let members ← parseDescription t jobDescription >>= membersOf
    let profile ← profileMember t forwardProfiles profileDescription
    .ok (object ([("job_id", string jobId), ("job", describe job members)] ++ profile))
  | jobCompleted jobId jobState jobAlloc returnCode => .ok (object [("job_id", string jobId), ("job_state", string jobState),
      ("return_code", ofInt returnCode.val), ("alloc", string jobAlloc)])
  | jobKilled jobMsgs => .ok (object [("job_ids", array (jobMsgs.map fun msg => string msg.id)),
      ("job_msgs", array (jobMsgs.map killObject))])
  | fromJobMessage jobId message => .ok (object [("job_id", string jobId), ("msg", message)])
  | resourceStateChanged resources newState => .ok (object [("resources", string (t.toStringHyphen resources)),
      ("state", string newState)])
  | queryEstimateWaitingTime jobId jobDescription => (parseDescription t jobDescription).map fun job =>
      object [("requests", object [("estimate_waiting_time", object [("job_id", string jobId), ("job", job)])])]
  | answerEnergy consumedEnergy => .ok (object [("consumed_energy", double consumedEnergy)])
  | requestedCall id forWhat => .ok (object [("id", ofInt id.val), ("forWhat", ofInt forWhat.val)])
  | notify notifyType => .ok (object [("type", string notifyType)])
  | notifyResourceEvent notifyType resources => .ok (object [("type", string notifyType),
      ("resources", string (t.toStringHyphen resources))])
  | notifyJobFaultEvent notifyType job => .ok (object [("type", string notifyType), ("job", string job)])
  | notifyGenericEvent jsonDesc => parseDescription t jsonDesc

/-- Whether an event has to be dated no earlier than the one before. The source does not assert it of a job fault. -/
def checksDate : SchedulerEvent → Bool
  | notifyJobFaultEvent _ _ => false
  | _ => true

end SchedulerEvent

namespace JsonProtocolWriter

/-- `JsonProtocolWriter::append_*` of Batsim. -/
def appendSchedulerEvent (t : ProtocolTexts) (forwardProfiles : Bool) (w : JsonProtocolWriter) (happened : ℚ × SchedulerEvent) :
    Except CallbackAbort JsonProtocolWriter :=
  if w.lastDate ≤ happened.1 ∨ happened.2.checksDate = false then
    (happened.2.data t forwardProfiles).map fun data =>
      { lastDate := happened.1, isEmpty := false, events := w.events ++ [eventObject happened.1 happened.2.type data] }
  else .error .dateInconsistency

/-- `JsonProtocolWriter::generate_current_message` of Batsim. -/
def generateSchedulerMessage (w : JsonProtocolWriter) (date : ℚ) : Except CallbackAbort String :=
  if w.lastDate ≤ date then .ok (simulatorText (w.document date)) else .error .dateInconsistency

end JsonProtocolWriter

/-! ### Reading -/

/-- The workload of the scheduler. -/
structure WorkloadBook (ω : Type) where
  /-- What is read of the platform and the configuration. -/
  start : ω → JsonValue → Option ω
  /-- `Workload::add_job_from_json_object`. -/
  addJob : ω → String → JsonValue → ℚ → Option ω
  /-- The completion time of a job that is known is set. -/
  complete : ω → String → ℚ → Option ω

/-- The scheduler as far as its messages go: what its algorithm has been called for. -/
structure SchedulerReader (ω : Type) where
  workload : ω
  callbacks : List SchedulerCallback := []
  simulationFinished : Bool := false

namespace SchedulerReader

open EventReader

variable {ω : Type} (t : ProtocolTexts) (b : WorkloadBook ω)

/-- A call of the algorithm. -/
def call (r : SchedulerReader ω) (callback : SchedulerCallback) : SchedulerReader ω :=
  { r with callbacks := r.callbacks ++ [callback] }

/-- What is read with the readers of Batsim is an assertion of the JSON library here. -/
def asserted {α : Type} (x : Except EventAbort α) : Except CallbackAbort α := x.mapError .event

/-- `IntervalSet::from_string_hyphen`. -/
def readMachines (text : String) : Except CallbackAbort IntervalSet :=
  match t.fromStringHyphen text with
  | some machines => .ok machines
  | none => .error (.noMachines text)

/-- The progress of a job that was killed, with its text. The loop that is to go down to the current task writes it with a writer that
has written the whole already. -/
def progressOf (jobProgress : JsonValue) : Except CallbackAbort (ℚ × String) :=
  let progressStr := String.ofList (jobProgress.write t.print)
  match t.parse progressStr with
  | none => .error .notParsed
  | some d => do
    let _ ← SchedulerEvent.membersOf d
    match d.member? "progress" with
    | some progress => (asserted (getNumber "progress" progress)).map fun x => (x, progressStr)
    | none =>
      match d.member? "current_task" with
      | some _ => .error .secondRoot
      | none => .error (.event (.missingKey "current_task"))

/-- A message about a job that was killed. -/
def readKillMessage (value : JsonValue) : Except CallbackAbort (String × (ℤ × ℚ × String)) := do
  let id ← asserted (stringAt "id" value)
  let forWhat ← asserted (getMember "forWhat" value >>= getInt "forWhat")
  let jobProgress ← asserted (getMember "job_progress" value)
  let progress ← progressOf t jobProgress
  .ok (id, forWhat, progress)

/-- The messages by the ids of the jobs. The first of two about one job stays. -/
def byId (jobMsgs : List (String × (ℤ × ℚ × String))) : KeyedMap (fun id : String => id) (ℤ × ℚ × String) :=
  jobMsgs.foldl (fun map msg => if map.contains msg.1 then map else map.insert msg.1 msg.2) .empty

/-- An answer. -/
def handleAnswer (date : ℚ) (r : SchedulerReader ω) (answer : String × JsonValue) : Except CallbackAbort (SchedulerReader ω) :=
  if answer.1 = "consumed_energy" then
    (asserted (getNumber answer.1 answer.2)).map fun consumedJoules => r.call (.onAnswerEnergyConsumption date consumedJoules)
  else .error (.unknownEvent answer.1)

/-- A request of a query. -/
def handleQuery (date : ℚ) (r : SchedulerReader ω) (request : String × JsonValue) : Except CallbackAbort (SchedulerReader ω) :=
  if request.1 = "estimate_waiting_time" then do
    let jobId ← asserted (stringAt "job_id" request.2)
    let job ← asserted (getMember "job" request.2)
    match b.addJob r.workload jobId job date with
    | some workload => .ok ({ r with workload := workload }.call (.onQueryEstimateWaitingTime date jobId))
    | none => .error (.refusedJob jobId)
  else .error (.unknownEvent request.1)

/-- A notification. -/
def handleNotify (r : SchedulerReader ω) (date : ℚ) (data : JsonValue) : Except CallbackAbort (SchedulerReader ω) := do
  let notifyType ← asserted (stringAt "type" data)
  if notifyType = "no_more_static_job_to_submit" then .ok (r.call (.onNoMoreStaticJobToSubmitReceived date))
  else if notifyType = "no_more_external_event_to_occur" then .ok (r.call (.onNoMoreExternalEventToOccur date))
  else if notifyType = "event_machine_available" then do
    let machines ← asserted (stringAt "resources" data) >>= readMachines t
    .ok (r.call (.onMachineAvailableNotifyEvent date machines))
  else if notifyType = "event_machine_unavailable" then do
    let machines ← asserted (stringAt "resources" data) >>= readMachines t
    .ok (r.call (.onMachineUnavailableNotifyEvent date machines))
  else if notifyType = "myKillJob" then .ok (r.call (.onMyKillJobNotifyEvent date))
  else if notifyType = "job_fault" then do
    let job ← asserted (stringAt "job" data)
    .ok (r.call (.onJobFaultNotifyEvent date job))
  else if notifyType = "batsim_metadata" then do
    let _ ← asserted (stringAt "metadata" data)
    .ok r
  else if notifyType = "test" then .ok r
  else .error (.unknownNotify notifyType)

/-- Whether the simulation goes on from a checkpoint. -/
def startedFromCheckpoint (data : JsonValue) : Except CallbackAbort Bool := do
  let startFromCheckpoint ← asserted (getMember "config" data >>= getMember "start-from-checkpoint")
  match ← asserted (getMember "started_from_checkpoint" startFromCheckpoint) with
  | .bool started => .ok started
  | _ => .error (.event (.wrongType "started_from_checkpoint"))

/-- What an event is about. -/
def handle (r : SchedulerReader ω) (type : String) (date : ℚ) (data : JsonValue) : Except CallbackAbort (SchedulerReader ω) :=
  if type = "SIMULATION_BEGINS" then
    match b.start r.workload data with
    | some workload => do
      let started ← startedFromCheckpoint data
      .ok ({ r with workload := workload }.call (if started then .onStartFromCheckpoint date data else .onSimulationStart date data))
    | none => .error .refusedConfig
  else if type = "SIMULATION_ENDS" then .ok { r.call (.onSimulationEnd date) with simulationFinished := true }
  else if type = "JOB_SUBMITTED" then do
    let jobId ← asserted (stringAt "job_id" data)
    match b.addJob r.workload jobId data date with
    | some workload => .ok ({ r with workload := workload }.call (.onJobRelease date jobId))
    | none => .error (.refusedJob jobId)
  else if type = "JOB_COMPLETED" then do
    let jobId ← asserted (stringAt "job_id" data)
    match b.complete r.workload jobId date with
    | some workload => .ok ({ r with workload := workload }.call (.onJobEnd date jobId))
    | none => .error (.unknownJob jobId)
  else if type = "RESOURCE_STATE_CHANGED" then do
    let machines ← asserted (stringAt "resources" data) >>= readMachines t
    let newState ← asserted (stringAt "state" data >>= getStoi)
    .ok (r.call (.onMachineStateChanged date machines newState))
  else if type = "JOB_KILLED" then do
    let values ← asserted (getMember "job_msgs" data >>= getArray "job_msgs")
    let jobMsgs ← values.mapM (readKillMessage t)
    .ok (r.call (.onJobKilled date (byId jobMsgs)))
  else if type = "REQUESTED_CALL" then do
    let id ← asserted (getMember "id" data >>= getInt "id")
    let forWhat ← asserted (getMember "forWhat" data >>= getInt "forWhat")
    .ok (r.call (.onRequestedCall date id forWhat))
  else if type = "ANSWER" then do
    let answers ← SchedulerEvent.membersOf data
    Execution.runFrom (handleAnswer date) r answers
  else if type = "QUERY" then do
    let requests ← asserted (getMember "requests" data) >>= SchedulerEvent.membersOf
    Execution.runFrom (handleQuery b date) r requests
  else if type = "NOTIFY" then handleNotify t r date data
  else .error (.unknownEvent type)

/-- An event, with its type and its date. -/
def readEvent (r : SchedulerReader ω) (event : JsonValue) : Except CallbackAbort (SchedulerReader ω × String × ℚ) := do
  let type ← asserted (stringAt "type" event)
  let date ← asserted (getMember "timestamp" event >>= getNumber "timestamp")
  let data ← asserted (getMember "data" event)
  (handle t b r type date data).map fun r' => (r', type, date)

/-- The loop over the events: it knows the date of the last one, and whether one was a requested call. -/
def readEvents (s : SchedulerReader ω × ℚ × Bool) (event : JsonValue) : Except CallbackAbort (SchedulerReader ω × ℚ × Bool) :=
  (readEvent t b s.1 event).map fun (r, type, date) => (r, date, s.2.2 || type = "REQUESTED_CALL")

/-- A message (`run`). No decisions are made upon a single requested call, unless the scheduler was told to. -/
def readMessage (callOnSingleNop : Bool) (r : SchedulerReader ω) (message : String) : Except CallbackAbort (SchedulerReader ω) :=
  match t.parse message with
  | none => .error .notParsed
  | some doc => do
    let messageDate ← asserted (getMember "now" doc >>= getNumber "now")
    let events ← asserted (getMember "events" doc >>= getArray "events")
    let (r', currentDate, requestedCall) ← Execution.runFrom (readEvents t b) (r, messageDate, false) events
    if !callOnSingleNop && requestedCall && events.length = 1 then .ok r' else .ok (r'.call (.makeDecisions messageDate currentDate))

end SchedulerReader

end ScheduleTest
