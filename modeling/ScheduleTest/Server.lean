import ScheduleTest.Machines
import Mathlib.Data.List.Dedup

/-!
# The server of the simulator

What `server.cpp` keeps of the jobs and of their number, the messages that it handles, the killers that it creates
(`killer_process`), and the messages exchanged with the scheduler, in which the server forgets the jobs that have completed. The
processes act in any order, and the messages that wait for the server are received in any order. But processes that can run do so
before a message is received, so the server receives nothing while a killer is at work; and the scheduler's decisions, which one
process hands over, come in the order in which they were made.
-/

namespace ScheduleTest

/-- A job, as far as its execution goes. -/
structure ServerJob where
  state : JobState := .notSubmitted
  killRequested : Bool := false
  /-- A process executes it. -/
  executing : Bool := false
  /-- Its progress is 1, and the process that executes it has not ended. -/
  workDone : Bool := false
  deriving DecidableEq

/-- `batsim_tools::Kill_Message`, with the progress that the scheduler reads from it. The killer sets the progress of the jobs that
it kills; nothing initialises it, so that of another job is anything. -/
structure KillMessage where
  id : String
  progress : Option ℚ
  deriving DecidableEq

/-- The messages that the server handles. -/
inductive IPMessage where
  | jobSubmitted (jobs : List String)
  | jobRegisteredByDP (job : String)
  | jobCompleted (job : String)
  | fromJobMsg (job : String)
  | killingDone (jobsMsgs : List KillMessage)
  | schedExecuteJob (job : String)
  | schedRejectJob (job : String)
  | schedKillJob (jobsMsgs : List String)
  | schedChangeJobState (job : String) (jobState : JobState)
  | schedSetJobMetadata (job : String)
  | toJobMsg (job : String)
  | schedReady
  /-- Another one, after which the scheduler is told something that is not about a job. -/
  | other
  deriving DecidableEq

/-- The events that the scheduler is told of. -/
inductive ProtoEvent where
  | jobSubmitted (job : String)
  | jobCompleted (job : String) (state : JobState)
  | jobKilled (jobsMsgs : List KillMessage)
  | fromJobMsg (job : String)
  | notify
  deriving DecidableEq

/-- A `killer_process`: the jobs that it has still to come to, and the others. -/
structure Killer where
  jobsMsgs : List String
  killed : List KillMessage := []
  deriving DecidableEq

/-- What is only noted of a run. -/
structure ServerAccounts where
  /-- The jobs that the server has had executed. -/
  executed : List String := []
  /-- The jobs whose state the scheduler has changed. -/
  changed : List String := []
  /-- The jobs for which the number of running jobs has gone up. -/
  startedRunning : List String := []
  /-- The jobs for which it has gone down. -/
  stoppedRunning : List String := []
  /-- The jobs for which the number of completed jobs has gone up. -/
  completed : List String := []
  /-- The jobs that a killer has stopped while they had work left. -/
  stopped : List String := []
  /-- The jobs that the scheduler has been told have completed. -/
  told : List String := []
  /-- The jobs that the scheduler has resubmitted. -/
  resubmitted : List String := []
  deriving DecidableEq

/-- `ServerData`, the jobs of the workload, and the processes that the server exchanges messages with. -/
structure ServerData where
  /-- The jobs of the workload, `_jobs`, those that it has had, `_jobs_met`, and what each is. -/
  jobs : Finset String
  jobsMet : Finset String
  job : String → ServerJob := fun _ => {}
  /-- The jobs that their submitter has not submitted yet. -/
  toSubmit : Finset String
  nbSubmittedJobs : ℤ := 0
  nbRunningJobs : ℤ := 0
  nbCompletedJobs : ℤ := 0
  nbKilledJobs : ℤ := 0
  nbKillers : ℤ := 0
  schedReady : Bool := false
  jobsToBeDeleted : List String := []
  protoWriter : List ProtoEvent := []
  /-- The messages that wait for the server. -/
  mailbox : List IPMessage := []
  killers : List Killer := []
  /-- The message that the scheduler has not answered. -/
  sent : Option (List ProtoEvent)
  /-- What is left to hand over of its answer. -/
  answer : List IPMessage := []
  accounts : ServerAccounts := {}

/-- What stops the simulation. -/
inductive ServerAbort where
  /-- `job_at` does not find the job. -/
  | noSuchJob (job : String)
  /-- A job that is to be deleted is not there. -/
  | noJobToDelete (job : String)
  | notRegistered (job : String)
  | alreadyRegistered (job : String)
  | noJobsAreRunning
  | tooManyRunning
  | tooManyCompleted
  | notSubmitted (job : String)
  | notExecutedNorCompleted (job : String)
  | badKill (job : String)
  | noTask (job : String)
  | invalidJobState (job : String)
  /-- The scheduler finds no progress in JOB_KILLED. -/
  | noJobProgress (job : String)
  /-- This is not what happens next. -/
  | cannotHappen
  deriving DecidableEq

namespace JobState

/-- `Job::is_complete`. -/
def isComplete (state : JobState) : Bool :=
  state = .completedSuccessfully || state = .completedKilled || state = .completedFailed || state = .rejected ||
    state = .completedWalltimeReached

end JobState

namespace IPMessage

/-- Whether the scheduler can decide on it. -/
def isDecision : IPMessage → Bool
  | jobRegisteredByDP _ | schedExecuteJob _ | schedRejectJob _ | schedKillJob _ | schedChangeJobState _ _
  | schedSetJobMetadata _ | toJobMsg _ | other => true
  | jobSubmitted _ | jobCompleted _ | fromJobMsg _ | killingDone _ | schedReady => false

/-- The jobs that a decision names. -/
def named : IPMessage → List String
  | schedExecuteJob job | schedRejectJob job | schedChangeJobState job _ | schedSetJobMetadata job | toJobMsg job => [job]
  | schedKillJob jobs => jobs
  | _ => []

end IPMessage

namespace ProtoEvent

def completedOf : ProtoEvent → List String
  | jobCompleted job _ => [job]
  | _ => []

def killedOf : ProtoEvent → List KillMessage
  | jobKilled jobsMsgs => jobsMsgs
  | _ => []

end ProtoEvent

namespace ServerData

/-- The server and the scheduler, to whom the beginning of the simulation is told first, and the jobs of a workload. -/
def initial (jobs : Finset String) : ServerData where
  jobs := jobs
  jobsMet := jobs
  toSubmit := jobs
  sent := some []

/-- `Workloads::job_at`. -/
def jobAt (data : ServerData) (id : String) : Except ServerAbort ServerJob :=
  if id ∈ data.jobs then .ok (data.job id) else .error (.noSuchJob id)

/-- The same, once `job_is_registered` is checked. -/
def registeredJobAt (data : ServerData) (id : String) : Except ServerAbort ServerJob :=
  if id ∈ data.jobsMet then data.jobAt id else .error (.notRegistered id)

/-- Change the job that a pointer points to. -/
def setJob (data : ServerData) (id : String) (job : ServerJob) : ServerData :=
  { data with job := Function.update data.job id job }

/-- The scheduler will be told. -/
def append (data : ServerData) (events : List ProtoEvent) : ServerData :=
  { data with protoWriter := data.protoWriter ++ events }

/-- One more running job. -/
def startRunning (data : ServerData) (id : String) : Except ServerAbort ServerData :=
  if data.nbSubmittedJobs < data.nbRunningJobs + 1 then .error .tooManyRunning
  else .ok { data with
    nbRunningJobs := data.nbRunningJobs + 1
    accounts := { data.accounts with startedRunning := data.accounts.startedRunning ++ [id] } }

/-- One more completed job, which is to be deleted. -/
def complete (data : ServerData) (id : String) : ServerData :=
  { data with
    nbCompletedJobs := data.nbCompletedJobs + 1
    jobsToBeDeleted := data.jobsToBeDeleted ++ [id]
    accounts := { data.accounts with completed := data.accounts.completed ++ [id] } }

/-- One less running job, and one more completed one. -/
def endRunning (data : ServerData) (id : String) : Except ServerAbort ServerData :=
  if data.nbRunningJobs - 1 < 0 then .error .noJobsAreRunning
  else if data.nbSubmittedJobs < data.nbCompletedJobs + 1 + (data.nbRunningJobs - 1) then .error .tooManyCompleted
  else .ok { data.complete id with
    nbRunningJobs := data.nbRunningJobs - 1
    accounts := { (data.complete id).accounts with stoppedRunning := data.accounts.stoppedRunning ++ [id] } }

/-! ## The handlers -/

/-- The loop of `server_on_job_submitted`. -/
def submitJob (data : ServerData) (id : String) : ServerData :=
  { (data.setJob id { data.job id with state := .submitted }).append [.jobSubmitted id] with
    nbSubmittedJobs := data.nbSubmittedJobs + 1 }

/-- `handle_register_job`, which adds the job to the workload, and `server_on_register_job`. -/
def onRegisterJob (data : ServerData) (id : String) : Except ServerAbort ServerData :=
  if id ∈ data.jobsMet then .error (.alreadyRegistered id)
  else .ok { (data.setJob id { state := .submitted }).append [.jobSubmitted id] with
    jobs := insert id data.jobs
    jobsMet := insert id data.jobsMet
    nbSubmittedJobs := data.nbSubmittedJobs + 1 }

/-- `server_on_job_completed`. -/
def onJobCompleted (data : ServerData) (id : String) : Except ServerAbort ServerData :=
  (data.endRunning id).map (·.append [.jobCompleted id (data.job id).state, .notify])

/-- `server_on_from_job_msg`. -/
def onFromJobMsg (data : ServerData) (id : String) : Except ServerAbort ServerData :=
  (data.jobAt id).map fun _ => data.append [.fromJobMsg id]

/-- The loop of `server_on_killing_done`. -/
def accountKilled (data : ServerData) (msg : KillMessage) : Except ServerAbort ServerData :=
  match data.jobAt msg.id with
  | .error e => .error e
  | .ok job =>
    if job.state = .completedKilled then
      (data.endRunning msg.id).map fun data' => { data'.append [.jobCompleted msg.id job.state, .notify] with
        nbKilledJobs := data.nbKilledJobs + 1 }
    else .ok data

/-- `server_on_killing_done`. All jobs that were asked for are acknowledged. -/
def onKillingDone (data : ServerData) (jobsMsgs : List KillMessage) : Except ServerAbort ServerData :=
  (Execution.runFrom accountKilled data jobsMsgs).map fun data' => { data'.append [.jobKilled jobsMsgs] with
    nbKillers := data'.nbKillers - 1 }

/-- `handle_execute_job`, which looks the job up, and `server_on_execute_job`. -/
def onExecuteJob (data : ServerData) (id : String) : Except ServerAbort ServerData :=
  match data.jobAt id with
  | .error e => .error e
  | .ok job =>
    if job.state ≠ .submitted then .error (.notSubmitted id)
    else (data.startRunning id).map fun data' =>
      { data'.setJob id { job with state := .running, executing := true } with
        accounts := { data'.accounts with executed := data.accounts.executed ++ [id] } }

/-- `server_on_reject_job`. -/
def onRejectJob (data : ServerData) (id : String) : Except ServerAbort ServerData :=
  match data.registeredJobAt id with
  | .error e => .error e
  | .ok job =>
    if job.state ≠ .submitted then .error (.notSubmitted id)
    else .ok ((data.setJob id { job with state := .rejected }).complete id)

/-- The loop of `server_on_kill_jobs`, with the jobs that are going to be killed. -/
def requestKill : ServerData × List String → String → Except ServerAbort (ServerData × List String)
  | (data, toKill), id =>
    match data.registeredJobAt id with
    | .error e => .error e
    | .ok job =>
      if job.killRequested then .ok (data, toKill)
      else if job.state ≠ .running ∧ !job.state.isComplete then .error (.notExecutedNorCompleted id)
      else .ok (data.setJob id { job with killRequested := true }, toKill ++ [id])

/-- `server_on_kill_jobs`. -/
def onKillJobs (data : ServerData) (ids : List String) : Except ServerAbort ServerData :=
  (Execution.runFrom requestKill (data, []) ids).map fun (data', toKill) =>
    if toKill = [] then data'
    else { data' with killers := data'.killers ++ [{ jobsMsgs := toKill }], nbKillers := data'.nbKillers + 1 }

/-- `server_on_change_job_state`. -/
def onChangeJobState (data : ServerData) (id : String) (newState : JobState) : Except ServerAbort ServerData :=
  match data.registeredJobAt id with
  | .error e => .error e
  | .ok job =>
    let result := match job.state, newState with
      | .submitted, .running => data.startRunning id
      | .submitted, .rejected =>
        if data.nbSubmittedJobs < data.nbCompletedJobs + 1 + data.nbRunningJobs then .error .tooManyCompleted
        else .ok (data.complete id)
      | .running, .completedSuccessfully | .running, .completedFailed | .running, .completedWalltimeReached
      | .running, .completedKilled => data.endRunning id
      | _, _ => .error (.invalidJobState id)
    result.map fun data' => { data'.setJob id { job with state := newState } with
      accounts := { data'.accounts with changed := data.accounts.changed ++ [id] } }

/-- The handler of each type of message. -/
def handle (data : ServerData) : IPMessage → Except ServerAbort ServerData
  | .jobSubmitted jobs => .ok (jobs.foldl submitJob data)
  | .jobRegisteredByDP id => data.onRegisterJob id
  | .jobCompleted id => data.onJobCompleted id
  | .fromJobMsg id => data.onFromJobMsg id
  | .killingDone jobsMsgs => data.onKillingDone jobsMsgs
  | .schedExecuteJob id => data.onExecuteJob id
  | .schedRejectJob id => data.onRejectJob id
  | .schedKillJob ids => data.onKillJobs ids
  | .schedChangeJobState id newState => data.onChangeJobState id newState
  | .schedSetJobMetadata id => (data.registeredJobAt id).map fun _ => data
  | .toJobMsg id => (data.registeredJobAt id).map fun _ => data
  | .schedReady => .ok { data with schedReady := true }
  | .other => .ok (data.append [.notify])

/-! ## The simulation loop -/

/-- `generate_and_send_message`. -/
def generateAndSendMessage (data : ServerData) : ServerData :=
  { data with
    sent := some data.protoWriter
    protoWriter := []
    schedReady := false
    accounts := { data.accounts with told := data.accounts.told ++ data.protoWriter.flatMap ProtoEvent.completedOf } }

/-- `Jobs::delete_job`. It checks `_jobs_met`, and finds no job in `_jobs` where it has been deleted before. -/
def deleteJob (data : ServerData) (id : String) : Except ServerAbort ServerData :=
  if id ∈ data.jobsMet ∧ id ∈ data.jobs then .ok { data with jobs := data.jobs.erase id } else .error (.noJobToDelete id)

/-- `Workloads::delete_jobs`. -/
def deleteJobs (data : ServerData) : Except ServerAbort ServerData :=
  (Execution.runFrom deleteJob data data.jobsToBeDeleted).map fun data' => { data' with jobsToBeDeleted := [] }

/-- The end of the simulation loop: a message is sent to the scheduler if it is ready, no other message is there to be received, and
there is something to send. -/
def sendIfNeeded (data : ServerData) : Except ServerAbort ServerData :=
  if data.schedReady ∧ data.mailbox = [] ∧ data.protoWriter ≠ [] then data.generateAndSendMessage.deleteJobs else .ok data

/-- The body of the simulation loop. -/
def receive (data : ServerData) (message : IPMessage) : Except ServerAbort ServerData :=
  match data.handle message with
  | .ok data' => data'.sendIfNeeded
  | .error e => .error e

/-! ## The other processes -/

/-- The loop of `killer_process`. A parallel task that is cancelled makes the process of the job end at once, in the same state as
if the process was killed. -/
def killJob (data : ServerData) (id : String) : Except ServerAbort ServerData :=
  match data.jobAt id with
  | .error e => .error e
  | .ok job =>
    if job.state = .rejected ∨ job.state = .submitted ∨ job.state = .notSubmitted then .error (.badKill id)
    else if job.state = .running then
      if job.executing then
        .ok { data.setJob id { job with state := .completedKilled, executing := false } with
          accounts := if job.workDone then data.accounts else { data.accounts with stopped := data.accounts.stopped ++ [id] } }
      else .error (.noTask id)
    else .ok data

/-- A killer comes to its next job, whose progress is then read in the message. -/
def killNext (data : ServerData) (i : ℕ) (progress : Option ℚ) : Except ServerAbort ServerData :=
  match data.killers[i]? with
  | some ⟨id :: jobsMsgs, killed⟩ => (data.killJob id).map fun data' => { data' with
      killers := ⟨jobsMsgs, killed ++ [⟨id, progress⟩]⟩ :: data.killers.eraseIdx i }
  | _ => .error .cannotHappen

/-- The end of `killer_process`. -/
def killingDone (data : ServerData) (i : ℕ) : Except ServerAbort ServerData :=
  match data.killers[i]? with
  | some ⟨[], killed⟩ => .ok { data with
      killers := data.killers.eraseIdx i
      mailbox := data.mailbox ++ [.killingDone killed] }
  | _ => .error .cannotHappen

/-- The end of `execute_job_process`, when the task of the job has returned. -/
def jobEnds (data : ServerData) (id : String) (returnCode : ℤ) : Except ServerAbort ServerData :=
  if (data.job id).executing ∧ -1 ≤ returnCode then
    .ok { data.setJob id { data.job id with state := MachinesState.stateOfReturnCode returnCode, executing := false } with
      mailbox := data.mailbox ++ [.jobCompleted id] }
  else .error .cannotHappen

/-- A message from a process: a job's message to the scheduler, some jobs of a submitter, or another one. -/
def post (data : ServerData) : IPMessage → Except ServerAbort ServerData
  | .fromJobMsg id =>
    if (data.job id).executing then .ok { data with mailbox := data.mailbox ++ [.fromJobMsg id] } else .error .cannotHappen
  | .jobSubmitted ids =>
    if ids.Nodup ∧ ids.toFinset ⊆ data.toSubmit then
      .ok { data with toSubmit := data.toSubmit \ ids.toFinset, mailbox := data.mailbox ++ [.jobSubmitted ids] }
    else .error .cannotHappen
  | .other => .ok { data with mailbox := data.mailbox ++ [.other] }
  | _ => .error .cannotHappen

/-- The scheduler reads JOB_KILLED: the killed jobs, and how far they were. They are the keys of a map. -/
def readKilled (events : List ProtoEvent) : Except ServerAbort (List String) :=
  let killed := events.flatMap ProtoEvent.killedOf
  match killed.find? (·.progress = none) with
  | some msg => .error (.noJobProgress msg.id)
  | none => .ok (killed.map KillMessage.id).dedup

/-- The scheduler answers. `handle_resubmission` submits each of the killed jobs again. -/
def decide (data : ServerData) (decisions : List IPMessage) : Except ServerAbort ServerData :=
  match data.sent with
  | none => .error .cannotHappen
  | some events =>
    if decisions.all IPMessage.isDecision then
      (readKilled events).map fun killed => { data with
        sent := none
        answer := decisions ++ [.schedReady]
        accounts := { data.accounts with resubmitted := data.accounts.resubmitted ++ killed } }
    else .error .cannotHappen

end ServerData

/-- What happens next. -/
inductive ServerEvent where
  /-- The server receives one of the messages that wait. -/
  | receive (i : ℕ)
  /-- It receives what comes next of the scheduler's answer. -/
  | receiveDecision
  | decide (decisions : List IPMessage)
  | killNext (killer : ℕ) (progress : Option ℚ)
  | killingDone (killer : ℕ)
  /-- Nothing is left to do of a job that is executed. -/
  | workEnds (job : String)
  | jobEnds (job : String) (returnCode : ℤ)
  | post (message : IPMessage)

namespace ServerData

def step (data : ServerData) : ServerEvent → Except ServerAbort ServerData
  | .receive i =>
    match data.killers, data.mailbox[i]? with
    | [], some message => { data with mailbox := data.mailbox.eraseIdx i }.receive message
    | _, _ => .error .cannotHappen
  | .receiveDecision =>
    match data.killers, data.answer with
    | [], decision :: answer => { data with answer := answer }.receive decision
    | _, _ => .error .cannotHappen
  | .decide decisions => data.decide decisions
  | .killNext i progress => data.killNext i progress
  | .killingDone i => data.killingDone i
  | .workEnds id =>
    if (data.job id).executing then .ok (data.setJob id { data.job id with workDone := true }) else .error .cannotHappen
  | .jobEnds id returnCode => data.jobEnds id returnCode
  | .post message => data.post message

end ServerData

end ScheduleTest
