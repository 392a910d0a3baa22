import Mathlib.Algebra.Order.Ring.Rat
import Mathlib.Data.String.Basic
import ScheduleTest.Lib.Sorter

/-!
# The submitter of a static workload

`static_job_submitter_process` (`job_submitter.cpp`) sends the jobs of a workload to the server. It sleeps up to the submission times
of the jobs, and sends the jobs that it has gone past in one message. How long it takes to send a message is up to SimGrid. What is
written about the jobs into the data storage, and the energy consumed until then, are left out.
-/

namespace ScheduleTest

/-- A job of a workload, by the text of its identifier. -/
structure StaticJob where
  id : String
  submissionTime : ℚ
  deriving DecidableEq

/-- `job_comparator_subtime_number`. -/
def jobComparatorSubtimeNumber (a b : StaticJob) : Bool :=
  if a.submissionTime = b.submissionTime then a.id < b.id else a.submissionTime < b.submissionTime

/-- What the submitter sends to the server. -/
inductive SubmitterMessage where
  | submitterHello (submitterName : String)
  | jobSubmitted (submitterName : String) (jobs : List StaticJob)
  | submitterBye (submitterName : String)
  deriving DecidableEq

structure JobSubmitter where
  submitterName : String
  /-- The clock of the simulation. -/
  clock : ℚ
  currentSubmissionDate : ℚ
  jobsToSend : List StaticJob := []
  /-- The messages sent, with the dates at which the submitter begins to send them. -/
  sent : List (ℚ × SubmitterMessage) := []

namespace JobSubmitter

variable (sendTime : SubmitterMessage → ℚ)

/-- `send_message`, to the server, which lasts until the message has been received. -/
def sendMessage (s : JobSubmitter) (message : SubmitterMessage) : JobSubmitter := { s with
  sent := s.sent ++ [(s.clock, message)]
  clock := s.clock + sendTime message }

/-- `sleep_for`. -/
def sleepFor (s : JobSubmitter) (duration : ℚ) : JobSubmitter := { s with clock := s.clock + duration }

/-- `submit_jobs_to_server`. -/
def submitJobsToServer (s : JobSubmitter) : JobSubmitter :=
  if s.jobsToSend.isEmpty then s else s.sendMessage sendTime (.jobSubmitted s.submitterName s.jobsToSend)

/-- What is done before a job is met that is submitted later. -/
def waitFor (s : JobSubmitter) (job : StaticJob) : JobSubmitter :=
  let s := { s.submitJobsToServer sendTime with jobsToSend := [] }
  let s := s.sleepFor (job.submissionTime - s.currentSubmissionDate)
  { s with currentSubmissionDate := s.clock }

/-- One round of the loop over the jobs. -/
def meet (s : JobSubmitter) (job : StaticJob) : JobSubmitter :=
  let s := if s.currentSubmissionDate < job.submissionTime then s.waitFor sendTime job else s
  { s with jobsToSend := s.jobsToSend ++ [job] }

end JobSubmitter

/-- `static_job_submitter_process`: the messages sent, with their dates. The sort of the standard library leaves open in which order
jobs come that the comparator does not tell apart. -/
def staticJobSubmitterProcess (sendTime : SubmitterMessage → ℚ)
    (sorter : Sorter fun a b => jobComparatorSubtimeNumber b a = false) (workloadName : String) (jobs : List StaticJob) (startDate : ℚ) :
    List (ℚ × SubmitterMessage) :=
  let submitterName := workloadName ++ "_submitter"
  let s : JobSubmitter := { submitterName := submitterName, clock := startDate, currentSubmissionDate := startDate }
  let s := s.sendMessage sendTime (.submitterHello submitterName)
  let s := { s with currentSubmissionDate := s.clock }
  let s := ((sorter.sort jobs).foldl (JobSubmitter.meet sendTime) s).submitJobsToServer sendTime
  (s.sendMessage sendTime (.submitterBye submitterName)).sent

end ScheduleTest
