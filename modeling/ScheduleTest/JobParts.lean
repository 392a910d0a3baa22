import ScheduleTest.Lib.Text

/-!
# The parts of a job id

A job id is `workload!number`, with `#` and how often the job was submitted again behind it, and then `$` and how often the simulation
went on from a checkpoint, where there are any. Both programs have a function `get_job_parts` that takes an id apart
(`batsched_tools.cpp`, `batsim_tools.cpp`). batsched also prints the ids that follow.
-/

namespace ScheduleTest

open Text

/-- What both programs read of a job id. A part that is missing is `-1`, and a missing workload is `null`. -/
structure IdParts where
  jobNumber : ℤ
  jobResubmit : ℤ
  jobCheckpoint : ℤ
  workload : String
  deriving DecidableEq

/-- The reading of `get_job_parts`, which is the same text in both programs. The lengths of the substrings are computed from the marks
the wrong way round, and a mark that is missing stands at the next one or at the end. The exceptions of `std::stoi` are not caught. -/
def readParts (jobId : String) : Option IdParts :=
  let id := jobId.toList
  let jobCheckpoint := match find '$' id with
    | some startDollar => stoi (id.drop (startDollar + 1))
    | none => some (-1)
  let startDollar := (find '$' id).getD id.length
  let jobResubmit := match find '#' id with
    | some startPound => stoi (substr id (startPound + 1) (sizeSub (startPound + 1) startDollar))
    | none => some (-1)
  let startPound := (find '#' id).getD startDollar
  let jobNumber := match find '!' id with
    | some startExclamation => stoi (substr id (startExclamation + 1) (sizeSub (startExclamation + 1) startPound))
    | none => stoi (substr id 0 startPound)
  let workload := match find '!' id with
    | some startExclamation => String.ofList (substr id 0 startExclamation)
    | none => "null"
  jobCheckpoint.bind fun jobCheckpoint => jobResubmit.bind fun jobResubmit => jobNumber.map fun jobNumber =>
    { jobNumber := jobNumber, jobResubmit := jobResubmit, jobCheckpoint := jobCheckpoint, workload := workload }

/-- A part that is not missing, behind its mark. -/
def markedPart (mark : String) (part : ℤ) : String := if part ≠ -1 then mark ++ toString part else ""

namespace BatschedTools

/-- `batsched_tools::job_parts`. -/
structure JobParts extends IdParts where
  nextCheckpoint : String
  nextResubmit : String
  deriving DecidableEq

/-- The number after a part. An `int` that overflows has no value. -/
def nextPart (part : ℤ) : Option ℤ := if part ≠ -1 then toInt? (part + 1) else some 1

/-- `batsched_tools::get_job_parts`. -/
def getJobParts (jobId : String) : Option JobParts :=
  (readParts jobId).bind fun parts =>
    (nextPart parts.jobResubmit).bind fun resubmit => (nextPart parts.jobCheckpoint).map fun checkpoint => { parts with
      nextResubmit := parts.workload ++ "!" ++ toString parts.jobNumber ++ ("#" ++ toString resubmit) ++
        markedPart "$" parts.jobCheckpoint
      nextCheckpoint := parts.workload ++ "!" ++ toString parts.jobNumber ++ markedPart "#" parts.jobResubmit ++
        ("$" ++ toString checkpoint) }

/-- `batsched_tools::id_separation`. -/
structure IdSeparation where
  basename : String
  resubmitString : String
  resubmitNumber : ℤ
  nextResubmitNumber : ℤ
  nextProfileName : String
  nextJobName : String
  nextResubmitString : String
  workload : String
  nbCheckpoint : String

/-- `batsched_tools::tools::separate_id`. -/
def separateId (jobId : String) : Option IdSeparation :=
  (getJobParts jobId).bind fun parts =>
    let basename := toString parts.jobNumber
    let resubmitNumber := if parts.jobResubmit ≠ -1 then parts.jobResubmit else 0
    let nbCheckpoint := markedPart "$" parts.jobCheckpoint
    (toInt? (resubmitNumber + 1)).map fun nextNumber => {
      basename := basename
      workload := parts.workload
      resubmitNumber := resubmitNumber
      nbCheckpoint := nbCheckpoint
      nextResubmitNumber := nextNumber
      resubmitString := toString resubmitNumber
      nextResubmitString := parts.workload ++ "!" ++ basename ++ "#" ++ toString nextNumber ++ nbCheckpoint
      nextProfileName := basename ++ "#" ++ toString nextNumber ++ nbCheckpoint
      nextJobName := basename ++ "#" ++ toString nextNumber ++ nbCheckpoint }

end BatschedTools

namespace BatsimTools

/-- `batsim_tools::job_parts`. -/
structure JobParts extends IdParts where
  strWorkload : String
  strJobNumber : String
  strJobResubmit : String
  strJobCheckpoint : String
  deriving DecidableEq

/-- `batsim_tools::get_job_parts`. -/
def getJobParts (jobId : String) : Option JobParts :=
  (readParts jobId).map fun parts => { parts with
    strWorkload := if parts.workload = "null" then "" else parts.workload ++ "!"
    strJobNumber := toString parts.jobNumber
    strJobResubmit := markedPart "#" parts.jobResubmit
    strJobCheckpoint := markedPart "$" parts.jobCheckpoint }

end BatsimTools

end ScheduleTest
