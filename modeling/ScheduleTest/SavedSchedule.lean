import ScheduleTest.CheckpointVariables

/-!
# The schedule in a checkpoint

The text of `batsched_schedule.chkpt` (`Schedule::to_json_string`), and how a schedule is read back from it
(`Schedule::ingest_schedule`).
-/

namespace ScheduleTest

/-- What a schedule holds for its drawings. The list of the reservations to be outlined is empty here: only the algorithms, and no
operation of the schedule, add to it. -/
structure Drawings where
  colors : List String := []
  frameNumber : CInt := ⟨0, by decide⟩
  largestTimeSliceLength : ℚ := 0
  outputNumber : CInt := ⟨0, by decide⟩
  outputSvg : String := "none"
  previousTimeEnd : ℚ := 0
  reservationColors : List String := []
  smallestTimeSliceLength : ℚ := 0
  svgFrameEnd : ℤ := -1
  svgFrameStart : ℤ := 1
  svgHighlightMachines : IntervalSet := ∅
  svgOutputEnd : ℤ := -1
  svgOutputStart : ℤ := 1
  svgPrefix : String := ""

/-! ### Writing -/

/-- A member of an object with the spaces before it, behind its key, before its value and behind that. -/
def spacedMember (before key behindKey beforeValue : String) (value : List Char) (after : String) : List Char :=
  before.toList ++ '"' :: (key.toList ++ '"' :: (behindKey.toList ++ ':' :: (beforeValue.toList ++ (value ++ after.toList))))

/-- What `TimeSlice::to_string_allocated_jobs` writes for a job: the allocation recorded at the begin of the slice, else the
machines in the slice. There is no text where the job of the allocation is not set. -/
def allocatedJobText (t : ValueTexts) (recorded : Option JobAlloc) (job : Job) (machines : IntervalSet) : Option (List Char) :=
  (match recorded with
    | some alloc => alloc.toJsonString t
    | none => some (objectText [spacedMember " " "used_machines" "" "" (stringText (t.toStringHyphen machines)) " "])).map
  fun alloc => "\n\t\t\t\t".toList ++ objectText [memberText "job_id" job.toJsonString, ' ' :: memberText "alloc" alloc]

/-- The texts of all jobs of a slice, if each has one. -/
def allocatedJobTexts (t : ValueTexts) (recorded : String → Option JobAlloc) :
    List (Job × IntervalSet) → Option (List (List Char))
  | [] => some []
  | (job, machines) :: entries => (allocatedJobText t (recorded job.id) job machines).bind fun text =>
      (allocatedJobTexts t recorded entries).map (text :: ·)

/-- `TimeSlice::to_json_string`. -/
def TimeSlice.toJsonString (t : ValueTexts) (recorded : String → Option JobAlloc) (slice : TimeSlice) : Option (List Char) :=
  (allocatedJobTexts t recorded slice.allocatedJobs.entries).map fun jobs => "\t\t\t".toList ++ objectText [
    spacedMember "" "Time slice" "" " " (objectText [
      spacedMember "" "begin" " " " " (t.numberText slice.beginDate) " ",
      spacedMember " " "end" " " " " (t.numberText slice.endDate) "",
      spacedMember " " "length" " " " " (t.numberText slice.length) " ",
      spacedMember "\n\t\t\t\t" "available_machines" "" " " (stringText (t.toStringHyphen slice.availableMachines)) "",
      spacedMember "\n\t\t\t\t" "allocated_jobs" "" " " ('[' :: ([','].intercalate jobs ++ [']'])) "",
      spacedMember "\n\t\t\t\t" "allocated_machines" "" "" (stringText (t.toStringHyphen slice.allocatedMachines)) "",
      spacedMember "\n\t\t\t\t" "has_reservation" "" "" (boolText slice.hasReservation) "",
      spacedMember "\n\t\t\t\t" "nb_available_machines" "" "" (intText slice.nbAvailableMachines) "",
      spacedMember "\n\t\t\t\t" "nb_reservations" "" "" (intText slice.nbReservations) "\n\t\t\t"]) ""]

/-- The texts of all slices, if each has one. -/
def sliceTexts (t : ValueTexts) (allocations : String → ℚ → Option JobAlloc) : List TimeSlice → Option (List (List Char))
  | [] => some []
  | slice :: slices => (slice.toJsonString t fun jobId => allocations jobId slice.beginDate).bind fun text =>
      (sliceTexts t allocations slices).map (text :: ·)

/-- Each slice on lines of its own, with a comma behind it if it is not the last. -/
def joinSlices : List (List Char) → List Char
  | [] => []
  | [slice] => slice ++ ['\n']
  | slice :: slice' :: slices => slice ++ ',' :: '\n' :: joinSlices (slice' :: slices)

namespace Schedule

/-- The members of the document. -/
def documentLines (t : ValueTexts) (d : Drawings) (s : Schedule) (slices : List (List Char)) : List (List Char) := [
  lineText "\t\t" "_colors" (stringsText d.colors),
  lineText "\t\t" "_frame_number" (intText d.frameNumber),
  lineText "\t\t" "_largest_time_slice_length" (t.numberText d.largestTimeSliceLength),
  lineText "\t\t" "_nb_jobs_size" (intText s.nbJobsSize),
  lineText "\t\t" "_nb_reservations_size" (intText s.nbReservationsSize),
  lineText "\t\t" "_output_number" (intText d.outputNumber),
  lineText "\t\t" "_output_svg" (stringText d.outputSvg),
  lineText "\t\t" "_previous_time_end" (t.numberText d.previousTimeEnd),
  lineText "\t\t" "_repair_machines" (stringText (t.toStringHyphen s.repairMachines)),
  lineText "\t\t" "_reservation_colors" (stringsText d.reservationColors),
  lineText "\t\t" "_size" (intText s.size),
  lineText "\t\t" "_smallest_time_slice_length" (t.numberText d.smallestTimeSliceLength),
  lineText "\t\t" "_svg_frame_end" (intText d.svgFrameEnd),
  lineText "\t\t" "_svg_frame_start" (intText d.svgFrameStart),
  lineText "\t\t" "_svg_highlight_machines" (stringText (t.toStringHyphen d.svgHighlightMachines)),
  lineText "\t\t" "_svg_output_end" (intText d.svgOutputEnd),
  lineText "\t\t" "_svg_output_start" (intText d.svgOutputStart),
  lineText "\t\t" "_svg_prefix" (stringText d.svgPrefix),
  lineText "\t\t" "_svg_reservations" ['[', ']'],
  spacedMember "\n\t\t" "TimeSlices" "" "\n\t\t" ('[' :: '\n' :: (joinSlices slices ++ "\t\t]".toList)) "\n\t"]

/-- `Schedule::to_json_string`. There is no text where the job of an allocation is not set. -/
def toJsonString (t : ValueTexts) (d : Drawings) (s : Schedule) : Option String :=
  (sliceTexts t s.allocations s.profile).map fun slices => String.ofList (objectText [
    spacedMember "\n\t" "Schedule" "" "\n\t" (objectText (documentLines t d s slices)) "\n"])

end Schedule

/-! ### Reading -/

namespace SavedSchedule

open SavedReservations CheckpointVariables

/-- `job->allocations[date]`, for all jobs. -/
abbrev Allocations := String → ℚ → Option JobAlloc

/-- `Schedule::JobMap_from_json`. An allocation that has a begin is recorded in the job. -/
def jobMapFromJson (t : ValueTexts) (workload : String → Option Job) (jobs : KeyedMap Job.id IntervalSet)
    (allocations : Allocations) : List JsonValue → Except ReadAbort (KeyedMap Job.id IntervalSet × Allocations)
  | [] => .ok (jobs, allocations)
  | value :: values => do
    let idValue ← getMember "job_id" value
    let allocValue ← getMember "alloc" value
    let alloc ← jobAllocFromJson t allocValue
    let jobId ← getString "job_id" idValue
    match BatschedTools.getJobParts jobId with
    | none => .error (.invalidId jobId)
    | some parts => do
      let job ← getJob workload parts.nextCheckpoint
      let recorded : Allocations := Function.update allocations job.id
        (Function.update (allocations job.id) alloc.beginDate (some { alloc with job := some job }))
      jobMapFromJson t workload (jobs.insert job alloc.usedMachines)
        (if (allocValue.member? "begin").isSome then recorded else allocations) values

/-- The jobs of a slice and its machines that are allocated: none of them for a slice of more than a hundred years. -/
def readAllocated (t : ValueTexts) (workload : String → Option Job) (allocations : Allocations) (length : ℚ)
    (slice : JsonValue) : Except ReadAbort (KeyedMap Job.id IntervalSet × IntervalSet × Allocations) :=
  if 3153600000 < length then .ok (.empty, ∅, allocations)
  else do
    let jobs ← getMember "allocated_jobs" slice >>= getArray "allocated_jobs" >>=
      jobMapFromJson t workload .empty allocations
    let machines ← getMember "allocated_machines" slice >>= getString "allocated_machines" >>= getMachines t
    .ok (jobs.1, machines, jobs.2)

/-- `Schedule::TimeSlice_from_json`, with the allocations after it. -/
def timeSliceFromJson (t : ValueTexts) (workload : String → Option Job) (allocations : Allocations) (value : JsonValue) :
    Except ReadAbort (TimeSlice × Allocations) := do
  let slice ← getMember "Time slice" value
  let beginDate ← getMember "begin" slice >>= getDouble t "begin"
  let endDate ← getMember "end" slice >>= getDouble t "end"
  let length ← getMember "length" slice >>= getDouble t "length"
  let availableMachines ← getMember "available_machines" slice >>= getString "available_machines" >>= getMachinesOrNone t
  let allocated ← readAllocated t workload allocations length slice
  let hasReservation ← getMember "has_reservation" slice >>= getBool "has_reservation"
  let nbAvailableMachines ← getMember "nb_available_machines" slice >>= getInt "nb_available_machines"
  let nbReservations ← getMember "nb_reservations" slice >>= getInt "nb_reservations"
  .ok ({
    beginDate := beginDate
    endDate := endDate
    length := length
    availableMachines := availableMachines
    allocatedJobs := allocated.1
    allocatedMachines := allocated.2.1
    hasReservation := hasReservation
    nbAvailableMachines := nbAvailableMachines.1
    nbReservations := nbReservations.1 }, allocated.2.2)

def timeSlicesFromJson (t : ValueTexts) (workload : String → Option Job) (allocations : Allocations) :
    List JsonValue → Except ReadAbort (List TimeSlice × Allocations)
  | [] => .ok ([], allocations)
  | value :: values => do
    let slice ← timeSliceFromJson t workload allocations value
    let slices ← timeSlicesFromJson t workload slice.2 values
    .ok (slice.1 :: slices.1, slices.2)

def getStrings (key : String) : List JsonValue → Except ReadAbort (List String)
  | [] => .ok []
  | value :: values => do
    let text ← getString key value
    let texts ← getStrings key values
    .ok (text :: texts)

/-- `Schedule::ingest_schedule`: the schedule that reads, with what it reads. -/
def ingest (t : ValueTexts) (workload : String → Option Job) (d : Drawings) (s : Schedule) (doc : JsonValue) :
    Except ReadAbort (Drawings × Schedule) := do
  let schedule ← getMember "Schedule" doc
  let slices ← getMember "TimeSlices" schedule >>= getArray "TimeSlices" >>= timeSlicesFromJson t workload s.allocations
  let colors ← getMember "_colors" schedule >>= getArray "_colors" >>= getStrings "_colors"
  let frameNumber ← getMember "_frame_number" schedule >>= getInt "_frame_number"
  let largest ← getMember "_largest_time_slice_length" schedule >>= getDouble t "_largest_time_slice_length"
  let nbJobsSize ← getMember "_nb_jobs_size" schedule >>= getInt "_nb_jobs_size"
  let nbReservationsSize ← getMember "_nb_reservations_size" schedule >>= getInt "_nb_reservations_size"
  let outputNumber ← getMember "_output_number" schedule >>= getInt "_output_number"
  let previousTimeEnd ← getMember "_previous_time_end" schedule >>= getDouble t "_previous_time_end"
  let repairMachines ← getMember "_repair_machines" schedule >>= getString "_repair_machines" >>= getMachinesOrNone t
  let reservationColors ← getMember "_reservation_colors" schedule >>= getArray "_reservation_colors" >>=
    getStrings "_reservation_colors"
  let size ← getMember "_size" schedule >>= getInt "_size"
  let smallest ← getMember "_smallest_time_slice_length" schedule >>= getDouble t "_smallest_time_slice_length"
  let highlightMachines ← getMember "_svg_highlight_machines" schedule >>= getString "_svg_highlight_machines" >>=
    getMachinesOrNone t
  let svgPrefix ← getMember "_svg_prefix" schedule >>= getString "_svg_prefix"
  let _ ← getMember "_svg_reservations" schedule >>= getArray "_svg_reservations" >>= readAll t workload slices.1
  .ok ({ d with
      colors := colors
      frameNumber := frameNumber
      largestTimeSliceLength := largest
      outputNumber := outputNumber
      previousTimeEnd := previousTimeEnd
      reservationColors := reservationColors
      smallestTimeSliceLength := smallest
      svgHighlightMachines := highlightMachines
      svgPrefix := svgPrefix },
    { s with
      profile := slices.1
      nbJobsSize := nbJobsSize.1
      nbReservationsSize := nbReservationsSize.1
      repairMachines := repairMachines
      size := size.1
      allocations := slices.2 })

end SavedSchedule

end ScheduleTest
