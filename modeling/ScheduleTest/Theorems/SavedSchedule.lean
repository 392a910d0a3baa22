import ScheduleTest.Lib.Execution
import ScheduleTest.SavedSchedule
import ScheduleTest.Theorems.CheckpointVariables

/-!
# Which schedules survive a checkpoint

The text of a schedule is JSON, but not every slice is read back from it. A slice without jobs is not: the empty text of its
machines that are allocated is no set. Nor is one with a date of whose text the JSON library makes another double, one that holds a
job on other machines than those recorded for the job at its begin, or one that holds a job for more than a hundred years.
-/

namespace ScheduleTest

open SavedReservations

/-- A number that is given back when it is printed with fifteen digits and read by the JSON library. -/
def ValueTexts.ReadsBack (t : ValueTexts) (x : ℚ) : Prop := t.parseDouble (Text.fixedValue 15 (t.toDouble x)) = x

/-- A slice is given back: its time, its machines, its numbers, and the machines of each job for the job after the checkpoint. -/
structure SliceBack (workload : String → Option Job) (slice slice' : TimeSlice) : Prop where
  beginDate : slice'.beginDate = slice.beginDate
  endDate : slice'.endDate = slice.endDate
  length : slice'.length = slice.length
  availableMachines : slice'.availableMachines = slice.availableMachines
  nbAvailableMachines : slice'.nbAvailableMachines = slice.nbAvailableMachines
  nbReservations : slice'.nbReservations = slice.nbReservations
  hasReservation : slice'.hasReservation = slice.hasReservation
  jobs : ∃ jobs, List.Forall₂ (fun entry entry' => nextCheckpointJob workload entry.1 = some entry'.1 ∧ entry'.2 = entry.2)
    slice.allocatedJobs.entries jobs ∧ jobs.Perm slice'.allocatedJobs.entries

/-- A schedule survives a checkpoint: its text is JSON, and what is read from it gives each slice back. -/
def ScheduleSurvives (t : ValueTexts) (workload : String → Option Job) (d d' : Drawings) (s s' : Schedule) : Prop :=
  ∃ text doc drawings restored, s.toJsonString t d = some text ∧ JsonValue.parse text = some doc ∧
    SavedSchedule.ingest t workload d' s' doc = .ok (drawings, restored) ∧
    List.Forall₂ (SliceBack workload) s.profile restored.profile ∧ restored.size = s.size ∧
    restored.nbJobsSize = s.nbJobsSize ∧ restored.nbReservationsSize = s.nbReservationsSize

/-- A slice that can be written: its numbers are of type `int`, the texts of its machines are those
of the library, the ids of its jobs stand for themselves, and each job has one after the checkpoint. -/
structure TimeSlice.Savable (t : ValueTexts) (workload : String → Option Job) (recorded : String → Option JobAlloc)
    (slice : TimeSlice) : Prop where
  nbAvailableMachines : Text.IsInt slice.nbAvailableMachines
  nbReservations : Text.IsInt slice.nbReservations
  availableMachines : t.HyphenText slice.availableMachines
  allocatedMachines : t.HyphenText slice.allocatedMachines
  jobs : ∀ entry ∈ slice.allocatedJobs.entries, entry.1.PlainId ∧ t.HyphenText entry.2 ∧
    (nextCheckpointJob workload entry.1).isSome
  recorded : ∀ entry ∈ slice.allocatedJobs.entries, ∀ alloc ∈ recorded entry.1.id,
    t.HyphenText alloc.usedMachines ∧ ∀ job ∈ alloc.job, job.PlainId

/-- A schedule that can be written. -/
structure Schedule.Savable (t : ValueTexts) (workload : String → Option Job) (d : Drawings) (s : Schedule) : Prop where
  slices : ∀ slice ∈ s.profile, slice.Savable t workload fun jobId => s.allocations jobId slice.beginDate
  size : Text.IsInt s.size
  nbJobsSize : Text.IsInt s.nbJobsSize
  nbReservationsSize : Text.IsInt s.nbReservationsSize
  repairMachines : t.HyphenText s.repairMachines
  highlightMachines : t.HyphenText d.svgHighlightMachines
  colors : ∀ color ∈ d.colors, JsonValue.Plain color.toList
  reservationColors : ∀ color ∈ d.reservationColors, JsonValue.Plain color.toList
  outputSvg : JsonValue.Plain d.outputSvg.toList
  svgPrefix : JsonValue.Plain d.svgPrefix.toList

/-- A slice that is read back. Its dates and its length are, and it has machines that are allocated if it is not longer than a
hundred years, else no jobs. Each of its jobs has machines, and these are those of the allocation recorded for it, if there is one.
And the jobs are different after the checkpoint. -/
structure SliceKept (t : ValueTexts) (workload : String → Option Job) (recorded : String → Option JobAlloc) (slice : TimeSlice) :
    Prop where
  beginDate : t.ReadsBack slice.beginDate
  endDate : t.ReadsBack slice.endDate
  length : t.ReadsBack slice.length
  long : 3153600000 < slice.length → slice.allocatedJobs = .empty
  short : slice.length ≤ 3153600000 → slice.allocatedMachines ≠ ∅
  jobs : ∀ entry ∈ slice.allocatedJobs.entries, entry.2 ≠ ∅ ∧
    ∀ alloc ∈ recorded entry.1.id, alloc.job.isSome ∧ alloc.usedMachines = entry.2
  different : (slice.allocatedJobs.entries.map fun entry => (nextCheckpointJob workload entry.1).map Job.id).Nodup

namespace SavedScheduleAux

open JsonValue SavedReservationsAux CheckpointVariables CheckpointVariablesAux SavedSchedule

variable {t : ValueTexts} {workload : String → Option Job} {d d' : Drawings} {s s' : Schedule}
  {recorded : String → Option JobAlloc} {slice : TimeSlice} {entry : Job × IntervalSet} {entries : List (Job × IntervalSet)}
  {text : List Char} {texts : List (List Char)} {value : JsonValue} {values : List JsonValue}

/-! ### What is written -/

/-- What the text of an allocation in a slice stands for. -/
def recordedValue (t : ValueTexts) (entry : Job × IntervalSet) : Option JobAlloc → JsonValue
  | some alloc => allocValue t alloc (alloc.job.getD entry.1)
  | none => .object [("used_machines", .string (t.toStringHyphen entry.2))]

/-- What the text of a job in a slice stands for. -/
def entryValue (t : ValueTexts) (recorded : String → Option JobAlloc) (entry : Job × IntervalSet) : JsonValue :=
  .object [("job_id", .string entry.1.id), ("alloc", recordedValue t entry (recorded entry.1.id))]

/-- A number that is printed with fifteen digits. -/
def numberValue (t : ValueTexts) (x : ℚ) : JsonValue := .double (Text.fixedValue 15 (t.toDouble x))

/-- What the text of a slice stands for. -/
def sliceValue (t : ValueTexts) (recorded : String → Option JobAlloc) (slice : TimeSlice) : JsonValue := .object [
  ("Time slice", .object [
    ("begin", numberValue t slice.beginDate),
    ("end", numberValue t slice.endDate),
    ("length", numberValue t slice.length),
    ("available_machines", .string (t.toStringHyphen slice.availableMachines)),
    ("allocated_jobs", .array (slice.allocatedJobs.entries.map (entryValue t recorded))),
    ("allocated_machines", .string (t.toStringHyphen slice.allocatedMachines)),
    ("has_reservation", .bool slice.hasReservation),
    ("nb_available_machines", .ofInt slice.nbAvailableMachines),
    ("nb_reservations", .ofInt slice.nbReservations)])]

/-- What the text of a schedule stands for. -/
def documentValue (t : ValueTexts) (d : Drawings) (s : Schedule) : JsonValue := .object [
  ("Schedule", .object [
    ("_colors", .array (d.colors.map .string)),
    ("_frame_number", .ofInt (d.frameNumber : ℤ)),
    ("_largest_time_slice_length", numberValue t d.largestTimeSliceLength),
    ("_nb_jobs_size", .ofInt s.nbJobsSize),
    ("_nb_reservations_size", .ofInt s.nbReservationsSize),
    ("_output_number", .ofInt (d.outputNumber : ℤ)),
    ("_output_svg", .string d.outputSvg),
    ("_previous_time_end", numberValue t d.previousTimeEnd),
    ("_repair_machines", .string (t.toStringHyphen s.repairMachines)),
    ("_reservation_colors", .array (d.reservationColors.map .string)),
    ("_size", .ofInt s.size),
    ("_smallest_time_slice_length", numberValue t d.smallestTimeSliceLength),
    ("_svg_frame_end", .ofInt d.svgFrameEnd),
    ("_svg_frame_start", .ofInt d.svgFrameStart),
    ("_svg_highlight_machines", .string (t.toStringHyphen d.svgHighlightMachines)),
    ("_svg_output_end", .ofInt d.svgOutputEnd),
    ("_svg_output_start", .ofInt d.svgOutputStart),
    ("_svg_prefix", .string d.svgPrefix),
    ("_svg_reservations", .array []),
    ("TimeSlices", .array (s.profile.map fun slice =>
      sliceValue t (fun jobId => s.allocations jobId slice.beginDate) slice))])]

/-- A member with spaces around its parts. -/
theorem member_spacedMember {before key behindKey beforeValue after : String} (hparts : Spaces before.toList ∧
    Spaces behindKey.toList ∧ Spaces beforeValue.toList ∧ Spaces after.toList ∧ Plain key.toList) (h : Reads text value) :
    Reads.Member (spacedMember before key behindKey beforeValue text after) (key, value) := by
  obtain ⟨hbefore, hbehind, hvalue, hafter, hkey⟩ := hparts
  refine ⟨before.toList, key.toList, behindKey.toList, beforeValue.toList ++ text, after.toList, ?_, hbefore, hbehind, hafter, hkey,
    String.ofList_toList.symm, Reads.after_spaces hvalue h⟩
  simp [spacedMember]

theorem reads_numberText (t : ValueTexts) (x : ℚ) : Reads (t.numberText x) (numberValue t x) :=
  Reads.fixed (by decide) (t.toDouble x)

/-- The text of a job in a slice is an object behind spaces. -/
theorem reads_entry (hid : entry.1.PlainId) (hmachines : t.HyphenText entry.2)
    (hrecorded : ∀ alloc ∈ recorded entry.1.id, t.HyphenText alloc.usedMachines ∧ ∀ job ∈ alloc.job, job.PlainId)
    (h : allocatedJobText t (recorded entry.1.id) entry.1 entry.2 = some text) : Reads text (entryValue t recorded entry) := by
  unfold allocatedJobText at h
  obtain ⟨alloc, halloc, rfl⟩ := Option.map_eq_some_iff.1 h
  have hread : Reads alloc (recordedValue t entry (recorded entry.1.id)) := by
    cases hcase : recorded entry.1.id with
    | none =>
      rw [hcase] at halloc
      obtain rfl := Option.some.inj halloc
      refine Reads.object ?_ (List.cons_ne_nil _ _)
      exact .cons (member_spacedMember (by decide) (reads_string hmachines.plain)) .nil
    | some recordedAlloc =>
      rw [hcase] at halloc
      obtain ⟨hused, hplain⟩ := hrecorded recordedAlloc hcase
      obtain ⟨job, hjob, -⟩ := Option.map_eq_some_iff.1 halloc
      have hvalue : recordedValue t entry (some recordedAlloc) = allocValue t recordedAlloc job := by
        rw [recordedValue, hjob, Option.getD_some]
      rw [hvalue]
      exact reads_alloc hused.plain (hplain job hjob) hjob halloc
  refine Reads.after_spaces (by decide) (Reads.object ?_ (List.cons_ne_nil _ _))
  exact .cons (member_memberText (by decide) (reads_job hid)) (.cons (member_space (by decide) hread) .nil)

/-- The texts of the jobs of a slice are those of its entries. -/
theorem reads_entries (hjobs : ∀ entry ∈ entries, entry.1.PlainId ∧ t.HyphenText entry.2)
    (hrecorded : ∀ entry ∈ entries, ∀ alloc ∈ recorded entry.1.id,
      t.HyphenText alloc.usedMachines ∧ ∀ job ∈ alloc.job, job.PlainId)
    (h : allocatedJobTexts t recorded entries = some texts) :
    List.Forall₂ Reads.Element texts (entries.map (entryValue t recorded)) := by
  induction entries generalizing texts with
  | nil =>
    obtain rfl := Option.some.inj h
    exact .nil
  | cons entry entries ih =>
    rw [allocatedJobTexts] at h
    obtain ⟨first, hfirst, h⟩ := Option.bind_eq_some_iff.1 h
    obtain ⟨rest, hrest, rfl⟩ := Option.map_eq_some_iff.1 h
    obtain ⟨hid, hmachines⟩ := hjobs entry List.mem_cons_self
    have hread := reads_entry hid hmachines (hrecorded entry List.mem_cons_self) hfirst
    exact .cons (Reads.element hread) (ih (fun entry hentry => hjobs entry (List.mem_cons_of_mem _ hentry))
      (fun entry hentry => hrecorded entry (List.mem_cons_of_mem _ hentry)) hrest)

/-- The text of a slice is an object behind spaces. -/
theorem reads_slice (hslice : slice.Savable t workload recorded) (h : slice.toJsonString t recorded = some text) :
    Reads text (sliceValue t recorded slice) := by
  unfold TimeSlice.toJsonString at h
  obtain ⟨jobs, hjobs, rfl⟩ := Option.map_eq_some_iff.1 h
  have hentries := reads_entries (fun entry hentry => ⟨(hslice.jobs entry hentry).1, (hslice.jobs entry hentry).2.1⟩)
    hslice.recorded hjobs
  refine Reads.after_spaces (by decide) (Reads.object (.cons ?_ .nil) (List.cons_ne_nil _ _))
  refine member_spacedMember (by decide) (Reads.object ?_ (List.cons_ne_nil _ _))
  exact .cons (member_spacedMember (by decide) (reads_numberText t _))
    (.cons (member_spacedMember (by decide) (reads_numberText t _))
    (.cons (member_spacedMember (by decide) (reads_numberText t _))
    (.cons (member_spacedMember (by decide) (reads_string hslice.availableMachines.plain))
    (.cons (member_spacedMember (by decide) (Reads.spacedArray spaces_nil hentries))
    (.cons (member_spacedMember (by decide) (reads_string hslice.allocatedMachines.plain))
    (.cons (member_spacedMember (by decide) (Reads.bool _))
    (.cons (member_spacedMember (by decide) (Reads.integer _))
    (.cons (member_spacedMember (by decide) (Reads.integer _)) .nil))))))))

theorem reads_slices {slices : List TimeSlice}
    (hslices : ∀ slice ∈ slices, slice.Savable t workload fun jobId => s.allocations jobId slice.beginDate)
    (h : sliceTexts t s.allocations slices = some texts) :
    List.Forall₂ Reads texts (slices.map fun slice => sliceValue t (fun jobId => s.allocations jobId slice.beginDate) slice) := by
  induction slices generalizing texts with
  | nil =>
    obtain rfl := Option.some.inj h
    exact .nil
  | cons slice slices ih =>
    rw [sliceTexts] at h
    obtain ⟨first, hfirst, h⟩ := Option.bind_eq_some_iff.1 h
    obtain ⟨rest, hrest, rfl⟩ := Option.map_eq_some_iff.1 h
    exact .cons (reads_slice (hslices slice List.mem_cons_self) hfirst)
      (ih (fun slice hslice => hslices slice (List.mem_cons_of_mem _ hslice)) hrest)

/-- Texts on lines of their own are the elements of an array, each behind the end of the line before it. -/
theorem elements_joinSlices {spaces after : List Char} (hspaces : Spaces spaces) (hafter : Spaces after)
    (h : List.Forall₂ Reads (text :: texts) values) :
    ∃ elements, List.Forall₂ Reads.Element elements values ∧
      spaces ++ (joinSlices (text :: texts) ++ after) = [','].intercalate elements := by
  induction texts generalizing text values spaces with
  | nil =>
    obtain ⟨value, values, hread, hrest, rfl⟩ := List.forall₂_cons_left_iff.1 h
    cases hrest
    refine ⟨[spaces ++ (text ++ '\n' :: after)], .cons ⟨spaces ++ text, '\n' :: after, ?_, ?_, ?_⟩ .nil, ?_⟩
    · rw [List.append_assoc]
    · exact List.forall_mem_cons.2 ⟨by decide, hafter⟩
    · exact Reads.after_spaces hspaces hread
    · rw [List.intercalate_singleton, joinSlices, List.append_assoc, List.singleton_append]
  | cons text' texts ih =>
    obtain ⟨value, values, hread, hrest, rfl⟩ := List.forall₂_cons_left_iff.1 h
    have hline : Spaces ['\n'] := by decide
    obtain ⟨elements, helements, htext⟩ := ih hline hrest
    refine ⟨(spaces ++ text) :: elements, .cons (Reads.element (Reads.after_spaces hspaces hread)) helements, ?_⟩
    cases helements with
    | nil => cases hrest
    | cons _ _ =>
      rw [List.intercalate_cons_cons, ← htext, joinSlices]
      simp

/-- The array of the slices. -/
theorem reads_joinSlices {after : List Char} (hafter : Spaces after) (h : List.Forall₂ Reads texts values) :
    Reads ('[' :: '\n' :: (joinSlices texts ++ (after ++ [']']))) (.array values) := by
  cases texts with
  | nil =>
    cases h
    have hspaces : Spaces ('\n' :: after) := List.forall_mem_cons.2 ⟨by decide, hafter⟩
    exact Reads.spacedArray hspaces .nil
  | cons text texts =>
    have hline : Spaces ['\n'] := by decide
    obtain ⟨elements, helements, htext⟩ := elements_joinSlices spaces_nil hafter h
    have hread := Reads.spacedArray hline helements
    rw [← htext] at hread
    simpa using hread

/-- The text of a schedule that can be written is JSON. -/
theorem parse_schedule (hs : s.Savable t workload d) {text : String} (h : s.toJsonString t d = some text) :
    JsonValue.parse text = some (documentValue t d s) := by
  unfold Schedule.toJsonString at h
  obtain ⟨slices, hslices, rfl⟩ := Option.map_eq_some_iff.1 h
  have htabs : Spaces ['\t', '\t'] := by decide
  have harray : Reads ('[' :: '\n' :: (joinSlices slices ++ "\t\t]".toList)) (.array (s.profile.map fun slice =>
      sliceValue t (fun jobId => s.allocations jobId slice.beginDate) slice)) :=
    reads_joinSlices htabs (reads_slices hs.slices hslices)
  refine parse_of_reads ?_
  rw [String.toList_ofList]
  refine Reads.object (.cons (member_spacedMember (by decide) (Reads.object ?_ (List.cons_ne_nil _ _))) .nil) (List.cons_ne_nil _ _)
  exact .cons (member_line_nil (by decide) (by decide) (reads_strings hs.colors))
    (.cons (member_line_nil (by decide) (by decide) (Reads.integer _))
    (.cons (member_line_nil (by decide) (by decide) (reads_numberText t _))
    (.cons (member_line_nil (by decide) (by decide) (Reads.integer _))
    (.cons (member_line_nil (by decide) (by decide) (Reads.integer _))
    (.cons (member_line_nil (by decide) (by decide) (Reads.integer _))
    (.cons (member_line_nil (by decide) (by decide) (reads_string hs.outputSvg))
    (.cons (member_line_nil (by decide) (by decide) (reads_numberText t _))
    (.cons (member_line_nil (by decide) (by decide) (reads_string hs.repairMachines.plain))
    (.cons (member_line_nil (by decide) (by decide) (reads_strings hs.reservationColors))
    (.cons (member_line_nil (by decide) (by decide) (Reads.integer _))
    (.cons (member_line_nil (by decide) (by decide) (reads_numberText t _))
    (.cons (member_line_nil (by decide) (by decide) (Reads.integer _))
    (.cons (member_line_nil (by decide) (by decide) (Reads.integer _))
    (.cons (member_line_nil (by decide) (by decide) (reads_string hs.highlightMachines.plain))
    (.cons (member_line_nil (by decide) (by decide) (Reads.integer _))
    (.cons (member_line_nil (by decide) (by decide) (Reads.integer _))
    (.cons (member_line_nil (by decide) (by decide) (reads_string hs.svgPrefix))
    (.cons (member_line_nil (by decide) (by decide) (Reads.spacedArray spaces_nil .nil))
    (.cons (member_spacedMember (by decide) harray) .nil)))))))))))))))))))

/-! ### What is read -/

/-- The machines that are written for a job of a slice. -/
def writtenMachines (recorded : String → Option JobAlloc) (entry : Job × IntervalSet) : IntervalSet :=
  ((recorded entry.1.id).map JobAlloc.usedMachines).getD entry.2

theorem getDate_numberText (t : ValueTexts) (x : ℚ) : ∃ date, getDate t (String.ofList (t.numberText x)) = .ok date := by
  obtain ⟨value, hvalue⟩ := Text.stod_printFixed 15 (t.toDouble x)
  refine ⟨t.toDouble value, ?_⟩
  unfold getDate ValueTexts.numberText
  rw [String.toList_ofList, hvalue]

/-- Machines without machines are not read. -/
theorem getMachines_text {machines : IntervalSet} (h : t.HyphenText machines) (hempty : t.fromStringHyphen "" = none) :
    getMachines t (t.toStringHyphen machines) = if machines = ∅ then .error (.noMachines "") else .ok machines := by
  unfold getMachines
  split_ifs with hnone
  · rw [h.empty.2 hnone, hempty]
  · rw [h.read hnone]

/-- What is read for an allocation, once its machines are. -/
theorem jobAllocFromJson_value (t : ValueTexts) (recorded : String → Option JobAlloc) (entry : Job × IntervalSet) :
    ∃ alloc : JobAlloc, jobAllocFromJson t (recordedValue t entry (recorded entry.1.id)) =
      getMachines t (t.toStringHyphen (writtenMachines recorded entry)) >>= fun machines =>
        .ok { alloc with usedMachines := machines } := by
  unfold writtenMachines
  cases recorded entry.1.id with
  | none => exact ⟨{}, rfl⟩
  | some alloc =>
    obtain ⟨beginDate, hbegin⟩ := getDate_numberText t alloc.beginDate
    obtain ⟨endDate, hend⟩ := getDate_numberText t alloc.endDate
    refine ⟨{
      beginDate := beginDate
      endDate := endDate
      hasBeenInserted := alloc.hasBeenInserted
      startedInFirstSlice := alloc.startedInFirstSlice }, ?_⟩
    have hhas : ((recordedValue t entry (some alloc)).member? "begin").isSome = true := rfl
    have hbeginValue : getMember "begin" (recordedValue t entry (some alloc)) >>= getString "begin" =
      .ok (String.ofList (t.numberText alloc.beginDate)) := rfl
    have hendValue : getMember "end" (recordedValue t entry (some alloc)) >>= getString "end" =
      .ok (String.ofList (t.numberText alloc.endDate)) := rfl
    have hinserted : getMember "has_been_inserted" (recordedValue t entry (some alloc)) >>= getBool "has_been_inserted" =
      .ok alloc.hasBeenInserted := rfl
    have hstarted : getMember "started_in_first_slice" (recordedValue t entry (some alloc)) >>=
      getBool "started_in_first_slice" = .ok alloc.startedInFirstSlice := rfl
    have hused : getMember "used_machines" (recordedValue t entry (some alloc)) >>= getString "used_machines" =
      .ok (t.toStringHyphen alloc.usedMachines) := rfl
    unfold jobAllocFromJson
    rw [if_pos hhas, hbeginValue, hendValue, hinserted, hstarted, hused, ok_bind, ok_bind, hbegin, hend]
    rfl

/-- A job of a slice is read, if its machines are, and the others after it. -/
theorem jobMapFromJson_cons {job : Job} (hjob : nextCheckpointJob workload entry.1 = some job)
    (jobs : KeyedMap Job.id IntervalSet) (allocations : Allocations) (values : List JsonValue) :
    ∃ allocations' : IntervalSet → Allocations,
      jobMapFromJson t workload jobs allocations (entryValue t recorded entry :: values) =
        getMachines t (t.toStringHyphen (writtenMachines recorded entry)) >>= fun machines =>
          jobMapFromJson t workload (jobs.insert job machines) (allocations' machines) values := by
  obtain ⟨parts, hparts, hworkload⟩ := Option.bind_eq_some_iff.1 hjob
  obtain ⟨alloc, halloc⟩ := jobAllocFromJson_value t recorded entry
  have hid : getMember "job_id" (entryValue t recorded entry) = .ok (.string entry.1.id) := rfl
  have hvalue : getMember "alloc" (entryValue t recorded entry) = .ok (recordedValue t entry (recorded entry.1.id)) := rfl
  have hstring : getString "job_id" (.string entry.1.id) = .ok entry.1.id := rfl
  have hget : getJob workload parts.nextCheckpoint = .ok job := by
    unfold getJob
    rw [hworkload]
  refine ⟨fun machines => if ((recordedValue t entry (recorded entry.1.id)).member? "begin").isSome then
    Function.update allocations job.id (Function.update (allocations job.id) alloc.beginDate
      (some { alloc with usedMachines := machines, job := some job })) else allocations, ?_⟩
  rw [jobMapFromJson, hid, hvalue, ok_bind, ok_bind, halloc]
  cases getMachines t (t.toStringHyphen (writtenMachines recorded entry)) with
  | error e => rfl
  | ok machines =>
    rw [ok_bind, ok_bind, ok_bind, hstring, ok_bind, hparts]
    dsimp only
    rw [hget, ok_bind]

/-- The jobs of a slice after the checkpoint, with given machines. -/
def jobsAfter (workload : String → Option Job) (machines : Job × IntervalSet → IntervalSet) (entries : List (Job × IntervalSet)) :
    List (Job × IntervalSet) :=
  entries.map fun entry => ((nextCheckpointJob workload entry.1).getD entry.1, machines entry)

theorem jobsAfter_cons {job : Job} (hjob : nextCheckpointJob workload entry.1 = some job)
    (machines : Job × IntervalSet → IntervalSet) (entries : List (Job × IntervalSet)) :
    jobsAfter workload machines (entry :: entries) = (job, machines entry) :: jobsAfter workload machines entries := by
  rw [jobsAfter, List.map_cons, hjob]
  rfl

/-- The jobs of a slice are read if each has machines that are written. -/
theorem jobMapFromJson_eq_ok (hempty : t.fromStringHyphen "" = none)
    (hentries : ∀ entry ∈ entries, t.HyphenText (writtenMachines recorded entry) ∧ (nextCheckpointJob workload entry.1).isSome)
    (jobs jobs' : KeyedMap Job.id IntervalSet) (allocations : Allocations) :
    (∃ allocations', jobMapFromJson t workload jobs allocations (entries.map (entryValue t recorded)) = .ok (jobs', allocations')) ↔
      (∀ entry ∈ entries, writtenMachines recorded entry ≠ ∅) ∧
        jobs' = (jobsAfter workload (writtenMachines recorded) entries).foldl (fun jobs entry => jobs.insert entry.1 entry.2) jobs := by
  induction entries generalizing jobs allocations with
  | nil =>
    constructor
    · rintro ⟨allocations', h⟩
      exact ⟨fun entry hentry => absurd hentry List.not_mem_nil, (congrArg Prod.fst (Except.ok.inj h)).symm⟩
    · rintro ⟨-, rfl⟩
      exact ⟨allocations, rfl⟩
  | cons entry entries ih =>
    obtain ⟨hmachines, hjob⟩ := hentries entry List.mem_cons_self
    obtain ⟨job, hjob⟩ := Option.isSome_iff_exists.1 hjob
    have ih := ih fun entry hentry => hentries entry (List.mem_cons_of_mem _ hentry)
    obtain ⟨allocations', hread⟩ := @jobMapFromJson_cons t workload recorded entry job hjob jobs allocations
      (entries.map (entryValue t recorded))
    rw [List.map_cons, hread, getMachines_text hmachines hempty]
    split_ifs with hnone
    · refine iff_of_false ?_ fun h => h.1 entry List.mem_cons_self hnone
      rintro ⟨_, h⟩
      cases h
    · rw [ok_bind, ih, List.forall_mem_cons, jobsAfter_cons hjob, List.foldl_cons, and_assoc]
      exact ⟨fun h => ⟨hnone, h⟩, fun h => h.2⟩

theorem forall₂_jobsAfter (hjobs : ∀ entry ∈ entries, (nextCheckpointJob workload entry.1).isSome)
    {jobs : List (Job × IntervalSet)} :
    List.Forall₂ (fun entry entry' => nextCheckpointJob workload entry.1 = some entry'.1 ∧ entry'.2 = entry.2) entries jobs ↔
      jobs = jobsAfter workload Prod.snd entries := by
  induction entries generalizing jobs with
  | nil => exact List.forall₂_nil_left_iff
  | cons entry entries ih =>
    obtain ⟨job, hjob⟩ := Option.isSome_iff_exists.1 (hjobs entry List.mem_cons_self)
    have ih := @ih fun entry hentry => hjobs entry (List.mem_cons_of_mem _ hentry)
    rw [List.forall₂_cons_left_iff, jobsAfter_cons hjob]
    constructor
    · rintro ⟨⟨job', machines⟩, jobs, ⟨hsome, hmachines⟩, hrest, rfl⟩
      obtain rfl : job = job' := Option.some.inj (hjob.symm.trans hsome)
      obtain rfl : machines = entry.2 := hmachines
      rw [ih.1 hrest]
    · rintro rfl
      exact ⟨(job, entry.2), _, ⟨hjob, rfl⟩, ih.2 rfl, rfl⟩

/-- The map that is read holds the jobs of the slice if they are different after the checkpoint and the machines that are written
are theirs. -/
theorem perm_jobsAfter (hjobs : ∀ entry ∈ entries, (nextCheckpointJob workload entry.1).isSome)
    (machines : Job × IntervalSet → IntervalSet) :
    (jobsAfter workload Prod.snd entries).Perm ((jobsAfter workload machines entries).foldl
      (fun jobs entry => jobs.insert entry.1 entry.2) (.empty : KeyedMap Job.id IntervalSet)).entries ↔
      (entries.map fun entry => (nextCheckpointJob workload entry.1).map Job.id).Nodup ∧
        ∀ entry ∈ entries, machines entry = entry.2 := by
  have hids : ∀ machines : Job × IntervalSet → IntervalSet, (jobsAfter workload machines entries).map (fun entry => entry.1.id) =
      entries.map fun entry => ((nextCheckpointJob workload entry.1).getD entry.1).id := by
    intro machines
    rw [jobsAfter, List.map_map]
    rfl
  have hnames : (entries.map fun entry => (nextCheckpointJob workload entry.1).map Job.id) =
      (entries.map fun entry => ((nextCheckpointJob workload entry.1).getD entry.1).id).map some := by
    rw [List.map_map]
    refine List.map_congr_left fun entry hentry => ?_
    obtain ⟨job, hjob⟩ := Option.isSome_iff_exists.1 (hjobs entry hentry)
    dsimp only [Function.comp_apply]
    rw [hjob, Option.map_some, Option.getD_some]
  rw [hnames, List.nodup_map_iff (Option.some_injective _)]
  have hfold : (entries.map fun entry => ((nextCheckpointJob workload entry.1).getD entry.1).id).Nodup →
      ((jobsAfter workload machines entries).foldl (fun jobs entry => jobs.insert entry.1 entry.2)
        (.empty : KeyedMap Job.id IntervalSet)).entries.Perm (jobsAfter workload machines entries) := by
    intro hnodup
    rw [← hids machines] at hnodup
    have hperm := KeyedMap.perm_foldl_insert hnodup (m := .empty) fun p _ q hq => absurd hq List.not_mem_nil
    rwa [KeyedMap.entries_empty, List.append_nil] at hperm
  constructor
  · intro hperm
    have hnodup := (hperm.map fun entry => entry.1.id).nodup_iff.2 (KeyedMap.nodup_key _)
    rw [hids] at hnodup
    refine ⟨hnodup, fun entry hentry => ?_⟩
    -- the entry of the same name is written with the machines of this one
    have hmem := (hperm.trans (hfold hnodup)).mem_iff.1 (List.mem_map_of_mem hentry)
    obtain ⟨entry', hentry', heq⟩ := List.mem_map.1 hmem
    obtain ⟨hjob, hmachines⟩ := Prod.mk.inj heq
    obtain rfl := List.inj_on_of_nodup_map hnodup hentry' hentry (congrArg Job.id hjob)
    exact hmachines
  · rintro ⟨hnodup, hmachines⟩
    have hsame : jobsAfter workload machines entries = jobsAfter workload Prod.snd entries :=
      List.map_congr_left fun entry hentry => by rw [hmachines entry hentry]
    have hperm := (hfold hnodup).symm
    rw [hsame] at hperm ⊢
    exact hperm

/-- What a number is read as. -/
def readNumber (t : ValueTexts) (x : ℚ) : ℚ := t.parseDouble (Text.fixedValue 15 (t.toDouble x))

theorem getDouble_numberValue (t : ValueTexts) (key : String) (x : ℚ) :
    getDouble t key (numberValue t x) = .ok (readNumber t x) := rfl

theorem getInt_of_isInt (key : String) {z : ℤ} (hz : Text.IsInt z) : getInt key (.ofInt z) = .ok ⟨z, hz⟩ :=
  getInt_intCast key ⟨z, hz⟩

/-- What is read for a slice, once its jobs are. -/
theorem timeSliceFromJson_value (hslice : slice.Savable t workload recorded) (allocations : Allocations) :
    timeSliceFromJson t workload allocations (sliceValue t recorded slice) =
      (if 3153600000 < readNumber t slice.length then .ok (.empty, ∅, allocations)
        else jobMapFromJson t workload .empty allocations (slice.allocatedJobs.entries.map (entryValue t recorded)) >>= fun jobs =>
          getMachines t (t.toStringHyphen slice.allocatedMachines) >>= fun machines => .ok (jobs.1, machines, jobs.2)) >>=
      fun allocated => .ok ({
        slice with
        beginDate := readNumber t slice.beginDate
        endDate := readNumber t slice.endDate
        length := readNumber t slice.length
        allocatedJobs := allocated.1
        allocatedMachines := allocated.2.1 }, allocated.2.2) := by
  unfold timeSliceFromJson sliceValue
  generalize hinner : JsonValue.object [("begin", numberValue t slice.beginDate), ("end", numberValue t slice.endDate),
    ("length", numberValue t slice.length), ("available_machines", .string (t.toStringHyphen slice.availableMachines)),
    ("allocated_jobs", .array (slice.allocatedJobs.entries.map (entryValue t recorded))),
    ("allocated_machines", .string (t.toStringHyphen slice.allocatedMachines)),
    ("has_reservation", .bool slice.hasReservation), ("nb_available_machines", .ofInt slice.nbAvailableMachines),
    ("nb_reservations", .ofInt slice.nbReservations)] = inner
  have hmember : getMember "Time slice" (.object [("Time slice", inner)]) = .ok inner := rfl
  have hbegin : getMember "begin" inner = .ok (numberValue t slice.beginDate) := by rw [← hinner]; rfl
  have hend : getMember "end" inner = .ok (numberValue t slice.endDate) := by rw [← hinner]; rfl
  have hlength : getMember "length" inner = .ok (numberValue t slice.length) := by rw [← hinner]; rfl
  have havailable : getMember "available_machines" inner >>= getString "available_machines" =
    .ok (t.toStringHyphen slice.availableMachines) := by rw [← hinner]; rfl
  have hjobs : getMember "allocated_jobs" inner >>= getArray "allocated_jobs" =
    .ok (slice.allocatedJobs.entries.map (entryValue t recorded)) := by rw [← hinner]; rfl
  have hallocated : getMember "allocated_machines" inner >>= getString "allocated_machines" =
    .ok (t.toStringHyphen slice.allocatedMachines) := by rw [← hinner]; rfl
  have hreservation : getMember "has_reservation" inner >>= getBool "has_reservation" = .ok slice.hasReservation := by
    rw [← hinner]
    rfl
  have hnbAvailable : getMember "nb_available_machines" inner = .ok (.ofInt slice.nbAvailableMachines) := by
    rw [← hinner]
    rfl
  have hnbReservations : getMember "nb_reservations" inner = .ok (.ofInt slice.nbReservations) := by
    rw [← hinner]
    rfl
  unfold readAllocated
  rw [hmember, ok_bind, hbegin, ok_bind, getDouble_numberValue, ok_bind, hend, ok_bind, getDouble_numberValue, ok_bind, hlength,
    ok_bind, getDouble_numberValue, ok_bind, havailable, ok_bind, getMachinesOrNone_text hslice.availableMachines, ok_bind, hjobs,
    ok_bind, hallocated]
  simp only [hreservation, ok_bind, hnbAvailable, hnbReservations, getInt_of_isInt _ hslice.nbAvailableMachines,
    getInt_of_isInt _ hslice.nbReservations]

theorem hyphenText_writtenMachines (hslice : slice.Savable t workload recorded) (hentry : entry ∈ slice.allocatedJobs.entries) :
    t.HyphenText (writtenMachines recorded entry) := by
  unfold writtenMachines
  cases hcase : recorded entry.1.id with
  | none => exact (hslice.jobs entry hentry).2.1
  | some alloc => exact (hslice.recorded entry hentry alloc hcase).1

/-- The machines that are written for a job are its machines, if those recorded for it are. -/
theorem writtenMachines_eq_iff : writtenMachines recorded entry = entry.2 ↔
    ∀ alloc ∈ recorded entry.1.id, alloc.usedMachines = entry.2 := by
  unfold writtenMachines
  cases recorded entry.1.id with
  | none => exact iff_of_true rfl fun _ h => by cases h
  | some alloc => exact ⟨fun h alloc' halloc => Option.some.inj halloc ▸ h, fun h => h alloc rfl⟩

/-- A slice that is kept is read back. -/
theorem back_of_kept (hslice : slice.Savable t workload recorded) (hempty : t.fromStringHyphen "" = none)
    (h : SliceKept t workload recorded slice) (allocations : Allocations) :
    ∃ r, timeSliceFromJson t workload allocations (sliceValue t recorded slice) = .ok r ∧ SliceBack workload slice r.1 := by
  have hjobs := fun entry hentry => (hslice.jobs entry hentry).2.2
  have hwritten : ∀ entry ∈ slice.allocatedJobs.entries, writtenMachines recorded entry = entry.2 :=
    fun entry hentry => writtenMachines_eq_iff.2 fun alloc halloc => ((h.jobs entry hentry).2 alloc halloc).2
  have hbegin : readNumber t slice.beginDate = slice.beginDate := h.beginDate
  have hend : readNumber t slice.endDate = slice.endDate := h.endDate
  have hlength : readNumber t slice.length = slice.length := h.length
  rw [timeSliceFromJson_value hslice, hbegin, hend, hlength]
  by_cases hlong : 3153600000 < slice.length
  · rw [if_pos hlong, ok_bind]
    refine ⟨_, rfl, ⟨rfl, rfl, rfl, rfl, rfl, rfl, rfl, [], ?_, .refl _⟩⟩
    rw [h.long hlong]
    exact .nil
  · have hread := (jobMapFromJson_eq_ok hempty (fun entry hentry => ⟨hyphenText_writtenMachines hslice hentry, hjobs entry hentry⟩)
      .empty _ allocations).2 ⟨fun entry hentry => hwritten entry hentry ▸ (h.jobs entry hentry).1, rfl⟩
    obtain ⟨allocations', hread⟩ := hread
    rw [if_neg hlong, hread, ok_bind, getMachines_text hslice.allocatedMachines hempty, if_neg (h.short (not_lt.1 hlong)), ok_bind,
      ok_bind]
    refine ⟨_, rfl, ⟨rfl, rfl, rfl, rfl, rfl, rfl, rfl, _, (forall₂_jobsAfter hjobs).2 rfl, ?_⟩⟩
    exact (perm_jobsAfter hjobs _).2 ⟨h.different, hwritten⟩

/-- A slice that is read back is kept, if it has a text. -/
theorem kept_of_back (hslice : slice.Savable t workload recorded) (hempty : t.fromStringHyphen "" = none)
    (hset : ∀ entry ∈ slice.allocatedJobs.entries, ∀ alloc ∈ recorded entry.1.id, alloc.job.isSome) {allocations : Allocations}
    {r : TimeSlice × Allocations} (hread : timeSliceFromJson t workload allocations (sliceValue t recorded slice) = .ok r)
    (hback : SliceBack workload slice r.1) : SliceKept t workload recorded slice := by
  have hjobs := fun entry hentry => (hslice.jobs entry hentry).2.2
  rw [timeSliceFromJson_value hslice] at hread
  obtain ⟨allocated, hallocated, hread⟩ := bind_eq_ok hread
  obtain rfl := Except.ok.inj hread
  have hbegin : t.ReadsBack slice.beginDate := hback.beginDate
  have hend : t.ReadsBack slice.endDate := hback.endDate
  have hlength : readNumber t slice.length = slice.length := hback.length
  obtain ⟨jobs, hafter, hperm⟩ := hback.jobs
  obtain rfl := (forall₂_jobsAfter hjobs).1 hafter
  rw [hlength] at hallocated
  split_ifs at hallocated with hlong
  · -- a slice of more than a hundred years is read without jobs
    obtain rfl := Except.ok.inj hallocated
    have hnone : slice.allocatedJobs.entries = [] := List.map_eq_nil_iff.1 hperm.eq_nil
    refine ⟨hbegin, hend, hlength, fun _ => KeyedMap.ext_entries hnone, fun hshort => absurd hlong (not_lt.2 hshort), ?_, ?_⟩
    · rw [hnone]
      exact fun entry hentry => absurd hentry List.not_mem_nil
    · rw [hnone]
      exact List.nodup_nil
  · obtain ⟨jobs', hjobs', hallocated⟩ := bind_eq_ok hallocated
    obtain ⟨machines, hmachines, hallocated⟩ := bind_eq_ok hallocated
    obtain rfl := Except.ok.inj hallocated
    obtain ⟨hne, hfold⟩ := (jobMapFromJson_eq_ok hempty
      (fun entry hentry => ⟨hyphenText_writtenMachines hslice hentry, hjobs entry hentry⟩) .empty jobs'.1 allocations).1
      ⟨jobs'.2, hjobs'⟩
    dsimp only at hperm
    rw [hfold] at hperm
    obtain ⟨hdifferent, hwritten⟩ := (perm_jobsAfter hjobs _).1 hperm
    refine ⟨hbegin, hend, hlength, fun h => absurd h hlong, fun _ hnone => ?_, fun entry hentry => ⟨?_, fun alloc halloc => ⟨?_, ?_⟩⟩,
      hdifferent⟩
    · rw [getMachines_text hslice.allocatedMachines hempty, if_pos hnone] at hmachines
      cases hmachines
    · exact hwritten entry hentry ▸ hne entry hentry
    · exact hset entry hentry alloc halloc
    · exact writtenMachines_eq_iff.1 (hwritten entry hentry) alloc halloc

/-! ### Whole schedules -/

/-- The jobs of a slice have texts if the jobs of the allocations recorded for them are set. -/
theorem isSome_allocatedJobTexts : (allocatedJobTexts t recorded entries).isSome ↔
    ∀ entry ∈ entries, ∀ alloc ∈ recorded entry.1.id, alloc.job.isSome := by
  induction entries with
  | nil => exact iff_of_true rfl fun _ h => absurd h List.not_mem_nil
  | cons entry entries ih =>
    have hfirst : (allocatedJobText t (recorded entry.1.id) entry.1 entry.2).isSome ↔
        ∀ alloc ∈ recorded entry.1.id, alloc.job.isSome := by
      unfold allocatedJobText JobAlloc.toJsonString
      cases recorded entry.1.id <;> simp
    rw [List.forall_mem_cons, ← hfirst, ← ih, allocatedJobTexts]
    cases allocatedJobText t (recorded entry.1.id) entry.1 entry.2 <;> simp

theorem isSome_sliceTexts {allocations : Allocations} {slices : List TimeSlice} : (sliceTexts t allocations slices).isSome ↔
    ∀ slice ∈ slices, ∀ entry ∈ slice.allocatedJobs.entries, ∀ alloc ∈ allocations entry.1.id slice.beginDate,
      alloc.job.isSome := by
  induction slices with
  | nil => exact iff_of_true rfl fun _ h => absurd h List.not_mem_nil
  | cons slice slices ih =>
    have hfirst : (slice.toJsonString t fun jobId => allocations jobId slice.beginDate).isSome ↔
        ∀ entry ∈ slice.allocatedJobs.entries, ∀ alloc ∈ allocations entry.1.id slice.beginDate, alloc.job.isSome := by
      rw [← @isSome_allocatedJobTexts t (fun jobId => allocations jobId slice.beginDate) slice.allocatedJobs.entries,
        TimeSlice.toJsonString, Option.isSome_map]
    rw [List.forall_mem_cons, ← hfirst, ← ih, sliceTexts]
    cases slice.toJsonString t fun jobId => allocations jobId slice.beginDate <;> simp

/-- The slices of a schedule that are kept are read back. -/
theorem slices_back_of_kept {saved : Allocations} (hempty : t.fromStringHyphen "" = none) {slices : List TimeSlice}
    (hslices : ∀ slice ∈ slices, slice.Savable t workload fun jobId => saved jobId slice.beginDate)
    (h : ∀ slice ∈ slices, SliceKept t workload (fun jobId => saved jobId slice.beginDate) slice) (allocations : Allocations) :
    ∃ r, timeSlicesFromJson t workload allocations
        (slices.map fun slice => sliceValue t (fun jobId => saved jobId slice.beginDate) slice) = .ok r ∧
      List.Forall₂ (SliceBack workload) slices r.1 := by
  induction slices generalizing allocations with
  | nil => exact ⟨_, rfl, .nil⟩
  | cons slice slices ih =>
    rw [List.forall_mem_cons] at hslices h
    obtain ⟨first, hfirst, hback⟩ := back_of_kept hslices.1 hempty h.1 allocations
    obtain ⟨rest, hrest, hbacks⟩ := ih hslices.2 h.2 first.2
    rw [List.map_cons, timeSlicesFromJson, hfirst, ok_bind, hrest, ok_bind]
    exact ⟨_, rfl, .cons hback hbacks⟩

/-- And only they are. -/
theorem kept_of_slices_back {saved : Allocations} (hempty : t.fromStringHyphen "" = none) {slices : List TimeSlice}
    (hslices : ∀ slice ∈ slices, slice.Savable t workload fun jobId => saved jobId slice.beginDate)
    (hset : ∀ slice ∈ slices, ∀ entry ∈ slice.allocatedJobs.entries, ∀ alloc ∈ saved entry.1.id slice.beginDate, alloc.job.isSome)
    {allocations : Allocations} {r : List TimeSlice × Allocations}
    (hread : timeSlicesFromJson t workload allocations
      (slices.map fun slice => sliceValue t (fun jobId => saved jobId slice.beginDate) slice) = .ok r)
    (hback : List.Forall₂ (SliceBack workload) slices r.1) :
    ∀ slice ∈ slices, SliceKept t workload (fun jobId => saved jobId slice.beginDate) slice := by
  induction slices generalizing allocations r with
  | nil => exact fun slice hslice => absurd hslice List.not_mem_nil
  | cons slice slices ih =>
    rw [List.forall_mem_cons] at hslices hset ⊢
    rw [List.map_cons, timeSlicesFromJson] at hread
    obtain ⟨first, hfirst, hread⟩ := bind_eq_ok hread
    obtain ⟨rest, hrest, hread⟩ := bind_eq_ok hread
    obtain rfl := Except.ok.inj hread
    obtain ⟨hback, hbacks⟩ := List.forall₂_cons.1 hback
    exact ⟨kept_of_back hslices.1 hempty hset.1 hfirst hback, ih hslices.2 hset.2 hrest hbacks⟩

theorem getStrings_map (key : String) (texts : List String) : getStrings key (texts.map .string) = .ok texts := by
  induction texts with
  | nil => rfl
  | cons text texts ih =>
    rw [List.map_cons, getStrings, ih]
    rfl

/-- What is read for a schedule, once its slices are. -/
theorem ingest_document (hs : s.Savable t workload d) : ingest t workload d' s' (documentValue t d s) =
    timeSlicesFromJson t workload s'.allocations (s.profile.map fun slice =>
      sliceValue t (fun jobId => s.allocations jobId slice.beginDate) slice) >>= fun slices => .ok ({ d' with
        colors := d.colors
        frameNumber := d.frameNumber
        largestTimeSliceLength := readNumber t d.largestTimeSliceLength
        outputNumber := d.outputNumber
        previousTimeEnd := readNumber t d.previousTimeEnd
        reservationColors := d.reservationColors
        smallestTimeSliceLength := readNumber t d.smallestTimeSliceLength
        svgHighlightMachines := d.svgHighlightMachines
        svgPrefix := d.svgPrefix },
      { s' with
        profile := slices.1
        nbJobsSize := s.nbJobsSize
        nbReservationsSize := s.nbReservationsSize
        repairMachines := s.repairMachines
        size := s.size
        allocations := slices.2 }) := by
  have hread : ingest t workload d' s' (documentValue t d s) =
      timeSlicesFromJson t workload s'.allocations (s.profile.map fun slice =>
        sliceValue t (fun jobId => s.allocations jobId slice.beginDate) slice) >>= fun slices =>
      getStrings "_colors" (d.colors.map .string) >>= fun colors =>
      getInt "_frame_number" (.ofInt (d.frameNumber : ℤ)) >>= fun frameNumber =>
      getInt "_nb_jobs_size" (.ofInt s.nbJobsSize) >>= fun nbJobsSize =>
      getInt "_nb_reservations_size" (.ofInt s.nbReservationsSize) >>= fun nbReservationsSize =>
      getInt "_output_number" (.ofInt (d.outputNumber : ℤ)) >>= fun outputNumber =>
      getMachinesOrNone t (t.toStringHyphen s.repairMachines) >>= fun repairMachines =>
      getStrings "_reservation_colors" (d.reservationColors.map .string) >>= fun reservationColors =>
      getInt "_size" (.ofInt s.size) >>= fun size =>
      getMachinesOrNone t (t.toStringHyphen d.svgHighlightMachines) >>= fun highlightMachines => .ok ({ d' with
        colors := colors
        frameNumber := frameNumber
        largestTimeSliceLength := readNumber t d.largestTimeSliceLength
        outputNumber := outputNumber
        previousTimeEnd := readNumber t d.previousTimeEnd
        reservationColors := reservationColors
        smallestTimeSliceLength := readNumber t d.smallestTimeSliceLength
        svgHighlightMachines := highlightMachines
        svgPrefix := d.svgPrefix },
      { s' with
        profile := slices.1
        nbJobsSize := nbJobsSize.1
        nbReservationsSize := nbReservationsSize.1
        repairMachines := repairMachines
        size := size.1
        allocations := slices.2 }) := rfl
  rw [hread]
  simp only [getStrings_map, ok_bind, getInt_intCast, getInt_of_isInt _ hs.nbJobsSize, getInt_of_isInt _ hs.nbReservationsSize,
    getInt_of_isInt _ hs.size, getMachinesOrNone_text hs.repairMachines, getMachinesOrNone_text hs.highlightMachines]

/-- A schedule whose slices are kept survives. -/
theorem survives_of_kept (hs : s.Savable t workload d) (hempty : t.fromStringHyphen "" = none)
    (h : ∀ slice ∈ s.profile, SliceKept t workload (fun jobId => s.allocations jobId slice.beginDate) slice) :
    ScheduleSurvives t workload d d' s s' := by
  have hset : (sliceTexts t s.allocations s.profile).isSome := isSome_sliceTexts.2 fun slice hslice entry hentry alloc halloc =>
    (((h slice hslice).jobs entry hentry).2 alloc halloc).1
  obtain ⟨texts, htexts⟩ := Option.isSome_iff_exists.1 hset
  obtain ⟨slices, hslices, hback⟩ := slices_back_of_kept hempty hs.slices h s'.allocations
  have htext : s.toJsonString t d = some _ := congrArg (Option.map _) htexts
  have hread := @ingest_document t workload d d' s s' hs
  rw [hslices, ok_bind] at hread
  exact ⟨_, _, _, _, htext, parse_schedule hs htext, hread, hback, rfl, rfl, rfl⟩

/-- And the slices of a schedule that survives are kept. -/
theorem kept_of_survives (hs : s.Savable t workload d) (hempty : t.fromStringHyphen "" = none)
    (h : ScheduleSurvives t workload d d' s s') :
    ∀ slice ∈ s.profile, SliceKept t workload (fun jobId => s.allocations jobId slice.beginDate) slice := by
  obtain ⟨text, doc, drawings, restored, htext, hparse, hread, hback, -⟩ := h
  rw [parse_schedule hs htext] at hparse
  obtain rfl := Option.some.inj hparse
  rw [ingest_document hs] at hread
  obtain ⟨slices, hslices, hread⟩ := bind_eq_ok hread
  obtain ⟨-, rfl⟩ := Prod.mk.inj (Except.ok.inj hread)
  obtain ⟨texts, htexts, -⟩ := Option.map_eq_some_iff.1 htext
  exact kept_of_slices_back hempty hs.slices (isSome_sliceTexts.1 (Option.isSome_of_eq_some htexts)) hslices hback

end SavedScheduleAux

open SavedScheduleAux

/-- A schedule survives a checkpoint if and only if each of its slices is kept. -/
theorem schedule_survives_iff (t : ValueTexts) (workload : String → Option Job) (d d' : Drawings) (s s' : Schedule)
    (hs : s.Savable t workload d) (hempty : t.fromStringHyphen "" = none) :
    ScheduleSurvives t workload d d' s s' ↔
      ∀ slice ∈ s.profile, SliceKept t workload (fun jobId => s.allocations jobId slice.beginDate) slice :=
  ⟨kept_of_survives hs hempty, survives_of_kept hs hempty⟩

namespace SavedScheduleExample

open SavedReservationsExample

/-- A job of one machine for 4096 seconds. -/
def job : Job := { id := "w0!7", nbRequestedResources := 1, walltime := 4096 }

/-- A reservation of the machine, from 4096 to 8192. -/
def laterMeeting : Job := { job with purpose := "reservation", futureAllocations := {0}, start := 4096 }

/-- The profile with the job: its slice, and the time behind it. -/
def jobProfile : List TimeSlice := [
  { beginDate := 0, endDate := 4096, length := 4096, availableMachines := ∅, allocatedMachines := {0}, nbAvailableMachines := 0,
    allocatedJobs := KeyedMap.insert .empty job {0} },
  { beginDate := 4096, endDate := horizon, length := horizon - 4096, availableMachines := {0}, allocatedMachines := ∅,
    nbAvailableMachines := 1, allocatedJobs := .empty }]

/-- The profile with the reservation: nothing before it. -/
def meetingProfile : List TimeSlice := [
  { beginDate := 0, endDate := 4096, length := 4096, availableMachines := {0}, allocatedMachines := ∅, nbAvailableMachines := 1,
    allocatedJobs := .empty },
  { beginDate := 4096, endDate := 8192, length := 4096, availableMachines := ∅, allocatedMachines := {0}, nbAvailableMachines := 0,
    hasReservation := true, nbReservations := 1, allocatedJobs := KeyedMap.insert .empty laterMeeting {0} },
  { beginDate := 8192, endDate := horizon, length := horizon - 8192, availableMachines := {0}, allocatedMachines := ∅,
    nbAvailableMachines := 1, allocatedJobs := .empty }]

theorem readsBack_of_eq {x : ℚ} (m : ℕ) (h : x = m) : texts.ReadsBack x := by
  rw [h]
  exact Text.fixedValue_natCast 15 m

theorem hyphenText_empty : texts.HyphenText ∅ := ⟨by decide, by decide, by decide⟩

open CheckpointVariablesExample in
/-- A slice on the one machine can be written, if its jobs and the allocations recorded for them can. -/
theorem savable_slice {slice : TimeSlice} {recorded : String → Option JobAlloc}
    (hnumbers : Text.IsInt slice.nbAvailableMachines ∧ Text.IsInt slice.nbReservations)
    (havailable : slice.availableMachines = ∅ ∨ slice.availableMachines = {0})
    (hallocated : slice.allocatedMachines = ∅ ∨ slice.allocatedMachines = {0})
    (hjobs : ∀ entry ∈ slice.allocatedJobs.entries, entry.1.id = "w0!7" ∧ entry.2 = {0})
    (hrecorded : ∀ entry ∈ slice.allocatedJobs.entries, ∀ alloc ∈ recorded entry.1.id,
      alloc.usedMachines = {0} ∧ ∀ job ∈ alloc.job, job.id = "w0!7") :
    slice.Savable texts workload recorded := by
  have hmachines : ∀ machines : IntervalSet, machines = ∅ ∨ machines = {0} → texts.HyphenText machines := by
    rintro machines (rfl | rfl)
    · exact hyphenText_empty
    · exact hyphenText_zero
  have hid : ∀ job : Job, job.id = "w0!7" → job.PlainId ∧ (nextCheckpointJob workload job).isSome := by
    intro job hjob
    unfold Job.PlainId nextCheckpointJob
    rw [hjob]
    exact ⟨by decide, by decide⟩
  refine ⟨hnumbers.1, hnumbers.2, hmachines _ havailable, hmachines _ hallocated,
    fun entry hentry => ?_, fun entry hentry alloc halloc => ?_⟩
  · obtain ⟨hname, hused⟩ := hjobs entry hentry
    exact ⟨(hid _ hname).1, hmachines _ (.inr hused), (hid _ hname).2⟩
  · obtain ⟨hused, hjob⟩ := hrecorded entry hentry alloc halloc
    exact ⟨hmachines _ (.inr hused), fun job hmem => (hid job (hjob job hmem)).1⟩

theorem run_job : ∃ s alloc, (Schedule.new 1 0).addJobFirstFit job = .ok (s, alloc) ∧ s.profile = jobProfile ∧
    s.size = 1 ∧ s.nbJobsSize = 1 ∧ s.nbReservationsSize = 0 ∧ s.repairMachines = ∅ ∧
    s.allocations "w0!7" 0 = some { startedInFirstSlice := true, job := some job, usedMachines := {0} } := by
  have hrun : ((Schedule.new 1 0).addJobFirstFit job).toOption.map (fun x => (x.1.profile, x.1.size, x.1.nbJobsSize,
      x.1.nbReservationsSize, decide (x.1.repairMachines = ∅), decide (x.1.allocations "w0!7" 0 =
        some { startedInFirstSlice := true, job := some job, usedMachines := {0} }))) =
      some (jobProfile, 1, 1, 0, true, true) := by decide +kernel
  obtain ⟨⟨s, alloc⟩, hok, hvalue⟩ := Execution.toOption_map_eq_some.1 hrun
  simp only [Prod.mk.injEq, decide_eq_true_eq] at hvalue
  exact ⟨s, alloc, hok, hvalue⟩

theorem run_meeting : ∃ s r s', (Schedule.new 1 0).reserveTimeSlice (.stable LargestFirst) laterMeeting = .ok (s, r) ∧
    s.addReservation r = .ok s' ∧ s'.profile = meetingProfile ∧ s'.size = 1 ∧ s'.nbJobsSize = 0 ∧ s'.nbReservationsSize = 1 ∧
    s'.repairMachines = ∅ ∧ s'.allocations "w0!7" 4096 = none := by
  have hrun : ((Schedule.new 1 0).reserveTimeSlice (.stable LargestFirst) laterMeeting).toOption.bind (fun x =>
      (x.1.addReservation x.2).toOption.map fun s' => (s'.profile, s'.size, s'.nbJobsSize, s'.nbReservationsSize,
        decide (s'.repairMachines = ∅), decide (s'.allocations "w0!7" 4096 = none))) =
      some (meetingProfile, 1, 0, 1, true, true) := by decide +kernel
  obtain ⟨⟨s, r⟩, hreserve, hadd⟩ := Execution.toOption_bind_eq_some.1 hrun
  obtain ⟨s', hadd, hvalue⟩ := Execution.toOption_map_eq_some.1 hadd
  simp only [Prod.mk.injEq, decide_eq_true_eq] at hvalue
  exact ⟨s, r, s', hreserve, hadd, hvalue⟩

theorem savable_of_slices {s : Schedule}
    (hslices : ∀ slice ∈ s.profile, slice.Savable texts workload fun jobId => s.allocations jobId slice.beginDate)
    (hsizes : Text.IsInt s.size ∧ Text.IsInt s.nbJobsSize ∧ Text.IsInt s.nbReservationsSize) (hrepair : s.repairMachines = ∅) :
    s.Savable texts workload {} where
  slices := hslices
  size := hsizes.1
  nbJobsSize := hsizes.2.1
  nbReservationsSize := hsizes.2.2
  repairMachines := hrepair ▸ hyphenText_empty
  highlightMachines := hyphenText_empty
  colors := fun _ h => absurd h List.not_mem_nil
  reservationColors := fun _ h => absurd h List.not_mem_nil
  outputSvg := by decide
  svgPrefix := by decide

theorem savable_job {s : Schedule} (hprofile : s.profile = jobProfile) (hsize : s.size = 1) (hjobs : s.nbJobsSize = 1)
    (hreservations : s.nbReservationsSize = 0) (hrepair : s.repairMachines = ∅)
    (hrecorded : s.allocations "w0!7" 0 = some { startedInFirstSlice := true, job := some job, usedMachines := {0} }) :
    s.Savable texts workload {} := by
  refine savable_of_slices ?_ (by rw [hsize, hjobs, hreservations]; decide) hrepair
  rw [hprofile]
  refine List.forall_mem_cons.2 ⟨?_, List.forall_mem_singleton.2 ?_⟩
  · refine savable_slice (by decide) (.inl rfl) (.inr rfl) (by decide) ?_
    intro entry hentry alloc halloc
    obtain rfl := List.mem_singleton.1 hentry
    obtain rfl := Option.some.inj (hrecorded.symm.trans halloc)
    exact ⟨rfl, fun job' hjob' => by rw [← Option.some.inj hjob']; rfl⟩
  · exact savable_slice (by decide) (.inr rfl) (.inl rfl) (by decide)
      fun _ h => absurd h List.not_mem_nil

theorem savable_meeting {s : Schedule} (hprofile : s.profile = meetingProfile) (hsize : s.size = 1) (hjobs : s.nbJobsSize = 0)
    (hreservations : s.nbReservationsSize = 1) (hrepair : s.repairMachines = ∅)
    (hrecorded : s.allocations "w0!7" 4096 = none) : s.Savable texts workload {} := by
  refine savable_of_slices ?_ (by rw [hsize, hjobs, hreservations]; decide) hrepair
  rw [hprofile]
  refine List.forall_mem_cons.2 ⟨?_, List.forall_mem_cons.2 ⟨?_, List.forall_mem_singleton.2 ?_⟩⟩
  · exact savable_slice (by decide) (.inr rfl) (.inl rfl) (by decide)
      fun _ h => absurd h List.not_mem_nil
  · refine savable_slice (by decide) (.inl rfl) (.inr rfl) (by decide) ?_
    intro entry hentry alloc halloc
    obtain rfl := List.mem_singleton.1 hentry
    cases hrecorded.symm.trans halloc
  · exact savable_slice (by decide) (.inr rfl) (.inl rfl) (by decide)
      fun _ h => absurd h List.not_mem_nil

end SavedScheduleExample

open SavedScheduleExample SavedReservationsExample

/-- A schedule with one job survives. -/
theorem schedule_survives_iff_witness : ∃ s alloc, (Schedule.new 1 0).addJobFirstFit job = .ok (s, alloc) ∧
    ScheduleSurvives texts workload {} {} s (Schedule.new 1 0) := by
  obtain ⟨s, alloc, hok, hprofile, hsize, hjobs, hreservations, hrepair, hrecorded⟩ := run_job
  have hs := savable_job hprofile hsize hjobs hreservations hrepair hrecorded
  refine ⟨s, alloc, hok, (schedule_survives_iff texts workload {} {} s (Schedule.new 1 0) hs rfl).2 ?_⟩
  rw [hprofile]
  refine List.forall_mem_cons.2 ⟨?_, List.forall_mem_singleton.2 ?_⟩
  · refine ⟨readsBack_of_eq 0 (by norm_num), readsBack_of_eq 4096 (by norm_num), readsBack_of_eq 4096 (by norm_num),
      fun hlong => absurd hlong (by norm_num), fun _ => by decide, ?_, by decide⟩
    intro entry hentry
    obtain rfl := List.mem_singleton.1 hentry
    refine ⟨by decide, fun alloc halloc => ?_⟩
    obtain rfl := Option.some.inj (hrecorded.symm.trans halloc)
    exact ⟨rfl, rfl⟩
  · refine ⟨readsBack_of_eq 4096 (by norm_num), readsBack_of_eq (10 ^ 19) (by norm_num [horizon]),
      readsBack_of_eq (10 ^ 19 - 4096) (by norm_num [horizon]), fun _ => rfl, fun hshort => absurd hshort (by norm_num [horizon]),
      fun _ h => absurd h List.not_mem_nil, List.nodup_nil⟩

/-- A schedule with one reservation does not survive: nothing is before it. All its dates and lengths are read back. -/
theorem schedule_survives_false : ∃ s r s', (Schedule.new 1 0).reserveTimeSlice (.stable LargestFirst) laterMeeting = .ok (s, r) ∧
    s.addReservation r = .ok s' ∧ s'.Savable texts workload {} ∧
    (∀ slice ∈ s'.profile, texts.ReadsBack slice.beginDate ∧ texts.ReadsBack slice.endDate ∧ texts.ReadsBack slice.length) ∧
    ¬ScheduleSurvives texts workload {} {} s' (Schedule.new 1 0) := by
  obtain ⟨s, r, s', hreserve, hadd, hprofile, hsize, hjobs, hreservations, hrepair, hrecorded⟩ := run_meeting
  have hs := savable_meeting hprofile hsize hjobs hreservations hrepair hrecorded
  refine ⟨s, r, s', hreserve, hadd, hs, ?_, fun h => ?_⟩
  · have h0 : texts.ReadsBack 0 := readsBack_of_eq 0 (by norm_num)
    have h4096 : texts.ReadsBack 4096 := readsBack_of_eq 4096 (by norm_num)
    have h8192 : texts.ReadsBack 8192 := readsBack_of_eq 8192 (by norm_num)
    have hend : texts.ReadsBack horizon := readsBack_of_eq (10 ^ 19) (by norm_num [horizon])
    have hrest : texts.ReadsBack (horizon - 8192) := readsBack_of_eq (10 ^ 19 - 8192) (by norm_num [horizon])
    rw [hprofile]
    exact List.forall_mem_cons.2 ⟨⟨h0, h4096, h4096⟩, List.forall_mem_cons.2 ⟨⟨h4096, h8192, h4096⟩,
      List.forall_mem_singleton.2 ⟨h8192, hend, hrest⟩⟩⟩
  · have hkept := kept_of_survives hs rfl h
    rw [hprofile] at hkept
    exact (hkept _ List.mem_cons_self).short (by norm_num) rfl

end ScheduleTest
