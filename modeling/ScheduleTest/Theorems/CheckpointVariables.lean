import ScheduleTest.CheckpointVariables
import ScheduleTest.Theorems.SavedReservations

/-!
# Which variables survive a checkpoint

The sets of machines that became available or went under repair, the flags and the pending failures are read back. A change of a
power state, a killed job and a saved reservation are not, and machines that became unavailable are read back as those that became
available.
-/

namespace ScheduleTest

open SavedReservations

/-- The text of a set of machines, as the library has it: numbers, hyphens and spaces, none for no machine, and read back. -/
structure ValueTexts.HyphenText (t : ValueTexts) (machines : IntervalSet) : Prop where
  plain : JsonValue.Plain (t.toStringHyphen machines).toList
  empty : t.toStringHyphen machines = "" ↔ machines = ∅
  read : machines ≠ ∅ → t.fromStringHyphen (t.toStringHyphen machines) = some machines

/-- A message about a killed job is given back, for the job after the checkpoint. -/
structure MessageBack (message message' : JobMessage) : Prop where
  id : (BatschedTools.getJobParts message.id).map (·.nextCheckpoint) = some message'.id
  progressStr : message'.progressStr = message.progressStr
  progress : message'.progress = message.progress
  forWhat : message'.forWhat = message.forWhat

namespace CheckpointVariables

/-- The variables are given back. -/
structure GivenBack (workload : String → Option Job) (profile profile' : List TimeSlice) (v : CheckpointVariables)
    (base : BaseVariables) (derived : DerivedVariables) : Prop where
  available : base.machinesThatBecameAvailableRecently = v.machinesThatBecameAvailableRecently
  unavailable : base.machinesThatBecameUnavailableRecently = v.machinesThatBecameUnavailableRecently
  pstates : base.machinesWhosePstateChangedRecently = v.machinesWhosePstateChangedRecently
  killed : List.Forall₂ (fun entry entry' => MessageBack entry.2 entry'.2) v.jobsKilledRecently base.jobsKilledRecently
  savedReservations : List.Forall₂ (ReadBack workload profile profile') v.savedReservations derived.savedReservations
  killedJobs : derived.killedJobs = v.killedJobs
  startAReservation : derived.startAReservation = v.startAReservation
  underRepair : derived.recentlyUnderRepairMachines = v.recentlyUnderRepairMachines
  instantDownUps : derived.onMachineInstantDownUps.map (·.1) = v.onMachineInstantDownUps.map KillType.toInt
  downForRepairs : derived.onMachineDownForRepairs.map (·.1) = v.onMachineDownForRepairs.map KillType.toInt

/-- The variables survive a checkpoint: the text is JSON, and what is read from it gives them back. -/
def Survive (t : ValueTexts) (workload : String → Option Job) (profile profile' : List TimeSlice) (v : CheckpointVariables) :
    Prop :=
  ∃ text doc base derived, v.toText t = some text ∧ JsonValue.parse text = some doc ∧
    ingest t workload profile' doc = .ok (base, some derived) ∧ GivenBack workload profile profile' v base derived

/-- Nothing is to be written that is not read back: no change of a power state, no killed job, no saved reservation, and no machine
that became unavailable, unless they are those that became available. -/
structure Restorable (v : CheckpointVariables) : Prop where
  pstates : v.machinesWhosePstateChangedRecently = .empty
  killed : v.jobsKilledRecently = []
  savedReservations : v.savedReservations = []
  unavailable : v.machinesThatBecameUnavailableRecently = ∅ ∨
    v.machinesThatBecameUnavailableRecently = v.machinesThatBecameAvailableRecently

/-- The ids in the variables, and an option, stand for themselves between quotes. -/
structure PlainTexts (v : CheckpointVariables) : Prop where
  waitingTimes : ∀ jobId ∈ v.jobsWhoseWaitingTimeEstimationHasBeenRequestedRecently, JsonValue.Plain jobId.toList
  ended : ∀ jobId ∈ v.jobsEndedRecently, JsonValue.Plain jobId.toList
  released : ∀ jobId ∈ v.jobsReleasedRecently, JsonValue.Plain jobId.toList
  outputSvg : JsonValue.Plain v.outputSvg.toList
  savedQueued : ∀ jobId ∈ v.savedRecentlyQueuedJobs, JsonValue.Plain jobId.toList
  savedEnded : ∀ jobId ∈ v.savedRecentlyEndedJobs, JsonValue.Plain jobId.toList
  resubmitted : ∀ entry ∈ v.resubmittedJobs, JsonValue.Plain entry.1.toList
  resubmittedReleased : ∀ entry ∈ v.resubmittedJobsReleased, entry.1.PlainId

/-- The machines in the variables. -/
def HyphenTexts (t : ValueTexts) (v : CheckpointVariables) : Prop :=
  t.HyphenText v.machinesThatBecameAvailableRecently ∧ t.HyphenText v.machinesThatBecameUnavailableRecently ∧
    t.HyphenText v.recentlyUnderRepairMachines ∧
    ∀ entry ∈ v.machinesWhosePstateChangedRecently.entries, t.HyphenText entry.2

end CheckpointVariables

namespace CheckpointVariablesAux

open JsonValue CheckpointVariables SavedReservationsAux

variable {t : ValueTexts} {workload : String → Option Job} {profile profile' : List TimeSlice} {v : CheckpointVariables}
  {text after : List Char} {value : JsonValue} {key : String}

/-! ### Texts that are read back -/

theorem reads_number (t : ValueTexts) (x : ℚ) : ∃ value, Reads (t.numberText x) (.double value) :=
  ⟨_, Reads.fixed (by decide) (t.toDouble x)⟩

theorem reads_string {text : String} (h : Plain text.toList) : Reads (stringText text) (.string text) := by
  have hread := Reads.string h
  rwa [String.ofList_toList] at hread

theorem reads_strings {texts : List String} (h : ∀ text ∈ texts, Plain text.toList) :
    Reads (stringsText texts) (.array (texts.map .string)) := by
  refine Reads.array ?_
  rw [List.forall₂_map_left_iff, List.forall₂_map_right_iff, List.forall₂_same]
  exact fun text htext => reads_string (h text htext)

theorem reads_kinds (kinds : List KillType) :
    Reads (vectorToJsonString (kinds.map fun killType => intText killType.toInt))
      (.array (kinds.map fun killType => .ofInt killType.toInt)) := by
  refine Reads.array ?_
  rw [List.forall₂_map_left_iff, List.forall₂_map_right_iff, List.forall₂_same]
  exact fun killType _ => Reads.integer killType.toInt

/-- A member behind a space. -/
theorem member_space (hkey : Plain key.toList) (h : Reads text value) :
    Reads.Member (' ' :: memberText key text) (key, value) := by
  have hmember := member_spaced spaces_singleton spaces_nil hkey h
  rwa [List.append_nil] at hmember

theorem reads_pairs {α : Type} (keyText : α → List Char) (name : α → String) {pairs : List (α × KillType)}
    (h : ∀ entry ∈ pairs, Reads (keyText entry.1) (.string (name entry.1))) :
    Reads (vectorToJsonString (pairs.map fun entry => pairText (keyText entry.1) (intText entry.2.toInt)))
      (.array (pairs.map fun entry => .object [("key", .string (name entry.1)), ("value", .ofInt entry.2.toInt)])) := by
  refine Reads.array ?_
  rw [List.forall₂_map_left_iff, List.forall₂_map_right_iff, List.forall₂_same]
  intro entry hentry
  refine Reads.object ?_ (List.cons_ne_nil _ _)
  exact .cons (member_space (by decide) (h entry hentry)) (.cons (member_space (by decide) (Reads.integer _)) .nil)

theorem spaces_line {indent : String} (hindent : Spaces indent.toList) : Spaces ('\n' :: indent.toList) := by
  intro c hc
  rcases List.mem_cons.1 hc with rfl | hc
  · decide
  · exact hindent c hc

/-- A line of a document is a member of it. -/
theorem member_line {indent : String} (hindent : Spaces indent.toList) (hkey : Plain key.toList) (hafter : Spaces after)
    (h : Reads text value) : Reads.Member (lineText indent key text ++ after) (key, value) := by
  have hmember := member_spaced (spaces_line hindent) hafter hkey h
  rwa [← List.append_assoc] at hmember

theorem member_line_nil {indent : String} (hindent : Spaces indent.toList) (hkey : Plain key.toList) (h : Reads text value) :
    Reads.Member (lineText indent key text) (key, value) := by
  have hmember := member_line hindent hkey spaces_nil h
  rwa [List.append_nil] at hmember

/-- What the first part of the document stands for. -/
def baseValue (t : ValueTexts) (v : CheckpointVariables) (joules : ℚ) : JsonValue := .object [
  ("_consumed_joules", .double joules),
  ("_machines_that_became_available_recently", .string (t.toStringHyphen v.machinesThatBecameAvailableRecently)),
  ("_machines_that_became_unavailable_recently", .string (t.toStringHyphen v.machinesThatBecameUnavailableRecently)),
  ("_machines_whose_pstate_changed_recently", .array []),
  ("_jobs_whose_waiting_time_estimation_has_been_requested_recently",
    .array (v.jobsWhoseWaitingTimeEstimationHasBeenRequestedRecently.map .string)),
  ("_jobs_killed_recently", .array []),
  ("_jobs_ended_recently", .array (v.jobsEndedRecently.map .string)),
  ("_jobs_released_recently", .array (v.jobsReleasedRecently.map .string)),
  ("_nb_call_me_laters", .ofInt (v.nbCallMeLaters : ℤ))]

/-- And the second. -/
def derivedValue (t : ValueTexts) (v : CheckpointVariables) (date : ℚ) : JsonValue := .object [
  ("_output_svg", .string v.outputSvg),
  ("_svg_frame_start", .ofInt v.svgFrameStart),
  ("_svg_frame_end", .ofInt v.svgFrameEnd),
  ("_svg_output_start", .ofInt v.svgOutputStart),
  ("_svg_output_end", .ofInt v.svgOutputEnd),
  ("_reschedule_policy", .ofInt (v.reschedulePolicy : ℤ)),
  ("_impact_policy", .ofInt (v.impactPolicy : ℤ)),
  ("_previous_date", .double date),
  ("_saved_reservations", .array []),
  ("_killed_jobs", .bool v.killedJobs),
  ("_need_to_send_finished_submitting_jobs", .bool v.needToSendFinishedSubmittingJobs),
  ("_saved_recently_queued_jobs", .array (v.savedRecentlyQueuedJobs.map .string)),
  ("_saved_recently_ended_jobs", .array (v.savedRecentlyEndedJobs.map .string)),
  ("_recently_under_repair_machines", .string (t.toStringHyphen v.recentlyUnderRepairMachines)),
  ("_need_to_compress", .bool v.needToCompress),
  ("_checkpointing_on", .bool v.checkpointingOn),
  ("_start_a_reservation", .bool v.startAReservation),
  ("_resubmitted_jobs",
    .array (v.resubmittedJobs.map fun entry => .object [("key", .string entry.1), ("value", .ofInt entry.2.toInt)])),
  ("_resubmitted_jobs_released",
    .array (v.resubmittedJobsReleased.map fun entry => .object [("key", .string entry.1.id), ("value", .ofInt entry.2.toInt)])),
  ("_on_machine_instant_down_ups", .array (v.onMachineInstantDownUps.map fun killType => .ofInt killType.toInt)),
  ("_on_machine_down_for_repairs", .array (v.onMachineDownForRepairs.map fun killType => .ofInt killType.toInt))]

theorem reads_base (htexts : v.HyphenTexts t) (hplain : v.PlainTexts) (h : v.Restorable) :
    ∃ joules, Reads (objectText (baseLines t v)) (baseValue t v joules) := by
  obtain ⟨joules, hjoules⟩ := reads_number t v.consumedJoules
  obtain ⟨havailable, hunavailable, -, -⟩ := htexts
  have hnone : Reads (vectorToJsonString []) (.array []) := Reads.array .nil
  refine ⟨joules, ?_⟩
  unfold baseLines
  rw [h.pstates, h.killed]
  refine Reads.object ?_ (List.cons_ne_nil _ _)
  exact .cons (member_line_nil (by decide) (by decide) hjoules)
    (.cons (member_line_nil (by decide) (by decide) (reads_string havailable.plain))
    (.cons (member_line_nil (by decide) (by decide) (reads_string hunavailable.plain))
    (.cons (member_line_nil (by decide) (by decide) hnone)
    (.cons (member_line_nil (by decide) (by decide) (reads_strings hplain.waitingTimes))
    (.cons (member_line_nil (by decide) (by decide) hnone)
    (.cons (member_line_nil (by decide) (by decide) (reads_strings hplain.ended))
    (.cons (member_line_nil (by decide) (by decide) (reads_strings hplain.released))
    (.cons (member_line (by decide) (by decide) (by decide) (Reads.integer _)) .nil))))))))

theorem reads_derived (htexts : v.HyphenTexts t) (hplain : v.PlainTexts) :
    ∃ date, Reads (objectText (derivedLines t v (String.ofList ['[', ']']))) (derivedValue t v date) := by
  obtain ⟨date, hdate⟩ := reads_number t v.previousDate
  obtain ⟨-, -, hrepair, -⟩ := htexts
  have hnone : Reads (String.ofList ['[', ']']).toList (.array []) := by
    rw [String.toList_ofList]
    exact Reads.array .nil
  refine ⟨date, Reads.object ?_ (List.cons_ne_nil _ _)⟩
  exact .cons (member_line_nil (by decide) (by decide) (reads_string hplain.outputSvg))
    (.cons (member_line_nil (by decide) (by decide) (Reads.integer _))
    (.cons (member_line_nil (by decide) (by decide) (Reads.integer _))
    (.cons (member_line_nil (by decide) (by decide) (Reads.integer _))
    (.cons (member_line_nil (by decide) (by decide) (Reads.integer _))
    (.cons (member_line_nil (by decide) (by decide) (Reads.integer _))
    (.cons (member_line_nil (by decide) (by decide) (Reads.integer _))
    (.cons (member_line_nil (by decide) (by decide) hdate)
    (.cons (member_line_nil (by decide) (by decide) hnone)
    (.cons (member_line_nil (by decide) (by decide) (Reads.bool _))
    (.cons (member_line_nil (by decide) (by decide) (Reads.bool _))
    (.cons (member_line_nil (by decide) (by decide) (reads_strings hplain.savedQueued))
    (.cons (member_line_nil (by decide) (by decide) (reads_strings hplain.savedEnded))
    (.cons (member_line_nil (by decide) (by decide) (reads_string hrepair.plain))
    (.cons (member_line_nil (by decide) (by decide) (Reads.bool _))
    (.cons (member_line_nil (by decide) (by decide) (Reads.bool _))
    (.cons (member_line_nil (by decide) (by decide) (Reads.bool _))
    (.cons (member_line_nil (by decide) (by decide)
      (reads_pairs stringText (fun jobId => jobId) fun entry hentry => reads_string (hplain.resubmitted entry hentry)))
    (.cons (member_line_nil (by decide) (by decide)
      (reads_pairs Job.toJsonString Job.id fun entry hentry => reads_job (hplain.resubmittedReleased entry hentry)))
    (.cons (member_line_nil (by decide) (by decide) (reads_kinds _))
    (.cons (member_line (by decide) (by decide) (by decide) (reads_kinds _)) .nil))))))))))))))))))))

/-- The document of variables that are restorable. -/
theorem parse_document (htexts : v.HyphenTexts t) (hplain : v.PlainTexts) (h : v.Restorable) :
    ∃ text joules date, v.toText t = some text ∧
      JsonValue.parse text = some (.object [("base", baseValue t v joules), ("derived", derivedValue t v date)]) := by
  obtain ⟨joules, hbase⟩ := reads_base htexts hplain h
  obtain ⟨date, hderived⟩ := reads_derived htexts hplain
  have htext : v.toText t = some (String.ofList (documentText t v (String.ofList ['[', ']']))) := by
    unfold toText
    rw [h.savedReservations]
    rfl
  refine ⟨_, joules, date, htext, parse_of_reads ?_⟩
  rw [String.toList_ofList]
  refine Reads.object ?_ (List.cons_ne_nil _ _)
  exact .cons (member_line (by decide) (by decide) (by decide) hbase)
    (.cons (member_line (by decide) (by decide) (by decide) hderived) .nil)

/-! ### What is read from a document -/

theorem getInt_intCast (key : String) (z : CInt) : getInt key (.ofInt z) = .ok z := by
  rw [ofInt_of_isWide (isWide_of_isInt z.2)]
  exact dif_pos z.2

theorem readInts_kinds (key : String) (kinds : List KillType) :
    ∃ values, readInts key (kinds.map fun killType => .ofInt killType.toInt) = .ok values ∧
      values.map (·.1) = kinds.map KillType.toInt := by
  induction kinds with
  | nil => exact ⟨[], rfl, rfl⟩
  | cons killType kinds ih =>
    obtain ⟨values, hread, hvalues⟩ := ih
    have hint : Text.IsInt killType.toInt := by cases killType <;> decide
    refine ⟨⟨killType.toInt, hint⟩ :: values, ?_, congrArg (killType.toInt :: ·) hvalues⟩
    rw [List.map_cons, readInts, getInt_intCast key ⟨killType.toInt, hint⟩, hread]
    rfl

theorem getMachinesOrNone_text {machines : IntervalSet} (h : t.HyphenText machines) :
    getMachinesOrNone t (t.toStringHyphen machines) = .ok machines := by
  unfold getMachinesOrNone getMachines
  split
  · rename_i hempty
    rw [h.empty.1 hempty]
  · rename_i hne
    rw [h.read fun hnone => hne (h.empty.2 hnone)]

/-- The machines that became unavailable are read back in two cases. -/
theorem getUnavailable_eq_ok {available unavailable : IntervalSet} (havailable : t.HyphenText available)
    (hunavailable : t.HyphenText unavailable) (hempty : t.fromStringHyphen "" = none) :
    getUnavailable t (t.toStringHyphen available) (t.toStringHyphen unavailable) = .ok unavailable ↔
      unavailable = ∅ ∨ unavailable = available := by
  unfold getUnavailable getMachines
  by_cases hnone : unavailable = ∅
  · rw [if_pos (hunavailable.empty.2 hnone)]
    exact iff_of_true (by rw [hnone]) (.inl hnone)
  · rw [if_neg fun htext => hnone (hunavailable.empty.1 htext)]
    by_cases hother : available = ∅
    · rw [havailable.empty.2 hother, hempty]
      refine iff_of_false (fun h => by cases h) (not_or.2 ⟨hnone, fun heq => hnone (heq.trans hother)⟩)
    · rw [havailable.read hother]
      exact ⟨fun h => .inr (Except.ok.inj h).symm, fun h => congrArg Except.ok (h.resolve_left hnone).symm⟩

theorem ingestBase_document (htexts : v.HyphenTexts t) (hempty : t.fromStringHyphen "" = none) (h : v.Restorable) (joules : ℚ)
    (derived : JsonValue) :
    ingestBase t (.object [("base", baseValue t v joules), ("derived", derived)]) = .ok {
      consumedJoules := t.parseDouble joules
      machinesThatBecameAvailableRecently := v.machinesThatBecameAvailableRecently
      machinesThatBecameUnavailableRecently := v.machinesThatBecameUnavailableRecently
      machinesWhosePstateChangedRecently := .empty
      jobsKilledRecently := []
      nbCallMeLaters := v.nbCallMeLaters } := by
  obtain ⟨havailable, hunavailable, -, -⟩ := htexts
  have hread : ingestBase t (.object [("base", baseValue t v joules), ("derived", derived)]) =
      getMachinesOrNone t (t.toStringHyphen v.machinesThatBecameAvailableRecently) >>= fun available =>
      getUnavailable t (t.toStringHyphen v.machinesThatBecameAvailableRecently)
        (t.toStringHyphen v.machinesThatBecameUnavailableRecently) >>= fun unavailable =>
      getInt "_nb_call_me_laters" (.ofInt (v.nbCallMeLaters : ℤ)) >>= fun nbCallMeLaters => .ok {
        consumedJoules := t.parseDouble joules
        machinesThatBecameAvailableRecently := available
        machinesThatBecameUnavailableRecently := unavailable
        machinesWhosePstateChangedRecently := .empty
        jobsKilledRecently := []
        nbCallMeLaters := nbCallMeLaters } := rfl
  rw [hread, getMachinesOrNone_text havailable, (getUnavailable_eq_ok havailable hunavailable hempty).2 h.unavailable,
    getInt_intCast]
  rfl

theorem ingestDerived_document (htexts : v.HyphenTexts t) (base : JsonValue) (date : ℚ) {downUps downs : List CInt}
    (hdownUps : readInts "_on_machine_instant_down_ups"
      (v.onMachineInstantDownUps.map fun killType => .ofInt killType.toInt) = .ok downUps)
    (hdowns : readInts "_on_machine_down_for_repairs"
      (v.onMachineDownForRepairs.map fun killType => .ofInt killType.toInt) = .ok downs) :
    ingestDerived t workload profile (.object [("base", base), ("derived", derivedValue t v date)]) = .ok {
      reschedulePolicy := v.reschedulePolicy
      impactPolicy := v.impactPolicy
      previousDate := t.parseDouble date
      savedReservations := []
      killedJobs := v.killedJobs
      needToSendFinishedSubmittingJobs := v.needToSendFinishedSubmittingJobs
      recentlyUnderRepairMachines := v.recentlyUnderRepairMachines
      checkpointingOn := v.checkpointingOn
      startAReservation := v.startAReservation
      onMachineInstantDownUps := downUps
      onMachineDownForRepairs := downs } := by
  have hread : ingestDerived t workload profile (.object [("base", base), ("derived", derivedValue t v date)]) =
      getInt "_reschedule_policy" (.ofInt (v.reschedulePolicy : ℤ)) >>= fun reschedulePolicy =>
      getInt "_impact_policy" (.ofInt (v.impactPolicy : ℤ)) >>= fun impactPolicy =>
      getMachinesOrNone t (t.toStringHyphen v.recentlyUnderRepairMachines) >>= fun underRepair =>
      readInts "_on_machine_instant_down_ups" (v.onMachineInstantDownUps.map fun killType => .ofInt killType.toInt) >>=
      fun downUps =>
      readInts "_on_machine_down_for_repairs" (v.onMachineDownForRepairs.map fun killType => .ofInt killType.toInt) >>=
      fun downs => .ok {
        reschedulePolicy := reschedulePolicy
        impactPolicy := impactPolicy
        previousDate := t.parseDouble date
        savedReservations := []
        killedJobs := v.killedJobs
        needToSendFinishedSubmittingJobs := v.needToSendFinishedSubmittingJobs
        recentlyUnderRepairMachines := underRepair
        checkpointingOn := v.checkpointingOn
        startAReservation := v.startAReservation
        onMachineInstantDownUps := downUps
        onMachineDownForRepairs := downs } := rfl
  rw [hread, getInt_intCast, getInt_intCast, getMachinesOrNone_text htexts.2.2.1, hdownUps, hdowns]
  rfl

/-- Variables that are restorable survive. -/
theorem survive_of_restorable (htexts : v.HyphenTexts t) (hempty : t.fromStringHyphen "" = none) (hplain : v.PlainTexts)
    (h : v.Restorable) : v.Survive t workload profile profile' := by
  obtain ⟨text, joules, date, htext, hparse⟩ := parse_document htexts hplain h
  obtain ⟨downUps, hdownUps, hdownUps'⟩ := readInts_kinds "_on_machine_instant_down_ups" v.onMachineInstantDownUps
  obtain ⟨downs, hdowns, hdowns'⟩ := readInts_kinds "_on_machine_down_for_repairs" v.onMachineDownForRepairs
  have hbase := ingestBase_document htexts hempty h joules (derivedValue t v date)
  have hderived := @ingestDerived_document t workload profile' v htexts (baseValue t v joules) date downUps downs hdownUps hdowns
  have hingest : ingest t workload profile' (.object [("base", baseValue t v joules), ("derived", derivedValue t v date)]) =
      ingestBase t (.object [("base", baseValue t v joules), ("derived", derivedValue t v date)]) >>= fun base =>
      ingestDerived t workload profile' (.object [("base", baseValue t v joules), ("derived", derivedValue t v date)]) >>=
      fun derived => .ok (base, some derived) := rfl
  rw [hbase, hderived] at hingest
  refine ⟨text, _, _, _, htext, hparse, hingest, ?_⟩
  exact {
    available := rfl
    unavailable := rfl
    pstates := h.pstates.symm
    killed := by
      rw [h.killed]
      exact .nil
    savedReservations := by
      rw [h.savedReservations]
      exact .nil
    killedJobs := rfl
    startAReservation := rfl
    underRepair := rfl
    instantDownUps := hdownUps'
    downForRepairs := hdowns' }

/-! ### What a document that was read begins with -/

theorem quote_of_line {indent : String} (hindent : Spaces indent.toList) (behind : List Char) :
    (skipSpace (lineText indent key text ++ behind)).head? = some '"' := by
  have htext : lineText indent key text ++ behind =
      ('\n' :: indent.toList) ++ '"' :: (key.toList ++ '"' :: ':' :: (text ++ behind)) := by simp [lineText, memberText]
  rw [htext, skipSpace_spaces (spaces_line hindent), skipSpace_cons (by decide), List.head?_cons]

theorem value_of_line {indent : String} (hindent : Spaces indent.toList) (hkey : Plain key.toList) {fuel : ℕ}
    {behind : List Char} {r : List (String × JsonValue) × List Char}
    (h : readMembers fuel (lineText indent key text ++ behind) = some r) :
    ∃ fuel' v members, readValue fuel' (text ++ behind) = some v ∧ r.1 = (key, v.1) :: members := by
  have htext : lineText indent key text ++ behind =
      ('\n' :: indent.toList) ++ '"' :: (key.toList ++ '"' :: ':' :: (text ++ behind)) := by simp [lineText, memberText]
  rw [htext] at h
  obtain ⟨fuel', v, members, hv, hr⟩ := value_of_readMembers (spaces_line hindent) hkey spaces_nil h
  rw [String.ofList_toList] at hr
  exact ⟨fuel', v, members, hv, hr⟩

/-- The first of several texts comes first. -/
theorem intercalate_cons (separator text : List Char) (texts : List (List Char)) :
    ∃ tail, separator.intercalate (text :: texts) = text ++ tail := by
  cases texts with
  | nil => exact ⟨[], by rw [List.intercalate_singleton, List.append_nil]⟩
  | cons text' texts => exact ⟨_, by rw [List.intercalate_cons_cons, List.append_assoc]⟩

/-- Machines without quotes are not read as a string. -/
theorem pstate_of_readValue {entry : ℤ × IntervalSet} (hplain : Plain (t.toStringHyphen entry.2).toList) {fuel : ℕ}
    {behind : List Char} {r : JsonValue × List Char} (h : readValue fuel (pstateText t entry ++ behind) = some r) :
    ∃ key value members, r.1 = .object (("key", key) :: ("value", value) :: members) ∧ ∀ text, value ≠ .string text := by
  unfold pstateText pairText objectText at h
  rw [List.cons_append, List.append_assoc] at h
  have hkey : Reads.Member (' ' :: memberText "key" (intText entry.1)) ("key", .ofInt entry.1) :=
    member_space (by decide) (Reads.integer _)
  have hquote : (skipSpace ([','].intercalate [' ' :: memberText "key" (intText entry.1),
      ' ' :: memberText "value" (t.toStringHyphen entry.2).toList] ++ (['\x7d'] ++ behind))).head? = some '"' := by
    rw [List.intercalate_cons_cons, List.append_assoc, List.append_assoc]
    exact Reads.quote_of_member hkey _
  obtain ⟨fuel', members, hmembers, hr⟩ := object_of_readValue hquote h
  obtain ⟨fuel', members', hmembers, rfl⟩ := cons_of_readMembers hkey hmembers
  rw [List.intercalate_singleton] at hmembers
  have hplainKey : Plain "value".toList := by decide
  have htext : ' ' :: memberText "value" (t.toStringHyphen entry.2).toList ++ (['\x7d'] ++ behind) =
      [' '] ++ '"' :: ("value".toList ++ '"' :: ([] ++ ':' :: ((t.toStringHyphen entry.2).toList ++ '\x7d' :: behind))) := by
    simp [memberText]
  rw [htext] at hmembers
  obtain ⟨fuel', v, members'', hv, rfl⟩ := value_of_readMembers spaces_singleton hplainKey spaces_nil hmembers
  refine ⟨_, _, _, hr, ?_⟩
  rintro text heq
  have hquote : (skipSpace ((t.toStringHyphen entry.2).toList ++ '\x7d' :: behind)).head? = some '"' := by
    have hread : readValue fuel' ((t.toStringHyphen entry.2).toList ++ '\x7d' :: behind) = some (.string text, v.2) := by
      rw [hv, ← heq]
    exact quote_of_readValue hread
  rcases mem_of_skipSpace (by decide) hquote with hmem | hbrace
  · exact (hplain '"' hmem).1 rfl
  · exact absurd hbrace (by decide)

/-- The document begins with the machines that became available and unavailable, and the changes of power states. -/
theorem document_begins (htexts : v.HyphenTexts t) {savedReservations : String} {doc : JsonValue}
    (h : JsonValue.parse (String.ofList (documentText t v savedReservations)) = some doc) :
    ∃ joules pstates members members', doc = .object (("base", .object (("_consumed_joules", .double joules) ::
        ("_machines_that_became_available_recently", .string (t.toStringHyphen v.machinesThatBecameAvailableRecently)) ::
        ("_machines_that_became_unavailable_recently", .string (t.toStringHyphen v.machinesThatBecameUnavailableRecently)) ::
        ("_machines_whose_pstate_changed_recently", pstates) :: members)) :: members') ∧
      ∃ fuel behind rest, readValue fuel
        (vectorToJsonString (v.machinesWhosePstateChangedRecently.entries.map (pstateText t)) ++ behind) =
          some (pstates, rest) := by
  obtain ⟨joules, hjoules⟩ := reads_number t v.consumedJoules
  obtain ⟨havailable, hunavailable, -, -⟩ := htexts
  unfold JsonValue.parse at h
  rw [String.toList_ofList] at h
  obtain ⟨r, hr, h⟩ := Option.bind_eq_some_iff.1 h
  split at h
  · obtain rfl := Option.some.inj h
    unfold documentText objectText at hr
    rw [List.intercalate_cons_cons, List.append_assoc, List.append_assoc, List.append_assoc] at hr
    obtain ⟨fuel, members, hmembers, hdoc⟩ := object_of_readValue (quote_of_line (by decide) _) hr
    obtain ⟨fuel, base, members', hbase, rfl⟩ := value_of_line (by decide) (by decide) hmembers
    rw [List.cons_append, List.append_assoc] at hbase
    unfold baseLines at hbase
    have hquote : (skipSpace ([','].intercalate (baseLines t v) ++ (['\x7d'] ++ (['\n', '\t'] ++ ([','] ++
        ([','].intercalate [lineText "\t" "derived" (objectText (derivedLines t v savedReservations)) ++ ['\n']] ++
          ['\x7d'])))))).head? = some '"' := by
      unfold baseLines
      rw [List.intercalate_cons_cons, List.append_assoc, List.append_assoc]
      exact quote_of_line (by decide) _
    obtain ⟨fuel, lines, hlines, hbaseValue⟩ := object_of_readValue hquote hbase
    obtain ⟨fuel, lines, hlines, rfl⟩ := cons_of_readMembers (member_line_nil (by decide) (by decide) hjoules) hlines
    obtain ⟨fuel, lines, hlines, rfl⟩ :=
      cons_of_readMembers (member_line_nil (by decide) (by decide) (reads_string havailable.plain)) hlines
    obtain ⟨fuel, lines, hlines, rfl⟩ :=
      cons_of_readMembers (member_line_nil (by decide) (by decide) (reads_string hunavailable.plain)) hlines
    rw [List.intercalate_cons_cons, List.append_assoc, List.append_assoc] at hlines
    obtain ⟨fuel, pstates, lines', hpstates, rfl⟩ := value_of_line (by decide) (by decide) hlines
    refine ⟨joules, pstates.1, lines', members', ?_, fuel, _, pstates.2, hpstates⟩
    rw [hdoc, hbaseValue]
  · cases h

/-! ### What is not given back -/

theorem readKilled_eq_ok {values : List JsonValue} {killed : List (String × JobMessage)} (h : readKilled values = .ok killed) :
    killed = [] := by
  cases values with
  | nil => exact (Except.ok.inj h).symm
  | cons value values =>
    unfold readKilled at h
    obtain ⟨_, -, h⟩ := bind_eq_ok h
    obtain ⟨_, -, h⟩ := bind_eq_ok h
    split at h <;> cases h

/-- What is read from the first part of such a document. -/
theorem of_ingestBase {available unavailable : String} {joules : ℚ} {pstates : JsonValue}
    {members members' : List (String × JsonValue)} {base : BaseVariables}
    (h : ingestBase t (.object (("base", .object (("_consumed_joules", .double joules) ::
      ("_machines_that_became_available_recently", .string available) ::
      ("_machines_that_became_unavailable_recently", .string unavailable) ::
      ("_machines_whose_pstate_changed_recently", pstates) :: members)) :: members')) = .ok base) :
    getUnavailable t available unavailable = .ok base.machinesThatBecameUnavailableRecently ∧
      (getArray "_machines_whose_pstate_changed_recently" pstates >>= readPstates t .empty) =
        .ok base.machinesWhosePstateChangedRecently ∧ base.jobsKilledRecently = [] := by
  unfold ingestBase at h
  obtain ⟨value, hvalue, h⟩ := bind_eq_ok h
  obtain rfl := Except.ok.inj hvalue
  obtain ⟨_, -, h⟩ := bind_eq_ok h
  obtain ⟨mtbar, hmtbar, h⟩ := bind_eq_ok h
  obtain rfl : available = mtbar := Except.ok.inj hmtbar
  obtain ⟨_, -, h⟩ := bind_eq_ok h
  obtain ⟨mtbur, hmtbur, h⟩ := bind_eq_ok h
  obtain rfl : unavailable = mtbur := Except.ok.inj hmtbur
  obtain ⟨_, hunavailable, h⟩ := bind_eq_ok h
  obtain ⟨_, hpstates, h⟩ := bind_eq_ok h
  obtain ⟨_, hkilled, h⟩ := bind_eq_ok h
  obtain ⟨_, -, h⟩ := bind_eq_ok h
  obtain rfl := Except.ok.inj h
  obtain ⟨_, -, hkilled⟩ := bind_eq_ok hkilled
  exact ⟨hunavailable, hpstates, readKilled_eq_ok hkilled⟩

theorem of_ingestDerived {doc : JsonValue} {derived : DerivedVariables}
    (h : ingestDerived t workload profile doc = .ok derived) :
    ∃ value, savedReservationsFromJson t workload profile value = .ok derived.savedReservations := by
  unfold ingestDerived at h
  obtain ⟨_, -, h⟩ := bind_eq_ok h
  obtain ⟨_, -, h⟩ := bind_eq_ok h
  obtain ⟨_, -, h⟩ := bind_eq_ok h
  obtain ⟨_, -, h⟩ := bind_eq_ok h
  obtain ⟨_, hsaved, h⟩ := bind_eq_ok h
  obtain ⟨_, -, h⟩ := bind_eq_ok h
  obtain ⟨_, -, h⟩ := bind_eq_ok h
  obtain ⟨_, -, h⟩ := bind_eq_ok h
  obtain ⟨_, -, h⟩ := bind_eq_ok h
  obtain ⟨_, -, h⟩ := bind_eq_ok h
  obtain ⟨_, -, h⟩ := bind_eq_ok h
  obtain ⟨_, -, h⟩ := bind_eq_ok h
  obtain ⟨_, -, h⟩ := bind_eq_ok h
  obtain rfl := Except.ok.inj h
  obtain ⟨value, -, hsaved⟩ := bind_eq_ok hsaved
  exact ⟨value, hsaved⟩

theorem getString_eq_ok {text : String} (h : getString key value = .ok text) : value = .string text := by
  cases value with
  | string text' => exact congrArg JsonValue.string (Except.ok.inj h)
  | _ => cases h

/-- A change of a power state is not read. -/
theorem no_pstates {entries : List (ℤ × IntervalSet)} (htexts : ∀ entry ∈ entries, t.HyphenText entry.2) {fuel : ℕ}
    {behind rest : List Char} {pstates : JsonValue} {machines machines' : KeyedMap (id : ℤ → ℤ) IntervalSet}
    (hread : readValue fuel (vectorToJsonString (entries.map (pstateText t)) ++ behind) = some (pstates, rest))
    (h : (getArray "_machines_whose_pstate_changed_recently" pstates >>= readPstates t machines) = .ok machines') :
    entries = [] := by
  cases entries with
  | nil => rfl
  | cons entry entries =>
    obtain ⟨tail, htail⟩ := intercalate_cons [',', ' '] (pstateText t entry) (entries.map (pstateText t))
    unfold vectorToJsonString at hread
    rw [List.map_cons, htail, List.cons_append, List.append_assoc, List.append_assoc] at hread
    have hne : (skipSpace (pstateText t entry ++ (tail ++ ([']'] ++ behind)))).head? ≠ some ']' := by
      unfold pstateText pairText objectText
      rw [List.cons_append, skipSpace_cons (by decide), List.head?_cons]
      decide
    obtain ⟨fuel', v, values, hv, hvalue⟩ := array_of_readValue hne hread
    obtain ⟨key, value, members, hobject, hstring⟩ :=
      pstate_of_readValue (htexts entry List.mem_cons_self).plain hv
    dsimp only at hvalue
    rw [hvalue, hobject] at h
    obtain ⟨values', hvalues', h⟩ := bind_eq_ok h
    obtain rfl := Except.ok.inj hvalues'
    unfold readPstates at h
    obtain ⟨_, -, h⟩ := bind_eq_ok h
    obtain ⟨_, hmachines, -⟩ := bind_eq_ok h
    obtain ⟨text, htext, -⟩ := bind_eq_ok hmachines
    obtain ⟨value', hvalue', htext⟩ := bind_eq_ok htext
    obtain rfl : value = value' := Except.ok.inj hvalue'
    exact absurd (getString_eq_ok htext) (hstring text)

/-- Variables that survive are restorable. -/
theorem restorable_of_survive (htexts : v.HyphenTexts t) (hempty : t.fromStringHyphen "" = none)
    (h : v.Survive t workload profile profile') : v.Restorable := by
  obtain ⟨text, doc, base, derived, htext, hparse, hingest, hback⟩ := h
  obtain ⟨savedReservations, -, rfl⟩ := Option.map_eq_some_iff.1 htext
  obtain ⟨joules, pstates, members, members', rfl, fuel, behind, rest, hread⟩ := document_begins htexts hparse
  unfold ingest at hingest
  obtain ⟨base', hbase, hingest⟩ := bind_eq_ok hingest
  split at hingest
  · cases hingest
  · obtain ⟨derived', hderived, hingest⟩ := bind_eq_ok hingest
    cases hingest
    obtain ⟨hunavailable, hpstates, hkilled⟩ := of_ingestBase hbase
    obtain ⟨value, hsaved⟩ := of_ingestDerived hderived
    rw [hback.unavailable] at hunavailable
    constructor
    case pstates => exact KeyedMap.ext_entries (no_pstates htexts.2.2.2 hread hpstates)
    case killed =>
      have hforall := hback.killed
      rw [hkilled] at hforall
      exact List.forall₂_nil_right_iff.1 hforall
    case savedReservations => exact eq_nil_of_readBack hsaved hback.savedReservations
    case unavailable => exact (getUnavailable_eq_ok htexts.1 htexts.2.1 hempty).1 hunavailable

end CheckpointVariablesAux

open CheckpointVariablesAux

/-- Variables that survive a checkpoint have no change of a power state, no killed job, no saved reservation, and no machine that
became unavailable, unless these are the machines that became available. And where the ids stand for themselves, this is enough. -/
theorem checkpoint_variables_survive (t : ValueTexts) (workload : String → Option Job) (profile profile' : List TimeSlice)
    (v : CheckpointVariables) (htexts : v.HyphenTexts t) (hempty : t.fromStringHyphen "" = none) :
    (v.Survive t workload profile profile' → v.Restorable) ∧
      (v.PlainTexts → (v.Survive t workload profile profile' ↔ v.Restorable)) :=
  ⟨restorable_of_survive htexts hempty,
    fun hplain => ⟨restorable_of_survive htexts hempty, survive_of_restorable htexts hempty hplain⟩⟩

namespace CheckpointVariablesExample

open SavedReservationsExample

/-- Machine 0 became available and unavailable again, and machine 1 is under repair, with two failures to be handled. -/
def state : CheckpointVariables where
  machinesThatBecameAvailableRecently := {0}
  machinesThatBecameUnavailableRecently := {0}
  recentlyUnderRepairMachines := {1}
  jobsReleasedRecently := ["w0!7"]
  startAReservation := true
  resubmittedJobs := [("w0!7#1", .smtbf)]
  resubmittedJobsReleased := [(meeting, .mtbf)]
  onMachineInstantDownUps := [.smtbf]
  onMachineDownForRepairs := [.fixedFailure]

/-- Another machine became unavailable. -/
def unavailable : CheckpointVariables := { state with machinesThatBecameUnavailableRecently := {1} }

/-- The power state of a machine changed. -/
def pstate : CheckpointVariables := { state with machinesWhosePstateChangedRecently := KeyedMap.insert .empty 2 {0} }

/-- A job was killed. -/
def killed : CheckpointVariables :=
  { state with jobsKilledRecently := [("w0!7", { id := "w0!7", progressStr := "", progress := 1 / 2 })] }

theorem hyphenText_zero : texts.HyphenText {0} := ⟨by decide, by decide, by decide⟩

theorem hyphenText_one : texts.HyphenText {1} := ⟨by decide, by decide, by decide⟩

theorem hyphenTexts (v : CheckpointVariables) (hv : v ∈ [state, unavailable, pstate, killed]) : v.HyphenTexts texts := by
  simp only [List.mem_cons, List.not_mem_nil, or_false] at hv
  rcases hv with rfl | rfl | rfl | rfl
  · exact ⟨hyphenText_zero, hyphenText_zero, hyphenText_one, fun _ h => by cases h⟩
  · exact ⟨hyphenText_zero, hyphenText_one, hyphenText_one, fun _ h => by cases h⟩
  · refine ⟨hyphenText_zero, hyphenText_zero, hyphenText_one, fun entry h => ?_⟩
    rw [List.mem_singleton.1 h]
    exact hyphenText_zero
  · exact ⟨hyphenText_zero, hyphenText_zero, hyphenText_one, fun _ h => by cases h⟩

end CheckpointVariablesExample

open CheckpointVariablesExample

/-- Machine 0 is given back in both sets, and so is what else there is. -/
theorem checkpoint_variables_survive_witness :
    state.Survive SavedReservationsExample.texts SavedReservationsExample.workload [] [] := by
  have hplain : state.PlainTexts :=
    ⟨by decide, by decide, by decide, by decide, by decide, by decide, by decide, by decide⟩
  have hrestorable : state.Restorable := ⟨rfl, rfl, rfl, .inr rfl⟩
  exact ((checkpoint_variables_survive SavedReservationsExample.texts SavedReservationsExample.workload [] [] state
    (hyphenTexts state (by simp)) rfl).2 hplain).2 hrestorable

/-- The variables do not survive where another machine became unavailable, where a power state changed, or where a job was
killed. -/
theorem checkpoint_variables_survive_false :
    ¬unavailable.Survive SavedReservationsExample.texts SavedReservationsExample.workload [] [] ∧
    ¬pstate.Survive SavedReservationsExample.texts SavedReservationsExample.workload [] [] ∧
    ¬killed.Survive SavedReservationsExample.texts SavedReservationsExample.workload [] [] := by
  refine ⟨fun h => ?_, fun h => ?_, fun h => ?_⟩
  · have hrestorable := restorable_of_survive (hyphenTexts unavailable (by simp)) rfl h
    exact absurd hrestorable.unavailable (by decide)
  · have hrestorable := restorable_of_survive (hyphenTexts pstate (by simp)) rfl h
    exact absurd hrestorable.pstates (by decide)
  · have hrestorable := restorable_of_survive (hyphenTexts killed (by simp)) rfl h
    cases hrestorable.killed

end ScheduleTest
