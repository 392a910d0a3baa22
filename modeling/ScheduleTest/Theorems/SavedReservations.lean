import ScheduleTest.SavedReservations

/-!
# Saved reservations do not survive a checkpoint

The text of one reservation is JSON, but its key for the jobs to be killed is not the one that is read, so reading stops there. The
text of more reservations is no JSON, for the commas between them are missing. Whatever a text holds, no allocation is set in what
is read.
-/

namespace ScheduleTest

open SavedReservations

/-- The job that a job of a checkpoint is afterwards: the one under the next checkpoint name. -/
def nextCheckpointJob (workload : String → Option Job) (job : Job) : Option Job :=
  (BatschedTools.getJobParts job.id).bind fun parts => workload parts.nextCheckpoint

/-- An allocation is given back, with its job after the checkpoint. -/
structure AllocReadBack (workload : String → Option Job) (alloc alloc' : JobAlloc) : Prop where
  beginDate : alloc'.beginDate = alloc.beginDate
  endDate : alloc'.endDate = alloc.endDate
  startedInFirstSlice : alloc'.startedInFirstSlice = alloc.startedInFirstSlice
  hasBeenInserted : alloc'.hasBeenInserted = alloc.hasBeenInserted
  usedMachines : alloc'.usedMachines = alloc.usedMachines
  job : alloc'.job.map some = alloc.job.map (nextCheckpointJob workload)

/-- A reservation is given back, with its jobs after the checkpoint, and with slices of the same dates in the profile that was
read. -/
structure ReadBack (workload : String → Option Job) (profile profile' : List TimeSlice) (r : ReservedTimeSlice)
    (r' : ReadTimeSlice) : Prop where
  success : r'.success = r.success
  jobsAffected : r'.jobsAffected.map some = r.jobsAffected.map (nextCheckpointJob workload)
  jobsNeededToBeKilled : r'.jobsNeededToBeKilled.map some = r.jobsNeededToBeKilled.map (nextCheckpointJob workload)
  jobsToReschedule : r'.jobsToReschedule.map some = r.jobsToReschedule.map (nextCheckpointJob workload)
  sliceBegin : profile'[r'.sliceBegin]?.map TimeSlice.beginDate = profile[r.sliceBegin]?.map TimeSlice.beginDate
  sliceEnd : profile'[r'.sliceEnd]?.map TimeSlice.endDate = profile[r.sliceEnd]?.map TimeSlice.endDate
  alloc : ∃ alloc', r'.alloc = some alloc' ∧ AllocReadBack workload r.alloc alloc'
  job : r'.job.map some = r.job.map (nextCheckpointJob workload)

/-- Saved reservations survive a checkpoint: their text is JSON, and what is read from it gives each back. -/
def SavedReservationsSurvive (t : ValueTexts) (workload : String → Option Job) (profile profile' : List TimeSlice)
    (reservations : List ReservedTimeSlice) : Prop :=
  ∃ text value restored, savedReservationsToJsonString t reservations = some text ∧ JsonValue.parse text = some value ∧
    savedReservationsFromJson t workload profile' value = .ok restored ∧
    List.Forall₂ (ReadBack workload profile profile') reservations restored

/-- A job id that stands for itself between quotes. -/
def Job.PlainId (job : Job) : Prop := JsonValue.Plain job.id.toList

instance : DecidablePred Job.PlainId := fun job => inferInstanceAs (Decidable (JsonValue.Plain job.id.toList))

/-- A reservation whose texts stand for themselves between quotes. -/
structure ReservedTimeSlice.PlainTexts (t : ValueTexts) (r : ReservedTimeSlice) : Prop where
  usedMachines : JsonValue.Plain (t.toStringHyphen r.alloc.usedMachines).toList
  allocJob : ∀ job ∈ r.alloc.job, job.PlainId
  job : ∀ job ∈ r.job, job.PlainId
  jobsAffected : ∀ job ∈ r.jobsAffected, job.PlainId
  jobsNeededToBeKilled : ∀ job ∈ r.jobsNeededToBeKilled, job.PlainId
  jobsToReschedule : ∀ job ∈ r.jobsToReschedule, job.PlainId

namespace SavedReservationsAux

open JsonValue

variable {t : ValueTexts} {workload : String → Option Job} {profile profile' : List TimeSlice} {r : ReservedTimeSlice}
  {reservations : List ReservedTimeSlice} {text : List Char} {job : Job} {jobs : List Job}

/-! ### The text of a reservation -/

/-- The number of a date is plain. -/
theorem plain_numberText (value : ℚ) : Plain (t.numberText value) := by
  intro c hc
  rcases Text.mem_printFixed hc with hdigit | rfl | rfl
  · refine ⟨?_, ?_, ?_⟩
    · rintro rfl
      exact absurd hdigit (by decide)
    · rintro rfl
      exact absurd hdigit (by decide)
    · simp only [Char.isDigit, Bool.and_eq_true, decide_eq_true_eq, ge_iff_le, UInt32.le_iff_toNat_le] at hdigit
      have hlow : 48 ≤ c.toNat := hdigit.1
      omega
  · decide
  · decide

/-- A member with a plain key, and spaces around it. -/
theorem member_spaced {before after : List Char} {key : String} {value : JsonValue} (hbefore : Spaces before)
    (hafter : Spaces after) (hkey : Plain key.toList) (h : Reads text value) :
    Reads.Member (before ++ (memberText key text ++ after)) (key, value) := by
  refine ⟨before, key.toList, [], text, after, ?_, hbefore, spaces_nil, hafter, hkey, String.ofList_toList.symm, h⟩
  simp [memberText]

theorem member_memberText {key : String} {value : JsonValue} (hkey : Plain key.toList) (h : Reads text value) :
    Reads.Member (memberText key text) (key, value) := by
  have hmember := member_spaced spaces_nil spaces_nil hkey h
  rwa [List.nil_append, List.append_nil] at hmember

theorem reads_job (h : job.PlainId) : Reads job.toJsonString (.string job.id) := by
  have hread := Reads.string h
  rwa [String.ofList_toList] at hread

/-- The texts of jobs are an array of their ids. -/
theorem reads_jobs (h : ∀ job ∈ jobs, job.PlainId) :
    Reads (vectorToJsonString (jobs.map Job.toJsonString)) (.array (jobs.map fun job => .string job.id)) := by
  refine Reads.array ?_
  rw [List.forall₂_map_left_iff, List.forall₂_map_right_iff, List.forall₂_same]
  exact fun job hjob => reads_job (h job hjob)

/-- What the text of an allocation stands for. -/
def allocValue (t : ValueTexts) (alloc : JobAlloc) (job : Job) : JsonValue := .object [
  ("begin", .string (String.ofList (t.numberText alloc.beginDate))),
  ("end", .string (String.ofList (t.numberText alloc.endDate))),
  ("has_been_inserted", .bool alloc.hasBeenInserted),
  ("started_in_first_slice", .bool alloc.startedInFirstSlice),
  ("used_machines", .string (t.toStringHyphen alloc.usedMachines)),
  ("job", .string job.id)]

/-- What the text of a reservation stands for. -/
def reservationValue (t : ValueTexts) (r : ReservedTimeSlice) (allocJob job : Job) : JsonValue := .object [
  ("alloc", allocValue t r.alloc allocJob),
  ("job", .string job.id),
  ("jobs_affected", .array (r.jobsAffected.map fun job => .string job.id)),
  ("jobs_needed_to_be_killed", .array (r.jobsNeededToBeKilled.map fun job => .string job.id)),
  ("jobs_to_reschedule", .array (r.jobsToReschedule.map fun job => .string job.id)),
  ("success", .bool r.success)]

theorem reads_alloc {alloc : JobAlloc} (hmachines : Plain (t.toStringHyphen alloc.usedMachines).toList) (hjob : job.PlainId)
    (hset : alloc.job = some job) (h : alloc.toJsonString t = some text) : Reads text (allocValue t alloc job) := by
  unfold JobAlloc.toJsonString at h
  rw [hset, Option.map_some] at h
  obtain rfl := Option.some.inj h
  have husedMachines := Reads.string hmachines
  rw [String.ofList_toList] at husedMachines
  refine Reads.object ?_ (List.cons_ne_nil _ _)
  exact .cons (member_memberText (by decide) (Reads.string (plain_numberText _)))
    (.cons (member_memberText (by decide) (Reads.string (plain_numberText _)))
    (.cons (member_memberText (by decide) (Reads.bool _))
    (.cons (member_memberText (by decide) (Reads.bool _))
    (.cons (member_memberText (by decide) husedMachines)
    (.cons (member_memberText (by decide) (reads_job hjob)) .nil)))))

/-- The text of a reservation with plain texts is an object. -/
theorem reads_reservation (hplain : r.PlainTexts t) (h : r.toJsonString t = some text) :
    ∃ allocJob job, Reads text (reservationValue t r allocJob job) := by
  unfold ReservedTimeSlice.toJsonString at h
  obtain ⟨allocText, halloc, h⟩ := Option.bind_eq_some_iff.1 h
  obtain ⟨job, hjob, rfl⟩ := Option.map_eq_some_iff.1 h
  obtain ⟨allocJob, hallocJob, -⟩ := Option.map_eq_some_iff.1 halloc
  refine ⟨allocJob, job, Reads.object ?_ (List.cons_ne_nil _ _)⟩
  exact .cons (member_memberText (by decide) (reads_alloc hplain.usedMachines (hplain.allocJob _ hallocJob) hallocJob halloc))
    (.cons (member_memberText (by decide) (reads_job (hplain.job _ hjob)))
    (.cons (member_memberText (by decide) (reads_jobs hplain.jobsAffected))
    (.cons (member_memberText (by decide) (reads_jobs hplain.jobsNeededToBeKilled))
    (.cons (member_memberText (by decide) (reads_jobs hplain.jobsToReschedule))
    (.cons (member_memberText (by decide) (Reads.bool _)) .nil)))))

/-- It begins with a brace. -/
theorem head_reservation (h : r.toJsonString t = some text) : ∃ rest, text = '\x7b' :: rest := by
  unfold ReservedTimeSlice.toJsonString at h
  obtain ⟨allocText, -, h⟩ := Option.bind_eq_some_iff.1 h
  obtain ⟨job, -, rfl⟩ := Option.map_eq_some_iff.1 h
  exact ⟨_, rfl⟩

/-! ### The text of the list -/

theorem reservationTexts_cons {texts : List (List Char)} (h : reservationTexts t (r :: reservations) = some texts) :
    ∃ text rest, r.toJsonString t = some text ∧ reservationTexts t reservations = some rest ∧ texts = text :: rest := by
  rw [reservationTexts] at h
  obtain ⟨text, htext, h⟩ := Option.bind_eq_some_iff.1 h
  obtain ⟨rest, hrest, rfl⟩ := Option.map_eq_some_iff.1 h
  exact ⟨text, rest, htext, hrest, rfl⟩

theorem parse_nil : JsonValue.parse (String.ofList ['[', ']']) = some (.array []) := by
  refine parse_of_reads ?_
  rw [String.toList_ofList]
  exact Reads.array .nil

/-- The text of one reservation is an array of it. -/
theorem parse_singleton {text : String} (hplain : r.PlainTexts t) (h : savedReservationsToJsonString t [r] = some text) :
    ∃ allocJob job, JsonValue.parse text = some (.array [reservationValue t r allocJob job]) := by
  unfold savedReservationsToJsonString at h
  obtain ⟨texts, htexts, rfl⟩ := Option.map_eq_some_iff.1 h
  obtain ⟨first, rest, hfirst, hrest, rfl⟩ := reservationTexts_cons htexts
  obtain rfl : [] = rest := Option.some.inj hrest
  obtain ⟨allocJob, job, hread⟩ := reads_reservation hplain hfirst
  refine ⟨allocJob, job, parse_of_reads ?_⟩
  have harray := Reads.array (.cons hread .nil)
  rw [List.intercalate_singleton] at harray
  rwa [List.flatten_singleton, String.toList_ofList]

/-- The text of more reservations is no JSON: the second begins where a comma should be. -/
theorem parse_cons_cons {r' : ReservedTimeSlice} {text : String} (hplain : r.PlainTexts t)
    (h : savedReservationsToJsonString t (r :: r' :: reservations) = some text) : JsonValue.parse text = none := by
  unfold savedReservationsToJsonString at h
  obtain ⟨texts, htexts, rfl⟩ := Option.map_eq_some_iff.1 h
  obtain ⟨first, rest, hfirst, hrest, rfl⟩ := reservationTexts_cons htexts
  obtain ⟨second, rest', hsecond, -, rfl⟩ := reservationTexts_cons hrest
  obtain ⟨allocJob, job, hread⟩ := reads_reservation hplain hfirst
  obtain ⟨behind, rfl⟩ := head_reservation hsecond
  rw [List.flatten_cons, List.flatten_cons, List.append_assoc, List.append_assoc, List.cons_append]
  exact parse_adjacent hread (by decide) (by decide) (by decide) (by decide)

/-! ### What is read -/

/-- The key of the jobs to be killed is missing in what a reservation was written as. -/
theorem read_reservationValue (allocJob job : Job) (values : List JsonValue) :
    savedReservationsFromJson t workload profile (.array (reservationValue t r allocJob job :: values)) =
      .error (.missingMember "jobs_to_be_killed") := rfl

theorem bind_eq_ok {α β : Type} {x : Except ReadAbort α} {f : α → Except ReadAbort β} {b : β} (h : x >>= f = .ok b) :
    ∃ a, x = .ok a ∧ f a = .ok b := by
  cases x with
  | error e => cases h
  | ok a => exact ⟨a, rfl, h⟩

theorem ok_bind {α β : Type} (a : α) (f : α → Except ReadAbort β) : (Except.ok a >>= f) = f a := rfl

/-- No allocation is set in a reservation that was read. -/
theorem alloc_eq_none {value : JsonValue} {r' : ReadTimeSlice} (h : reservedTimeSliceFromJson t workload profile value = .ok r') :
    r'.alloc = none := by
  unfold reservedTimeSliceFromJson at h
  obtain ⟨_, -, h⟩ := bind_eq_ok h
  obtain ⟨_, -, h⟩ := bind_eq_ok h
  obtain ⟨_, -, h⟩ := bind_eq_ok h
  obtain ⟨_, -, h⟩ := bind_eq_ok h
  obtain ⟨_, -, h⟩ := bind_eq_ok h
  obtain ⟨_, -, h⟩ := bind_eq_ok h
  obtain ⟨_, -, h⟩ := bind_eq_ok h
  obtain ⟨_, -, h⟩ := bind_eq_ok h
  obtain ⟨_, -, h⟩ := bind_eq_ok h
  obtain ⟨_, -, h⟩ := bind_eq_ok h
  obtain rfl := Except.ok.inj h
  rfl

theorem alloc_eq_none_of_readAll {values : List JsonValue} {restored : List ReadTimeSlice}
    (h : readAll t workload profile values = .ok restored) : ∀ r' ∈ restored, r'.alloc = none := by
  induction values generalizing restored with
  | nil =>
    rw [readAll] at h
    obtain rfl := Except.ok.inj h
    exact fun r' hr' => absurd hr' List.not_mem_nil
  | cons value values ih =>
    rw [readAll] at h
    obtain ⟨first, hfirst, h⟩ := bind_eq_ok h
    obtain ⟨rest, hrest, h⟩ := bind_eq_ok h
    obtain rfl := Except.ok.inj h
    intro r' hr'
    rcases List.mem_cons.1 hr' with rfl | hr'
    · exact alloc_eq_none hfirst
    · exact ih hrest r' hr'

/-- Only the empty list is given back. -/
theorem eq_nil_of_readBack {value : JsonValue} {restored : List ReadTimeSlice}
    (hread : savedReservationsFromJson t workload profile' value = .ok restored)
    (h : List.Forall₂ (ReadBack workload profile profile') reservations restored) : reservations = [] := by
  unfold savedReservationsFromJson at hread
  obtain ⟨values, -, hread⟩ := bind_eq_ok hread
  cases h with
  | nil => rfl
  | @cons r r' reservations restored hfirst _ =>
    obtain ⟨alloc', halloc, -⟩ := hfirst.alloc
    rw [alloc_eq_none_of_readAll hread r' List.mem_cons_self] at halloc
    cases halloc

/-- Reservations do not survive. -/
theorem not_survive (hne : reservations ≠ []) : ¬SavedReservationsSurvive t workload profile profile' reservations := by
  rintro ⟨text, value, restored, -, -, hread, hback⟩
  exact hne (eq_nil_of_readBack hread hback)

end SavedReservationsAux

open SavedReservationsAux

/-- Saved reservations survive a checkpoint if and only if there are none. Where the texts in them stand for themselves, the text
that is written is JSON for at most one reservation, and reading it stops at the first. -/
theorem saved_reservations_survive_iff (t : ValueTexts) (workload : String → Option Job) (profile profile' : List TimeSlice)
    (reservations : List ReservedTimeSlice) :
    (SavedReservationsSurvive t workload profile profile' reservations ↔ reservations = []) ∧
    ∀ text, savedReservationsToJsonString t reservations = some text → (∀ r ∈ reservations, r.PlainTexts t) →
      ((JsonValue.parse text).isSome ↔ reservations.length ≤ 1) ∧
      ∀ value, JsonValue.parse text = some value → reservations ≠ [] →
        savedReservationsFromJson t workload profile' value = .error (.missingMember "jobs_to_be_killed") := by
  refine ⟨⟨fun h => by_contra fun hne => not_survive hne h, ?_⟩, ?_⟩
  · rintro rfl
    exact ⟨_, _, [], rfl, parse_nil, rfl, .nil⟩
  · intro text htext hplain
    cases reservations with
    | nil =>
      obtain rfl := Option.some.inj htext
      refine ⟨iff_of_true ?_ (Nat.zero_le _), fun _ _ hne => absurd rfl hne⟩
      exact Option.isSome_iff_exists.2 ⟨_, parse_nil⟩
    | cons r reservations =>
      have hr := hplain r List.mem_cons_self
      cases reservations with
      | nil =>
        obtain ⟨allocJob, job, hparse⟩ := parse_singleton hr htext
        rw [hparse]
        refine ⟨iff_of_true rfl le_rfl, ?_⟩
        rintro value hvalue -
        rw [← Option.some.inj hvalue, read_reservationValue]
      | cons r' reservations =>
        rw [parse_cons_cons hr htext]
        exact ⟨iff_of_false Bool.false_ne_true (by simp), fun value hvalue _ => by cases hvalue⟩

namespace SavedReservationsExample

/-- Texts of numbers that are exact, and of machines no two of which are neighbours. -/
def texts : ValueTexts where
  toDouble := id
  parseDouble := id
  toStringHyphen := fun machines => " ".intercalate (((List.range (machines.sup id + 1)).filter (· ∈ machines)).map toString)
  fromStringHyphen := fun text => (Text.readDigits text.toList).map ({·})

/-- A reservation of one machine, from 5 to 15. -/
def meeting : Job :=
  { id := "w0!7", nbRequestedResources := 1, walltime := 10, purpose := "reservation", futureAllocations := {0}, start := 5 }

/-- The jobs after the checkpoint. -/
def workload : String → Option Job := fun jobId => if jobId = "w0!7$1" then some { meeting with id := "w0!7$1" } else none

/-- The profile in which the reservation was found: it holds the slice from 5 to 15. -/
def profile : List TimeSlice := (Schedule.new 2 0).profile.flatMap fun slice => [
  { slice with endDate := 5, length := 5 },
  { slice with beginDate := 5, endDate := 15, length := 10 },
  { slice with beginDate := 15, length := slice.endDate - 15 }]

def reservation : ReservedTimeSlice where
  success := true
  sliceBegin := 1
  sliceEnd := 1
  alloc := { beginDate := 5, endDate := 15, hasBeenInserted := false, job := some meeting, usedMachines := {0} }
  job := some meeting

theorem plainTexts : reservation.PlainTexts texts :=
  ⟨by decide, by decide, by decide, by decide, by decide, by decide⟩

theorem exists_text (n : ℕ) : ∃ text, savedReservationsToJsonString texts (List.replicate n reservation) = some text := by
  have htexts : ∃ l, reservationTexts texts (List.replicate n reservation) = some l := by
    induction n with
    | zero => exact ⟨[], rfl⟩
    | succ n ih =>
      obtain ⟨l, hl⟩ := ih
      rw [List.replicate_succ, reservationTexts, hl]
      exact ⟨_, rfl⟩
  obtain ⟨l, hl⟩ := htexts
  exact ⟨_, congrArg (Option.map _) hl⟩

end SavedReservationsExample

open SavedReservationsExample

/-- The text of one reservation is JSON, and reading stops at it. -/
theorem saved_reservations_survive_iff_witness :
    ∃ text value, savedReservationsToJsonString texts [reservation] = some text ∧ JsonValue.parse text = some value ∧
      savedReservationsFromJson texts workload profile value = .error (.missingMember "jobs_to_be_killed") := by
  obtain ⟨text, htext⟩ := exists_text 1
  have hplain : ∀ r ∈ [reservation], r.PlainTexts texts := fun r hr => List.mem_singleton.1 hr ▸ plainTexts
  obtain ⟨hvalid, hread⟩ := (saved_reservations_survive_iff texts workload profile profile [reservation]).2 text htext hplain
  obtain ⟨value, hvalue⟩ := Option.isSome_iff_exists.1 (hvalid.2 (by decide))
  exact ⟨text, value, htext, hvalue, hread value hvalue (List.cons_ne_nil _ _)⟩

/-- A saved reservation does not survive, and the text of two is no JSON. -/
theorem saved_reservations_survive_false :
    ¬SavedReservationsSurvive texts workload profile profile [reservation] ∧
    ∃ text, savedReservationsToJsonString texts [reservation, reservation] = some text ∧ JsonValue.parse text = none := by
  obtain ⟨text, htext⟩ := exists_text 2
  exact ⟨not_survive (List.cons_ne_nil _ _), text, htext, parse_cons_cons plainTexts htext⟩

end ScheduleTest
