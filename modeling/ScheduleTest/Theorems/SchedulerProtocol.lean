import ScheduleTest.Lemmas.Received
import ScheduleTest.Theorems.Protocol

/-!
# The scheduler is told what happened in the simulator

Reading the text of a message calls the algorithm for each event, in their order, and then lets it make its decisions, unless the only
event is a requested call (`happened_received`). A message that tells of a killed job whose task has tasks of its own is never read
(`composed_kill_refused`).
-/

namespace ScheduleTest

open EventReader JsonValue SchedulerReader

/-- The event is a requested call. -/
def SchedulerEvent.isRequestedCall : SchedulerEvent → Bool
  | requestedCall _ _ => true
  | _ => false

/-- The date that the scheduler takes for the current one: that of the last event, as it is seen. -/
def currentDate (t : ProtocolTexts) (messageDate : ℚ) (happened : List (ℚ × SchedulerEvent)) : ℚ :=
  t.seen (happened.foldl (fun _ event => event.1) messageDate)

/-- Whether no decisions are made upon a message: its only event is a requested call. -/
def skipsDecisions (callOnSingleNop : Bool) (happened : List (ℚ × SchedulerEvent)) : Bool :=
  !callOnSingleNop && happened.any (·.2.isRequestedCall) && happened.length = 1

namespace ReceivedAux

open ProtocolAux

variable {ω : Type} {t : ProtocolTexts} {forwardProfiles : Bool} {b : WorkloadBook ω} {r r' : SchedulerReader ω} {date now : ℚ}
  {happened : List (ℚ × SchedulerEvent)} {events : List JsonValue} {w w' : JsonProtocolWriter}

/-- The object of an event. -/
def EventOf (t : ProtocolTexts) (forwardProfiles : Bool) (happened : ℚ × SchedulerEvent) (event : JsonValue) : Prop :=
  ∃ data, happened.2.data t forwardProfiles = .ok data ∧ event = eventObject happened.1 happened.2.type data

/-- Appended events are in the document, in order. -/
theorem of_runFrom_append (h : Execution.runFrom (JsonProtocolWriter.appendSchedulerEvent t forwardProfiles) w happened = .ok w') :
    ∃ events, w'.events = w.events ++ events ∧ List.Forall₂ (EventOf t forwardProfiles) happened events := by
  induction happened generalizing w with
  | nil =>
    obtain rfl := Except.ok.inj h
    exact ⟨[], (List.append_nil _).symm, .nil⟩
  | cons event happened ih =>
    obtain ⟨next, hnext, hrest⟩ := Execution.of_runFrom_cons h
    unfold JsonProtocolWriter.appendSchedulerEvent at hnext
    split at hnext
    · obtain ⟨data, hdata, rfl⟩ := Execution.map_eq_ok.1 hnext
      obtain ⟨events, hevents, hall⟩ := ih hrest
      exact ⟨eventObject event.1 event.2.type data :: events, by simpa using hevents, .cons ⟨data, hdata, rfl⟩ hall⟩
    · cases hnext

/-- The event of a type is read as its data are handled. -/
theorem readEvents_eventObject (now date : ℚ) (called : Bool) (event : SchedulerEvent) (data : JsonValue) :
    readEvents t b (r, now, called) ((eventObject date event.type data).mapDoubles t.seen) =
      (handle t b r event.type (t.seen date) (data.mapDoubles t.seen)).map fun r' =>
        (r', t.seen date, called || event.isRequestedCall) := by
  have htype : (decide (event.type = "REQUESTED_CALL")) = event.isRequestedCall := by
    cases event <;> rfl
  simp only [readEvents, readEvent, eventObject, mapDoubles, mapMembers, stringAt_cons, getMember_cons, String.reduceEq, if_true,
    if_false, getString_string, getNumber_double, ok_bind, asserted_ok]
  cases handle t b r event.type (t.seen date) (data.mapDoubles t.seen) <;> simp [Except.map, htype]

/-- The events of a message are read one after the other. -/
theorem runFrom_readEvents (now : ℚ) (hmachines : ∀ event ∈ happened, ∀ machines ∈ event.2.machines?,
      t.fromStringHyphen (t.toStringHyphen machines) = some machines)
    (hevents : List.Forall₂ (EventOf t forwardProfiles) happened events) (called : Bool) :
    (Execution.runFrom (readEvents t b) (r, t.seen now, called) (mapElements t.seen events)).toOption =
      (happened.foldlM (receive t forwardProfiles b) r).map fun r' =>
        (r', currentDate t now happened, called || happened.any (·.2.isRequestedCall)) := by
  induction hevents generalizing r now called with
  | nil => simp [currentDate, mapElements]
  | @cons event object happened events hfirst _ ih =>
    obtain ⟨data, hdata, rfl⟩ := hfirst
    obtain ⟨hmachines₁, hmachines₂⟩ := List.forall_mem_cons.1 hmachines
    have hone : (handle t b r event.2.type (t.seen event.1) (data.mapDoubles t.seen)).toOption = receive t forwardProfiles b r event :=
      handle_receiveAt hmachines₁ hdata
    rw [mapElements, Execution.runFrom, readEvents_eventObject, List.foldlM_cons, ← hone]
    cases handle t b r event.2.type (t.seen event.1) (data.mapDoubles t.seen) with
    | error reason => rfl
    | ok next => simpa [Except.map, currentDate, Bool.or_assoc] using ih _ hmachines₂ (called || event.2.isRequestedCall)

/-- The text of a document is read event by event. -/
theorem readMessage_document (callOnSingleNop : Bool) (w : JsonProtocolWriter) (date : ℚ) :
    readMessage t b callOnSingleNop r (simulatorText (w.document date)) =
      (Execution.runFrom (readEvents t b) (r, t.seen date, false) (mapElements t.seen w.events)) >>= fun s =>
        if !callOnSingleNop && s.2.2 && w.events.length = 1 then .ok s.1 else .ok (s.1.call (.makeDecisions (t.seen date) s.2.1)) := by
  have hlength : (mapElements t.seen w.events).length = w.events.length := by rw [mapElements_eq, List.length_map]
  rw [readMessage, parse_simulatorText]
  simp only [JsonProtocolWriter.document, mapDoubles, mapMembers, getMember_cons, String.reduceEq, if_true, if_false, getNumber_double,
    getArray_array, ok_bind, asserted_ok, hlength]

/-- One job that cannot be told of is enough. -/
theorem mapM_killed?_eq_none {jobMsgs : List JobKilledMessage} {msg : JobKilledMessage} (hmsg : msg ∈ jobMsgs)
    (hnone : killed? t msg = none) :
    jobMsgs.mapM (killed? t) = none := by
  induction jobMsgs with
  | nil => cases hmsg
  | cons first jobMsgs ih =>
    rw [List.mapM_cons]
    rcases List.mem_cons.1 hmsg with rfl | hmsg
    · rw [hnone]
      rfl
    · rw [ih hmsg]
      cases killed? t first <;> rfl

/-- Every event that is told has its object in the document. -/
theorem exists_event (h : List.Forall₂ (EventOf t forwardProfiles) happened events) {event : ℚ × SchedulerEvent}
    (hevent : event ∈ happened) : ∃ object ∈ events, EventOf t forwardProfiles event object := by
  induction h with
  | nil => cases hevent
  | @cons first object happened events hfirst _ ih =>
    rcases List.mem_cons.1 hevent with rfl | hevent
    · exact ⟨object, List.mem_cons_self, hfirst⟩
    · obtain ⟨other, hmem, hother⟩ := ih hevent
      exact ⟨other, List.mem_cons_of_mem _ hmem, hother⟩

theorem generateSchedulerMessage_eq_ok {text : String} :
    w.generateSchedulerMessage date = .ok text ↔ w.lastDate ≤ date ∧ simulatorText (w.document date) = text := by
  unfold JsonProtocolWriter.generateSchedulerMessage
  split
  · rename_i hle
    exact ⟨fun h => ⟨hle, Except.ok.inj h⟩, fun h => congrArg Except.ok h.2⟩
  · rename_i hlt
    exact ⟨fun h => (nomatch h), fun h => absurd h.1 hlt⟩

end ReceivedAux

section

variable {ω : Type} {t : ProtocolTexts} {forwardProfiles : Bool} (b : WorkloadBook ω) (callOnSingleNop : Bool)

open ProtocolAux ReceivedAux

/-- Reading the text of a message calls the algorithm for its events, in their order, and then for its decisions. The text is refused
where one of the events is. -/
theorem happened_received {w w' : JsonProtocolWriter} {happened : List (ℚ × SchedulerEvent)} {date : ℚ} {text : String}
    (hmachines : ∀ event ∈ happened, ∀ machines ∈ event.2.machines?,
      t.fromStringHyphen (t.toStringHyphen machines) = some machines)
    (happend : Execution.runFrom (JsonProtocolWriter.appendSchedulerEvent t forwardProfiles) w.clear happened = .ok w')
    (htext : w'.generateSchedulerMessage date = .ok text) (r : SchedulerReader ω) :
    (readMessage t b callOnSingleNop r text).toOption =
      (happened.foldlM (receive t forwardProfiles b) r).map fun r' =>
        if skipsDecisions callOnSingleNop happened then r'
        else r'.call (.makeDecisions (t.seen date) (currentDate t date happened)) := by
  obtain ⟨events, hevents, hall⟩ := of_runFrom_append happend
  have hfresh : w'.events = events := hevents
  have hread := runFrom_readEvents (b := b) (r := r) date hmachines hall false
  have hlength : (decide (events.length = 1)) = decide (happened.length = 1) := by rw [hall.length_eq]
  obtain ⟨-, rfl⟩ := generateSchedulerMessage_eq_ok.1 htext
  rw [readMessage_document, hfresh, toOption_bind, hread]
  cases happened.foldlM (receive t forwardProfiles b) r with
  | none => rfl
  | some last =>
    simp only [Option.map_some, Option.bind_some, Bool.false_or, hlength]
    rw [apply_ite Except.toOption, apply_ite some]
    rfl

/-- A message that tells of a killed job whose task has tasks of its own, or of one without a task, is never read, whatever else it
tells. -/
theorem composed_kill_refused {w w' : JsonProtocolWriter} {happened : List (ℚ × SchedulerEvent)} {date : ℚ} {text : String}
    (happend : Execution.runFrom (JsonProtocolWriter.appendSchedulerEvent t forwardProfiles) w.clear happened = .ok w')
    (htext : w'.generateSchedulerMessage date = .ok text) (r : SchedulerReader ω)
    {killDate : ℚ} {jobMsgs : List JobKilledMessage} {msg : JobKilledMessage} (hkilled : (killDate, .jobKilled jobMsgs) ∈ happened)
    (hmsg : msg ∈ jobMsgs) (hcomposed : ∀ profileName progress, msg.progress ≠ some (.leaf profileName progress)) :
    (readMessage t b callOnSingleNop r text).toOption = none := by
  have hnone : killed? t msg = none := by
    unfold killed?
    split
    · rename_i profileName progress hprogress
      exact absurd hprogress (hcomposed profileName progress)
    · rfl
  obtain ⟨events, hevents, hall⟩ := of_runFrom_append happend
  have hfresh : w'.events = events := hevents
  obtain ⟨-, rfl⟩ := generateSchedulerMessage_eq_ok.1 htext
  obtain ⟨event, hevent, data, hdata, rfl⟩ := exists_event hall hkilled
  have hrefused : ∀ r : SchedulerReader ω, (handle t b r "JOB_KILLED" (t.seen killDate) (data.mapDoubles t.seen)).toOption = none := by
    intro r
    have hhandle : (handle t b r "JOB_KILLED" (t.seen killDate) (data.mapDoubles t.seen)).toOption =
        receiveAt t forwardProfiles b r (t.seen killDate) (.jobKilled jobMsgs) :=
      handle_receiveAt (fun machines h => absurd h (by simp [SchedulerEvent.machines?])) hdata
    rw [receiveAt, mapM_killed?_eq_none hmsg hnone] at hhandle
    exact hhandle
  rw [readMessage_document, hfresh, toOption_bind]
  cases hrun : Execution.runFrom (readEvents t b) (r, t.seen date, false) (mapElements t.seen events) with
  | error reason => rfl
  | ok last =>
    have hmem : (eventObject killDate "JOB_KILLED" data).mapDoubles t.seen ∈ mapElements t.seen events := by
      rw [mapElements_eq]
      exact List.mem_map_of_mem hevent
    obtain ⟨⟨r₁, now, called⟩, s₂, hstep⟩ := Execution.step_of_mem hrun hmem
    have hhandled := (readEvents_eventObject now killDate called (.jobKilled jobMsgs) data).symm.trans hstep
    obtain ⟨next, hnext, -⟩ := Execution.map_eq_ok.1 hhandled
    have hcontra := hrefused r₁
    rw [show handle t b r₁ "JOB_KILLED" (t.seen killDate) (data.mapDoubles t.seen) = .ok next from hnext] at hcontra
    cases hcontra

end

namespace ReceivedExample

open ProtocolAux ReceivedAux

/-- A double with six decimals is read as what is printed of it. -/
theorem reads_six (x : ℚ) : Reads (Text.printFixed 6 x) (.double (Text.fixedValue 6 x)) := Reads.fixed (Nat.succ_pos 5) x

/-- Doubles with six decimals. -/
def sixDecimals : ProtocolTexts := {
  ProtocolExample.texts with
  toDouble := Double.nearest
  print := Text.printFixed 6
  printed := Text.fixedValue 6
  reads := reads_six }

/-- A book in which every job is known. -/
def book : WorkloadBook Unit where
  start _ _ := some ()
  addJob _ _ _ _ := some ()
  complete _ _ _ := some ()

theorem isInt_one : Text.IsInt 1 := by decide

theorem isInt_three : Text.IsInt 3 := by decide

theorem isInt_four : Text.IsInt 4 := by decide

/-- A job was killed at a third of its execution. -/
def killedAtThird : JobKilledMessage := ⟨"w0!2", .mtbf, some (.leaf "delay" (Double.nearest (1 / 3)))⟩

/-- A job has ended, another one was killed, and a call is due. -/
def ended : List (ℚ × SchedulerEvent) :=
  [(5, .jobCompleted "w0!1" "COMPLETED_SUCCESSFULLY" "0" ⟨0, isInt_zero⟩), (6, .jobKilled [killedAtThird]),
    (7, .requestedCall ⟨3, isInt_three⟩ ⟨4, isInt_four⟩)]

/-- A job was killed in the second task of its sequence. -/
def killedInSequence : JobKilledMessage := ⟨"w0!1", .mtbf, some (.composed "sequence" ⟨1, isInt_one⟩ (.leaf "delay" 0))⟩

/-- A kill of that job is told of behind the others. -/
def killed : List (ℚ × SchedulerEvent) := ended ++ [(7, .jobKilled [killedInSequence])]

/-- The writer after some events. -/
def writer (happened : List (ℚ × SchedulerEvent)) : JsonProtocolWriter :=
  ((Execution.runFrom (JsonProtocolWriter.appendSchedulerEvent sixDecimals false) (JsonProtocolWriter.clear {})
    happened).toOption).getD {}

theorem seen_five : sixDecimals.seen 5 = 5 := by decide +kernel

theorem seen_seven : sixDecimals.seen 7 = 7 := by decide +kernel

theorem seen_six : sixDecimals.seen 6 = 6 := by decide +kernel

/-- A third has six decimals when it arrives. -/
theorem seen_third : sixDecimals.seen (Double.nearest (1 / 3)) = Double.nearest (333333 / 1000000) := by decide +kernel

theorem readBack_third :
    sixDecimals.readBack (Double.nearest (333333 / 1000000)) = Double.nearest (333333 / 1000000) := by decide +kernel

/-- What is told of the job that was killed. -/
def toldOfThird : String × (ℤ × ℚ × String) :=
  ("w0!2", 3, Double.nearest (333333 / 1000000), "\x7b\"profile_name\":\"delay\",\"progress\":0.333333\x7d")

theorem killed?_third : killed? sixDecimals killedAtThird = some toldOfThird := by
  have htext : String.ofList ((SchedulerEvent.generateTaskTree (.leaf "delay" (Double.nearest (333333 / 1000000)))).write
      sixDecimals.print) = "\x7b\"profile_name\":\"delay\",\"progress\":0.333333\x7d" := by decide +kernel
  simp only [killed?, killedAtThird, seen_third, readBack_third, htext, toldOfThird]
  rfl

end ReceivedExample

open ReceivedExample

theorem happened_received_example : ∃ text, (writer ended).generateSchedulerMessage 7 = .ok text ∧
    (readMessage sixDecimals book false { workload := () } text).toOption.map callbacks =
      some [.onJobEnd 5 "w0!1", .onJobKilled 6 (byId [toldOfThird]), .onRequestedCall 7 3 4, .makeDecisions 7 7] := by
  have hmachines : ∀ event ∈ ended, ∀ machines ∈ event.2.machines?,
      sixDecimals.fromStringHyphen (sixDecimals.toStringHyphen machines) = some machines := by
    simp [ended, SchedulerEvent.machines?]
  have happend : Execution.runFrom (JsonProtocolWriter.appendSchedulerEvent sixDecimals false) (JsonProtocolWriter.clear {}) ended =
      .ok (writer ended) := rfl
  have htext : (writer ended).generateSchedulerMessage 7 = .ok (simulatorText ((writer ended).document 7)) :=
    if_pos (le_refl (7 : ℚ))
  refine ⟨_, htext, ?_⟩
  rw [happened_received book false hmachines happend htext]
  simp [ended, receive, receiveAt, book, killed?_third, currentDate, seen_five, seen_seven, seen_six, skipsDecisions, call,
    SchedulerEvent.isRequestedCall]

theorem composed_kill_refused_example : ∃ text, (writer killed).generateSchedulerMessage 7 = .ok text ∧
    (readMessage sixDecimals book false { workload := () } text).toOption = none := by
  have happend : Execution.runFrom (JsonProtocolWriter.appendSchedulerEvent sixDecimals false) (JsonProtocolWriter.clear {}) killed =
      .ok (writer killed) := rfl
  have htext : (writer killed).generateSchedulerMessage 7 = .ok (simulatorText ((writer killed).document 7)) :=
    if_pos (le_refl (7 : ℚ))
  have hkilled : (7, .jobKilled [killedInSequence]) ∈ killed := by simp [killed]
  exact ⟨_, htext, composed_kill_refused book false happend htext _ hkilled List.mem_cons_self (by simp [killedInSequence])⟩

end ScheduleTest
