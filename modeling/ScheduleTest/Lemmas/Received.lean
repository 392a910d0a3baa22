import ScheduleTest.Lemmas.HandOver
import ScheduleTest.SchedulerProtocol

/-!
# What an event is to do in the scheduler

`receive` says it with no text in between: what the algorithm is called for, and which events are refused. Doubles come as they are
seen with six decimals. A job that was killed is told of only where its task had no tasks of its own. The data that are written of an
event are read as just this (`handle_receive`).
-/

namespace ScheduleTest

open EventReader JsonValue SchedulerReader

/-- The machines of an event. -/
def SchedulerEvent.machines? : SchedulerEvent → Option IntervalSet
  | resourceStateChanged resources _ => some resources
  | notifyResourceEvent _ resources => some resources
  | _ => none

/-- What is told of a job that was killed, if it can be. The scheduler writes the progress that it sees again, and reads it. -/
def killed? (t : ProtocolTexts) (msg : JobKilledMessage) : Option (String × (ℤ × ℚ × String)) :=
  match msg.progress with
  | some (.leaf profileName progress) =>
    let seen := SchedulerEvent.generateTaskTree (.leaf profileName (t.seen progress))
    some (msg.id, msg.forWhat.toInt, t.readBack (t.seen progress), String.ofList (seen.write t.print))
  | _ => none

section

variable {ω : Type}

/-- What a notification is to do, with the machines or the job that it is about. -/
def notified (r : SchedulerReader ω) (date : ℚ) (notifyType : String) (resources? : Option IntervalSet) (job? : Option String) :
    Option (SchedulerReader ω) :=
  if notifyType = "no_more_static_job_to_submit" then some (r.call (.onNoMoreStaticJobToSubmitReceived date))
  else if notifyType = "no_more_external_event_to_occur" then some (r.call (.onNoMoreExternalEventToOccur date))
  else if notifyType = "event_machine_available" then
    resources?.map fun machines => r.call (.onMachineAvailableNotifyEvent date machines)
  else if notifyType = "event_machine_unavailable" then
    resources?.map fun machines => r.call (.onMachineUnavailableNotifyEvent date machines)
  else if notifyType = "myKillJob" then some (r.call (.onMyKillJobNotifyEvent date))
  else if notifyType = "job_fault" then job?.map fun job => r.call (.onJobFaultNotifyEvent date job)
  else if notifyType = "batsim_metadata" then none
  else if notifyType = "test" then some r
  else none

/-- The scheduler is called at the start, or to go on from a checkpoint. -/
def started (b : WorkloadBook ω) (r : SchedulerReader ω) (date : ℚ) (data : JsonValue) : Option (SchedulerReader ω) :=
  (b.start r.workload data).bind fun workload => (startedFromCheckpoint data).toOption.map fun started =>
    { r with workload := workload }.call (if started then .onStartFromCheckpoint date data else .onSimulationStart date data)

/-- What an event is to do in the scheduler at a date, if it is not to be refused. -/
def receiveAt (t : ProtocolTexts) (forwardProfiles : Bool) (b : WorkloadBook ω) (r : SchedulerReader ω) (date : ℚ) :
    SchedulerEvent → Option (SchedulerReader ω)
  | .simulationBegins data => started b r date (data.mapDoubles t.seen)
  | .simulationEnds => some { r.call (.onSimulationEnd date) with simulationFinished := true }
  | .jobSubmitted jobId jobDescription profileDescription job =>
    ((SchedulerEvent.jobSubmitted jobId jobDescription profileDescription job).data t forwardProfiles).toOption.bind fun data =>
      (b.addJob r.workload jobId (data.mapDoubles t.seen) date).map fun workload =>
        { r with workload := workload }.call (.onJobRelease date jobId)
  | .jobCompleted jobId _ _ _ => (b.complete r.workload jobId date).map fun workload =>
      { r with workload := workload }.call (.onJobEnd date jobId)
  | .jobKilled jobMsgs => (jobMsgs.mapM (killed? t)).map fun msgs => r.call (.onJobKilled date (byId msgs))
  | .fromJobMessage _ _ => none
  | .resourceStateChanged resources newState => (Text.stoi newState.toList).map fun state =>
      r.call (.onMachineStateChanged date resources state)
  | .queryEstimateWaitingTime jobId jobDescription => (t.parse jobDescription).bind fun job =>
      (b.addJob r.workload jobId (job.mapDoubles t.seen) date).map fun workload =>
        { r with workload := workload }.call (.onQueryEstimateWaitingTime date jobId)
  | .answerEnergy consumedEnergy => some (r.call (.onAnswerEnergyConsumption date (t.seen consumedEnergy)))
  | .requestedCall id forWhat => some (r.call (.onRequestedCall date id.val forWhat.val))
  | .notify notifyType => notified r date notifyType none none
  | .notifyResourceEvent notifyType resources => notified r date notifyType (some resources) none
  | .notifyJobFaultEvent notifyType job => notified r date notifyType none (some job)
  | .notifyGenericEvent jsonDesc => (t.parse jsonDesc).bind fun data => (handleNotify t r date (data.mapDoubles t.seen)).toOption

/-- What an event is to do, at its date as the scheduler sees it. -/
def receive (t : ProtocolTexts) (forwardProfiles : Bool) (b : WorkloadBook ω) (r : SchedulerReader ω) (happened : ℚ × SchedulerEvent) :
    Option (SchedulerReader ω) := receiveAt t forwardProfiles b r (t.seen happened.1) happened.2

end

namespace ReceivedAux

open ProtocolAux

variable {ω : Type} {t : ProtocolTexts} {forwardProfiles : Bool} {b : WorkloadBook ω} {r r' : SchedulerReader ω} {date : ℚ}
  {data : JsonValue} {event : SchedulerEvent}

@[simp] theorem toOption_asserted {α : Type} (x : Except EventAbort α) : (asserted x).toOption = x.toOption := by
  cases x <;> rfl

@[simp] theorem asserted_ok {α : Type} (a : α) : asserted (.ok a : Except EventAbort α) = .ok a := rfl

theorem readMachines_text {machines : IntervalSet} (h : t.fromStringHyphen (t.toStringHyphen machines) = some machines) :
    readMachines t (t.toStringHyphen machines) = .ok machines := by
  rw [readMachines, h]

theorem of_parseDescription {text : String} {value : JsonValue} (h : SchedulerEvent.parseDescription t text = .ok value) :
    t.parse text = some value := by
  unfold SchedulerEvent.parseDescription at h
  split at h
  · rename_i hparse
    exact hparse.trans (congrArg some (Except.ok.inj h))
  · cases h

theorem mapDoubles_ofInt {z : ℤ} (f : ℚ → ℚ) (hz : Text.IsInt z) : (ofInt z).mapDoubles f = ofInt z := by
  rw [ofInt_of_isWide (isWide_of_isInt hz)]
  rfl

/-- What the simulator writes is read as it is seen. -/
theorem parse_simulatorText (value : JsonValue) : t.parse (simulatorText value) = some (value.mapDoubles t.seen) := by
  have hread : JsonValue.parse (simulatorText value) = some (value.mapDoubles (Text.fixedValue 6)) :=
    parse_write fun x _ => Reads.fixed (by decide) x
  rw [ProtocolTexts.parse, hread, Option.map_some, mapDoubles_mapDoubles]
  rfl

/-- What the scheduler writes is read as it is read back. -/
theorem parse_write_print (value : JsonValue) :
    t.parse (String.ofList (value.write t.print)) = some (value.mapDoubles t.readBack) := by
  have hread : JsonValue.parse (String.ofList (value.write t.print)) = some (value.mapDoubles t.printed) :=
    parse_write fun x _ => t.reads x
  rw [ProtocolTexts.parse, hread, Option.map_some, mapDoubles_mapDoubles]
  rfl

/-- The progress of a task that has no tasks of its own is read, and no other. -/
theorem toOption_progressOf (progress : TaskProgress) :
    (progressOf t ((SchedulerEvent.generateTaskTree progress).mapDoubles t.seen)).toOption =
      match progress with
      | .leaf profileName x => some (t.readBack (t.seen x),
          String.ofList ((SchedulerEvent.generateTaskTree (.leaf profileName (t.seen x))).write t.print))
      | _ => none := by
  unfold progressOf
  dsimp only
  rw [parse_write_print]
  cases progress <;>
    simp [SchedulerEvent.generateTaskTree, SchedulerEvent.membersOf, mapDoubles, mapMembers, Except.map]

/-- A job that was killed is told of where it can be. -/
theorem toOption_readKillMessage (msg : JobKilledMessage) :
    (readKillMessage t ((SchedulerEvent.killObject msg).mapDoubles t.seen)).toOption = killed? t msg := by
  obtain ⟨id, forWhat, progress⟩ := msg
  have hint := getInt_ofInt "forWhat" (isInt_killType forWhat)
  have hseen := mapDoubles_ofInt t.seen (isInt_killType forWhat)
  unfold readKillMessage killed?
  cases progress with
  | none => simp [SchedulerEvent.killObject, mapDoubles, mapMembers, hseen, hint, toOption_bind, getMember]
  | some task =>
    have hread := toOption_progressOf (t := t) task
    simp only [SchedulerEvent.killObject, Option.map_some, Option.toList_some, List.cons_append, List.nil_append, mapDoubles, mapMembers,
      hseen, stringAt_cons, getMember_cons, String.reduceEq, if_true, if_false, getString_string, ok_bind, hint, asserted_ok,
      toOption_bind, hread]
    cases task <;> rfl

/-- All of them are. -/
theorem toOption_mapM_readKillMessage (jobMsgs : List JobKilledMessage) :
    ((mapElements t.seen (jobMsgs.map SchedulerEvent.killObject)).mapM (readKillMessage t)).toOption = jobMsgs.mapM (killed? t) := by
  induction jobMsgs with
  | nil => rfl
  | cons msg jobMsgs ih =>
    rw [List.map_cons, mapElements, List.mapM_cons, List.mapM_cons, toOption_bind, toOption_readKillMessage]
    cases killed? t msg with
    | none => rfl
    | some first =>
      simp only [Option.bind_some, toOption_bind, ih]
      rfl

/-- A notification is read with the machines or the job that it is about. -/
theorem handleNotify_notified (t : ProtocolTexts) (r : SchedulerReader ω) (date : ℚ) (notifyType : String)
    (resources? : Option IntervalSet) (job? : Option String)
    (hmachines : ∀ machines ∈ resources?, t.fromStringHyphen (t.toStringHyphen machines) = some machines) :
    (handleNotify t r date (object (("type", string notifyType) ::
      ((resources?.map fun machines => ("resources", string (t.toStringHyphen machines))).toList ++
        (job?.map fun job => ("job", string job)).toList)))).toOption = notified r date notifyType resources? job? := by
  have hresources : ∀ f : IntervalSet → SchedulerReader ω,
      ((asserted (stringAt "resources" (object (("type", string notifyType) ::
        ((resources?.map fun machines => ("resources", string (t.toStringHyphen machines))).toList ++
          (job?.map fun job => ("job", string job)).toList)))) >>= readMachines t) >>= fun machines => .ok (f machines)).toOption =
        resources?.map f := by
    intro f
    cases resources? with
    | none => cases job? <;> simp [stringAt, getMember, asserted, Except.mapError]
    | some machines => simp [readMachines_text (hmachines machines rfl)]
  have hjob : ∀ f : String → SchedulerReader ω,
      (asserted (stringAt "job" (object (("type", string notifyType) ::
        ((resources?.map fun machines => ("resources", string (t.toStringHyphen machines))).toList ++
          (job?.map fun job => ("job", string job)).toList)))) >>= fun job => .ok (f job)).toOption = job?.map f := by
    intro f
    cases resources? <;> cases job? <;> simp [stringAt, getMember, asserted, Except.mapError]
  have hmetadata : (asserted (stringAt "metadata" (object (("type", string notifyType) ::
      ((resources?.map fun machines => ("resources", string (t.toStringHyphen machines))).toList ++
        (job?.map fun job => ("job", string job)).toList)))) >>= fun _ => .ok r).toOption = none := by
    cases resources? <;> cases job? <;> simp [stringAt, getMember, asserted, Except.mapError]
  have htype : stringAt "type" (object (("type", string notifyType) ::
      ((resources?.map fun machines => ("resources", string (t.toStringHyphen machines))).toList ++
        (job?.map fun job => ("job", string job)).toList))) = .ok notifyType := by
    simp
  generalize object _ = data at *
  simp only [handleNotify, htype, asserted_ok, ok_bind, apply_ite Except.toOption, hresources, hjob, hmetadata, toOption_ok,
    toOption_error, notified]

/-- The data that are written of an event are read as what it is to do. -/
theorem handle_receiveAt (hmachines : ∀ machines ∈ event.machines?, t.fromStringHyphen (t.toStringHyphen machines) = some machines)
    (hdata : event.data t forwardProfiles = .ok data) :
    (handle t b r event.type date (data.mapDoubles t.seen)).toOption = receiveAt t forwardProfiles b r date event := by
  cases event with
  | simulationBegins config =>
    obtain rfl := Except.ok.inj hdata
    simp only [handle, SchedulerEvent.type, if_true, receiveAt, started]
    cases b.start r.workload (config.mapDoubles t.seen) with
    | none => rfl
    | some workload =>
      rw [toOption_bind, Option.bind_some]
      cases (startedFromCheckpoint (config.mapDoubles t.seen)).toOption <;> rfl
  | simulationEnds =>
    obtain rfl := Except.ok.inj hdata
    simp [handle, SchedulerEvent.type, receiveAt]
  | jobSubmitted jobId jobDescription profileDescription job =>
    have hid : stringAt "job_id" (data.mapDoubles t.seen) = .ok jobId := by
      refine stringAt_some ?_
      simp only [SchedulerEvent.data] at hdata
      obtain ⟨members, -, hdata⟩ := Execution.bind_eq_ok.1 hdata
      obtain ⟨profile, -, hdata⟩ := Execution.bind_eq_ok.1 hdata
      obtain rfl := Except.ok.inj hdata
      rw [member?_mapDoubles]
      simp [mapDoubles]
    simp only [receiveAt, hdata, toOption_ok, Option.bind_some, handle, SchedulerEvent.type, String.reduceEq, if_true, if_false, hid,
      asserted_ok, ok_bind]
    cases b.addJob r.workload jobId (data.mapDoubles t.seen) date <;> rfl
  | jobCompleted jobId jobState jobAlloc returnCode =>
    obtain rfl := Except.ok.inj hdata
    simp only [handle, SchedulerEvent.type, String.reduceEq, if_true, if_false, mapDoubles, mapMembers, stringAt_cons, getString_string,
      asserted_ok, ok_bind, receiveAt]
    cases b.complete r.workload jobId date <;> rfl
  | jobKilled jobMsgs =>
    obtain rfl := Except.ok.inj hdata
    simp only [handle, SchedulerEvent.type, String.reduceEq, if_true, if_false, mapDoubles, mapMembers, getMember_cons, getArray_array,
      asserted_ok, ok_bind, toOption_bind, toOption_mapM_readKillMessage, receiveAt]
    cases jobMsgs.mapM (killed? t) <;> rfl
  | fromJobMessage jobId message =>
    obtain rfl := Except.ok.inj hdata
    simp [handle, SchedulerEvent.type, receiveAt]
  | resourceStateChanged resources newState =>
    obtain rfl := Except.ok.inj hdata
    simp only [handle, SchedulerEvent.type, String.reduceEq, if_true, if_false, mapDoubles, mapMembers, stringAt_cons, getString_string,
      asserted_ok, ok_bind, readMachines_text (hmachines resources rfl), toOption_bind, toOption_asserted, toOption_getStoi, receiveAt]
    cases Text.stoi newState.toList <;> rfl
  | queryEstimateWaitingTime jobId jobDescription =>
    obtain ⟨job, hjob, rfl⟩ := Execution.map_eq_ok.1 hdata
    have hparse := of_parseDescription hjob
    simp only [handle, SchedulerEvent.type, String.reduceEq, if_true, if_false, mapDoubles, mapMembers, getMember_cons, asserted_ok,
      ok_bind, SchedulerEvent.membersOf, Execution.runFrom, handleQuery, stringAt_cons, getString_string, receiveAt, hparse,
      Option.bind_some]
    cases b.addJob r.workload jobId (job.mapDoubles t.seen) date <;> rfl
  | answerEnergy consumedEnergy =>
    obtain rfl := Except.ok.inj hdata
    simp [handle, SchedulerEvent.type, mapDoubles, mapMembers, SchedulerEvent.membersOf, Execution.runFrom, handleAnswer, Except.map,
      receiveAt]
  | requestedCall id forWhat =>
    obtain rfl := Except.ok.inj hdata
    simp [handle, SchedulerEvent.type, mapDoubles, mapMembers, mapDoubles_ofInt, id.2, forWhat.2, getInt_ofInt "id" id.2,
      getInt_ofInt "forWhat" forWhat.2, receiveAt]
  | notify notifyType =>
    obtain rfl := Except.ok.inj hdata
    have hnotify := handleNotify_notified t r date notifyType none none fun machines h => absurd h (Option.not_mem_none machines)
    simpa [handle, SchedulerEvent.type, mapDoubles, mapMembers, receiveAt] using hnotify
  | notifyResourceEvent notifyType resources =>
    obtain rfl := Except.ok.inj hdata
    have hnotify := handleNotify_notified t r date notifyType (some resources) none hmachines
    simpa [handle, SchedulerEvent.type, mapDoubles, mapMembers, receiveAt] using hnotify
  | notifyJobFaultEvent notifyType job =>
    obtain rfl := Except.ok.inj hdata
    have hnotify := handleNotify_notified t r date notifyType none (some job) fun machines h => absurd h (Option.not_mem_none machines)
    simpa [handle, SchedulerEvent.type, mapDoubles, mapMembers, receiveAt] using hnotify
  | notifyGenericEvent jsonDesc =>
    have hparse := of_parseDescription hdata
    simp [handle, SchedulerEvent.type, receiveAt, hparse]

end ReceivedAux

end ScheduleTest
