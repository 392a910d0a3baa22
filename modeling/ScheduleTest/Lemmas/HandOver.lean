import ScheduleTest.Protocol

/-!
# What a decision is to do in the simulator

`handOver` says it with no text in between: which message the server gets, and which decisions are refused. The handler of an event
does just this with the data that are written of the decision (`parseAndApplyEvent_handOver`).
-/

namespace ScheduleTest

open JsonProtocolReader EventReader JsonValue

/-- The library reads the text that it writes of a set of machines. That of the empty set may be none that it reads. -/
def ProtocolTexts.ReadsMachines (t : ProtocolTexts) (machines : IntervalSet) : Prop :=
  t.fromStringHyphen (t.toStringHyphen machines) = some machines ∨
    machines = ∅ ∧ t.fromStringHyphen (t.toStringHyphen machines) = none

/-- All doubles of a value that the scheduler writes are read back. -/
def ProtocolTexts.ReadsDoubles (t : ProtocolTexts) (value : JsonValue) : Prop := ∀ x, Within (double x) value → t.readBack x = x

/-- The machines of a decision. -/
def ProtocolEvent.machines? : ProtocolEvent → Option IntervalSet
  | executeJob _ allocatedResources _ => some allocatedResources
  | setResourceState resources _ => some resources
  | _ => none

/-- The part of a mapping that is written. It is all of it up to a length of `2 ^ 31`. -/
def writtenMapping (mapping : List CInt) : List CInt := mapping.take (intSize mapping).toNat

/-- A mapping that can be written gives each executor a place within the allocation. -/
def FitsAllocation (nbAllocatedResources : ℕ) (mapping : List CInt) : Prop :=
  ∀ resource ∈ mapping, 0 ≤ resource.val ∧ resource.val < nbAllocatedResources

instance (nbAllocatedResources : ℕ) : DecidablePred (FitsAllocation nbAllocatedResources) := fun _ =>
  inferInstanceAs (Decidable (∀ _ ∈ _, _))

/-- The identifier of a text, if it is one. -/
def readJobIdentifier? (text : String) : Option String := (readJobIdentifier text).toOption

section

variable {ρ : Type} (t : ProtocolTexts) (g : Registrar ρ)

/-- What a notification about the scheduler is to do. -/
def notify (r : JsonProtocolReader ρ) (date : ℚ) (type notifyData : String) : Option (JsonProtocolReader ρ) :=
  if type = "registration_finished" then some (r.sendMessageAtTime date .endDynamicRegister)
  else if type = "continue_registration" then some (r.sendMessageAtTime date .continueDynamicRegister)
  else if type = "queue_size" then (Text.stoi notifyData.toList).map fun value =>
    { r with notified := { r.notified with queueSize := value } }
  else if type = "schedule_size" then (Text.stoi notifyData.toList).map fun value =>
    { r with notified := { r.notified with scheduleSize := value } }
  else if type = "number_running_jobs" then (Text.stoi notifyData.toList).map fun value =>
    { r with notified := { r.notified with nbRunningJobs := value } }
  else if type = "utilization" then (Text.stod notifyData.toList).map fun value =>
    { r with notified := { r.notified with utilization := value } }
  else if type = "utilization_no_resv" then (Text.stod notifyData.toList).map fun value =>
    { r with notified := { r.notified with utilizationNoResv := value } }
  else if type = "PID" then (Text.stoi notifyData.toList).map fun value =>
    { r with notified := { r.notified with batschedPID := value } }
  else if type = "checkpoint" then
    some (r.sendMessageAtTime date (.schedCallMeLater r.clock 1 CallMeLaterType.checkpointBatsched.toInt))
  else if type = "recover_from_checkpoint" then
    some (r.sendMessageAtTime date (.schedCallMeLater r.clock 1 CallMeLaterType.recoverFromCheckpoint.toInt))
  else none

/-- A description that is an object, as the simulator writes it. -/
def description? (text : String) : Option String :=
  ((t.parse text).filter fun value => value matches object _).map simulatorText

/-- Jobs and profiles can be registered. -/
def MayRegister (r : JsonProtocolReader ρ) : Prop := g.enabled = true ∧ r.registrationFinished = false

instance (r : JsonProtocolReader ρ) : Decidable (MayRegister g r) := inferInstanceAs (Decidable (_ ∧ _))

/-- What a decision is to do in the simulator, if it is not to be refused. -/
def handOver (r : JsonProtocolReader ρ) (decision : ℚ × ProtocolEvent) : Option (JsonProtocolReader ρ) :=
  match decision.2 with
  | .queryConsumedEnergy => some (r.sendMessageAtTime decision.1 .schedTellMeEnergy)
  | .answerEstimateWaitingTime _ _ => some r
  | .registerJob jobId jobDescription profileDescription sendProfile =>
    if ¬MayRegister g r ∨ sendProfile = true ∧ profileDescription ≠ "" ∧ t.parse profileDescription = none then none
    else (readJobIdentifier? jobId).bind fun jobId => (description? t jobDescription).bind fun job =>
      (g.registerJob r.workloads jobId job).map fun workloads =>
        { r with workloads := workloads }.sendMessageAtTime decision.1 (.jobRegisteredByDP jobId job)
  | .registerProfile workloadName profileName profileDescription =>
    if ¬MayRegister g r then none
    else (description? t profileDescription).bind fun profile => (g.registerProfile r.workloads workloadName profileName profile).map
      fun workloads => { r with workloads := workloads }.sendMessageAtTime decision.1
        (.profileRegisteredByDP workloadName profileName profile)
  | .executeJob jobId allocatedResources mapping =>
    (readJobIdentifier? jobId).bind fun jobId =>
      if g.jobExists r.workloads jobId = true ∧ allocatedResources ≠ ∅ ∧ (mapping ≠ [] → writtenMapping mapping ≠ []) ∧
          FitsAllocation allocatedResources.card (writtenMapping mapping) then
        some (r.sendMessageAtTime decision.1
          (.schedExecuteJob jobId allocatedResources ((writtenMapping mapping).map Subtype.val)))
      else none
  | .rejectJob jobId => (readJobIdentifier? jobId).map fun jobId => r.sendMessageAtTime decision.1 (.schedRejectJob jobId)
  | .killJob jobMsgs =>
    if jobMsgs = [] then none
    else (jobMsgs.mapM fun msg => (readJobIdentifier? msg.1).map fun jobId => (jobId, msg.2.toInt)).map fun jobsMsgs =>
      r.sendMessageAtTime decision.1 (.schedKillJob jobsMsgs)
  | .setResourceState resources newState =>
    if resources = ∅ then none
    else (Text.stoi newState.toList).map fun newPstate => r.sendMessageAtTime decision.1 (.pstateModification resources newPstate)
  | .setJobMetadata jobId metadata =>
    if '"' ∈ metadata.toList then none
    else (readJobIdentifier? jobId).map fun jobId => r.sendMessageAtTime decision.1 (.schedSetJobMetadata jobId metadata)
  | .callMeLater forWhat id futureDate => some (r.sendMessageAtTime decision.1 (.schedCallMeLater futureDate id.val forWhat.toInt))
  | .genericNotification type notifyData => notify r decision.1 type notifyData
  | .schedulerFinishedSubmittingJobs => some (r.sendMessageAtTime decision.1 .endDynamicRegister)
  | .schedulerContinueSubmittingJobs => some (r.sendMessageAtTime decision.1 .continueDynamicRegister)

end

namespace ProtocolAux

variable {ρ : Type} {t : ProtocolTexts} {g : Registrar ρ} {r r' : JsonProtocolReader ρ} {date now : ℚ} {data : JsonValue}
  {decision : ProtocolEvent}

@[simp] theorem ok_bind {ε α β : Type} (a : α) (f : α → Except ε β) : (Except.ok a >>= f) = f a := rfl

@[simp] theorem error_bind {ε α β : Type} (e : ε) (f : α → Except ε β) : (Except.error e >>= f) = .error e := rfl

@[simp] theorem toOption_ok {ε α : Type} (a : α) : (Except.ok a : Except ε α).toOption = some a := rfl

@[simp] theorem toOption_error {ε α : Type} (e : ε) : (Except.error e : Except ε α).toOption = none := rfl

theorem toOption_bind {ε α β : Type} (x : Except ε α) (f : α → Except ε β) :
    (x >>= f).toOption = x.toOption.bind fun a => (f a).toOption := by
  cases x <;> rfl

theorem toOption_getMachines {machines : IntervalSet} (ht : t.ReadsMachines machines) :
    (getMachines t (t.toStringHyphen machines)).toOption = if machines = ∅ then none else some machines := by
  unfold getMachines
  rcases ht with hread | ⟨rfl, hread⟩
  · rw [hread]
    by_cases hempty : machines = ∅ <;> simp [hempty]
  · simp [hread]

theorem toOption_getStoi (text : String) : (getStoi text).toOption = Text.stoi text.toList := by
  unfold getStoi
  split <;> simp_all

theorem toOption_getStod (text : String) : (getStod text).toOption = Text.stod text.toList := by
  unfold getStod
  split <;> simp_all

/-- The numbers of the executors with the places of their resources. -/
def numbered (written : List CInt) (start : ℕ) : List (ℤ × ℤ) := (written.zipIdx start).map fun entry => ((entry.2 : ℤ), entry.1.val)

theorem intSize_lt {α : Type} (l : List α) : intSize l < 2 ^ 31 := by
  have hlt := Int.bmod_lt (x := (l.length : ℤ)) (m := 2 ^ 32) (by norm_num)
  unfold intSize
  omega

theorem length_writtenMapping (mapping : List CInt) : (writtenMapping mapping).length < 2 ^ 31 := by
  have hlt := intSize_lt mapping
  rw [writtenMapping, List.length_take]
  omega

/-- Up to a length of `2 ^ 31`, all of a mapping is written. -/
theorem writtenMapping_eq {mapping : List CInt} (h : mapping.length < 2 ^ 31) : writtenMapping mapping = mapping := by
  have hsize : intSize mapping = mapping.length := Int.bmod_eq_of_le (by omega) (by omega)
  rw [writtenMapping, hsize, Int.toNat_natCast, List.take_length]

/-- The members of a mapping read as its entries. -/
theorem mapM_getMapped (mapping : List CInt) :
    (mappingMembers mapping).mapM getMapped = .ok (numbered (writtenMapping mapping) 0) := by
  refine Execution.mapM_eq_ok.2 ?_
  rw [mappingMembers, List.mapIdx_eq_zipIdx_map, numbered, List.forall₂_map_left_iff, List.forall₂_map_right_iff]
  refine List.forall₂_same.2 fun entry hentry => ?_
  have hlt := List.snd_lt_of_mem_zipIdx hentry
  have hlength := length_writtenMapping mapping
  unfold writtenMapping at hlength
  have hindex : Text.IsInt (entry.2 : ℤ) := ⟨by omega, by omega⟩
  have hread : ∀ z : ℤ, Text.IsInt z → Text.stoi (toString z).toList = some z := fun z hz => by
    simpa using Text.stoi_toString hz (fun c (hc : c ∈ ([] : List Char).head?) => absurd hc (by simp))
  simp only [getMapped, getStoi, hread _ hindex, hread _ entry.1.2, ok_bind]

/-- The executors are numbered in order. -/
theorem sorted_numbered (written : List CInt) (start : ℕ) : (numbered written start).Pairwise fun p q => p.1 < q.1 := by
  induction written generalizing start with
  | nil => simp [numbered]
  | cons resource written ih =>
    refine List.pairwise_cons.2 ⟨fun entry hentry => ?_, ih (start + 1)⟩
    obtain ⟨⟨other, i⟩, hi, rfl⟩ := List.mem_map.1 hentry
    have hle := List.le_snd_of_mem_zipIdx hi
    dsimp only at hle ⊢
    omega

theorem fitsAllocation_cons {nb : ℕ} {resource : CInt} {written : List CInt} :
    FitsAllocation nb (resource :: written) ↔ (0 ≤ resource.val ∧ resource.val < nb) ∧ FitsAllocation nb written :=
  List.forall_mem_cons

/-- In a map they are as they come. -/
theorem entries_numbered (written : List CInt) (start : ℕ) :
    ((numbered written start).foldl (fun map entry => map.insert entry.1 entry.2) (.empty : KeyedMap (fun z : ℤ => z) ℤ)).entries =
      numbered written start :=
  KeyedMap.entries_foldl_insert (sorted_numbered written start)

/-- A mapping is read if all its places are within the allocation. -/
theorem toOption_checkMapping (nb : ℕ) (written : List CInt) (start : ℕ) :
    (checkMapping nb start (numbered written start)).toOption =
      if FitsAllocation nb written then some (written.map Subtype.val) else none := by
  induction written generalizing start with
  | nil => simp [numbered, checkMapping, FitsAllocation]
  | cons resource written ih =>
    have hnext := ih (start + 1)
    push_cast at hnext
    rw [numbered, List.zipIdx_cons, List.map_cons]
    change (checkMapping nb start (((start : ℤ), resource.val) :: numbered written (start + 1))).toOption = _
    unfold checkMapping
    rw [if_neg (by simp)]
    by_cases hin : 0 ≤ resource.val ∧ resource.val < nb
    · rw [if_pos hin]
      cases hchecked : checkMapping nb (start + 1) (numbered written (start + 1)) with
      | error e =>
        rw [hchecked] at hnext
        by_cases hall : FitsAllocation nb written
        · simp [hall] at hnext
        · rw [if_neg fun h => hall (fitsAllocation_cons.1 h).2]
          rfl
      | ok resources =>
        rw [hchecked] at hnext
        by_cases hall : FitsAllocation nb written
        · rw [if_pos hall] at hnext
          rw [if_pos (fitsAllocation_cons.2 ⟨hin, hall⟩), List.map_cons, ← Option.some.inj hnext]
          rfl
        · simp [hall] at hnext
    · rw [if_neg hin, if_neg fun h => hin (fitsAllocation_cons.1 h).1]
      rfl

theorem mappingMembers_eq_nil {mapping : List CInt} : mappingMembers mapping = [] ↔ writtenMapping mapping = [] := by
  rw [mappingMembers, List.mapIdx_eq_nil_iff, writtenMapping]

/-- What is read of members that are the entries of a mapping. -/
theorem toOption_getMapping {nb : ℕ} {members : List (String × JsonValue)} {written : List CInt}
    (hmember : data.member? "mapping" = some (object members)) (hread : members.mapM getMapped = .ok (numbered written 0))
    (hnil : members = [] ↔ written = []) :
    (getMapping nb data).toOption =
      if written ≠ [] ∧ FitsAllocation nb written then some (written.map Subtype.val) else none := by
  have hchecked := toOption_checkMapping nb written 0
  rw [Nat.cast_zero] at hchecked
  unfold getMapping
  rw [hmember]
  simp only [getObject, ok_bind]
  by_cases hempty : written = []
  · rw [if_pos (hnil.2 hempty), if_neg fun h => h.1 hempty]
    rfl
  · rw [if_neg fun h => hempty (hnil.1 h), hread, ok_bind,
      entries_numbered, hchecked]
    simp [hempty]

@[simp] theorem getString_string (key text : String) : getString key (string text) = .ok text := rfl

@[simp] theorem getNumber_double (key : String) (x : ℚ) : getNumber key (double x) = .ok x := rfl

@[simp] theorem getObject_object (key : String) (members : List (String × JsonValue)) :
    getObject key (object members) = .ok members := rfl

@[simp] theorem getArray_array (key : String) (values : List JsonValue) : getArray key (array values) = .ok values := rfl

/-- A number of type `int` is read as it is. -/
theorem getInt_ofInt {z : ℤ} (key : String) (hz : Text.IsInt z) : getInt key (ofInt z) = .ok z := by
  simp [getInt, ofInt_of_isWide (isWide_of_isInt hz), hz]

@[simp] theorem getMember_cons (key name : String) (value : JsonValue) (members : List (String × JsonValue)) :
    getMember key (object ((name, value) :: members)) = if name = key then .ok value else getMember key (object members) := by
  by_cases hname : name = key <;> simp [getMember, hname]

@[simp] theorem stringAt_cons (key name : String) (value : JsonValue) (members : List (String × JsonValue)) :
    stringAt key (object ((name, value) :: members)) =
      if name = key then getString key value else stringAt key (object members) := by
  by_cases hname : name = key <;> simp [stringAt, hname]

theorem getMember_some {key : String} {value : JsonValue} (h : data.member? key = some value) : getMember key data = .ok value := by
  simp [getMember, h]

theorem stringAt_some {key text : String} (h : data.member? key = some (string text)) : stringAt key data = .ok text := by
  simp [stringAt, getMember_some h]

/-- A list of a length that is read has members, as many as they are. -/
theorem membersOf_object {members : List (String × JsonValue)} {sizes : List ℕ} (h : members.length ∈ sizes) :
    membersOf (object members) sizes = .ok () := by
  simp [membersOf, getObject, h]

theorem toOption_jobIdentifier (text : String) : (readJobIdentifier text).toOption = readJobIdentifier? text := rfl

/-- A query is handed over. -/
theorem handleQuery_handOver :
    (handleQuery r date (object [("requests", object [("consumed_energy", object [])])])).toOption =
      handOver t g r (date, .queryConsumedEnergy) := by
  simp [handleQuery, membersOf, getMember, getObject, Execution.runFrom, handleRequest, handOver]

/-- An answer is read, and that is all. -/
theorem handleAnswer_handOver (jobId : String) (time : ℚ) :
    (handleAnswer r date (object [("estimate_waiting_time",
      object [("job_id", string jobId), ("estimated_waiting_time", double time)])])).toOption =
      handOver t g r (date, .answerEstimateWaitingTime jobId time) := by
  simp [handleAnswer, getMember, getObject, stringAt, getString, getNumber, Execution.runFrom, handleEstimation, handOver]

theorem handleRejectJob_handOver (jobId : String) :
    (handleRejectJob r date (object [("job_id", string jobId)])).toOption = handOver t g r (date, .rejectJob jobId) := by
  rw [handleRejectJob, membersOf_object (by simp)]
  simp only [stringAt, getMember, getString, member?_cons, if_true, ok_bind, toOption_bind, toOption_jobIdentifier, handOver]
  cases readJobIdentifier? jobId <;> rfl

/-- The mapping of a job is read where it is written, and fits the allocation. -/
theorem toOption_mapping (mapping : List CInt) (first second : String × JsonValue) (hfirst : first.1 ≠ "mapping")
    (hsecond : second.1 ≠ "mapping") (nb : ℕ) :
    (getMapping nb (object ([first, second] ++ if mapping = [] then [] else [("mapping", object (mappingMembers mapping))]))).toOption =
      if (mapping ≠ [] → writtenMapping mapping ≠ []) ∧ FitsAllocation nb (writtenMapping mapping) then
        some ((writtenMapping mapping).map Subtype.val) else none := by
  by_cases hnone : mapping = []
  · subst hnone
    have hmember : (object ([first, second] ++ [])).member? "mapping" = none := by simp [member?, hfirst, hsecond]
    have hwritten : writtenMapping [] = [] := List.take_nil
    rw [if_pos rfl, getMapping, hmember, hwritten]
    simp [FitsAllocation]
  · have hmember : (object ([first, second] ++ [("mapping", object (mappingMembers mapping))])).member? "mapping" =
        some (object (mappingMembers mapping)) := by
      simp [member?, hfirst, hsecond]
    rw [if_neg hnone, toOption_getMapping hmember (mapM_getMapped mapping) mappingMembers_eq_nil]
    simp only [ne_eq, hnone, not_false_eq_true, forall_true_left]

/-- A job that is executed gets its machines and its mapping. -/
theorem handleExecuteJob_handOver {machines : IntervalSet} (ht : t.ReadsMachines machines) (jobId : String) (mapping : List CInt) :
    (handleExecuteJob t g r date (object ([("job_id", string jobId), ("alloc", string (t.toStringHyphen machines))] ++
      if mapping = [] then [] else [("mapping", object (mappingMembers mapping))]))).toOption =
      handOver t g r (date, .executeJob jobId machines mapping) := by
  have hmapping := toOption_mapping mapping ("job_id", string jobId) ("alloc", string (t.toStringHyphen machines)) (by simp) (by simp)
  have hsize : ([("job_id", string jobId), ("alloc", string (t.toStringHyphen machines))] ++
      if mapping = [] then [] else [("mapping", object (mappingMembers mapping))]).length ∈ [2, 3] := by
    by_cases hnone : mapping = [] <;> simp [hnone]
  have hid : (object ([("job_id", string jobId), ("alloc", string (t.toStringHyphen machines))] ++
      if mapping = [] then [] else [("mapping", object (mappingMembers mapping))])).member? "job_id" = some (string jobId) := by
    simp
  have halloc : (object ([("job_id", string jobId), ("alloc", string (t.toStringHyphen machines))] ++
      if mapping = [] then [] else [("mapping", object (mappingMembers mapping))])).member? "alloc" =
      some (string (t.toStringHyphen machines)) := by
    simp
  generalize [("job_id", string jobId), ("alloc", string (t.toStringHyphen machines))] ++
    (if mapping = [] then [] else [("mapping", object (mappingMembers mapping))]) = members at *
  rw [handleExecuteJob, membersOf_object hsize, ok_bind, stringAt_some hid, stringAt_some halloc, ok_bind, ok_bind, toOption_bind,
    toOption_jobIdentifier, handOver]
  dsimp only
  cases readJobIdentifier? jobId with
  | none => rfl
  | some id =>
    rw [Option.bind_some, Option.bind_some]
    by_cases hexists : g.jobExists r.workloads id = true
    · rw [hexists, if_neg (by simp), toOption_bind, toOption_getMachines ht]
      by_cases hempty : machines = ∅
      · simp [hempty]
      · rw [if_neg hempty, Option.bind_some, toOption_bind, hmapping]
        by_cases hfits : (mapping ≠ [] → writtenMapping mapping ≠ []) ∧ FitsAllocation machines.card (writtenMapping mapping)
        · rw [if_pos hfits, if_pos ⟨rfl, hempty, hfits⟩]
          rfl
        · rw [if_neg hfits, if_neg fun h => hfits h.2.2]
          rfl
    · rw [if_pos (by simpa using hexists), if_neg fun h => hexists h.1]
      rfl

/-- A value whose doubles are read back is read as it was written. -/
theorem parse_print {value : JsonValue} (h : t.ReadsDoubles value) :
    t.parse (String.ofList (value.write t.print)) = some value := by
  have hread : JsonValue.parse (String.ofList (value.write t.print)) = some (value.mapDoubles t.printed) :=
    parse_write fun x _ => t.reads x
  rw [ProtocolTexts.parse, hread, Option.map_some, mapDoubles_mapDoubles]
  exact congrArg some (mapDoubles_eq_self h)

theorem isInt_killType (forWhat : KillType) : Text.IsInt forWhat.toInt := by
  cases forWhat <;> exact ⟨by decide, by decide⟩

theorem isInt_callMeLaterType (forWhat : CallMeLaterType) : Text.IsInt forWhat.toInt := by
  cases forWhat <;> exact ⟨by decide, by decide⟩

/-- The jobs to be killed are read one by one. -/
theorem toOption_mapM_getJobMsg (jobMsgs : List (String × KillType)) :
    ((jobMsgs.map fun msg => object [("id", string msg.1), ("forWhat", ofInt msg.2.toInt)]).mapM getJobMsg).toOption =
      jobMsgs.mapM fun msg => (readJobIdentifier? msg.1).map fun jobId => (jobId, msg.2.toInt) := by
  induction jobMsgs with
  | nil => rfl
  | cons msg jobMsgs ih =>
    rw [List.map_cons, List.mapM_cons, List.mapM_cons, toOption_bind]
    have hfirst : (getJobMsg (object [("id", string msg.1), ("forWhat", ofInt msg.2.toInt)])).toOption =
        (readJobIdentifier? msg.1).map fun jobId => (jobId, msg.2.toInt) := by
      simp only [getJobMsg, stringAt, getMember, member?_cons, if_true, ok_bind, getString_string, toOption_bind,
        toOption_jobIdentifier]
      cases readJobIdentifier? msg.1 with
      | none => rfl
      | some jobId => simp [getInt_ofInt "forWhat" (isInt_killType msg.2)]
    rw [hfirst]
    cases readJobIdentifier? msg.1 with
    | none => rfl
    | some jobId =>
      simp only [Option.map_some, Option.bind_some, toOption_bind, ih]
      rfl

theorem handleKillJob_handOver (jobMsgs : List (String × KillType)) :
    (handleKillJob r date (object [("job_msgs", array (jobMsgs.map fun msg =>
      object [("id", string msg.1), ("forWhat", ofInt msg.2.toInt)]))])).toOption = handOver t g r (date, .killJob jobMsgs) := by
  rw [handleKillJob, membersOf_object (by simp), ok_bind, getMember_cons, if_pos rfl, ok_bind, getArray_array, ok_bind, handOver]
  dsimp only
  by_cases hnone : jobMsgs = []
  · simp [hnone]
  · rw [if_neg (by simpa using hnone), if_neg hnone, toOption_bind, toOption_mapM_getJobMsg]
    cases jobMsgs.mapM (fun msg => (readJobIdentifier? msg.1).map fun jobId => (jobId, msg.2.toInt)) <;> rfl

theorem handleSetResourceState_handOver {resources : IntervalSet} (ht : t.ReadsMachines resources) (newState : String) :
    (handleSetResourceState t r date
      (object [("resources", string (t.toStringHyphen resources)), ("state", string newState)])).toOption =
      handOver t g r (date, .setResourceState resources newState) := by
  rw [handleSetResourceState, membersOf_object (by simp), ok_bind]
  simp only [stringAt_cons, getString_string, String.reduceEq, if_true, if_false, ok_bind, toOption_bind, toOption_getMachines ht,
    toOption_getStoi, handOver]
  by_cases hempty : resources = ∅
  · simp [hempty]
  · rw [if_neg hempty, if_neg hempty, Option.bind_some]
    cases Text.stoi newState.toList <;> rfl

theorem handleSetJobMetadata_handOver (jobId metadata : String) :
    (handleSetJobMetadata r date (object [("job_id", string jobId), ("metadata", string metadata)])).toOption =
      handOver t g r (date, .setJobMetadata jobId metadata) := by
  rw [handleSetJobMetadata, membersOf_object (by simp), ok_bind]
  simp only [stringAt_cons, getString_string, String.reduceEq, if_true, if_false, ok_bind, handOver]
  by_cases hquotes : '"' ∈ metadata.toList
  · simp [hquotes]
  · rw [if_neg hquotes, if_neg hquotes, toOption_bind, toOption_jobIdentifier]
    cases readJobIdentifier? jobId <;> rfl

theorem handleCallMeLater_handOver (forWhat : CallMeLaterType) (id : CInt) (futureDate : ℚ) :
    (handleCallMeLater r date (object [("timestamp", double futureDate), ("id", ofInt id.val),
      ("forWhat", ofInt forWhat.toInt)])).toOption = handOver t g r (date, .callMeLater forWhat id futureDate) := by
  rw [handleCallMeLater, membersOf_object (by simp), ok_bind]
  simp [getMember, getInt_ofInt "forWhat" (isInt_callMeLaterType forWhat), getInt_ofInt "id" id.2, handOver]

/-- A notification is read with its data, where it has any. -/
theorem handleNotify_handOver (type notifyData : String) :
    (handleNotify r date (object [("type", string type), ("data", string notifyData)])).toOption =
      handOver t g r (date, .genericNotification type notifyData) := by
  simp only [handleNotify, getObject_object, stringAt_cons, getString_string, String.reduceEq, if_true, if_false, ok_bind, handOver,
    notify, apply_ite Except.toOption, toOption_bind, toOption_getStoi, toOption_getStod, toOption_ok, toOption_error,
    Option.map_eq_bind, Function.comp_def]

/-- A notification without data. -/
theorem handleNotify_registration (type : String) (htype : type = "registration_finished" ∨ type = "continue_registration") :
    (handleNotify r date (object [("type", string type)])).toOption = notify r date type "" := by
  rcases htype with rfl | rfl <;> simp [handleNotify, notify]

/-- Jobs and profiles are registered while they can be. -/
theorem toOption_checkRegistration : (checkRegistration g r).toOption = if MayRegister g r then some () else none := by
  unfold checkRegistration
  by_cases henabled : g.enabled = true
  · by_cases hfinished : r.registrationFinished = true <;> simp [henabled, hfinished, MayRegister]
  · simp [henabled, MayRegister]

/-- What is written of a description, where it can be parsed. -/
theorem of_descriptionMember {key text : String} {members : List (String × JsonValue)}
    (h : descriptionMember t key text = .ok members) :
    (t.parse text = none ∧ members = []) ∨ ∃ value, t.parse text = some value ∧ members = [(key, value)] := by
  unfold descriptionMember at h
  split at h
  · rename_i hempty
    cases h
    exact .inl ⟨by rw [hempty]; rfl, rfl⟩
  · split at h
    · rename_i value hparse
      cases h
      exact .inr ⟨value, hparse, rfl⟩
    · cases h

/-- What is written about a job that is registered. The member behind its description is another one. -/
theorem data_registerJob {jobId jobDescription profileDescription : String} {sendProfile : Bool}
    (hdata : ProtocolEvent.data t (.registerJob jobId jobDescription profileDescription sendProfile) = .ok data) :
    ¬(sendProfile = true ∧ profileDescription ≠ "" ∧ t.parse profileDescription = none) ∧
      ∃ job profile, descriptionMember t "job" jobDescription = .ok job ∧ (∀ value, ("job", value) ∉ profile) ∧
        data = object (("job_id", string jobId) :: (job ++ profile)) := by
  simp only [ProtocolEvent.data] at hdata
  cases hjob : descriptionMember t "job" jobDescription with
  | error e => simp [hjob] at hdata
  | ok job =>
    rw [hjob, ok_bind] at hdata
    cases sendProfile with
    | false => exact ⟨by simp, job, [], rfl, by simp, (Except.ok.inj hdata).symm⟩
    | true =>
      cases hprofile : descriptionMember t "profile" profileDescription with
      | error e => simp [hprofile] at hdata
      | ok profile =>
        simp only [hprofile, if_true, ok_bind] at hdata
        refine ⟨?_, job, profile, rfl, ?_, (Except.ok.inj hdata).symm⟩
        · rintro ⟨-, hne, hparse⟩
          simp [descriptionMember, hne, hparse] at hprofile
        · rcases of_descriptionMember hprofile with ⟨-, rfl⟩ | ⟨value, -, rfl⟩ <;> simp

theorem description?_none {text : String} (h : t.parse text = none) : description? t text = none := by rw [description?, h]; rfl

theorem description?_object {text : String} {members : List (String × JsonValue)} (h : t.parse text = some (object members)) :
    description? t text = some (simulatorText (object members)) := by
  simp [description?, h]

/-- A description that is no object is refused. -/
theorem toOption_getObject {text : String} {value : JsonValue} (key : String) (h : t.parse text = some value) :
    (∃ members, value = object members ∧ description? t text = some (simulatorText value)) ∨
      ((getObject key value).toOption = none ∧ description? t text = none) := by
  cases value with
  | object members => exact .inl ⟨members, rfl, description?_object h⟩
  | _ => exact .inr ⟨rfl, by simp [description?, h]⟩

/-- The description of a job is handed over as it was parsed. -/
theorem handleRegisterJob_handOver {jobId jobDescription profileDescription : String} {sendProfile : Bool}
    (hdata : ProtocolEvent.data t (.registerJob jobId jobDescription profileDescription sendProfile) = .ok data) :
    (handleRegisterJob g r date data).toOption =
      handOver t g r (date, .registerJob jobId jobDescription profileDescription sendProfile) := by
  obtain ⟨hsend, job, profile, hjob, hother, rfl⟩ := data_registerJob hdata
  rw [handleRegisterJob, toOption_bind, toOption_checkRegistration, handOver]
  dsimp only
  by_cases hmay : MayRegister g r
  · rw [if_pos hmay, if_neg (not_or.2 ⟨not_not.2 hmay, hsend⟩), Option.bind_some]
    simp only [getObject_object, stringAt_cons, getString_string, if_true, ok_bind, toOption_bind, toOption_jobIdentifier]
    cases readJobIdentifier? jobId with
    | none => rfl
    | some id =>
      rw [Option.bind_some, Option.bind_some]
      rcases of_descriptionMember hjob with ⟨hparse, rfl⟩ | ⟨value, hparse, rfl⟩
      · have hnone : (object profile).member? "job" = none := by
          simp only [member?, Option.map_eq_none_iff, List.find?_eq_none, decide_eq_true_eq]
          rintro ⟨key, value⟩ hmem rfl
          exact hother value hmem
        simp [description?_none hparse, getMember, hnone]
      · simp only [List.cons_append, List.nil_append, getMember_cons, String.reduceEq, if_true, if_false, toOption_ok,
          Option.bind_some]
        rcases toOption_getObject "job" hparse with ⟨members, rfl, hdescription⟩ | ⟨hread, hdescription⟩
        · rw [hdescription, getObject_object, toOption_ok, Option.bind_some, Option.bind_some]
          cases g.registerJob r.workloads id (simulatorText (object members)) <;> rfl
        · rw [hdescription, hread, Option.bind_none, Option.bind_none]
  · rw [if_neg hmay, if_pos (.inl hmay)]
    rfl

/-- The description of a profile is handed over as it was parsed. -/
theorem handleRegisterProfile_handOver {workloadName profileName profileDescription : String}
    (hdata : ProtocolEvent.data t (.registerProfile workloadName profileName profileDescription) = .ok data) :
    (handleRegisterProfile g r date data).toOption =
      handOver t g r (date, .registerProfile workloadName profileName profileDescription) := by
  simp only [ProtocolEvent.data] at hdata
  split at hdata
  · rename_i profile hparse
    obtain rfl := Except.ok.inj hdata
    rw [handleRegisterProfile, toOption_bind, toOption_checkRegistration, handOver]
    dsimp only
    by_cases hmay : MayRegister g r
    · rw [if_pos hmay, if_neg (not_not.2 hmay), Option.bind_some]
      simp only [getObject_object, stringAt_cons, getMember_cons, getString_string, String.reduceEq, if_true, if_false, ok_bind,
        toOption_bind]
      rcases toOption_getObject "profile" hparse with ⟨members, rfl, hdescription⟩ | ⟨hread, hdescription⟩
      · rw [hdescription, getObject_object, toOption_ok, Option.bind_some, Option.bind_some]
        cases g.registerProfile r.workloads workloadName profileName (simulatorText (object members)) <;> rfl
      · rw [hdescription, hread, Option.bind_none, Option.bind_none]
    · rw [if_neg hmay, if_pos hmay]
      rfl
  · cases hdata

/-- The handler of its type does what a decision is to do. -/
theorem handle_handOver (ht : ∀ machines ∈ decision.machines?, t.ReadsMachines machines) (hdata : decision.data t = .ok data) :
    (handle t g r decision.type date data).toOption = handOver t g r (date, decision) := by
  cases decision with
  | queryConsumedEnergy =>
    obtain rfl := Except.ok.inj hdata
    exact handleQuery_handOver
  | answerEstimateWaitingTime jobId time =>
    obtain rfl := Except.ok.inj hdata
    exact handleAnswer_handOver jobId time
  | registerJob => exact handleRegisterJob_handOver hdata
  | registerProfile => exact handleRegisterProfile_handOver hdata
  | executeJob jobId machines mapping =>
    obtain rfl := Except.ok.inj hdata
    exact handleExecuteJob_handOver (ht machines rfl) jobId mapping
  | rejectJob jobId =>
    obtain rfl := Except.ok.inj hdata
    exact handleRejectJob_handOver jobId
  | killJob jobMsgs =>
    obtain rfl := Except.ok.inj hdata
    exact handleKillJob_handOver jobMsgs
  | setResourceState resources newState =>
    obtain rfl := Except.ok.inj hdata
    exact handleSetResourceState_handOver (ht resources rfl) newState
  | setJobMetadata jobId metadata =>
    obtain rfl := Except.ok.inj hdata
    exact handleSetJobMetadata_handOver jobId metadata
  | callMeLater forWhat id futureDate =>
    obtain rfl := Except.ok.inj hdata
    exact handleCallMeLater_handOver forWhat id futureDate
  | genericNotification type notifyData =>
    obtain rfl := Except.ok.inj hdata
    exact handleNotify_handOver type notifyData
  | schedulerFinishedSubmittingJobs =>
    obtain rfl := Except.ok.inj hdata
    exact handleNotify_registration _ (.inl rfl)
  | schedulerContinueSubmittingJobs =>
    obtain rfl := Except.ok.inj hdata
    exact handleNotify_registration _ (.inr rfl)

/-- An event that is not dated later than its message does what its decision is to do. -/
theorem parseAndApplyEvent_handOver (ht : ∀ machines ∈ decision.machines?, t.ReadsMachines machines)
    (hdata : decision.data t = .ok data) (hle : date ≤ now) :
    (parseAndApplyEvent t g now r (eventObject date decision.type data)).toOption = handOver t g r (date, decision) := by
  rw [← handle_handOver ht hdata]
  simp [parseAndApplyEvent, eventObject, not_lt.2 hle]

end ProtocolAux

end ScheduleTest
