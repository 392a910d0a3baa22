import ScheduleTest.Theorems.Protocol
import Mathlib.Data.List.DropRight
import Mathlib.Data.List.TakeWhile

/-!
# What the simulator accepts is well formed

Whatever the scheduler sends, the server gets messages of a certain form only: a job that is executed has machines, and each of its
executors has one of them; jobs, descriptions and states are what they are to be. They come in the order of their dates, and behind
those of a text the server is told once that the scheduler is ready (`accepted_well_formed`).
-/

namespace ScheduleTest

open JsonProtocolReader EventReader JsonValue

/-- The representation of an identifier reads as this identifier. -/
def IsJobIdentifier (jobId : String) : Prop := readJobIdentifier jobId = .ok jobId

/-- What holds of a message to the server. -/
def ServerMessage.WellFormed : ServerMessage → Prop
  | schedRejectJob jobId => IsJobIdentifier jobId
  | schedExecuteJob jobId machineIds mapping =>
    IsJobIdentifier jobId ∧ machineIds ≠ ∅ ∧ ∀ resource ∈ mapping, 0 ≤ resource ∧ resource < machineIds.card
  | schedKillJob jobsMsgs => jobsMsgs ≠ [] ∧ ∀ msg ∈ jobsMsgs, IsJobIdentifier msg.1 ∧ Text.IsInt msg.2
  | pstateModification machineIds newPstate => machineIds ≠ ∅ ∧ Text.IsInt newPstate
  | schedSetJobMetadata jobId metadata => IsJobIdentifier jobId ∧ '"' ∉ metadata.toList
  | schedChangeJobState jobId jobState => IsJobIdentifier jobId ∧ jobState ∈ allowedStates
  | schedCallMeLater _ id forWhat => Text.IsInt id ∧ Text.IsInt forWhat
  | toJobMsg jobId _ => IsJobIdentifier jobId
  | jobRegisteredByDP jobId jobDescription => IsJobIdentifier jobId ∧ ∃ members, jobDescription = simulatorText (object members)
  | profileRegisteredByDP _ _ profile => ∃ members, profile = simulatorText (object members)
  | schedTellMeEnergy | endDynamicRegister | continueDynamicRegister | schedReady => True

/-- The scheduler is ready. -/
def ServerMessage.isReady : ServerMessage → Bool
  | schedReady => true
  | _ => false

namespace JsonProtocolReader

variable {ρ : Type}

/-- The messages are well formed and in the order of their dates, none of them later than now. -/
structure WellFormed (r : JsonProtocolReader ρ) : Prop where
  messages : ∀ message ∈ r.sent, message.2.WellFormed
  sorted : r.sent.Pairwise fun first second => first.1 ≤ second.1
  past : ∀ message ∈ r.sent, message.1 ≤ r.clock

/-- How often the server was told that the scheduler is ready. -/
def nbReady (r : JsonProtocolReader ρ) : ℕ := r.sent.countP fun message => message.2.isReady

/-- Read a text at a date. -/
def readAt (t : ProtocolTexts) (g : Registrar ρ) (r : JsonProtocolReader ρ) (message : ℚ × String) :
    Except ProtocolAbort (JsonProtocolReader ρ) := parseAndApplyMessage t g { r with clock := message.1 } message.2

end JsonProtocolReader

namespace AcceptedAux

variable {ρ : Type} {t : ProtocolTexts} {g : Registrar ρ} {r r' r'' : JsonProtocolReader ρ} {date : ℚ} {data : JsonValue}

/-- What the messages of an event do. -/
structure Keeps (r r' : JsonProtocolReader ρ) : Prop where
  wellFormed : r.WellFormed → r'.WellFormed
  nbReady : r'.nbReady = r.nbReady

theorem Keeps.trans (h : Keeps r r') (h' : Keeps r' r'') : Keeps r r'' := ⟨h'.wellFormed ∘ h.wellFormed, h'.nbReady.trans h.nbReady⟩

/-- What was sent is as before. -/
theorem Keeps.of_sent (hclock : r'.clock = r.clock) (hsent : r'.sent = r.sent) : Keeps r r' := by
  refine ⟨fun h => ⟨?_, ?_, ?_⟩, ?_⟩
  · rw [hsent]
    exact h.messages
  · rw [hsent]
    exact h.sorted
  · rw [hsent, hclock]
    exact h.past
  · rw [JsonProtocolReader.nbReady, hsent, JsonProtocolReader.nbReady]

/-- A well-formed message is sent at a date that is not before those of the others. -/
theorem wellFormed_sendMessageAtTime {message : ServerMessage} (h : r.WellFormed) (hmessage : message.WellFormed) :
    (r.sendMessageAtTime date message).WellFormed := by
  refine ⟨?_, ?_, ?_⟩
  · intro other hother
    rcases List.mem_append.1 hother with hother | hother
    · exact h.messages other hother
    · rw [List.mem_singleton.1 hother]
      exact hmessage
  · refine List.pairwise_append.2 ⟨h.sorted, List.pairwise_singleton _ _, ?_⟩
    intro first hfirst last hlast
    rw [List.mem_singleton.1 hlast]
    exact (h.past first hfirst).trans (le_max_left _ _)
  · intro other hother
    rcases List.mem_append.1 hother with hother | hother
    · exact (h.past other hother).trans (le_max_left _ _)
    · rw [List.mem_singleton.1 hother]
      exact le_rfl

theorem nbReady_sendMessageAtTime (message : ServerMessage) :
    (r.sendMessageAtTime date message).nbReady = r.nbReady + if message.isReady then 1 else 0 := by
  simp [JsonProtocolReader.nbReady, sendMessageAtTime, List.countP_append, List.countP_cons]

theorem Keeps.send {message : ServerMessage} (hmessage : message.WellFormed) (hready : message.isReady = false) :
    Keeps r (r.sendMessageAtTime date message) :=
  ⟨fun h => wellFormed_sendMessageAtTime h hmessage, by simp [nbReady_sendMessageAtTime, hready]⟩

/-! ### What is read -/

/-- An identifier that was read is one. -/
theorem isJobIdentifier {text jobId : String} (h : readJobIdentifier text = .ok jobId) : IsJobIdentifier jobId := by
  unfold readJobIdentifier at h
  dsimp only at h
  split at h
  · cases h
  · rename_i hparts
    push Not at hparts
    split at h
    · rename_i z hz
      obtain rfl := Except.ok.inj h
      generalize hname : (text.toList.dropWhile (· ≠ '!')).dropWhile (· = '!') = jobName at *
      have hbefore : ∀ c ∈ text.toList.takeWhile (· ≠ '!'), decide (c ≠ '!') = true :=
        fun c hc => List.mem_takeWhile_imp (p := fun c => decide (c ≠ '!')) hc
      have hmark : jobName.dropWhile (· = '!') = jobName := by
        rw [← hname]
        exact List.dropWhile_idempotent _ _
      simp only [IsJobIdentifier, readJobIdentifier, String.toList_ofList]
      rw [List.takeWhile_append_of_pos hbefore, List.dropWhile_append_of_pos hbefore]
      simp [hmark, hparts.2, hz]
    · cases h

theorem stoi_isInt {text : List Char} {z : ℤ} (h : Text.stoi text = some z) : Text.IsInt z := by
  have hint : ∀ {z' : ℤ}, Text.toInt? z' = some z → Text.IsInt z := by
    intro z' hz
    unfold Text.toInt? at hz
    split at hz
    · rename_i hint
      obtain rfl := Option.some.inj hz
      exact hint
    · cases hz
  unfold Text.stoi at h
  dsimp only at h
  split at h
  · obtain ⟨n, -, hn⟩ := Option.bind_eq_some_iff.1 h
    exact hint hn
  · obtain ⟨n, -, hn⟩ := Option.bind_eq_some_iff.1 h
    exact hint hn

theorem getStoi_isInt {text : String} {z : ℤ} (h : getStoi text = .ok z) : Text.IsInt z := by
  unfold getStoi at h
  split at h
  · rename_i hread
    obtain rfl := Except.ok.inj h
    exact stoi_isInt hread
  · cases h

theorem getInt_isInt {key : String} {value : JsonValue} {z : ℤ} (h : getInt key value = .ok z) : Text.IsInt z := by
  unfold getInt at h
  split at h
  · split at h
    · rename_i hint
      obtain rfl := Except.ok.inj h
      exact hint
    · cases h
  · cases h

theorem getMachines_ne_empty {text : String} {machines : IntervalSet} (h : getMachines t text = .ok machines) : machines ≠ ∅ := by
  unfold getMachines at h
  split at h
  · split at h
    · cases h
    · rename_i hne
      obtain rfl := Except.ok.inj h
      exact hne
  · cases h

theorem getObject_eq_ok {key : String} {value : JsonValue} {members : List (String × JsonValue)}
    (h : getObject key value = .ok members) : value = object members := by
  unfold getObject at h
  split at h
  · obtain rfl := Except.ok.inj h
    rfl
  · cases h

/-- All places of a mapping are within the allocation. -/
theorem of_checkMapping {nb : ℕ} {executor : ℤ} {entries : List (ℤ × ℤ)} {mapping : List ℤ}
    (h : checkMapping nb executor entries = .ok mapping) : ∀ resource ∈ mapping, 0 ≤ resource ∧ resource < nb := by
  induction entries generalizing executor mapping with
  | nil =>
    obtain rfl := Except.ok.inj h
    simp
  | cons entry entries ih =>
    unfold checkMapping at h
    split at h
    · cases h
    · split at h
      · rename_i hin
        obtain ⟨rest, hrest, rfl⟩ := Execution.map_eq_ok.1 h
        exact List.forall_mem_cons.2 ⟨hin, ih hrest⟩
      · cases h

theorem of_getMapping {nb : ℕ} {mapping : List ℤ} (h : getMapping nb data = .ok mapping) :
    ∀ resource ∈ mapping, 0 ≤ resource ∧ resource < nb := by
  unfold getMapping at h
  split at h
  · obtain rfl := Except.ok.inj h
    simp
  · obtain ⟨members, -, h⟩ := Execution.bind_eq_ok.1 h
    split at h
    · cases h
    · obtain ⟨entries, -, h⟩ := Execution.bind_eq_ok.1 h
      exact of_checkMapping h

/-- A job to be killed is one, and its purpose is an `int`. -/
theorem of_getJobMsg {value : JsonValue} {msg : String × ℤ} (h : getJobMsg value = .ok msg) :
    IsJobIdentifier msg.1 ∧ Text.IsInt msg.2 := by
  obtain ⟨id, hid, h⟩ := Execution.bind_eq_ok.1 h
  obtain ⟨text, -, hid⟩ := Execution.bind_eq_ok.1 hid
  obtain ⟨forWhat, hforWhat, h⟩ := Execution.bind_eq_ok.1 h
  obtain ⟨member, -, hforWhat⟩ := Execution.bind_eq_ok.1 hforWhat
  obtain rfl := Except.ok.inj h
  exact ⟨isJobIdentifier hid, getInt_isInt hforWhat⟩

/-! ### What the handlers do -/

theorem keeps_handleQuery (h : handleQuery r date data = .ok r') : Keeps r r' := by
  obtain ⟨_, -, h⟩ := Execution.bind_eq_ok.1 h
  obtain ⟨requests, -, h⟩ := Execution.bind_eq_ok.1 h
  split at h
  · cases h
  · refine Execution.runFrom_invariant (I := Keeps r) (C := fun _ _ => True) ?_ ⟨id, rfl⟩ (Execution.allSteps_of_forall (by simp)) h
    intro next request last hnext _ hrequest
    unfold handleRequest at hrequest
    split at hrequest
    · obtain ⟨members, -, hrequest⟩ := Execution.bind_eq_ok.1 hrequest
      split at hrequest
      · obtain rfl := Except.ok.inj hrequest
        exact hnext.trans (.send trivial rfl)
      · cases hrequest
    · cases hrequest

theorem keeps_handleAnswer (h : handleAnswer r date data = .ok r') : Keeps r r' := by
  obtain ⟨answers, -, h⟩ := Execution.bind_eq_ok.1 h
  split at h
  · cases h
  · refine Execution.runFrom_invariant (I := Keeps r) (C := fun _ _ => True) ?_ ⟨id, rfl⟩ (Execution.allSteps_of_forall (by simp)) h
    intro next answer last hnext _ hanswer
    unfold handleEstimation at hanswer
    split at hanswer
    · obtain ⟨_, -, hanswer⟩ := Execution.bind_eq_ok.1 hanswer
      obtain ⟨_, -, hanswer⟩ := Execution.bind_eq_ok.1 hanswer
      obtain ⟨_, -, hanswer⟩ := Execution.bind_eq_ok.1 hanswer
      exact Except.ok.inj hanswer ▸ hnext
    · cases hanswer

theorem keeps_handleRejectJob (h : handleRejectJob r date data = .ok r') : Keeps r r' := by
  obtain ⟨_, -, h⟩ := Execution.bind_eq_ok.1 h
  obtain ⟨jobId, hid, h⟩ := Execution.bind_eq_ok.1 h
  obtain ⟨text, -, hid⟩ := Execution.bind_eq_ok.1 hid
  obtain rfl := Except.ok.inj h
  exact .send (isJobIdentifier hid) rfl

theorem keeps_handleExecuteJob (h : handleExecuteJob t g r date data = .ok r') : Keeps r r' := by
  obtain ⟨_, -, h⟩ := Execution.bind_eq_ok.1 h
  obtain ⟨jobId, hid, h⟩ := Execution.bind_eq_ok.1 h
  obtain ⟨text, -, hid⟩ := Execution.bind_eq_ok.1 hid
  split at h
  · cases h
  · obtain ⟨machines, hmachines, h⟩ := Execution.bind_eq_ok.1 h
    obtain ⟨alloc, -, hmachines⟩ := Execution.bind_eq_ok.1 hmachines
    obtain ⟨mapping, hmapping, h⟩ := Execution.bind_eq_ok.1 h
    obtain rfl := Except.ok.inj h
    exact .send ⟨isJobIdentifier hid, getMachines_ne_empty hmachines, of_getMapping hmapping⟩ rfl

theorem keeps_handleCallMeLater (h : handleCallMeLater r date data = .ok r') : Keeps r r' := by
  obtain ⟨_, -, h⟩ := Execution.bind_eq_ok.1 h
  obtain ⟨targetTime, -, h⟩ := Execution.bind_eq_ok.1 h
  obtain ⟨forWhat, hforWhat, h⟩ := Execution.bind_eq_ok.1 h
  obtain ⟨_, -, hforWhat⟩ := Execution.bind_eq_ok.1 hforWhat
  obtain ⟨id, hid, h⟩ := Execution.bind_eq_ok.1 h
  obtain ⟨_, -, hid⟩ := Execution.bind_eq_ok.1 hid
  obtain rfl := Except.ok.inj h
  exact .send ⟨getInt_isInt hid, getInt_isInt hforWhat⟩ rfl

theorem keeps_handleSetResourceState (h : handleSetResourceState t r date data = .ok r') : Keeps r r' := by
  obtain ⟨_, -, h⟩ := Execution.bind_eq_ok.1 h
  obtain ⟨machines, hmachines, h⟩ := Execution.bind_eq_ok.1 h
  obtain ⟨text, -, hmachines⟩ := Execution.bind_eq_ok.1 hmachines
  obtain ⟨newPstate, hpstate, h⟩ := Execution.bind_eq_ok.1 h
  obtain ⟨state, -, hpstate⟩ := Execution.bind_eq_ok.1 hpstate
  obtain rfl := Except.ok.inj h
  exact .send ⟨getMachines_ne_empty hmachines, getStoi_isInt hpstate⟩ rfl

theorem keeps_handleSetJobMetadata (h : handleSetJobMetadata r date data = .ok r') : Keeps r r' := by
  obtain ⟨_, -, h⟩ := Execution.bind_eq_ok.1 h
  obtain ⟨text, -, h⟩ := Execution.bind_eq_ok.1 h
  obtain ⟨metadata, -, h⟩ := Execution.bind_eq_ok.1 h
  split at h
  · cases h
  · rename_i hquotes
    obtain ⟨jobId, hid, h⟩ := Execution.bind_eq_ok.1 h
    obtain rfl := Except.ok.inj h
    exact .send ⟨isJobIdentifier hid, hquotes⟩ rfl

theorem keeps_handleChangeJobState (h : handleChangeJobState r date data = .ok r') : Keeps r r' := by
  obtain ⟨_, -, h⟩ := Execution.bind_eq_ok.1 h
  obtain ⟨text, -, h⟩ := Execution.bind_eq_ok.1 h
  obtain ⟨jobState, -, h⟩ := Execution.bind_eq_ok.1 h
  split at h
  · cases h
  · rename_i hstate
    obtain ⟨jobId, hid, h⟩ := Execution.bind_eq_ok.1 h
    obtain rfl := Except.ok.inj h
    exact .send ⟨isJobIdentifier hid, not_not.1 hstate⟩ rfl

theorem keeps_handleToJobMsg (h : handleToJobMsg r date data = .ok r') : Keeps r r' := by
  obtain ⟨_, -, h⟩ := Execution.bind_eq_ok.1 h
  obtain ⟨text, -, h⟩ := Execution.bind_eq_ok.1 h
  obtain ⟨message, -, h⟩ := Execution.bind_eq_ok.1 h
  obtain ⟨jobId, hid, h⟩ := Execution.bind_eq_ok.1 h
  obtain rfl := Except.ok.inj h
  exact .send (isJobIdentifier hid) rfl

theorem keeps_handleRegisterJob (h : handleRegisterJob g r date data = .ok r') : Keeps r r' := by
  obtain ⟨_, -, h⟩ := Execution.bind_eq_ok.1 h
  obtain ⟨_, -, h⟩ := Execution.bind_eq_ok.1 h
  obtain ⟨jobId, hid, h⟩ := Execution.bind_eq_ok.1 h
  obtain ⟨text, -, hid⟩ := Execution.bind_eq_ok.1 hid
  obtain ⟨job, -, h⟩ := Execution.bind_eq_ok.1 h
  obtain ⟨members, hmembers, h⟩ := Execution.bind_eq_ok.1 h
  split at h
  · rename_i workloads hworkloads
    obtain rfl := Except.ok.inj h
    have hregistered : Keeps r { r with workloads := workloads } := .of_sent rfl rfl
    exact hregistered.trans (.send ⟨isJobIdentifier hid, members, congrArg simulatorText (getObject_eq_ok hmembers)⟩ rfl)
  · cases h

theorem keeps_handleRegisterProfile (h : handleRegisterProfile g r date data = .ok r') : Keeps r r' := by
  obtain ⟨_, -, h⟩ := Execution.bind_eq_ok.1 h
  obtain ⟨_, -, h⟩ := Execution.bind_eq_ok.1 h
  obtain ⟨workloadName, -, h⟩ := Execution.bind_eq_ok.1 h
  obtain ⟨profileName, -, h⟩ := Execution.bind_eq_ok.1 h
  obtain ⟨profile, -, h⟩ := Execution.bind_eq_ok.1 h
  obtain ⟨members, hmembers, h⟩ := Execution.bind_eq_ok.1 h
  split at h
  · rename_i workloads hworkloads
    obtain rfl := Except.ok.inj h
    have hregistered : Keeps r { r with workloads := workloads } := .of_sent rfl rfl
    exact hregistered.trans (.send ⟨members, congrArg simulatorText (getObject_eq_ok hmembers)⟩ rfl)
  · cases h

theorem keeps_handleKillJob (h : handleKillJob r date data = .ok r') : Keeps r r' := by
  obtain ⟨_, -, h⟩ := Execution.bind_eq_ok.1 h
  obtain ⟨values, -, h⟩ := Execution.bind_eq_ok.1 h
  split at h
  · cases h
  · rename_i hvalues
    obtain ⟨jobsMsgs, hmsgs, h⟩ := Execution.bind_eq_ok.1 h
    obtain rfl := Except.ok.inj h
    have hall := Execution.mapM_eq_ok.1 hmsgs
    refine .send ⟨?_, ?_⟩ rfl
    · rintro rfl
      exact hvalues (List.forall₂_nil_right_iff.1 hall)
    · intro msg hmsg
      obtain ⟨i, hi, rfl⟩ := List.getElem_of_mem hmsg
      exact of_getJobMsg (hall.get (by rw [hall.length_eq]; exact hi) hi)

theorem keeps_ite {c : Prop} [Decidable c] {x y : Except EventAbort (JsonProtocolReader ρ)} (hx : x = .ok r' → Keeps r r')
    (hy : y = .ok r' → Keeps r r') (h : (if c then x else y) = .ok r') : Keeps r r' := by
  split at h
  · exact hx h
  · exact hy h

theorem keeps_handleNotify (h : handleNotify r date data = .ok r') : Keeps r r' := by
  obtain ⟨_, -, h⟩ := Execution.bind_eq_ok.1 h
  obtain ⟨type, -, h⟩ := Execution.bind_eq_ok.1 h
  have hnotified : ∀ {α : Type} {x : Except EventAbort α} {f : α → Notified},
      (x >>= fun value => .ok { r with notified := f value }) = .ok r' → Keeps r r' := by
    intro α x f hx
    obtain ⟨value, -, hx⟩ := Execution.bind_eq_ok.1 hx
    obtain rfl := Except.ok.inj hx
    exact .of_sent rfl rfl
  have hsent : ∀ message : ServerMessage, message.WellFormed → message.isReady = false →
      .ok (r.sendMessageAtTime date message) = (.ok r' : Except EventAbort _) → Keeps r r' := by
    intro message hwell hready hmessage
    obtain rfl := Except.ok.inj hmessage
    exact .send hwell hready
  refine keeps_ite (hsent .endDynamicRegister trivial rfl) (keeps_ite (hsent .continueDynamicRegister trivial rfl)
    (keeps_ite hnotified (keeps_ite hnotified (keeps_ite hnotified (keeps_ite hnotified (keeps_ite hnotified (keeps_ite hnotified
    (keeps_ite (hsent (.schedCallMeLater _ _ _) ⟨by decide, by decide⟩ rfl)
    (keeps_ite (hsent (.schedCallMeLater _ _ _) ⟨by decide, by decide⟩ rfl) ?_))))))))) h
  intro hunknown
  cases hunknown

theorem keeps_handle {type : String} (h : handle t g r type date data = .ok r') : Keeps r r' := by
  refine keeps_ite keeps_handleQuery (keeps_ite keeps_handleAnswer (keeps_ite keeps_handleRejectJob
    (keeps_ite keeps_handleExecuteJob (keeps_ite keeps_handleChangeJobState (keeps_ite keeps_handleCallMeLater
    (keeps_ite keeps_handleKillJob (keeps_ite keeps_handleRegisterJob (keeps_ite keeps_handleRegisterProfile
    (keeps_ite keeps_handleSetResourceState (keeps_ite keeps_handleSetJobMetadata (keeps_ite keeps_handleNotify
    (keeps_ite keeps_handleToJobMsg ?_)))))))))))) h
  intro hunknown
  cases hunknown

theorem keeps_parseAndApplyEvent {now : ℚ} {event : JsonValue} (h : parseAndApplyEvent t g now r event = .ok r') : Keeps r r' := by
  unfold parseAndApplyEvent at h
  split at h
  · obtain ⟨timestamp, -, h⟩ := Execution.bind_eq_ok.1 h
    split at h
    · cases h
    · obtain ⟨type, -, h⟩ := Execution.bind_eq_ok.1 h
      obtain ⟨data, -, h⟩ := Execution.bind_eq_ok.1 h
      exact keeps_handle h
  · cases h

theorem keeps_parseAndApplyEvents {now : ℚ} {events : List JsonValue} {number : ℕ}
    (h : parseAndApplyEvents t g now number r events = .ok r') : Keeps r r' := by
  induction events generalizing number r with
  | nil => exact Except.ok.inj h ▸ ⟨id, rfl⟩
  | cons event events ih =>
    unfold parseAndApplyEvents at h
    split at h
    · rename_i next hnext
      exact (keeps_parseAndApplyEvent hnext).trans (ih h)
    · cases h

/-- A text that is read sends well-formed messages, and tells once that the scheduler is ready. -/
theorem readAt_step {message : ℚ × String} (hr : r.WellFormed) (hclock : r.clock ≤ message.1) (h : readAt t g r message = .ok r') :
    r'.WellFormed ∧ r'.nbReady = r.nbReady + 1 := by
  have hstart : { r with clock := message.1 }.WellFormed :=
    ⟨hr.messages, hr.sorted, fun other hother => (hr.past other hother).trans hclock⟩
  unfold readAt parseAndApplyMessage at h
  split at h
  · cases h
  · split at h
    · cases h
    · obtain ⟨last, hlast, rfl⟩ := Execution.map_eq_ok.1 h
      have hkeeps := keeps_parseAndApplyEvents hlast
      refine ⟨wellFormed_sendMessageAtTime (hkeeps.wellFormed hstart) trivial, ?_⟩
      rw [nbReady_sendMessageAtTime, hkeeps.nbReady]
      rfl

end AcceptedAux

section

variable {ρ : Type} (t : ProtocolTexts) (g : Registrar ρ)

/-- Whatever texts the simulator accepts at dates that do not go back, the server has got well-formed messages in the order of their
dates, and was told once for each text that the scheduler is ready. -/
theorem accepted_well_formed {r r' : JsonProtocolReader ρ} {messages : List (ℚ × String)} (hr : r.WellFormed)
    (hclock : Execution.AllSteps (readAt t g) (fun r message => r.clock ≤ message.1) r messages)
    (h : Execution.runFrom (readAt t g) r messages = .ok r') :
    r'.WellFormed ∧ r'.nbReady = r.nbReady + messages.length := by
  induction messages generalizing r with
  | nil =>
    obtain rfl := Except.ok.inj h
    exact ⟨hr, rfl⟩
  | cons message messages ih =>
    obtain ⟨next, hnext, hrest⟩ := Execution.of_runFrom_cons h
    obtain ⟨hwell, hcount⟩ := AcceptedAux.readAt_step hr hclock.1 hnext
    obtain ⟨hlast, hready⟩ := ih hwell (hclock.2 next hnext) hrest
    refine ⟨hlast, ?_⟩
    rw [hready, hcount, List.length_cons]
    omega

end

namespace ProtocolExample

/-- The text of the decisions of an exchange. -/
def textOf (e : Exchange) : String :=
  String.ofList (((written e).document (max e.messageDate (written e).lastDate)).write texts.print)

theorem written_eq {e : Exchange} {w : JsonProtocolWriter}
    (h : Execution.runFrom (JsonProtocolWriter.append texts) (JsonProtocolWriter.clear {}) e.decisions = .ok w) : written e = w := by
  unfold written
  rw [h]
  rfl

/-- Such a text is read as its decisions are handed over. -/
theorem readAt_textOf {e : Exchange} {r last : JsonProtocolReader (List String)} (he : e.Readable texts)
    (happend : Execution.runFrom (JsonProtocolWriter.append texts) (JsonProtocolWriter.clear {}) e.decisions = .ok (written e))
    (hfold : e.decisions.foldlM (handOver texts registrar) { r with clock := e.messageDate } = some last) :
    readAt texts registrar r (e.messageDate, textOf e) =
      .ok (last.sendMessageAtTime (max e.messageDate (written e).lastDate) .schedReady) := by
  have hread := ProtocolAux.parseAndApplyMessage_handOver (g := registrar) he.machines happend (if_pos (le_max_right _ _))
    (ProtocolAux.Readable.readsDoubles he readBack_start happend) { r with clock := e.messageDate }
  rw [hfold, Option.map_some] at hread
  change parseAndApplyMessage texts registrar { r with clock := e.messageDate } (textOf e) = _
  cases hmessage : parseAndApplyMessage texts registrar { r with clock := e.messageDate } (textOf e) with
  | error abort =>
    have hnone := (congrArg Except.toOption hmessage).symm.trans hread
    cases hnone
  | ok reader => exact congrArg Except.ok (Option.some.inj ((congrArg Except.toOption hmessage).symm.trans hread))

/-- The writer after the second exchange. -/
theorem appended_upon15 : Execution.runFrom (JsonProtocolWriter.append texts) (JsonProtocolWriter.clear {}) upon15.decisions =
    .ok (written upon15) ∧ (written upon15).lastDate = 15 := by
  have hdata := data_register "d!1"
  have hfirst := (@ProtocolAux.append_eq_ok texts (JsonProtocolWriter.clear {}) _ (15, register "d!1")).2
    ⟨by norm_num [JsonProtocolWriter.clear], _, hdata, rfl⟩
  have hall := (Execution.runFrom_cons_ok hfirst _).trans (Execution.runFrom_cons_ok
    ((@ProtocolAux.append_eq_ok texts _ _ (15, .schedulerFinishedSubmittingJobs)).2 ⟨le_rfl, _, rfl, rfl⟩) [])
  have hwritten := @written_eq upon15 _ hall
  exact ⟨hall.trans (congrArg Except.ok hwritten.symm), congrArg JsonProtocolWriter.lastDate hwritten⟩

end ProtocolExample

open ProtocolExample in
/-- Two texts are read: a job is executed and another one rejected, and then a job is registered. -/
theorem accepted_well_formed_example : ∃ last : JsonProtocolReader (List String),
    Execution.runFrom (readAt texts registrar) start [(10, textOf upon10), (15, textOf upon15)] = .ok last ∧
      last.sent = [(10, .schedExecuteJob "w0!1" {2} [0, 0]), (12, .schedRejectJob "w0!2"), (12, .schedReady),
        (15, .jobRegisteredByDP "d!1" description), (15, .endDynamicRegister), (15, .schedReady)] ∧
      last.WellFormed ∧ last.nbReady = 0 + 2 := by
  have hlast : max upon10.messageDate (written upon10).lastDate = 12 := by
    rw [show (written upon10).lastDate = 12 from rfl]
    norm_num [upon10]
  have hfirst := readAt_textOf (r := start) readable_upon10 appended_upon10 (handed_over (List.mem_singleton_self _))
  have hthen := readAt_textOf (r := after10) readable_upon15 appended_upon15.1 (handed_over_upon15 (by decide) rfl)
  have hafter : (({ start with clock := upon10.messageDate }.sendMessageAtTime 10
      (.schedExecuteJob "w0!1" {2} [0, 0])).sendMessageAtTime 12 (.schedRejectJob "w0!2")).sendMessageAtTime 12 .schedReady =
      after10 := by
    norm_num [sendMessageAtTime, finishedAfter, upon10, start, after10]
  rw [hlast, hafter] at hfirst
  have hread : Execution.runFrom (readAt texts registrar) start [(10, textOf upon10), (15, textOf upon15)] = .ok _ :=
    (Execution.runFrom_cons_ok hfirst _).trans (Execution.runFrom_cons_ok hthen [])
  refine ⟨_, hread, ?_, accepted_well_formed texts registrar ⟨by simp [start], by simp [start], by simp [start]⟩ ?_ hread⟩
  · rw [appended_upon15.2]
    norm_num [sendMessageAtTime, upon15, after10, start]
  · refine ⟨by norm_num [start], fun next hnext => ⟨?_, fun _ _ => trivial⟩⟩
    obtain rfl := Except.ok.inj (hfirst.symm.trans hnext)
    norm_num [after10]

end ScheduleTest
