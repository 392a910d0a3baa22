import ScheduleTest.Lemmas.ServerLife

/-!
# What the handlers leave as it is

The handlers exchange no message with the scheduler and take none from the mailbox, and they count every job that begins to run,
ends or completes. So the server and the scheduler take turns: while the server has sent a message that is not answered, or decisions of
the answer are left to hand over, the scheduler is not ready.
-/

namespace ScheduleTest.ServerData

variable {data data' data'' : ServerData} {id : String}

/-- The messages are as they were, and the counters have changed with the jobs. -/
structure Frame (data data' : ServerData) : Prop where
  mailbox : data'.mailbox = data.mailbox
  schedReady : data'.schedReady = data.schedReady
  sent : data'.sent = data.sent
  answer : data'.answer = data.answer
  completed : data'.nbCompletedJobs - data'.accounts.completed.length = data.nbCompletedJobs - data.accounts.completed.length
  running : data'.nbRunningJobs - data'.accounts.startedRunning.length + data'.accounts.stoppedRunning.length =
    data.nbRunningJobs - data.accounts.startedRunning.length + data.accounts.stoppedRunning.length

namespace Frame

theorem refl (data : ServerData) : Frame data data := ⟨rfl, rfl, rfl, rfl, rfl, rfl⟩

theorem trans (h : Frame data data') (h' : Frame data' data'') : Frame data data'' :=
  ⟨h'.mailbox.trans h.mailbox, h'.schedReady.trans h.schedReady, h'.sent.trans h.sent, h'.answer.trans h.answer,
    h'.completed.trans h.completed, h'.running.trans h.running⟩

theorem setJob (id : String) (job : ServerJob) : Frame data (data.setJob id job) := ⟨rfl, rfl, rfl, rfl, rfl, rfl⟩

theorem append (events : List ProtoEvent) : Frame data (data.append events) := ⟨rfl, rfl, rfl, rfl, rfl, rfl⟩

theorem complete (id : String) : Frame data (data.complete id) :=
  ⟨rfl, rfl, rfl, rfl, by simp [ServerData.complete], rfl⟩

theorem startRunning (h : data.startRunning id = .ok data') : Frame data data' := by
  simp only [ServerData.startRunning] at h
  split at h <;> cases h
  exact ⟨rfl, rfl, rfl, rfl, rfl, by simp⟩

theorem endRunning (h : data.endRunning id = .ok data') : Frame data data' := by
  simp only [ServerData.endRunning] at h
  split at h
  · cases h
  · split at h <;> cases h
    exact ⟨rfl, rfl, rfl, rfl, by simp [ServerData.complete], by simp [ServerData.complete]; omega⟩

theorem submitJobs (ids : List String) : Frame data (ids.foldl submitJob data) := by
  induction ids generalizing data with
  | nil => exact refl data
  | cons id ids ih =>
    have hfirst : Frame data (data.submitJob id) := ⟨rfl, rfl, rfl, rfl, rfl, rfl⟩
    exact hfirst.trans ih

theorem accountKilled {msg : KillMessage} (h : data.accountKilled msg = .ok data') : Frame data data' := by
  simp only [ServerData.accountKilled] at h
  split at h
  · cases h
  split at h
  · obtain ⟨data₁, h₁, rfl⟩ := Execution.map_eq_ok.1 h
    exact (endRunning h₁).trans ⟨rfl, rfl, rfl, rfl, rfl, rfl⟩
  · exact Except.ok.inj h ▸ refl data

theorem onKillingDone {msgs : List KillMessage} (h : data.onKillingDone msgs = .ok data') : Frame data data' := by
  obtain ⟨data₁, h₁, rfl⟩ := Execution.map_eq_ok.1 h
  have hloop : Frame data data₁ := Execution.runFrom_invariant (I := Frame data) (C := fun _ _ => True)
    (fun _ _ _ hs _ hstep => hs.trans (accountKilled hstep)) (refl data) (Execution.allSteps_of_forall fun _ _ => trivial) h₁
  exact hloop.trans ⟨rfl, rfl, rfl, rfl, rfl, rfl⟩

theorem onExecuteJob (h : data.onExecuteJob id = .ok data') : Frame data data' := by
  simp only [ServerData.onExecuteJob] at h
  split at h
  · cases h
  split at h
  · cases h
  obtain ⟨data₁, h₁, rfl⟩ := Execution.map_eq_ok.1 h
  exact (startRunning h₁).trans ⟨rfl, rfl, rfl, rfl, rfl, rfl⟩

theorem onRejectJob (h : data.onRejectJob id = .ok data') : Frame data data' := by
  simp only [ServerData.onRejectJob] at h
  split at h
  · cases h
  split at h <;> cases h
  exact (setJob id _).trans (complete id)

theorem onKillJobs {ids : List String} (h : data.onKillJobs ids = .ok data') : Frame data data' := by
  obtain ⟨⟨data₁, toKill⟩, h₁, rfl⟩ := Execution.map_eq_ok.1 h
  have hloop : Frame data data₁ := Execution.runFrom_invariant (I := fun r => Frame data r.1) (C := fun _ _ => True)
    (fun r id r' hs _ hstep => by
      simp only [requestKill] at hstep
      split at hstep
      · cases hstep
      split at hstep
      · cases hstep
        exact hs
      split at hstep <;> cases hstep
      exact hs.trans (setJob id _))
    (refl data) (Execution.allSteps_of_forall fun _ _ => trivial) h₁
  by_cases hnone : toKill = []
  · simpa [hnone] using hloop
  · simp only [hnone, if_false]
    exact hloop.trans ⟨rfl, rfl, rfl, rfl, rfl, rfl⟩

theorem onChangeJobState {newState : JobState} (h : data.onChangeJobState id newState = .ok data') : Frame data data' := by
  simp only [ServerData.onChangeJobState] at h
  split at h
  · cases h
  obtain ⟨data₁, h₁, rfl⟩ := Execution.map_eq_ok.1 h
  have hcount : Frame data data₁ := by
    split at h₁
    · exact startRunning h₁
    · split at h₁ <;> cases h₁
      exact complete id
    all_goals first | exact endRunning h₁ | cases h₁
  exact hcount.trans ⟨rfl, rfl, rfl, rfl, rfl, rfl⟩

/-- The handlers, but for that of SCHED_READY. -/
theorem handle {message : IPMessage} (hready : message ≠ .schedReady) (h : data.handle message = .ok data') :
    Frame data data' := by
  cases message with
  | jobSubmitted jobs => exact Except.ok.inj h ▸ submitJobs jobs
  | jobRegisteredByDP id =>
    simp only [ServerData.handle, ServerData.onRegisterJob] at h
    split at h <;> cases h
    exact ⟨rfl, rfl, rfl, rfl, rfl, rfl⟩
  | jobCompleted id =>
    obtain ⟨data₁, h₁, rfl⟩ := Execution.map_eq_ok.1 h
    exact (endRunning h₁).trans (append _)
  | fromJobMsg id =>
    obtain ⟨_, _, rfl⟩ := Execution.map_eq_ok.1 h
    exact append _
  | killingDone msgs => exact onKillingDone h
  | schedExecuteJob id => exact onExecuteJob h
  | schedRejectJob id => exact onRejectJob h
  | schedKillJob ids => exact onKillJobs h
  | schedChangeJobState id newState => exact onChangeJobState h
  | schedSetJobMetadata id =>
    obtain ⟨_, _, rfl⟩ := Execution.map_eq_ok.1 h
    exact refl data
  | toJobMsg id =>
    obtain ⟨_, _, rfl⟩ := Execution.map_eq_ok.1 h
    exact refl data
  | schedReady => exact absurd rfl hready
  | other => exact Except.ok.inj h ▸ append _

end Frame

/-! ## Turns -/

/-- The server and the scheduler take turns, and only the processes send messages to the mailbox. -/
structure Turns (data : ServerData) : Prop where
  ready : data.schedReady → data.sent = none ∧ data.answer = []
  answering : data.answer ≠ [] → data.sent = none
  answer : data.answer = [] ∨ ∃ decisions, data.answer = decisions ++ [.schedReady] ∧ ∀ decision ∈ decisions, decision.isDecision
  mailbox : ∀ message ∈ data.mailbox, message ≠ .schedReady ∧ (message.isDecision → message = .other)
  /-- The counters count the jobs that are noted. -/
  nbCompletedJobs : data.nbCompletedJobs = data.accounts.completed.length
  nbRunningJobs : data.nbRunningJobs = data.accounts.startedRunning.length - data.accounts.stoppedRunning.length

namespace Turns

theorem initial (jobs : Finset String) : (ServerData.initial jobs).Turns :=
  ⟨by simp [ServerData.initial], by simp [ServerData.initial], .inl rfl, by simp [ServerData.initial], rfl, rfl⟩

/-- What leaves the messages as they are leaves the turns as they are. -/
theorem frame (h : data.Turns) (hf : Frame data data') : data'.Turns := by
  obtain ⟨hmailbox, hready, hsent, hanswer, hcompleted, hrunning⟩ := hf
  refine ⟨?_, ?_, ?_, ?_, ?_, ?_⟩
  · rw [hready, hsent, hanswer]
    exact h.ready
  · rw [hsent, hanswer]
    exact h.answering
  · rw [hanswer]
    exact h.answer
  · rw [hmailbox]
    exact h.mailbox
  · have := h.nbCompletedJobs
    omega
  · have := h.nbRunningJobs
    omega

theorem deleteAll {ids : List String} (h : data.Turns) (hd : Execution.runFrom deleteJob data ids = .ok data') :
    data'.Turns :=
  Execution.runFrom_invariant (I := Turns) (C := fun _ _ => True)
    (fun _ _ _ hs _ hstep => by
      simp only [deleteJob] at hstep
      split at hstep <;> cases hstep
      exact hs.frame ⟨rfl, rfl, rfl, rfl, rfl, rfl⟩)
    h (Execution.allSteps_of_forall fun _ _ => trivial) hd

theorem sendIfNeeded (h : data.Turns) (hs : data.sendIfNeeded = .ok data') : data'.Turns := by
  simp only [ServerData.sendIfNeeded] at hs
  split at hs
  · rename_i hsend
    obtain ⟨data₁, h₁, rfl⟩ := Execution.map_eq_ok.1 hs
    have hanswer := (h.ready hsend.1).2
    have hsent : data.generateAndSendMessage.Turns :=
      ⟨by simp [generateAndSendMessage], by simp [generateAndSendMessage, hanswer], .inl hanswer, h.mailbox,
        h.nbCompletedJobs, h.nbRunningJobs⟩
    exact (hsent.deleteAll h₁).frame ⟨rfl, rfl, rfl, rfl, rfl, rfl⟩
  · exact Except.ok.inj hs ▸ h

/-- The server handles a message from a process. -/
theorem handleMessage {n : ℕ} {message : IPMessage} (h : data.Turns) (hget : data.mailbox[n]? = some message)
    (hh : { data with mailbox := data.mailbox.eraseIdx n }.handle message = .ok data') : data'.Turns := by
  have htaken : ({ data with mailbox := data.mailbox.eraseIdx n } : ServerData).Turns :=
    ⟨h.ready, h.answering, h.answer, fun m hm => h.mailbox m (List.mem_of_mem_eraseIdx hm), h.nbCompletedJobs, h.nbRunningJobs⟩
  exact htaken.frame (Frame.handle (h.mailbox message (List.mem_of_getElem? hget)).1 hh)

/-- The server handles what comes next of the answer. Only SCHED_READY, at its end, makes the scheduler ready. -/
theorem handleDecision {decision : IPMessage} {answer : List IPMessage} (h : data.Turns)
    (hanswer : data.answer = decision :: answer) (hh : { data with answer := answer }.handle decision = .ok data') :
    data'.Turns := by
  have hsent : data.sent = none := h.answering (by simp [hanswer])
  have hnot : ¬ data.schedReady := fun hready => by simpa [hanswer] using (h.ready hready).2
  obtain hnil | ⟨decisions, heq, hmem⟩ := h.answer
  · simp [hanswer] at hnil
  rw [hanswer] at heq
  by_cases hlast : decision = .schedReady
  · subst hlast
    have hnil : answer = [] := by
      cases decisions with
      | nil => simpa using heq
      | cons d ds =>
        have hd := hmem d List.mem_cons_self
        rw [← (List.cons.inj heq).1] at hd
        cases hd
    subst hnil
    cases hh
    exact ⟨fun _ => ⟨hsent, rfl⟩, by simp, .inl rfl, h.mailbox, h.nbCompletedJobs, h.nbRunningJobs⟩
  · have hrest : ∃ ds, answer = ds ++ [.schedReady] ∧ ∀ d ∈ ds, d.isDecision := by
      cases decisions with
      | nil => exact absurd (List.cons.inj heq).1 hlast
      | cons d ds => exact ⟨ds, (List.cons.inj heq).2, fun d' hin => hmem d' (List.mem_cons_of_mem _ hin)⟩
    have hturns : ({ data with answer := answer } : ServerData).Turns :=
      ⟨fun hready => absurd hready hnot, fun _ => hsent, .inr hrest, h.mailbox, h.nbCompletedJobs, h.nbRunningJobs⟩
    exact hturns.frame (Frame.handle hlast hh)

/-- What comes next of the answer is a decision or SCHED_READY. -/
theorem isDecision_of_answer {decision : IPMessage} {answer : List IPMessage} (h : data.Turns)
    (hanswer : data.answer = decision :: answer) : decision.isDecision ∨ decision = .schedReady := by
  obtain hnil | ⟨decisions, heq, hmem⟩ := h.answer
  · simp [hanswer] at hnil
  · have hin : decision ∈ decisions ++ [.schedReady] := heq ▸ hanswer ▸ List.mem_cons_self
    rcases List.mem_append.1 hin with hin | hin
    · exact .inl (hmem decision hin)
    · exact .inr (List.mem_singleton.1 hin)

/-- A message of a process that waits for the server. -/
theorem push {message : IPMessage} (h : data.Turns) (hf : Frame data { data' with mailbox := data.mailbox })
    (hm : data'.mailbox = data.mailbox ++ [message])
    (hmessage : message ≠ .schedReady ∧ (message.isDecision → message = .other)) : data'.Turns := by
  have hturns := h.frame hf
  refine ⟨hturns.ready, hturns.answering, hturns.answer, fun m hin => ?_, hturns.nbCompletedJobs, hturns.nbRunningJobs⟩
  rw [hm, List.mem_append, List.mem_singleton] at hin
  rcases hin with hin | rfl
  · exact h.mailbox m hin
  · exact hmessage

theorem decide {decisions : List IPMessage} (h : data.Turns) (hd : data.decide decisions = .ok data') : data'.Turns := by
  simp only [ServerData.decide] at hd
  split at hd
  · cases hd
  rename_i events hsent
  split at hd
  · rename_i hall
    obtain ⟨killed, -, rfl⟩ := Execution.map_eq_ok.1 hd
    have hnot : ¬ data.schedReady := fun hready => by simp [(h.ready hready).1] at hsent
    refine ⟨fun hready => absurd hready hnot, fun _ => rfl, .inr ⟨decisions, rfl, List.all_eq_true.1 hall⟩, h.mailbox,
      h.nbCompletedJobs, h.nbRunningJobs⟩
  · cases hd

theorem killNext {n : ℕ} {progress : Option ℚ} (h : data.Turns) (hk : data.killNext n progress = .ok data') :
    data'.Turns := by
  simp only [ServerData.killNext] at hk
  split at hk
  · obtain ⟨data₁, h₁, rfl⟩ := Execution.map_eq_ok.1 hk
    rcases killJob_cases h₁ with ⟨-, -, rfl⟩ | ⟨-, rfl⟩
    · refine h.frame ⟨rfl, rfl, rfl, rfl, ?_, ?_⟩ <;> dsimp only [setJob] <;> split <;> rfl
    · exact h.frame ⟨rfl, rfl, rfl, rfl, rfl, rfl⟩
  · cases hk

theorem killingDone {n : ℕ} (h : data.Turns) (hk : data.killingDone n = .ok data') : data'.Turns := by
  simp only [ServerData.killingDone] at hk
  split at hk <;> cases hk
  exact h.push ⟨rfl, rfl, rfl, rfl, rfl, rfl⟩ rfl ⟨by simp, by simp [IPMessage.isDecision]⟩

theorem jobEnds {returnCode : ℤ} (h : data.Turns) (he : data.jobEnds id returnCode = .ok data') : data'.Turns := by
  simp only [ServerData.jobEnds] at he
  split at he <;> cases he
  exact h.push ⟨rfl, rfl, rfl, rfl, rfl, rfl⟩ rfl ⟨by simp, by simp [IPMessage.isDecision]⟩

theorem post {message : IPMessage} (h : data.Turns) (hp : data.post message = .ok data') : data'.Turns := by
  cases message with
  | fromJobMsg id =>
    simp only [ServerData.post] at hp
    split at hp <;> cases hp
    exact h.push ⟨rfl, rfl, rfl, rfl, rfl, rfl⟩ rfl ⟨by simp, by simp [IPMessage.isDecision]⟩
  | jobSubmitted ids =>
    simp only [ServerData.post] at hp
    split at hp <;> cases hp
    exact h.push ⟨rfl, rfl, rfl, rfl, rfl, rfl⟩ rfl ⟨by simp, by simp [IPMessage.isDecision]⟩
  | other =>
    cases hp
    exact h.push ⟨rfl, rfl, rfl, rfl, rfl, rfl⟩ rfl ⟨by simp, by simp [IPMessage.isDecision]⟩
  | _ => cases hp

end Turns

/-! ## What happens next -/

/-- What a step is: the server receives a message of a process or a decision, or something happens elsewhere. -/
theorem step_receive {n : ℕ} (h : data.step (.receive n) = .ok data') :
    ∃ message data₁, data.killers = [] ∧ data.mailbox[n]? = some message ∧
      { data with mailbox := data.mailbox.eraseIdx n }.handle message = .ok data₁ ∧ data₁.sendIfNeeded = .ok data' := by
  simp only [step] at h
  split at h
  · rename_i message hkillers hget
    simp only [receive] at h
    split at h
    · rename_i data₁ h₁
      exact ⟨message, data₁, hkillers, hget, h₁, h⟩
    · cases h
  · cases h

theorem step_receiveDecision (h : data.step .receiveDecision = .ok data') :
    ∃ decision answer data₁, data.killers = [] ∧ data.answer = decision :: answer ∧
      { data with answer := answer }.handle decision = .ok data₁ ∧ data₁.sendIfNeeded = .ok data' := by
  simp only [step] at h
  split at h
  · rename_i decision answer hkillers hanswer
    simp only [receive] at h
    split at h
    · rename_i data₁ h₁
      exact ⟨decision, answer, data₁, hkillers, hanswer, h₁, h⟩
    · cases h
  · cases h

/-- The server and the scheduler take turns all along. -/
theorem Turns.step {event : ServerEvent} (h : data.Turns) (hs : data.step event = .ok data') : data'.Turns := by
  cases event with
  | receive n =>
    obtain ⟨message, data₁, -, hget, h₁, h₂⟩ := step_receive hs
    exact (h.handleMessage hget h₁).sendIfNeeded h₂
  | receiveDecision =>
    obtain ⟨decision, answer, data₁, -, hanswer, h₁, h₂⟩ := step_receiveDecision hs
    exact (h.handleDecision hanswer h₁).sendIfNeeded h₂
  | decide decisions => exact h.decide hs
  | killNext n progress => exact h.killNext hs
  | killingDone n => exact h.killingDone hs
  | workEnds id =>
    simp only [ServerData.step] at hs
    split at hs <;> cases hs
    exact h.frame (Frame.setJob id _)
  | jobEnds id returnCode => exact h.jobEnds hs
  | post message => exact h.post hs

end ScheduleTest.ServerData
