import ScheduleTest.Lemmas.JobLife

/-!
# The server and the lives of the jobs

Whatever the server, the scheduler and the processes do, the life of every job takes a step or does not change, as long as the
scheduler does not change the state of a job that is executed.
-/

namespace ScheduleTest

namespace IPMessage

/-- The jobs that a message submits. -/
def submittedIn : IPMessage → List String
  | jobSubmitted jobs => jobs
  | _ => []

/-- The job that a message says has completed. -/
def completedIn : IPMessage → List String
  | jobCompleted job => [job]
  | _ => []

/-- The jobs whose kill a message acknowledges. -/
def killedIn : IPMessage → List String
  | killingDone jobsMsgs => jobsMsgs.map KillMessage.id
  | _ => []

end IPMessage

/-- The jobs that a killer has come to. -/
def Killer.killedIn (killer : Killer) : List String := killer.killed.map KillMessage.id

/-- The jobs that an event says have been killed. -/
def ProtoEvent.killedIn (event : ProtoEvent) : List String := event.killedOf.map KillMessage.id

namespace ServerData

variable {data data' : ServerData} {id i : String}

/-- The life of a job. -/
def life (data : ServerData) (id : String) : JobLife where
  job := data.job id
  met := id ∈ data.jobsMet
  toSubmit := data.toSubmit.val.count id + (data.mailbox.flatMap IPMessage.submittedIn).count id
  completions := (data.mailbox.flatMap IPMessage.completedIn).count id
  kills := (data.killers.flatMap Killer.jobsMsgs).count id
  acks := (data.killers.flatMap Killer.killedIn).count id + (data.mailbox.flatMap IPMessage.killedIn).count id
  written := (data.protoWriter.flatMap ProtoEvent.killedIn).count id +
    ((data.sent.getD []).flatMap ProtoEvent.killedIn).count id
  resubmitted := data.accounts.resubmitted.count id
  executed := data.accounts.executed.count id
  changed := data.accounts.changed.count id
  started := data.accounts.startedRunning.count id
  ended := data.accounts.stoppedRunning.count id
  completed := data.accounts.completed.count id
  stopped := data.accounts.stopped.count id

/-- A message that has been taken is still on its way. -/
def holding (data : ServerData) (message : IPMessage) : ServerData := { data with mailbox := message :: data.mailbox }

/-- The life of every job takes a step, or does not change. -/
def Moves (effective : Prop) (data data' : ServerData) : Prop :=
  ∀ id, data'.life id = data.life id ∨ JobLife.Step effective (data.life id) (data'.life id)

/-! ## What the parts of the handlers do to a life -/

theorem life_setJob (job : ServerJob) :
    (data.setJob id job).life i = { data.life i with job := if i = id then job else data.job i } := by
  by_cases h : i = id <;> simp [life, setJob, h]

theorem life_append (events : List ProtoEvent) :
    (data.append events).life i =
      { data.life i with written := (data.life i).written + (events.flatMap ProtoEvent.killedIn).count i } := by
  simp [life, append]
  omega

theorem life_complete :
    (data.complete id).life i = { data.life i with completed := (data.life i).completed + [id].count i } := by
  simp [life, complete]

theorem life_startRunning (h : data.startRunning id = .ok data') :
    data'.life i = { data.life i with started := (data.life i).started + [id].count i } ∧ data'.job = data.job := by
  simp only [startRunning] at h
  split at h <;> cases h
  simp [life]

theorem life_endRunning (h : data.endRunning id = .ok data') :
    data'.life i = { data.life i with
      ended := (data.life i).ended + [id].count i, completed := (data.life i).completed + [id].count i } ∧
      data'.job = data.job := by
  simp only [endRunning] at h
  split at h
  · cases h
  · split at h <;> cases h
    simp [life, complete]

theorem life_holding (message : IPMessage) :
    (data.holding message).life i = { data.life i with
      toSubmit := message.submittedIn.count i + (data.life i).toSubmit
      completions := message.completedIn.count i + (data.life i).completions
      acks := message.killedIn.count i + (data.life i).acks } := by
  simp [life, holding]
  omega

/-- A decision does not count. -/
theorem life_holding_decision {decision : IPMessage} (h : decision.isDecision ∨ decision = .schedReady) :
    (data.holding decision).life i = data.life i := by
  have hnone : decision.submittedIn = [] ∧ decision.completedIn = [] ∧ decision.killedIn = [] := by
    cases decision <;> simp_all [IPMessage.isDecision, IPMessage.submittedIn, IPMessage.completedIn, IPMessage.killedIn]
  rw [life_holding, hnone.1, hnone.2.1, hnone.2.2]
  simp

theorem Moves.of_decision {effective : Prop} {decision : IPMessage} (answer : List IPMessage)
    (h : decision.isDecision ∨ decision = .schedReady)
    (hmoves : Moves effective ({ data with answer := answer }.holding decision) data') : Moves effective data data' := fun i => by
  have hlife : ({ data with answer := answer }.holding decision).life i = data.life i := life_holding_decision h
  have hmove := hmoves i
  rwa [hlife] at hmove

/-! ## What a handler does to a life -/

theorem life_foldl_submitJob (ids : List String) :
    (ids.foldl submitJob data).life i = { data.life i with
      job := if i ∈ ids then { data.job i with state := .submitted } else data.job i } := by
  induction ids generalizing data with
  | nil => simp [life]
  | cons id ids ih =>
    rw [List.foldl_cons, ih]
    by_cases h : i = id <;> simp [submitJob, life, setJob, append, ProtoEvent.killedIn, ProtoEvent.killedOf, h]

theorem moves_jobSubmitted (effective : Prop) (ids : List String) :
    Moves effective (data.holding (.jobSubmitted ids)) (ids.foldl submitJob data) := by
  intro i
  rw [life_foldl_submitJob, life_holding]
  by_cases hi : i ∈ ids
  · have hcount : 0 < ids.count i := List.count_pos_iff.2 hi
    exact .inr (.submit _ (ids.count i) (data.life i).toSubmit hcount rfl (by
      simp [hi, life, IPMessage.completedIn, IPMessage.killedIn]))
  · left
    simp [hi, life, IPMessage.submittedIn, IPMessage.completedIn, IPMessage.killedIn, List.count_eq_zero_of_not_mem hi]

theorem moves_onRegisterJob (effective : Prop) (h : data.onRegisterJob id = .ok data') : Moves effective data data' := by
  intro i
  simp only [onRegisterJob] at h
  split at h
  · cases h
  rename_i hnew
  cases h
  by_cases hi : i = id
  · subst hi
    exact .inr (.register _ hnew (by simp [life, setJob, append, ProtoEvent.killedIn, ProtoEvent.killedOf]))
  · left
    simp [life, setJob, append, ProtoEvent.killedIn, ProtoEvent.killedOf, hi]

theorem moves_onJobCompleted (effective : Prop) (h : data.onJobCompleted id = .ok data') :
    Moves effective (data.holding (.jobCompleted id)) data' := by
  intro i
  obtain ⟨data₁, h₁, rfl⟩ := Execution.map_eq_ok.1 h
  obtain ⟨hlife, -⟩ := life_endRunning (i := i) h₁
  rw [life_append, hlife, life_holding]
  by_cases hi : i = id
  · subst hi
    exact .inr (.complete _ (data.life i).completions (by simp [IPMessage.completedIn, Nat.add_comm]) (by
      simp [life, IPMessage.submittedIn, IPMessage.killedIn, ProtoEvent.killedIn, ProtoEvent.killedOf]))
  · left
    have hid : id ≠ i := fun h => hi h.symm
    simp [life, IPMessage.submittedIn, IPMessage.completedIn, IPMessage.killedIn, ProtoEvent.killedIn, ProtoEvent.killedOf, hid]

theorem jobAt_eq_ok {job : ServerJob} (h : data.jobAt id = .ok job) : id ∈ data.jobs ∧ job = data.job id := by
  simp only [jobAt] at h
  split at h <;> cases h
  exact ⟨‹_›, rfl⟩

theorem registeredJobAt_eq_ok {job : ServerJob} (h : data.registeredJobAt id = .ok job) :
    id ∈ data.jobs ∧ job = data.job id := by
  simp only [registeredJobAt] at h
  split at h
  · exact jobAt_eq_ok h
  · cases h

/-- A job that is acknowledged is counted if it has been killed. -/
theorem life_accountKilled {msg : KillMessage} (h : data.accountKilled msg = .ok data') :
    data'.life i = { data.life i with
      ended := if (data.job i).state = .completedKilled then (data.life i).ended + [msg.id].count i else (data.life i).ended
      completed := if (data.job i).state = .completedKilled then (data.life i).completed + [msg.id].count i
        else (data.life i).completed } ∧ data'.job = data.job := by
  simp only [accountKilled] at h
  split at h
  · cases h
  rename_i job hjob
  obtain ⟨-, rfl⟩ := jobAt_eq_ok hjob
  by_cases hi : msg.id = i
  · subst hi
    split at h
    · rename_i hkilled
      obtain ⟨data₁, h₁, rfl⟩ := Execution.map_eq_ok.1 h
      obtain ⟨hlife, hjob₁⟩ := life_endRunning (i := msg.id) h₁
      refine ⟨?_, hjob₁⟩
      simpa [hkilled, life, append, ProtoEvent.killedIn, ProtoEvent.killedOf] using hlife
    · rename_i hnot
      cases h
      simp [hnot]
  · split at h
    · obtain ⟨data₁, h₁, rfl⟩ := Execution.map_eq_ok.1 h
      obtain ⟨hlife, hjob₁⟩ := life_endRunning (i := i) h₁
      refine ⟨?_, hjob₁⟩
      simpa [hi, life, append, ProtoEvent.killedIn, ProtoEvent.killedOf] using hlife
    · cases h
      simp [hi]

/-- What the loop of `server_on_killing_done` does. -/
theorem life_accountAllKilled {msgs : List KillMessage} (h : Execution.runFrom accountKilled data msgs = .ok data') :
    data'.life i = { data.life i with
      ended := if (data.job i).state = .completedKilled then (data.life i).ended + (msgs.map KillMessage.id).count i
        else (data.life i).ended
      completed := if (data.job i).state = .completedKilled then
        (data.life i).completed + (msgs.map KillMessage.id).count i else (data.life i).completed } ∧
      data'.job = data.job := by
  induction msgs generalizing data with
  | nil =>
    obtain rfl : data = data' := Except.ok.inj h
    simp
  | cons msg msgs ih =>
    obtain ⟨data₁, h₁, h₂⟩ := Execution.of_runFrom_cons h
    obtain ⟨hlife₁, hjob₁⟩ := life_accountKilled (i := i) h₁
    obtain ⟨hlife₂, hjob₂⟩ := ih h₂
    refine ⟨?_, hjob₂.trans hjob₁⟩
    rw [hlife₂, hlife₁, hjob₁]
    by_cases hkilled : (data.job i).state = .completedKilled
    · simp only [hkilled, if_true, List.map_cons, List.count_cons, List.count_nil, Nat.zero_add]
      simp [Nat.add_assoc, Nat.add_comm (List.count i _)]
    · simp [hkilled]

theorem moves_onKillingDone (effective : Prop) {msgs : List KillMessage} (h : data.onKillingDone msgs = .ok data') :
    Moves effective (data.holding (.killingDone msgs)) data' := by
  intro i
  obtain ⟨data₁, h₁, rfl⟩ := Execution.map_eq_ok.1 h
  obtain ⟨hlife, hjob⟩ := life_accountAllKilled (i := i) h₁
  right
  change JobLife.Step effective _ ((data₁.append [.jobKilled msgs]).life i)
  rw [life_append, hlife, life_holding]
  exact .acknowledge _ ((msgs.map KillMessage.id).count i) (data.life i).acks (by simp [IPMessage.killedIn]) (by
    by_cases hkilled : (data.job i).state = .completedKilled <;>
      simp [life, hkilled, IPMessage.submittedIn, IPMessage.completedIn, ProtoEvent.killedIn, ProtoEvent.killedOf])

theorem moves_onExecuteJob (effective : Prop) (h : data.onExecuteJob id = .ok data') : Moves effective data data' := by
  intro i
  simp only [onExecuteJob] at h
  split at h
  · cases h
  rename_i job hjob
  obtain ⟨-, rfl⟩ := jobAt_eq_ok hjob
  split at h
  · cases h
  rename_i hs
  obtain ⟨data₁, h₁, rfl⟩ := Execution.map_eq_ok.1 h
  simp only [startRunning] at h₁
  split at h₁ <;> cases h₁
  by_cases hi : i = id
  · subst hi
    exact .inr (.execute _ (by simpa [life] using hs) (by simp [life, setJob]))
  · left
    have hid : id ≠ i := fun h => hi h.symm
    simp [life, setJob, hi, hid]

/-- What the loop of `server_on_kill_jobs` does. -/
theorem life_requestKill {ids toKill : List String} {r : ServerData × List String}
    (h : Execution.runFrom requestKill (data, toKill) ids = .ok r) (i : String) :
    ∃ n : ℕ, r.2.count i = toKill.count i + n ∧ (n = 0 ∧ r.1.life i = data.life i ∨
      n = 1 ∧ (data.job i).killRequested = false ∧ ((data.job i).state = .running ∨ (data.job i).state.isComplete) ∧
        r.1.life i = { data.life i with job := { data.job i with killRequested := true } }) := by
  induction ids generalizing data toKill with
  | nil =>
    obtain rfl : (data, toKill) = r := Except.ok.inj h
    exact ⟨0, rfl, .inl ⟨rfl, rfl⟩⟩
  | cons id ids ih =>
    obtain ⟨⟨data₁, toKill₁⟩, h₁, h₂⟩ := Execution.of_runFrom_cons h
    obtain ⟨n, hn, hlife⟩ := ih h₂
    simp only [requestKill] at h₁
    split at h₁
    · cases h₁
    rename_i job hjob
    obtain ⟨-, rfl⟩ := registeredJobAt_eq_ok hjob
    split at h₁
    · cases h₁
      exact ⟨n, hn, hlife⟩
    rename_i hnot
    split at h₁
    · cases h₁
    rename_i hstate
    cases h₁
    rw [life_setJob] at hlife
    by_cases hi : i = id
    · subst hi
      -- its kill has just been requested, so it is not requested again
      obtain rfl : n = 0 := by
        rcases hlife with ⟨hzero, -⟩ | ⟨-, hrequested, -⟩
        · exact hzero
        · simp [setJob] at hrequested
      refine ⟨1, by simpa using hn, .inr ⟨rfl, by simpa using hnot, ?_, by simpa using hlife⟩⟩
      by_contra hneither
      simp_all
    · have hjob : (data.setJob id { data.job id with killRequested := true }).job i = data.job i := by simp [setJob, hi]
      have hid : id ≠ i := fun h => hi h.symm
      refine ⟨n, by simpa [hid] using hn, ?_⟩
      simpa [hjob, hi, life] using hlife

theorem moves_onRejectJob (effective : Prop) (h : data.onRejectJob id = .ok data') : Moves effective data data' := by
  intro i
  simp only [onRejectJob] at h
  split at h
  · cases h
  rename_i job hjob
  obtain ⟨-, rfl⟩ := registeredJobAt_eq_ok hjob
  split at h
  · cases h
  rename_i hs
  cases h
  rw [life_complete, life_setJob]
  by_cases hi : i = id
  · subst hi
    exact .inr (.reject _ (by simpa [life] using hs) (by simp [life]))
  · left
    have hid : id ≠ i := fun h => hi h.symm
    simp [life, hi, hid]

theorem moves_onKillJobs (effective : Prop) {ids : List String} (h : data.onKillJobs ids = .ok data') :
    Moves effective data data' := by
  intro i
  obtain ⟨⟨data₁, toKill⟩, h₁, rfl⟩ := Execution.map_eq_ok.1 h
  obtain ⟨n, hn, hlife⟩ := life_requestKill h₁ i
  have hlife' : (if toKill = [] then data₁ else
      { data₁ with killers := data₁.killers ++ [{ jobsMsgs := toKill }], nbKillers := data₁.nbKillers + 1 }).life i =
      { data₁.life i with kills := (data₁.life i).kills + n } := by
    simp only [List.count_nil, Nat.zero_add] at hn
    split
    · rename_i hnil
      subst hnil
      simp [← hn]
    · simp [life, hn, Killer.killedIn]
  simp only [hlife']
  rcases hlife with ⟨rfl, hlife⟩ | ⟨rfl, hnot, hstate, hlife⟩
  · exact .inl hlife
  · exact .inr (.requestKill _ hnot hstate (by rw [show data₁.life i = _ from hlife]; rfl))

theorem moves_onChangeJobState (effective : Prop) {newState : JobState} (hnot : id ∉ data.accounts.executed)
    (h : data.onChangeJobState id newState = .ok data') : Moves effective data data' := by
  intro i
  simp only [onChangeJobState] at h
  split at h
  · cases h
  rename_i job hjob
  obtain ⟨-, rfl⟩ := registeredJobAt_eq_ok hjob
  obtain ⟨data₁, h₁, rfl⟩ := Execution.map_eq_ok.1 h
  have hcases : ((data.job id).state = .submitted ∨ (data.job id).state = .running) ∧
      (newState ≠ .notSubmitted ∧ newState ≠ .submitted) ∧ data₁.job = data.job ∧
      ∃ started ended completed, data₁.life i = { data.life i with
        started := (data.life i).started + started, ended := (data.life i).ended + ended
        completed := (data.life i).completed + completed } ∧ (i ≠ id → started = 0 ∧ ended = 0 ∧ completed = 0) := by
    have hcount : i ≠ id → [id].count i = 0 := fun hi =>
      List.count_eq_zero_of_not_mem (by simpa using hi)
    split at h₁
    · rename_i hold
      obtain ⟨hlife, hjobs⟩ := life_startRunning (i := i) h₁
      exact ⟨.inl hold, by decide, hjobs, _, 0, 0, hlife, fun hi => ⟨hcount hi, rfl, rfl⟩⟩
    · rename_i hold
      split at h₁ <;> cases h₁
      exact ⟨.inl hold, by decide, rfl, 0, 0, _, life_complete, fun hi => ⟨rfl, rfl, hcount hi⟩⟩
    · rename_i hold
      obtain ⟨hlife, hjobs⟩ := life_endRunning (i := i) h₁
      exact ⟨.inr hold, by decide, hjobs, 0, _, _, hlife, fun hi => ⟨rfl, hcount hi, hcount hi⟩⟩
    · rename_i hold
      obtain ⟨hlife, hjobs⟩ := life_endRunning (i := i) h₁
      exact ⟨.inr hold, by decide, hjobs, 0, _, _, hlife, fun hi => ⟨rfl, hcount hi, hcount hi⟩⟩
    · rename_i hold
      obtain ⟨hlife, hjobs⟩ := life_endRunning (i := i) h₁
      exact ⟨.inr hold, by decide, hjobs, 0, _, _, hlife, fun hi => ⟨rfl, hcount hi, hcount hi⟩⟩
    · rename_i hold
      obtain ⟨hlife, hjobs⟩ := life_endRunning (i := i) h₁
      exact ⟨.inr hold, by decide, hjobs, 0, _, _, hlife, fun hi => ⟨rfl, hcount hi, hcount hi⟩⟩
    · cases h₁
  obtain ⟨hs, hs', hjobs, started, ended, completed, hlife, hothers⟩ := hcases
  have hlife' : ({ data₁.setJob id { data.job id with state := newState } with
      accounts := { data₁.accounts with changed := data.accounts.changed ++ [id] } } : ServerData).life i =
      { (data₁.setJob id { data.job id with state := newState }).life i with
        changed := (data.life i).changed + [id].count i } := by
    simp [life, setJob]
  rw [show _ = _ from hlife', life_setJob, hlife]
  by_cases hi : i = id
  · subst hi
    right
    exact .change _ newState ((data.life i).started + started) ((data.life i).ended + ended)
      ((data.life i).completed + completed) (List.count_eq_zero_of_not_mem hnot) hs hs' (by simp [life])
  · left
    obtain ⟨rfl, rfl, rfl⟩ := hothers hi
    have hid : id ≠ i := fun h => hi h.symm
    simp [life, hi, hid, hjobs]

/-! ## What happens does to a life -/

/-- The handler of a message. -/
theorem moves_handle (effective : Prop) {message : IPMessage}
    (hchange : ∀ id newState, message = .schedChangeJobState id newState → id ∉ data.accounts.executed)
    (h : data.handle message = .ok data') : Moves effective (data.holding message) data' := by
  have hheld (decision : IPMessage) (hd : decision.submittedIn = [] ∧ decision.completedIn = [] ∧ decision.killedIn = [])
      (hmoves : Moves effective data data') : Moves effective (data.holding decision) data' := fun i => by
    rw [life_holding, hd.1, hd.2.1, hd.2.2]
    simpa using hmoves i
  cases message with
  | jobSubmitted jobs => exact Except.ok.inj h ▸ moves_jobSubmitted effective jobs
  | jobRegisteredByDP id => exact hheld _ ⟨rfl, rfl, rfl⟩ (moves_onRegisterJob effective h)
  | jobCompleted id => exact moves_onJobCompleted effective h
  | killingDone msgs => exact moves_onKillingDone effective h
  | schedExecuteJob id => exact hheld _ ⟨rfl, rfl, rfl⟩ (moves_onExecuteJob effective h)
  | schedRejectJob id => exact hheld _ ⟨rfl, rfl, rfl⟩ (moves_onRejectJob effective h)
  | schedKillJob ids => exact hheld _ ⟨rfl, rfl, rfl⟩ (moves_onKillJobs effective h)
  | schedChangeJobState id newState =>
    exact hheld _ ⟨rfl, rfl, rfl⟩ (moves_onChangeJobState effective (hchange id newState rfl) h)
  | fromJobMsg id =>
    obtain ⟨_, _, rfl⟩ := Execution.map_eq_ok.1 h
    refine hheld _ ⟨rfl, rfl, rfl⟩ fun i => .inl ?_
    rw [life_append]
    simp [ProtoEvent.killedIn, ProtoEvent.killedOf]
  | other =>
    cases h
    refine hheld _ ⟨rfl, rfl, rfl⟩ fun i => .inl ?_
    rw [life_append]
    simp [ProtoEvent.killedIn, ProtoEvent.killedOf]
  | schedSetJobMetadata id =>
    obtain ⟨_, _, rfl⟩ := Execution.map_eq_ok.1 h
    exact hheld _ ⟨rfl, rfl, rfl⟩ fun i => .inl rfl
  | toJobMsg id =>
    obtain ⟨_, _, rfl⟩ := Execution.map_eq_ok.1 h
    exact hheld _ ⟨rfl, rfl, rfl⟩ fun i => .inl rfl
  | schedReady =>
    cases h
    exact hheld _ ⟨rfl, rfl, rfl⟩ fun i => .inl rfl

theorem life_deleteAll {ids : List String} (h : Execution.runFrom deleteJob data ids = .ok data') :
    data'.life = data.life := by
  induction ids generalizing data with
  | nil => rw [Except.ok.inj h]
  | cons id ids ih =>
    obtain ⟨data₁, h₁, h₂⟩ := Execution.of_runFrom_cons h
    simp only [deleteJob] at h₁
    split at h₁ <;> cases h₁
    exact (ih h₂).trans rfl

/-- What is sent to the scheduler is on its way as what is to be sent is. -/
theorem life_sendIfNeeded (hsent : data.schedReady → data.sent = none) (h : data.sendIfNeeded = .ok data') :
    data'.life = data.life := by
  simp only [sendIfNeeded] at h
  split at h
  · rename_i hsend
    obtain ⟨data₁, h₁, rfl⟩ := Execution.map_eq_ok.1 h
    have hlife : data.generateAndSendMessage.life = data.life := by
      funext i
      simp [life, generateAndSendMessage, hsent hsend.1]
    exact (life_deleteAll h₁).trans hlife
  · rw [Except.ok.inj h]

/-- A message that is taken from the mailbox is still on its way. -/
theorem life_take {n : ℕ} {message : IPMessage} (h : data.mailbox[n]? = some message) :
    ({ data with mailbox := data.mailbox.eraseIdx n }.holding message).life = data.life := by
  obtain ⟨hn, rfl⟩ := List.getElem?_eq_some_iff.1 h
  have hperm := List.getElem_cons_eraseIdx_perm hn
  funext i
  simp only [life, holding]
  rw [(hperm.flatMap_right IPMessage.submittedIn).count_eq, (hperm.flatMap_right IPMessage.completedIn).count_eq,
    (hperm.flatMap_right IPMessage.killedIn).count_eq]

/-- What a killer does to the job that it comes to. -/
theorem killJob_cases (h : data.killJob id = .ok data') :
    (data.job id).state = .running ∧ (data.job id).executing ∧
        data' = { data.setJob id { data.job id with state := .completedKilled, executing := false } with
          accounts := if (data.job id).workDone then data.accounts
            else { data.accounts with stopped := data.accounts.stopped ++ [id] } } ∨
      (data.job id).state ≠ .running ∧ data' = data := by
  simp only [killJob] at h
  split at h
  · cases h
  rename_i job hjob
  obtain ⟨-, rfl⟩ := jobAt_eq_ok hjob
  split at h
  · cases h
  split at h
  · rename_i hrunning
    split at h
    · rename_i hexecuting
      exact .inl ⟨hrunning, hexecuting, (Except.ok.inj h).symm⟩
    · cases h
  · rename_i hnot
    exact .inr ⟨hnot, (Except.ok.inj h).symm⟩

theorem moves_killNext {effective : Prop} {n : ℕ} {progress : Option ℚ}
    (heffective : effective → ∀ id jobsMsgs killed, data.killers[n]? = some ⟨id :: jobsMsgs, killed⟩ →
      (data.job id).executing ∧ (data.job id).workDone = false)
    (hrunning : ∀ id, (data.job id).executing → (data.job id).state = .running)
    (h : data.killNext n progress = .ok data') : Moves effective data data' := by
  intro i
  simp only [killNext] at h
  split at h
  · rename_i id jobsMsgs killed hget
    obtain ⟨data₁, h₁, rfl⟩ := Execution.map_eq_ok.1 h
    obtain ⟨hn, hget'⟩ := List.getElem?_eq_some_iff.1 hget
    have hperm := List.getElem_cons_eraseIdx_perm hn
    rw [hget'] at hperm
    have hkills : (data.killers.flatMap Killer.jobsMsgs).count i =
        (jobsMsgs.count i + ((data.killers.eraseIdx n).flatMap Killer.jobsMsgs).count i) + [id].count i := by
      rw [← (hperm.flatMap_right Killer.jobsMsgs).count_eq, List.flatMap_cons, List.count_append,
        show Killer.jobsMsgs ⟨id :: jobsMsgs, killed⟩ = [id] ++ jobsMsgs from rfl, List.count_append]
      omega
    have hacks : (data.killers.flatMap Killer.killedIn).count i =
        (killed.map KillMessage.id).count i + ((data.killers.eraseIdx n).flatMap Killer.killedIn).count i := by
      rw [← (hperm.flatMap_right Killer.killedIn).count_eq, List.flatMap_cons, List.count_append]
      rfl
    by_cases hi : i = id
    · subst hi
      rw [List.count_singleton_self] at hkills
      right
      rcases killJob_cases h₁ with ⟨hstate, hexecuting, rfl⟩ | ⟨hstate, rfl⟩
      · refine .kill _ _ hstate hexecuting hkills (fun he => (heffective he _ _ _ hget).2) ?_
        by_cases hdone : (data.job i).workDone <;> simp [life, setJob, hacks, hdone, Killer.killedIn] <;> omega
      · have hnot : ¬ effective := fun he => hstate (hrunning i (heffective he _ _ _ hget).1)
        refine .leave _ _ hstate hnot hkills ?_
        simp [life, hacks, Killer.killedIn]
        omega
    · left
      have hid : id ≠ i := fun h => hi h.symm
      have hzero : [id].count i = 0 := List.count_eq_zero_of_not_mem (by simpa using hi)
      rw [hzero, Nat.add_zero] at hkills
      rcases killJob_cases h₁ with ⟨hstate, hexecuting, rfl⟩ | ⟨hstate, rfl⟩
      · by_cases hdone : (data.job id).workDone <;> simp [life, setJob, hkills, hacks, hdone, hi, hid, Killer.killedIn]
      · simp [life, hkills, hacks, hid, Killer.killedIn]
  · cases h

theorem moves_killingDone (effective : Prop) {n : ℕ} (h : data.killingDone n = .ok data') : Moves effective data data' := by
  intro i
  simp only [killingDone] at h
  split at h
  · rename_i killed hget
    cases h
    obtain ⟨hn, hget⟩ := List.getElem?_eq_some_iff.1 hget
    have hperm := List.getElem_cons_eraseIdx_perm hn
    rw [hget] at hperm
    left
    simp only [life]
    rw [← (hperm.flatMap_right Killer.jobsMsgs).count_eq, ← (hperm.flatMap_right Killer.killedIn).count_eq]
    simp [Killer.killedIn, IPMessage.submittedIn, IPMessage.completedIn, IPMessage.killedIn]
    omega
  · cases h

theorem moves_jobEnds (effective : Prop) {returnCode : ℤ} (h : data.jobEnds id returnCode = .ok data') :
    Moves effective data data' := by
  intro i
  simp only [jobEnds] at h
  split at h
  · rename_i hcan
    cases h
    by_cases hi : i = id
    · subst hi
      refine .inr (.ends _ (MachinesState.stateOfReturnCode returnCode) hcan.1 ?_ ?_)
      · have := hcan.2
        simp only [MachinesState.stateOfReturnCode]
        grind -ring -linarith -order
      · simp [life, setJob, IPMessage.submittedIn, IPMessage.completedIn, IPMessage.killedIn]
    · have hid : id ≠ i := fun h => hi h.symm
      simp [life, setJob, hi, hid, IPMessage.submittedIn, IPMessage.completedIn, IPMessage.killedIn]
  · cases h

theorem moves_post (effective : Prop) {message : IPMessage} (h : data.post message = .ok data') :
    Moves effective data data' := by
  intro i
  left
  cases message with
  | fromJobMsg id =>
    simp only [post] at h
    split at h <;> cases h
    simp [life, IPMessage.submittedIn, IPMessage.completedIn, IPMessage.killedIn]
  | jobSubmitted ids =>
    simp only [post] at h
    split at h
    · rename_i hids
      cases h
      have hsub : ids.toFinset.val ≤ data.toSubmit.val := Finset.val_le_iff.2 hids.2
      have hle := Multiset.count_le_of_le i hsub
      rw [List.toFinset_val, hids.1.dedup, Multiset.coe_count] at hle
      simp [life, IPMessage.submittedIn, IPMessage.completedIn, IPMessage.killedIn, Finset.sdiff_val, hids.1.dedup]
      omega
    · cases h
  | other =>
    cases h
    simp [life, IPMessage.submittedIn, IPMessage.completedIn, IPMessage.killedIn]
  | _ => cases h

theorem readKilled_eq_ok {events : List ProtoEvent} {killed : List String} (h : readKilled events = .ok killed) :
    killed = (events.flatMap ProtoEvent.killedIn).dedup := by
  simp only [readKilled] at h
  split at h <;> cases h
  simp only [List.map_flatMap]
  rfl

theorem moves_decide (effective : Prop) {decisions : List IPMessage} (h : data.decide decisions = .ok data') :
    Moves effective data data' := by
  intro i
  simp only [decide] at h
  split at h
  · cases h
  rename_i events hsent
  split at h
  · obtain ⟨killed, hread, rfl⟩ := Execution.map_eq_ok.1 h
    obtain rfl := readKilled_eq_ok hread
    by_cases hi : i ∈ events.flatMap ProtoEvent.killedIn
    · have hcount : 0 < (events.flatMap ProtoEvent.killedIn).count i := List.count_pos_iff.2 hi
      right
      refine .resubmit _ _ ((data.protoWriter.flatMap ProtoEvent.killedIn).count i) hcount ?_ ?_
      · simp [life, hsent, Nat.add_comm]
      · have hone : (events.flatMap ProtoEvent.killedIn).dedup.count i = 1 :=
          List.count_eq_one_of_mem (List.nodup_dedup _) (List.mem_dedup.2 hi)
        simp [life, hone]
    · left
      have hzero : (events.flatMap ProtoEvent.killedIn).dedup.count i = 0 :=
        List.count_eq_zero_of_not_mem fun hmem => hi (List.mem_dedup.1 hmem)
      simp [life, hsent, hzero, List.count_eq_zero_of_not_mem hi]
  · cases h

end ServerData

end ScheduleTest
