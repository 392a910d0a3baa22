import ScheduleTest.Lemmas.ServerFrame

/-!
# Killed jobs

A killed job is to be counted once, and resubmitted only if it has really been killed. This holds as long as the killers come to
the jobs while they have work left and the scheduler does not change the state of a job that is executed: JOB_KILLED lists all jobs
whose kill was asked for, and the scheduler resubmits all of them.
-/

namespace ScheduleTest

open Execution

namespace ServerData

variable {data data' : ServerData} {id : String}

/-- The kill of the job has been asked for, and the server has not been told that the killer is done. -/
def KillInProgress (data : ServerData) (id : String) : Prop :=
  (∃ killer ∈ data.killers, id ∈ killer.jobsMsgs ++ killer.killed.map KillMessage.id) ∨
    ∃ jobsMsgs, .killingDone jobsMsgs ∈ data.mailbox ∧ id ∈ jobsMsgs.map KillMessage.id

/-- The scheduler will still be told that the job has been killed. -/
def KillPending (data : ServerData) (id : String) : Prop :=
  data.KillInProgress id ∨ ∃ event ∈ data.protoWriter ++ data.sent.getD [], id ∈ event.killedOf.map KillMessage.id

/-- Every job that is executed is accounted for: the counters count each job once, and the jobs that the scheduler resubmits are
those that have been stopped before they had finished their work. -/
structure Accounted (data : ServerData) : Prop where
  nbCompletedJobs : data.nbCompletedJobs = data.accounts.completed.length
  nbRunningJobs : data.nbRunningJobs = data.accounts.startedRunning.length - data.accounts.stoppedRunning.length
  at_most_once : ∀ id ∈ data.accounts.executed,
    data.accounts.completed.count id ≤ 1 ∧ data.accounts.stoppedRunning.count id = data.accounts.completed.count id
  once : ∀ id ∈ data.accounts.executed, (data.job id).executing = false → .jobCompleted id ∉ data.mailbox →
    ¬ data.KillInProgress id → data.accounts.completed.count id = 1 ∧ data.accounts.stoppedRunning.count id = 1
  resubmitted_once : data.accounts.resubmitted.Nodup
  stopped_of_resubmitted : ∀ id ∈ data.accounts.resubmitted, id ∈ data.accounts.stopped
  resubmitted_of_stopped : ∀ id ∈ data.accounts.stopped, ¬ data.KillPending id → id ∈ data.accounts.resubmitted

/-- The killer comes to a job that is executed and has work left, and a decision does not change the state of a job that has been
executed. -/
def unraced (data : ServerData) : ServerEvent → Bool
  | .killNext i _ =>
    match data.killers[i]? with
    | some ⟨id :: _, _⟩ => (data.job id).executing && !(data.job id).workDone
    | _ => true
  | .receiveDecision =>
    match data.answer with
    | .schedChangeJobState id _ :: _ => id ∉ data.accounts.executed
    | _ => true
  | _ => true

/-! ## Steps of the lives -/

/-- Whatever happens, the life of every job takes a step or does not change. -/
theorem moves_step {effective : Prop} {event : ServerEvent} (hturns : data.Turns) (hlaw : ∀ id, (data.life id).Lawful)
    (hkill : effective → ∀ n progress id jobsMsgs killed, event = .killNext n progress →
      data.killers[n]? = some ⟨id :: jobsMsgs, killed⟩ → (data.job id).executing ∧ (data.job id).workDone = false)
    (hchange : ∀ id newState answer, event = .receiveDecision → data.answer = .schedChangeJobState id newState :: answer →
      id ∉ data.accounts.executed)
    (hs : data.step event = .ok data') : Moves effective data data' := by
  cases event with
  | receive n =>
    obtain ⟨message, data₁, -, hget, h₁, h₂⟩ := step_receive hs
    intro i
    rw [life_sendIfNeeded (fun hready => ((hturns.handleMessage hget h₁).ready hready).1) h₂, ← life_take hget]
    refine moves_handle effective (fun id newState heq => ?_) h₁ i
    have hother := (hturns.mailbox message (List.mem_of_getElem? hget)).2
    simp [heq, IPMessage.isDecision] at hother
  | receiveDecision =>
    obtain ⟨decision, answer, data₁, -, hanswer, h₁, h₂⟩ := step_receiveDecision hs
    have hmoves : Moves effective data data₁ := .of_decision answer (hturns.isDecision_of_answer hanswer)
      (moves_handle effective (fun id newState heq => hchange id newState answer rfl (heq ▸ hanswer)) h₁)
    intro i
    rw [life_sendIfNeeded (fun hready => ((hturns.handleDecision hanswer h₁).ready hready).1) h₂]
    exact hmoves i
  | decide decisions => exact moves_decide effective hs
  | killNext n progress =>
    exact moves_killNext (fun he id jobsMsgs killed => hkill he n progress id jobsMsgs killed rfl) (fun i => (hlaw i).running) hs
  | killingDone n => exact moves_killingDone effective hs
  | workEnds id =>
    simp only [step] at hs
    split at hs
    · rename_i hexecuting
      cases hs
      intro i
      rw [life_setJob]
      by_cases hi : i = id
      · subst hi
        exact .inr (.workEnds _ hexecuting (by simp [life]))
      · left
        simp [hi, life]
    · cases hs
  | jobEnds id returnCode => exact moves_jobEnds effective hs
  | post message => exact moves_post effective hs

/-- The lives of the jobs at the beginning. -/
theorem lawful_initial (jobs : Finset String) (id : String) : ((initial jobs).life id).Lawful := by
  have hone : jobs.val.count id ≤ 1 := Multiset.nodup_iff_count_le_one.1 jobs.nodup id
  refine ⟨fun hmet => ⟨rfl, ?_⟩, ⟨by simpa [life, initial] using hone, by simp [life, initial]⟩, ?_, by simp [life, initial],
    ?_, ?_, ?_, by simp [life, initial], by simp [life, initial], by simp [life, initial]⟩
  · simpa [life, initial] using hmet
  all_goals simp [life, initial, JobLife.Early]

/-! ## The accounts -/

/-- The jobs obey the laws of their lives, and the killers have stopped every job that they have come to. -/
structure AccountsKept (data : ServerData) : Prop where
  turns : data.Turns
  lawful : ∀ id, (data.life id).Lawful
  effective : ∀ id, (data.life id).Effective

theorem accountsKept_initial (jobs : Finset String) : (initial jobs).AccountsKept :=
  ⟨.initial jobs, lawful_initial jobs, fun id => by simp [JobLife.Effective, life, initial]⟩

theorem AccountsKept.step {event : ServerEvent} (h : data.AccountsKept) (hu : data.unraced event)
    (hs : data.step event = .ok data') : data'.AccountsKept := by
  have hmoves : Moves True data data' := by
    refine moves_step h.turns h.lawful (fun _ n progress id jobsMsgs killed heq hget => ?_)
      (fun id newState answer heq hanswer => ?_) hs
    · subst heq
      simpa [unraced, hget] using hu
    · subst heq
      simpa [unraced, hanswer] using hu
  refine ⟨h.turns.step hs, fun id => ?_, fun id => ?_⟩
  · rcases hmoves id with heq | hstep
    · exact heq ▸ h.lawful id
    · exact (h.lawful id).step hstep
  · rcases hmoves id with heq | hstep
    · exact heq ▸ h.effective id
    · exact (h.effective id).step (h.lawful id) hstep

/-- The kills in progress are those that the life of the job knows of. -/
theorem killInProgress_iff : data.KillInProgress id ↔ 0 < (data.life id).kills + (data.life id).acks := by
  simp only [KillInProgress, life, Nat.add_pos_iff_pos_or_pos, List.count_pos_iff, List.mem_flatMap]
  have hmail : (∃ message ∈ data.mailbox, id ∈ message.killedIn) ↔
      ∃ jobsMsgs, .killingDone jobsMsgs ∈ data.mailbox ∧ id ∈ jobsMsgs.map KillMessage.id := by
    constructor
    · rintro ⟨message, hmem, hid⟩
      cases message with
      | killingDone jobsMsgs => exact ⟨jobsMsgs, hmem, hid⟩
      | _ => cases hid
    · rintro ⟨jobsMsgs, hmem, hid⟩
      exact ⟨_, hmem, hid⟩
  rw [hmail, ← or_assoc, ← exists_or]
  simp only [List.mem_append, and_or_left, Killer.killedIn]

theorem killPending_iff : data.KillPending id ↔ 0 < (data.life id).kills + (data.life id).acks + (data.life id).written := by
  have hwritten : (∃ event ∈ data.protoWriter ++ data.sent.getD [], id ∈ event.killedOf.map KillMessage.id) ↔
      0 < (data.life id).written := by
    simp only [life]
    rw [← List.count_append, ← List.flatMap_append, List.count_pos_iff, List.mem_flatMap]
    rfl
  rw [KillPending, killInProgress_iff, hwritten]
  omega

theorem jobCompleted_mem_iff : .jobCompleted id ∈ data.mailbox ↔ 0 < (data.life id).completions := by
  simp only [life, List.count_pos_iff, List.mem_flatMap]
  constructor
  · exact fun h => ⟨_, h, List.mem_singleton_self id⟩
  · rintro ⟨message, hmem, hid⟩
    cases message <;> simp only [IPMessage.completedIn, List.mem_singleton, List.not_mem_nil] at hid
    exact hid ▸ hmem

theorem AccountsKept.accounted (h : data.AccountsKept) : data.Accounted := by
  refine ⟨h.turns.nbCompletedJobs, h.turns.nbRunningJobs, fun id hid => ?_, fun id hid hnot hmail hkill => ?_, ?_,
    fun id hid => ?_, fun id hid hkill => ?_⟩
  · have hexecuted : 0 < (data.life id).executed := List.count_pos_iff.2 hid
    obtain ⟨hended, hone, -⟩ := (h.lawful id).executed_once hexecuted
    exact ⟨hone, hended⟩
  · have hexecuted : 0 < (data.life id).executed := List.count_pos_iff.2 hid
    obtain ⟨hended, -, hcompleted⟩ := (h.lawful id).executed_once hexecuted
    rw [jobCompleted_mem_iff] at hmail
    rw [killInProgress_iff] at hkill
    have hone := hcompleted hnot (by omega) (by omega)
    exact ⟨hone, hended.trans hone⟩
  · exact List.nodup_iff_count_le_one.2 fun id => (h.lawful id).resubmitted_once
  · have hstopped := (h.lawful id).stopped_of_resubmitted (h.effective id) (List.count_pos_iff.2 hid)
    exact List.count_pos_iff.1 hstopped
  · rw [killPending_iff] at hkill
    have hresubmitted := (h.lawful id).resubmitted_of_stopped (h.effective id) (List.count_pos_iff.2 hid) (by omega) (by omega)
    exact List.count_pos_iff.1 hresubmitted

end ServerData

open ServerData

/-- Where every killer comes to jobs that have work left, and the scheduler leaves the states of the jobs that are executed alone,
every job is accounted for in every state. -/
theorem jobs_accounted (jobs : Finset String) (events : List ServerEvent)
    (h : AllSteps step (fun data event => data.unraced event) (initial jobs) events) :
    Always step Accounted (initial jobs) events :=
  always_of_invariant (I := AccountsKept) (fun _ _ _ hkept hu hs => hkept.step hu hs) (fun _ hkept => hkept.accounted)
    (accountsKept_initial jobs) h

namespace ServerRuns

/-- A job is submitted and executed, and the scheduler is told something. -/
def executed (ids : List String) : List ServerEvent :=
  [.post (.jobSubmitted ids), .receive 0, .decide [], .receiveDecision, .decide (ids.map .schedExecuteJob)] ++
    List.replicate (ids.length + 1) .receiveDecision ++ [.post .other, .receive 0]

/-- The scheduler has a job killed, and is told that it has been. -/
def killed (id : String) (progress : Option ℚ) : List ServerEvent :=
  [.decide [.schedKillJob [id]], .receiveDecision, .killNext 0 progress, .killingDone 0, .receive 0, .receiveDecision, .decide []]

/-- A job is killed half way. -/
def stopped : List ServerEvent := executed ["w0!1"] ++ killed "w0!1" (some (1 / 2))

/-- A job is killed when all its work is done. -/
def finished : List ServerEvent := executed ["w0!1"] ++ [.workEnds "w0!1"] ++ killed "w0!1" (some 1)

/-- The scheduler says that one of two jobs has completed, and then it does. -/
def changed : List ServerEvent := executed ["w0!1", "w0!2"] ++
  [.decide [.schedChangeJobState "w0!1" .completedSuccessfully], .receiveDecision, .jobEnds "w0!1" 0, .receive 0]

end ServerRuns

open ServerRuns

theorem jobs_accounted_witness : Always step Accounted (initial {"w0!1"}) stopped ∧
    (runFrom step (initial {"w0!1"}) stopped).toOption.map (·.accounts.resubmitted) = some ["w0!1"] :=
  ⟨jobs_accounted {"w0!1"} stopped (by decide +kernel), by decide +kernel⟩

/-- A job whose work is done is resubmitted, and a job whose state the scheduler changes is counted twice. -/
theorem jobs_accounted_false :
    ¬ Always step Accounted (initial {"w0!1"}) finished ∧ ¬ Always step Accounted (initial {"w0!1", "w0!2"}) changed := by
  constructor
  · intro h
    obtain ⟨data, hrun, hdata⟩ := toOption_map_eq_some.1 (show (runFrom step (initial {"w0!1"}) finished).toOption.map
      (fun data => (data.accounts.resubmitted, data.accounts.stopped)) = some (["w0!1"], []) by decide +kernel)
    have hstopped := (h.last hrun).stopped_of_resubmitted "w0!1" (by simp [(Prod.mk.inj hdata).1])
    simp [(Prod.mk.inj hdata).2] at hstopped
  · intro h
    obtain ⟨data, hrun, hdata⟩ := toOption_map_eq_some.1 (show (runFrom step (initial {"w0!1", "w0!2"}) changed).toOption.map
      (fun data => (data.accounts.executed, data.accounts.completed)) = some (["w0!1", "w0!2"], ["w0!1", "w0!1"]) by
        decide +kernel)
    have honce := ((h.last hrun).at_most_once "w0!1" (by simp [(Prod.mk.inj hdata).1])).1
    simp [(Prod.mk.inj hdata).2] at honce

end ScheduleTest
