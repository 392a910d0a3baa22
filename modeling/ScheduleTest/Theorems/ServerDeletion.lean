import ScheduleTest.Theorems.Server

/-!
# Deleted jobs

The server deletes the jobs that have completed when it sends the message that says so. It sends one only when the scheduler is
ready and no message waits, and no killer is at work then: a job is there as long as its kill is in progress, and whatever a handler
looks up is found.
-/

namespace ScheduleTest

open Execution

namespace ServerData

variable {data data' data'' : ServerData} {id : String}

/-- The error is not that a job is missing. -/
def NotMissing (e : ServerAbort) : Prop := ∀ id, e ≠ .noSuchJob id ∧ e ≠ .noJobToDelete id

/-- The decision that the server is to receive next names only jobs that the server knows, whose completion the scheduler has not
been told of and which it has not rejected, and does not change the state of one. -/
def namesKnown (data : ServerData) : ServerEvent → Bool
  | .receiveDecision =>
    match data.answer with
    | .schedChangeJobState _ _ :: _ => false
    | decision :: _ => decision.named.all fun id =>
        id ∈ data.jobsMet && id ∉ data.accounts.told && (data.job id).state ≠ .rejected
    | [] => true
  | _ => true

/-! ## What the handlers do to the jobs that are there -/

/-- Jobs are registered, and others complete, which the scheduler is going to be told of, unless it has rejected them. -/
structure Grows (data data' : ServerData) : Prop where
  registered : ∃ new : Finset String, data'.jobs = data.jobs ∪ new ∧ data'.jobsMet = data.jobsMet ∪ new ∧ Disjoint new data.jobsMet
  completed : ∃ ids events, data'.accounts.completed = data.accounts.completed ++ ids ∧
    data'.jobsToBeDeleted = data.jobsToBeDeleted ++ ids ∧ data'.protoWriter = data.protoWriter ++ events ∧
    ∀ id ∈ ids, id ∈ events.flatMap ProtoEvent.completedOf ∨ (data'.job id).state = .rejected
  told : data'.accounts.told = data.accounts.told
  changed : data'.accounts.changed = data.accounts.changed

namespace Grows

/-- No job completes and none is registered. -/
theorem of_eq (hjobs : data'.jobs = data.jobs ∧ data'.jobsMet = data.jobsMet)
    (haccounts : data'.accounts.completed = data.accounts.completed ∧ data'.accounts.told = data.accounts.told ∧
      data'.accounts.changed = data.accounts.changed)
    (hdeleted : data'.jobsToBeDeleted = data.jobsToBeDeleted)
    (hwriter : ∃ events, data'.protoWriter = data.protoWriter ++ events) : Grows data data' := by
  obtain ⟨events, hevents⟩ := hwriter
  exact ⟨⟨∅, by simp [hjobs]⟩, ⟨[], events, by simp [haccounts, hdeleted, hevents]⟩, haccounts.2.1, haccounts.2.2⟩

theorem refl (data : ServerData) : Grows data data := of_eq ⟨rfl, rfl⟩ ⟨rfl, rfl, rfl⟩ rfl ⟨[], by simp⟩

theorem trans (h : Grows data data') (h' : Grows data' data'')
    (hrejected : ∀ id, (data'.job id).state = .rejected → (data''.job id).state = .rejected) : Grows data data'' := by
  obtain ⟨new, hjobs, hmet, hnew⟩ := h.registered
  obtain ⟨new', hjobs', hmet', hnew'⟩ := h'.registered
  obtain ⟨ids, events, hcompleted, hdeleted, hwriter, hids⟩ := h.completed
  obtain ⟨ids', events', hcompleted', hdeleted', hwriter', hids'⟩ := h'.completed
  refine ⟨⟨new ∪ new', ?_, ?_, ?_⟩, ⟨ids ++ ids', events ++ events', ?_, ?_, ?_, fun id hid => ?_⟩,
    h'.told.trans h.told, h'.changed.trans h.changed⟩
  · rw [hjobs', hjobs, Finset.union_assoc]
  · rw [hmet', hmet, Finset.union_assoc]
  · rw [hmet, Finset.disjoint_union_right] at hnew'
    exact Finset.disjoint_union_left.2 ⟨hnew, hnew'.1⟩
  · rw [hcompleted', hcompleted, List.append_assoc]
  · rw [hdeleted', hdeleted, List.append_assoc]
  · rw [hwriter', hwriter, List.append_assoc]
  · rw [List.flatMap_append, List.mem_append]
    rcases List.mem_append.1 hid with hid | hid
    · rcases hids id hid with htold | hstate
      · exact .inl (.inl htold)
      · exact .inr (hrejected id hstate)
    · rcases hids' id hid with htold | hstate
      · exact .inl (.inr htold)
      · exact .inr hstate

end Grows

/-- A job that is there is found. -/
theorem yields_jobAt (hid : id ∈ data.jobs) : data.jobAt id = .ok (data.job id) := if_pos hid

theorem yields_registeredJobAt (hmet : data.jobs ⊆ data.jobsMet) (hid : id ∈ data.jobs) :
    data.registeredJobAt id = .ok (data.job id) := by
  rw [registeredJobAt, if_pos (hmet hid), yields_jobAt hid]

/-- A running job completes. -/
theorem yields_endRunning : Yields (fun data' => data'.jobs = data.jobs ∧ data'.jobsMet = data.jobsMet ∧ data'.job = data.job ∧
    data'.accounts.completed = data.accounts.completed ++ [id] ∧ data'.jobsToBeDeleted = data.jobsToBeDeleted ++ [id] ∧
    data'.protoWriter = data.protoWriter ∧ data'.accounts.told = data.accounts.told ∧
    data'.accounts.changed = data.accounts.changed ∧ data'.killers = data.killers) NotMissing (data.endRunning id) := by
  simp only [endRunning]
  split
  · exact fun id => by simp
  split
  · exact fun id => by simp
  · exact ⟨rfl, rfl, rfl, rfl, rfl, rfl, rfl, rfl, rfl⟩

/-- The server tells the scheduler of a running job that completes. -/
theorem yields_onJobCompleted :
    Yields (fun data' => Grows data data' ∧ data'.killers = data.killers) NotMissing (data.onJobCompleted id) := by
  refine yields_endRunning.map fun data' _ hended => ?_
  obtain ⟨hjobs, hmet, hjob, hcompleted, hdeleted, hwriter, htold, hchanged, hkillers⟩ := hended
  refine ⟨⟨⟨∅, by simp [append, hjobs, hmet]⟩, ⟨[id], _, hcompleted, hdeleted, congrArg (· ++ _) hwriter, fun i hi => .inl ?_⟩,
    htold, hchanged⟩, hkillers⟩
  simp [List.mem_singleton.1 hi, ProtoEvent.completedOf]

theorem yields_accountKilled {msg : KillMessage} (hid : msg.id ∈ data.jobs) :
    Yields (fun data' => Grows data data' ∧ data'.jobs = data.jobs ∧ data'.job = data.job ∧ data'.killers = data.killers) NotMissing
      (data.accountKilled msg) := by
  simp only [accountKilled, yields_jobAt hid]
  split
  · refine yields_endRunning.map fun data' _ hended => ?_
    obtain ⟨hjobs, hmet, hjob, hcompleted, hdeleted, hwriter, htold, hchanged, hkillers⟩ := hended
    refine ⟨⟨⟨∅, by simp [append, hjobs, hmet]⟩, ⟨[msg.id], _, hcompleted, hdeleted, congrArg (· ++ _) hwriter,
      fun i hi => .inl ?_⟩, htold, hchanged⟩, hjobs, hjob, hkillers⟩
    simp [List.mem_singleton.1 hi, ProtoEvent.completedOf]
  · exact ⟨Grows.refl data, rfl, rfl, rfl⟩

theorem yields_onKillingDone {msgs : List KillMessage} (hmsgs : ∀ msg ∈ msgs, msg.id ∈ data.jobs) :
    Yields (fun data' => Grows data data' ∧ data'.killers = data.killers) NotMissing (data.onKillingDone msgs) := by
  have hstep (s : ServerData) (msg : KillMessage) (hmsg : msg ∈ msgs)
      (hs : Grows data s ∧ s.jobs = data.jobs ∧ s.job = data.job ∧ s.killers = data.killers) :
      Yields (fun s' => Grows data s' ∧ s'.jobs = data.jobs ∧ s'.job = data.job ∧ s'.killers = data.killers) NotMissing
        (s.accountKilled msg) := by
    obtain ⟨hgrows, hjobs, hjob, hkillers⟩ := hs
    refine Yields.intro (fun s' hs' => ?_) fun e he => (yields_accountKilled (hjobs ▸ hmsgs msg hmsg)).of_error he
    obtain ⟨hgrows', hjobs', hjob', hkillers'⟩ := (yields_accountKilled (hjobs ▸ hmsgs msg hmsg)).of_ok hs'
    exact ⟨hgrows.trans hgrows' fun id h => by rwa [hjob'], hjobs'.trans hjobs, hjob'.trans hjob, hkillers'.trans hkillers⟩
  refine (Yields.runFrom ⟨Grows.refl data, rfl, rfl, rfl⟩ hstep).map fun s _ hs => ⟨?_, hs.2.2.2⟩
  exact hs.1.trans (Grows.of_eq ⟨rfl, rfl⟩ ⟨rfl, rfl, rfl⟩ rfl ⟨_, rfl⟩) fun _ h => h

theorem yields_onExecuteJob (hid : id ∈ data.jobs) :
    Yields (fun data' => Grows data data' ∧ data'.killers = data.killers) NotMissing (data.onExecuteJob id) := by
  simp only [onExecuteJob, yields_jobAt hid]
  split
  · exact fun id => by simp
  · simp only [startRunning]
    split
    · exact fun id => by simp
    · exact ⟨Grows.of_eq ⟨rfl, rfl⟩ ⟨rfl, rfl, rfl⟩ rfl ⟨[], by simp [setJob]⟩, rfl⟩

theorem yields_onRejectJob (hmet : data.jobs ⊆ data.jobsMet) (hid : id ∈ data.jobs) :
    Yields (fun data' => Grows data data' ∧ data'.killers = data.killers) NotMissing (data.onRejectJob id) := by
  simp only [onRejectJob, yields_registeredJobAt hmet hid]
  split
  · exact fun id => by simp
  · exact ⟨⟨⟨∅, by simp [setJob, complete]⟩, ⟨[id], [], rfl, rfl, by simp [setJob, complete], fun i hi => .inr (by
      simp [List.mem_singleton.1 hi, setJob, complete])⟩, rfl, rfl⟩, rfl⟩

/-- The jobs that a new killer is to come to are there. -/
theorem yields_onKillJobs {ids : List String} (hmet : data.jobs ⊆ data.jobsMet) (hids : ∀ id ∈ ids, id ∈ data.jobs) :
    Yields (fun data' => Grows data data' ∧ ∀ killer ∈ data'.killers, killer ∈ data.killers ∨
      killer.killed = [] ∧ ∀ id ∈ killer.jobsMsgs, id ∈ data'.jobs) NotMissing (data.onKillJobs ids) := by
  have hstep (r : ServerData × List String) (id : String) (hid : id ∈ ids)
      (hr : (∃ job, r.1 = { data with job := job }) ∧ ∀ id ∈ r.2, id ∈ data.jobs) :
      Yields (fun r' => (∃ job, r'.1 = { data with job := job }) ∧ ∀ id ∈ r'.2, id ∈ data.jobs) NotMissing (requestKill r id) := by
    obtain ⟨s, toKill⟩ := r
    obtain ⟨⟨job, rfl⟩, htoKill⟩ := hr
    have hfound : ({ data with job := job } : ServerData).registeredJobAt id = .ok (job id) :=
      yields_registeredJobAt hmet (hids id hid)
    simp only [requestKill, hfound]
    split
    · exact ⟨⟨job, rfl⟩, htoKill⟩
    split
    · exact fun id => by simp
    · refine ⟨⟨_, rfl⟩, fun i hi => ?_⟩
      rcases List.mem_append.1 hi with hi | hi
      · exact htoKill i hi
      · exact List.mem_singleton.1 hi ▸ hids id hid
  refine (Yields.runFrom ⟨⟨data.job, rfl⟩, by simp⟩ hstep).map fun r _ hr => ?_
  obtain ⟨s, toKill⟩ := r
  obtain ⟨⟨job, rfl⟩, htoKill⟩ := hr
  by_cases hnone : toKill = []
  · subst hnone
    exact ⟨Grows.of_eq ⟨rfl, rfl⟩ ⟨rfl, rfl, rfl⟩ rfl ⟨[], by simp⟩, fun killer hk => .inl hk⟩
  · simp only [hnone, if_false]
    refine ⟨Grows.of_eq ⟨rfl, rfl⟩ ⟨rfl, rfl, rfl⟩ rfl ⟨[], by simp⟩, fun killer hk => ?_⟩
    rcases List.mem_append.1 hk with hk | hk
    · exact .inl hk
    · rw [List.mem_singleton.1 hk]
      exact .inr ⟨rfl, htoKill⟩

theorem yields_submitJobs (ids : List String) :
    Yields (fun data' => Grows data data' ∧ data'.killers = data.killers) NotMissing (.ok (ids.foldl submitJob data)) := by
  have hloop : ∃ job events nb, ids.foldl submitJob data =
      { data with job := job, protoWriter := data.protoWriter ++ events, nbSubmittedJobs := nb } := by
    induction ids generalizing data with
    | nil => exact ⟨data.job, [], data.nbSubmittedJobs, by simp⟩
    | cons id ids ih =>
      obtain ⟨job, events, nb, heq⟩ := @ih (data.submitJob id)
      exact ⟨job, .jobSubmitted id :: events, nb, by rw [List.foldl_cons, heq]; simp [submitJob, setJob, append]⟩
  obtain ⟨job, events, nb, heq⟩ := hloop
  rw [heq]
  exact ⟨Grows.of_eq ⟨rfl, rfl⟩ ⟨rfl, rfl, rfl⟩ rfl ⟨events, rfl⟩, rfl⟩

theorem yields_onRegisterJob :
    Yields (fun data' => Grows data data' ∧ data'.killers = data.killers) NotMissing (data.onRegisterJob id) := by
  simp only [onRegisterJob]
  split
  · exact fun id => by simp
  · rename_i hnew
    refine ⟨⟨⟨{id}, ?_, ?_, by simpa using hnew⟩, ⟨[], _, by simp [setJob, append], by simp [setJob, append], rfl, by simp⟩, rfl,
      rfl⟩, rfl⟩
    · rw [Finset.union_comm]
      rfl
    · rw [Finset.union_comm]
      rfl

/-- The jobs that a handler looks up. -/
def lookedUp : IPMessage → List String
  | .killingDone jobsMsgs => jobsMsgs.map KillMessage.id
  | .fromJobMsg id => [id]
  | message => message.named

/-- What a handler does whose jobs are there, if it does not change the state of one. -/
theorem yields_handle (data : ServerData) {message : IPMessage} (hmet : data.jobs ⊆ data.jobsMet)
    (hids : ∀ id ∈ lookedUp message, id ∈ data.jobs)
    (hchange : ∀ id newState, message ≠ .schedChangeJobState id newState) :
    Yields (fun data' => Grows data data' ∧ (∀ killer ∈ data'.killers, killer ∈ data.killers ∨
      killer.killed = [] ∧ ∀ id ∈ killer.jobsMsgs, id ∈ data'.jobs) ∧
      ((∀ ids, message ≠ .schedKillJob ids) → data'.killers = data.killers)) NotMissing (data.handle message) := by
  have hsame {r : Except ServerAbort ServerData}
      (h : Yields (fun data' => Grows data data' ∧ data'.killers = data.killers) NotMissing r) :
      Yields (fun data' => Grows data data' ∧ (∀ killer ∈ data'.killers, killer ∈ data.killers ∨
        killer.killed = [] ∧ ∀ id ∈ killer.jobsMsgs, id ∈ data'.jobs) ∧
        ((∀ ids, message ≠ .schedKillJob ids) → data'.killers = data.killers)) NotMissing r :=
    Yields.intro (fun data' hr => ⟨(h.of_ok hr).1, fun killer hk => .inl ((h.of_ok hr).2 ▸ hk), fun _ => (h.of_ok hr).2⟩)
      fun e he => h.of_error he
  cases message with
  | jobSubmitted jobs => exact hsame (yields_submitJobs jobs)
  | jobRegisteredByDP id => exact hsame yields_onRegisterJob
  | jobCompleted id => exact hsame yields_onJobCompleted
  | fromJobMsg id =>
    simp only [handle, onFromJobMsg, yields_jobAt (hids id (List.mem_singleton_self id))]
    exact hsame (r := .ok _) ⟨Grows.of_eq ⟨rfl, rfl⟩ ⟨rfl, rfl, rfl⟩ rfl ⟨_, rfl⟩, rfl⟩
  | killingDone msgs => exact hsame (yields_onKillingDone fun msg hmsg => hids _ (List.mem_map_of_mem hmsg))
  | schedExecuteJob id => exact hsame (yields_onExecuteJob (hids id (List.mem_singleton_self id)))
  | schedRejectJob id => exact hsame (yields_onRejectJob hmet (hids id (List.mem_singleton_self id)))
  | schedKillJob ids =>
    have hkill := yields_onKillJobs hmet hids
    exact Yields.intro (fun data' hr => ⟨(hkill.of_ok hr).1, (hkill.of_ok hr).2, fun hnot => absurd rfl (hnot ids)⟩)
      fun e he => hkill.of_error he
  | schedChangeJobState id newState => exact absurd rfl (hchange id newState)
  | schedSetJobMetadata id =>
    simp only [handle, yields_registeredJobAt hmet (hids id (List.mem_singleton_self id))]
    exact hsame (r := .ok _) ⟨Grows.refl data, rfl⟩
  | toJobMsg id =>
    simp only [handle, yields_registeredJobAt hmet (hids id (List.mem_singleton_self id))]
    exact hsame (r := .ok _) ⟨Grows.refl data, rfl⟩
  | schedReady => exact hsame (r := .ok _) ⟨Grows.of_eq ⟨rfl, rfl⟩ ⟨rfl, rfl, rfl⟩ rfl ⟨[], by simp⟩, rfl⟩
  | other => exact hsame (r := .ok _) ⟨Grows.of_eq ⟨rfl, rfl⟩ ⟨rfl, rfl, rfl⟩ rfl ⟨_, rfl⟩, rfl⟩

/-! ## The jobs that are there -/

/-- The jobs that have been deleted are not referred to any more. -/
structure Found (data : ServerData) : Prop where
  turns : data.Turns
  lawful : ∀ id, (data.life id).Lawful
  unchanged : data.accounts.changed = []
  met : data.jobs ⊆ data.jobsMet
  deleted : ∃ gone, data.accounts.completed = gone ++ data.jobsToBeDeleted ∧ (∀ id ∈ data.jobsMet, id ∉ data.jobs ↔ id ∈ gone) ∧
    ∀ id ∈ gone, id ∈ data.accounts.told ∨ (data.job id).state = .rejected
  announced : ∀ id ∈ data.jobsToBeDeleted,
    id ∈ data.protoWriter.flatMap ProtoEvent.completedOf ∨ (data.job id).state = .rejected
  kills : ∀ id, data.KillInProgress id → id ∈ data.jobs
  messages : ∀ id, .fromJobMsg id ∈ data.mailbox → id ∈ data.jobs

namespace Found

theorem initial (jobs : Finset String) : (ServerData.initial jobs).Found :=
  ⟨.initial jobs, lawful_initial jobs, rfl, fun _ h => h, ⟨[], rfl, by simp [ServerData.initial]⟩, by simp [ServerData.initial],
    by simp [KillInProgress, ServerData.initial], by simp [ServerData.initial]⟩

theorem completed_nodup (h : data.Found) : data.accounts.completed.Nodup :=
  List.nodup_iff_count_le_one.2 fun id => (h.lawful id).completed_once (by simp [life, h.unchanged])

/-- A job that the scheduler knows not to have completed is there. -/
theorem mem_of_known (h : data.Found) (hmet : id ∈ data.jobsMet) (htold : id ∉ data.accounts.told)
    (hstate : (data.job id).state ≠ .rejected) : id ∈ data.jobs := by
  obtain ⟨gone, -, hiff, hgone⟩ := h.deleted
  by_contra hnot
  rcases hgone id ((hiff id hmet).1 hnot) with hin | hin
  · exact htold hin
  · exact hstate hin

/-- A job that is executed is there. -/
theorem mem_of_executing (h : data.Found) (hx : (data.job id).executing) : id ∈ data.jobs := by
  obtain ⟨hmet, hcompleted⟩ := (h.lawful id).of_executing hx
  obtain ⟨gone, heq, hiff, -⟩ := h.deleted
  by_contra hnot
  have hgone : id ∈ data.accounts.completed := heq ▸ List.mem_append_left _ ((hiff id hmet).1 hnot)
  have := List.count_pos_iff.2 hgone
  simp only [life] at hcompleted
  omega

/-- What a handler or a process does keeps the jobs that are referred to. -/
theorem grows (h : data.Found) (hg : Grows data data') (hturns : data'.Turns) (hlaw : ∀ id, (data'.life id).Lawful)
    (hrejected : ∀ id, (data.job id).state = .rejected → (data'.job id).state = .rejected)
    (hkills : ∀ id, data'.KillInProgress id → data.KillInProgress id ∨ id ∈ data'.jobs)
    (hmessages : ∀ id, .fromJobMsg id ∈ data'.mailbox → .fromJobMsg id ∈ data.mailbox ∨ id ∈ data'.jobs) : data'.Found := by
  obtain ⟨new, hjobs, hmet, hnew⟩ := hg.registered
  obtain ⟨ids, events, hcompleted, hdeleted, hwriter, hids⟩ := hg.completed
  obtain ⟨gone, heq, hiff, hgone⟩ := h.deleted
  have hsub : data.jobs ⊆ data'.jobs := hjobs ▸ Finset.subset_union_left
  refine ⟨hturns, hlaw, hg.changed.trans h.unchanged, ?_, ⟨gone, ?_, fun id hid => ?_, fun id hid => ?_⟩, fun id hid => ?_,
    fun id hid => ?_, fun id hid => ?_⟩
  · rw [hjobs, hmet]
    exact Finset.union_subset_union_left h.met
  · rw [hcompleted, hdeleted, heq, List.append_assoc]
  · rw [hjobs, Finset.mem_union, not_or]
    rw [hmet, Finset.mem_union] at hid
    constructor
    · rintro ⟨hnot, hnotnew⟩
      exact (hiff id (hid.resolve_right hnotnew)).1 hnot
    · intro hin
      have hcount : 0 < (data.life id).completed :=
        List.count_pos_iff.2 (heq ▸ List.mem_append_left _ hin)
      have hidmet : id ∈ data.jobsMet := (h.lawful id).met_of_completed hcount
      exact ⟨(hiff id hidmet).2 hin, fun hinnew => Finset.disjoint_left.1 hnew hinnew hidmet⟩
  · rw [hg.told]
    exact (hgone id hid).imp_right (hrejected id)
  · rw [hwriter, List.flatMap_append, List.mem_append]
    rw [hdeleted, List.mem_append] at hid
    rcases hid with hid | hid
    · rcases h.announced id hid with htold | hstate
      · exact .inl (.inl htold)
      · exact .inr (hrejected id hstate)
    · exact (hids id hid).imp_left .inr
  · exact (hkills id hid).elim (fun hk => hsub (h.kills id hk)) fun hin => hin
  · exact (hmessages id hid).elim (fun hm => hsub (h.messages id hm)) fun hin => hin

end Found

/-- Jobs that are there, each named once, are deleted. -/
theorem deleteAll_ok {ids : List String} (hnodup : ids.Nodup) (hmet : data.jobs ⊆ data.jobsMet)
    (hids : ∀ id ∈ ids, id ∈ data.jobs) :
    Execution.runFrom deleteJob data ids = .ok { data with jobs := data.jobs \ ids.toFinset } := by
  induction ids generalizing data with
  | nil => simp
  | cons id ids ih =>
    obtain ⟨hnot, hnodup⟩ := List.nodup_cons.1 hnodup
    have hid := hids id List.mem_cons_self
    have hstep : data.deleteJob id = .ok { data with jobs := data.jobs.erase id } := if_pos ⟨hmet hid, hid⟩
    have hset : data.jobs.erase id \ ids.toFinset = data.jobs \ (id :: ids).toFinset := by
      ext i
      simp only [Finset.mem_sdiff, Finset.mem_erase, List.mem_toFinset, List.mem_cons, not_or]
      tauto
    rw [runFrom_cons_ok hstep, @ih { data with jobs := data.jobs.erase id } hnodup
      ((Finset.erase_subset id _).trans hmet) fun i hi => ?_]
    · rw [← hset]
    · exact Finset.mem_erase.2 ⟨fun heq => hnot (heq ▸ hi), hids i (List.mem_cons_of_mem _ hi)⟩

namespace Found

/-- The end of the simulation loop, where no killer is at work when the scheduler is ready. -/
theorem sendIfNeeded (h : data.Found) (hquiet : data.schedReady → data.killers = []) :
    Yields Found NotMissing data.sendIfNeeded := by
  by_cases hsend : data.schedReady ∧ data.mailbox = [] ∧ data.protoWriter ≠ []
  swap
  · rw [ServerData.sendIfNeeded, if_neg hsend]
    exact h
  have hready := hsend.1
  have hmailbox := hsend.2.1
  obtain ⟨gone, heq, hiff, hgone⟩ := h.deleted
  have hnodup := h.completed_nodup
  rw [heq] at hnodup
  obtain ⟨-, hnodup, hdisjoint⟩ := List.nodup_append.1 hnodup
  have hmet (id : String) (hid : id ∈ data.accounts.completed) : id ∈ data.jobsMet :=
    (h.lawful id).met_of_completed (List.count_pos_iff.2 hid)
  have hids : ∀ id ∈ data.jobsToBeDeleted, id ∈ data.jobs := fun id hid => by
    by_contra hnot
    exact hdisjoint id ((hiff id (hmet id (heq ▸ List.mem_append_right _ hid))).1 hnot) id hid rfl
  have hdelete : runFrom deleteJob data.generateAndSendMessage data.generateAndSendMessage.jobsToBeDeleted = _ :=
    deleteAll_ok hnodup h.met hids
  have hok : data.sendIfNeeded = .ok { data.generateAndSendMessage with
      jobs := data.jobs \ data.jobsToBeDeleted.toFinset, jobsToBeDeleted := [] } := by
    rw [ServerData.sendIfNeeded, if_pos hsend, deleteJobs, hdelete]
    rfl
  have hlife := life_sendIfNeeded (fun _ => (h.turns.ready hready).1) hok
  rw [hok]
  -- nothing is in progress when the jobs are deleted
  have hnone (id : String) : ¬ data.KillInProgress id := by
    simp [KillInProgress, hquiet hready, hmailbox]
  refine ⟨h.turns.sendIfNeeded hok, fun id => hlife ▸ h.lawful id, h.unchanged, Finset.sdiff_subset.trans h.met,
    ⟨data.accounts.completed, by simp [generateAndSendMessage], fun id hid => ?_, fun id hid => ?_⟩, by simp,
    fun id hid => absurd hid (hnone id), by simp [generateAndSendMessage, hmailbox]⟩
  · rw [heq, List.mem_append, ← hiff id hid, Finset.mem_sdiff, List.mem_toFinset]
    tauto
  · rw [heq] at hid
    simp only [generateAndSendMessage, List.mem_append]
    rcases List.mem_append.1 hid with hid | hid
    · exact (hgone id hid).imp_left .inl
    · exact (h.announced id hid).imp_left .inr

/-- A step of the lives keeps the laws, and what has been rejected. -/
theorem of_moves {effective : Prop} (hlaw : ∀ id, (data.life id).Lawful) (hmoves : Moves effective data data') :
    (∀ id, (data'.life id).Lawful) ∧ ∀ id, (data.job id).state = .rejected → (data'.job id).state = .rejected := by
  refine ⟨fun id => ?_, fun id hr => ?_⟩
  · rcases hmoves id with heq | hstep
    · exact heq ▸ hlaw id
    · exact (hlaw id).step hstep
  · rcases hmoves id with heq | hstep
    · exact (congrArg (fun l => l.job.state) heq).trans hr
    · exact (hlaw id).rejected hstep hr

theorem receive {n : ℕ} (h : data.Found) : Yields Found NotMissing (data.step (.receive n)) := by
  simp only [step]
  split
  swap
  · exact fun id => by simp
  rename_i message hkillers hget
  have hmem := List.mem_of_getElem? hget
  have hmail := h.turns.mailbox message hmem
  have hids : ∀ id ∈ lookedUp message, id ∈ data.jobs := fun id hid => by
    cases message with
    | fromJobMsg i => exact List.mem_singleton.1 hid ▸ h.messages i hmem
    | killingDone msgs => exact h.kills id (.inr ⟨msgs, hmem, hid⟩)
    | jobSubmitted | jobCompleted | other | schedReady | jobRegisteredByDP => simp [lookedUp, IPMessage.named] at hid
    | schedExecuteJob | schedRejectJob | schedKillJob | schedChangeJobState | schedSetJobMetadata | toJobMsg =>
      simp [IPMessage.isDecision] at hmail
  have hchange (id : String) (newState : JobState) : message ≠ .schedChangeJobState id newState := by
    rintro rfl
    simp [IPMessage.isDecision] at hmail
  have hkill (ids : List String) : message ≠ .schedKillJob ids := by
    rintro rfl
    simp [IPMessage.isDecision] at hmail
  have hhandle := yields_handle { data with mailbox := data.mailbox.eraseIdx n } h.met hids hchange
  simp only [ServerData.receive]
  split
  · rename_i data₁ h₁
    obtain ⟨hg, -, hsame⟩ := hhandle.of_ok h₁
    have hmoves : Moves False data data₁ := fun i => by
      rw [← life_take hget]
      exact moves_handle False (fun id newState heq => absurd heq (hchange id newState)) h₁ i
    obtain ⟨hlaw, hrejected⟩ := of_moves h.lawful hmoves
    have hframe := Frame.handle hmail.1 h₁
    have hmailbox (m : IPMessage) (hm : m ∈ data₁.mailbox) : m ∈ data.mailbox := by
      rw [hframe.mailbox] at hm
      exact List.mem_of_mem_eraseIdx hm
    have hfound : data₁.Found := by
      refine h.grows ⟨hg.registered, hg.completed, hg.told, hg.changed⟩ (h.turns.handleMessage hget h₁) hlaw hrejected
        (fun id hk => .inl ?_) fun id hm => .inl (hmailbox _ hm)
      rcases hk with ⟨killer, hin, hid⟩ | ⟨msgs, hin, hid⟩
      · exact .inl ⟨killer, hsame hkill ▸ hin, hid⟩
      · exact .inr ⟨msgs, hmailbox _ hin, hid⟩
    exact hfound.sendIfNeeded fun _ => (hsame hkill).trans hkillers
  · rename_i e he
    exact hhandle.of_error he

theorem receiveDecision (h : data.Found) (hk : data.namesKnown .receiveDecision) :
    Yields Found NotMissing (data.step .receiveDecision) := by
  simp only [step]
  split
  swap
  · exact fun id => by simp
  rename_i decision answer hkillers hanswer
  have hchange (id : String) (newState : JobState) : decision ≠ .schedChangeJobState id newState := by
    rintro rfl
    simp [namesKnown, hanswer] at hk
  have hids : ∀ id ∈ lookedUp decision, id ∈ data.jobs := fun id hid => by
    have hknown : id ∈ data.jobsMet ∧ id ∉ data.accounts.told ∧ (data.job id).state ≠ .rejected := by
      have hdecision := h.turns.isDecision_of_answer hanswer
      cases decision with
      | jobSubmitted | jobCompleted | fromJobMsg | killingDone => simp [IPMessage.isDecision] at hdecision
      | schedChangeJobState i newState => exact absurd rfl (hchange i newState)
      | schedReady | other | jobRegisteredByDP => simp [lookedUp, IPMessage.named] at hid
      | schedKillJob ids =>
        simp only [namesKnown, hanswer, IPMessage.named, List.all_eq_true, Bool.and_eq_true, decide_eq_true_eq] at hk
        exact and_assoc.1 (hk id hid)
      | schedExecuteJob i | schedRejectJob i | schedSetJobMetadata i | toJobMsg i =>
        obtain rfl := List.mem_singleton.1 hid
        simpa [namesKnown, hanswer, IPMessage.named, and_assoc] using hk
    exact h.mem_of_known hknown.1 hknown.2.1 hknown.2.2
  have hhandle := yields_handle { data with answer := answer } h.met hids hchange
  simp only [ServerData.receive]
  split
  · rename_i data₁ h₁
    obtain ⟨hg, hnew, hsame⟩ := hhandle.of_ok h₁
    have hturns := h.turns.handleDecision hanswer h₁
    have hmoves : Moves False data data₁ := .of_decision answer (h.turns.isDecision_of_answer hanswer)
      (moves_handle False (fun id newState heq => absurd heq (hchange id newState)) h₁)
    obtain ⟨hlaw, hrejected⟩ := of_moves h.lawful hmoves
    have hmailbox : data₁.mailbox = data.mailbox := by
      by_cases hready : decision = .schedReady
      · subst hready
        cases h₁
        rfl
      · exact (Frame.handle hready h₁).mailbox
    have hfound : data₁.Found := by
      refine h.grows ⟨hg.registered, hg.completed, hg.told, hg.changed⟩ hturns hlaw hrejected (fun id hin => ?_)
        fun id hm => .inl (hmailbox ▸ hm)
      rcases hin with ⟨killer, hkiller, hid⟩ | ⟨msgs, hmsgs, hid⟩
      · rcases hnew killer hkiller with hold | ⟨hnone, hthere⟩
        · exact .inl (.inl ⟨killer, hold, hid⟩)
        · rw [hnone, List.map_nil, List.append_nil] at hid
          exact .inr (hthere id hid)
      · exact .inl (.inr ⟨msgs, hmailbox ▸ hmsgs, hid⟩)
    -- a killer is only created before SCHED_READY is received
    refine hfound.sendIfNeeded fun hready => ?_
    by_cases hkill : ∃ ids, decision = .schedKillJob ids
    · obtain ⟨ids, rfl⟩ := hkill
      have hnil : answer = [] := (Frame.handle (by simp) h₁).answer.symm.trans (hturns.ready hready).2
      obtain hempty | ⟨decisions, heq, -⟩ := h.turns.answer
      · simp [hanswer] at hempty
      · rw [hanswer, hnil] at heq
        cases decisions <;> simp at heq
    · push Not at hkill
      exact (hsame hkill).trans hkillers
  · rename_i e he
    exact hhandle.of_error he

/-- What happens elsewhere does not change the jobs that are there. -/
theorem elsewhere {event : ServerEvent} (h : data.Found) (hs : data.step event = .ok data')
    (hevent : event ≠ .receiveDecision) (hg : Grows data data')
    (hkills : ∀ id, data'.KillInProgress id → data.KillInProgress id ∨ id ∈ data'.jobs)
    (hmessages : ∀ id, .fromJobMsg id ∈ data'.mailbox → .fromJobMsg id ∈ data.mailbox ∨ id ∈ data'.jobs) : data'.Found := by
  have hmoves : Moves False data data' := moves_step h.turns h.lawful (fun hf => hf.elim)
    (fun id newState answer heq => absurd heq hevent) hs
  obtain ⟨hlaw, hrejected⟩ := of_moves h.lawful hmoves
  exact h.grows hg (h.turns.step hs) hlaw hrejected hkills hmessages

/-- A killer comes to its next job, which is there. -/
theorem killNext {n : ℕ} {progress : Option ℚ} (h : data.Found) : Yields Found NotMissing (data.step (.killNext n progress)) := by
  refine Yields.intro (fun data' hs => ?_) fun e he => ?_
  · have hstep := hs
    simp only [step, ServerData.killNext] at hstep
    split at hstep
    swap
    · cases hstep
    rename_i id jobsMsgs killed hget
    obtain ⟨data₁, h₁, rfl⟩ := Execution.map_eq_ok.1 hstep
    have hkiller := List.mem_of_getElem? hget
    have hkills (i : String) (hi : i ∈ jobsMsgs ++ (killed ++ [(⟨id, progress⟩ : KillMessage)]).map KillMessage.id) :
        data.KillInProgress i := by
      refine .inl ⟨_, hkiller, ?_⟩
      rw [List.map_append, List.mem_append, List.mem_append] at hi
      rw [List.mem_append, List.mem_cons]
      rcases hi with hi | hi | hi
      · exact .inl (.inr hi)
      · exact .inr hi
      · exact .inl (.inl (List.mem_singleton.1 hi))
    have hothers (killer : Killer) (hin : killer ∈ data.killers.eraseIdx n) : killer ∈ data.killers :=
      List.mem_of_mem_eraseIdx hin
    rcases killJob_cases h₁ with ⟨-, -, rfl⟩ | ⟨-, rfl⟩
    · refine h.elsewhere hs (by simp) (Grows.of_eq ⟨rfl, rfl⟩ ?_ rfl ⟨[], by simp [setJob]⟩) (fun i hi => .inl ?_)
        fun i hi => .inl hi
      · dsimp only
        split <;> exact ⟨rfl, rfl, rfl⟩
      · rcases hi with ⟨killer, hin, hi⟩ | hi
        · rcases List.mem_cons.1 hin with rfl | hin
          · exact hkills i hi
          · exact .inl ⟨killer, hothers killer hin, hi⟩
        · exact .inr hi
    · refine h.elsewhere hs (by simp) (Grows.of_eq ⟨rfl, rfl⟩ ⟨rfl, rfl, rfl⟩ rfl ⟨[], by simp⟩) (fun i hi => .inl ?_)
        fun i hi => .inl hi
      rcases hi with ⟨killer, hin, hi⟩ | hi
      · rcases List.mem_cons.1 hin with rfl | hin
        · exact hkills i hi
        · exact .inl ⟨killer, hothers killer hin, hi⟩
      · exact .inr hi
  · simp only [step, ServerData.killNext] at he
    split at he
    · rename_i id jobsMsgs killed hget
      have hid : id ∈ data.jobs := h.kills id (.inl ⟨_, List.mem_of_getElem? hget, by simp⟩)
      rw [Execution.map_eq_error] at he
      simp only [killJob, yields_jobAt hid] at he
      split at he
      · cases he
        exact fun i => by simp
      split at he
      · split at he <;> cases he
        exact fun i => by simp
      · cases he
    · cases he
      exact fun i => by simp

/-- A killer tells the server that it is done. -/
theorem killingDone {n : ℕ} (h : data.Found) : Yields Found NotMissing (data.step (.killingDone n)) := by
  refine Yields.intro (fun data' hs => ?_) fun e he => ?_
  · have hstep := hs
    simp only [step, ServerData.killingDone] at hstep
    split at hstep <;> cases hstep
    rename_i killed hget
    refine h.elsewhere hs (by simp) (Grows.of_eq ⟨rfl, rfl⟩ ⟨rfl, rfl, rfl⟩ rfl ⟨[], by simp⟩) (fun i hi => .inl ?_)
      fun i hi => .inl (by simpa using hi)
    rcases hi with ⟨killer, hin, hi⟩ | ⟨msgs, hin, hi⟩
    · exact .inl ⟨killer, List.mem_of_mem_eraseIdx hin, hi⟩
    · rcases List.mem_append.1 hin with hin | hin
      · exact .inr ⟨msgs, hin, hi⟩
      · obtain rfl : msgs = killed := by simpa using hin
        exact .inl ⟨_, List.mem_of_getElem? hget, hi⟩
  · simp only [step, ServerData.killingDone] at he
    split at he <;> cases he
    exact fun i => by simp

theorem decide {decisions : List IPMessage} (h : data.Found) : Yields Found NotMissing (data.step (.decide decisions)) := by
  refine Yields.intro (fun data' hs => ?_) fun e he => ?_
  · have hstep := hs
    simp only [step, ServerData.decide] at hstep
    split at hstep
    · cases hstep
    split at hstep
    · obtain ⟨killed, -, rfl⟩ := Execution.map_eq_ok.1 hstep
      exact h.elsewhere hs (by simp) (Grows.of_eq ⟨rfl, rfl⟩ ⟨rfl, rfl, rfl⟩ rfl ⟨[], by simp⟩) (fun i hi => .inl hi)
        fun i hi => .inl hi
    · cases hstep
  · simp only [step, ServerData.decide] at he
    split at he
    · cases he
      exact fun i => by simp
    split at he
    · rw [Execution.map_eq_error] at he
      simp only [readKilled] at he
      split at he <;> cases he
      exact fun i => by simp
    · cases he
      exact fun i => by simp

/-- A process that executes a job, or another one, sends a message: a job that is executed is there. -/
theorem push {event : ServerEvent} {message : IPMessage} (h : data.Found) (hs : data.step event = .ok data')
    (hevent : event ≠ .receiveDecision) (hg : Grows data data') (hkillers : data'.killers = data.killers)
    (hmailbox : data'.mailbox = data.mailbox ++ [message]) (hkilling : ∀ msgs, message ≠ .killingDone msgs)
    (hjob : ∀ id, message = .fromJobMsg id → id ∈ data'.jobs) : data'.Found := by
  refine h.elsewhere hs hevent hg (fun i hi => .inl ?_) fun i hi => ?_
  · rcases hi with hi | ⟨msgs, hin, hi⟩
    · exact .inl (hkillers ▸ hi)
    · rw [hmailbox, List.mem_append, List.mem_singleton] at hin
      exact .inr ⟨msgs, hin.resolve_right fun heq => hkilling msgs heq.symm, hi⟩
  · rw [hmailbox, List.mem_append, List.mem_singleton] at hi
    exact hi.imp_right fun heq => hjob i heq.symm

theorem step {event : ServerEvent} (h : data.Found) (hk : data.namesKnown event) :
    Yields Found NotMissing (data.step event) := by
  cases event with
  | receive n => exact h.receive
  | receiveDecision => exact h.receiveDecision hk
  | decide decisions => exact h.decide
  | killNext n progress => exact h.killNext
  | killingDone n => exact h.killingDone
  | workEnds id =>
    refine Yields.intro (fun data' hs => ?_) fun e he => ?_
    · have hstep := hs
      simp only [ServerData.step] at hstep
      split at hstep <;> cases hstep
      exact h.elsewhere hs (by simp) (Grows.of_eq ⟨rfl, rfl⟩ ⟨rfl, rfl, rfl⟩ rfl ⟨[], by simp [setJob]⟩) (fun i hi => .inl hi)
        fun i hi => .inl hi
    · simp only [ServerData.step] at he
      split at he <;> cases he
      exact fun i => by simp
  | jobEnds id returnCode =>
    refine Yields.intro (fun data' hs => ?_) fun e he => ?_
    · have hstep := hs
      simp only [ServerData.step, jobEnds] at hstep
      split at hstep <;> cases hstep
      exact h.push hs (by simp) (Grows.of_eq ⟨rfl, rfl⟩ ⟨rfl, rfl, rfl⟩ rfl ⟨[], by simp [setJob]⟩) rfl rfl (by simp) (by simp)
    · simp only [ServerData.step, jobEnds] at he
      split at he <;> cases he
      exact fun i => by simp
  | post message =>
    refine Yields.intro (fun data' hs => ?_) fun e he => ?_
    · have hstep := hs
      cases message with
      | fromJobMsg id =>
        simp only [ServerData.step, post] at hstep
        split at hstep <;> cases hstep
        rename_i hx
        exact h.push hs (by simp) (Grows.of_eq ⟨rfl, rfl⟩ ⟨rfl, rfl, rfl⟩ rfl ⟨[], by simp⟩) rfl rfl (by simp)
          fun i heq => by cases heq; exact h.mem_of_executing hx
      | jobSubmitted ids =>
        simp only [ServerData.step, post] at hstep
        split at hstep <;> cases hstep
        exact h.push hs (by simp) (Grows.of_eq ⟨rfl, rfl⟩ ⟨rfl, rfl, rfl⟩ rfl ⟨[], by simp⟩) rfl rfl (by simp) (by simp)
      | other =>
        cases hstep
        exact h.push hs (by simp) (Grows.of_eq ⟨rfl, rfl⟩ ⟨rfl, rfl, rfl⟩ rfl ⟨[], by simp⟩) rfl rfl (by simp) (by simp)
      | _ => cases hstep
    · cases message with
      | fromJobMsg id =>
        simp only [ServerData.step, post] at he
        split at he <;> cases he
        exact fun i => by simp
      | jobSubmitted ids =>
        simp only [ServerData.step, post] at he
        split at he <;> cases he
        exact fun i => by simp
      | other => cases he
      | _ =>
        cases he
        exact fun i => by simp

end Found

end ServerData

open ServerData

/-- The server finds every job that it looks up, and deletes none twice, where the scheduler only names jobs that it does not know
to have completed: a job is there as long as its kill is in progress, and is deleted only when the scheduler has been told that it has
completed, or has rejected it. -/
theorem jobs_found (jobs : Finset String) (events : List ServerEvent)
    (h : AllSteps step (fun data event => data.namesKnown event) (initial jobs) events) :
    Always step (fun data => (∀ id, data.KillInProgress id → id ∈ data.jobs) ∧ ∀ id ∈ data.jobsMet, id ∉ data.jobs →
      id ∈ data.accounts.told ∨ (data.job id).state = .rejected) (initial jobs) events ∧
      ∀ e, runFrom step (initial jobs) events = .error e → ∀ id, e ≠ .noSuchJob id ∧ e ≠ .noJobToDelete id := by
  have hstep (data : ServerData) (event : ServerEvent) (data' : ServerData) (hf : data.Found) (hk : data.namesKnown event)
      (hs : data.step event = .ok data') : data'.Found := (hf.step hk).of_ok hs
  refine ⟨always_of_invariant hstep (fun data hf => ⟨hf.kills, fun id hmet hnot => ?_⟩) (.initial jobs) h,
    fun e he => runFrom_error (P := NotMissing) hstep (fun data event e hf hk hs => (hf.step hk).of_error hs) (.initial jobs) h he⟩
  obtain ⟨gone, -, hiff, hgone⟩ := hf.deleted
  exact hgone id ((hiff id hmet).1 hnot)

/-- A job completes while its kill is requested, and both messages are there when the killer is done. -/
def ServerRuns.completesMeanwhile : List ServerEvent := ServerRuns.executed ["w0!1"] ++
  [.decide [.schedKillJob ["w0!1"]], .jobEnds "w0!1" 0, .receiveDecision, .killNext 0 none, .killingDone 0, .receive 0, .receive 0,
    .receiveDecision]

theorem jobs_found_witness : (Always step (fun data => (∀ id, data.KillInProgress id → id ∈ data.jobs) ∧
      ∀ id ∈ data.jobsMet, id ∉ data.jobs → id ∈ data.accounts.told ∨ (data.job id).state = .rejected)
      (initial {"w0!1"}) ServerRuns.completesMeanwhile ∧
    ∀ e, runFrom step (initial {"w0!1"}) ServerRuns.completesMeanwhile = .error e →
      ∀ id, e ≠ .noSuchJob id ∧ e ≠ .noJobToDelete id) ∧
    (runFrom step (initial {"w0!1"}) ServerRuns.completesMeanwhile).toOption.map (·.jobs) = some ∅ :=
  ⟨jobs_found {"w0!1"} ServerRuns.completesMeanwhile (by decide +kernel), by decide +kernel⟩

end ScheduleTest
