import ScheduleTest.Server

/-!
# The life of a job in the simulator

What becomes of one job, whatever becomes of the others: the steps of its life, and the laws that every life obeys. The server and
the processes make the jobs take these steps. Where the killers are effective, they stop every job that they come to.
-/

namespace ScheduleTest

/-- What is known of one job, and how many times it is mentioned where. -/
structure JobLife where
  job : ServerJob
  met : Prop
  /-- With its submitter, or in a message that submits it. -/
  toSubmit : ℕ
  /-- In messages that it has completed. -/
  completions : ℕ
  /-- Among the jobs that a killer has still to come to. -/
  kills : ℕ
  /-- Among those that a killer has come to, as long as the server has not been told. -/
  acks : ℕ
  /-- In events that it has been killed, as long as the scheduler has not answered. -/
  written : ℕ
  resubmitted : ℕ
  executed : ℕ
  changed : ℕ
  started : ℕ
  ended : ℕ
  completed : ℕ
  stopped : ℕ

namespace JobLife

/-- A step in the life of a job. -/
inductive Step (effective : Prop) (l : JobLife) : JobLife → Prop where
  | submit (l' : JobLife) (n m : ℕ) (hn : 0 < n) (h : l.toSubmit = n + m)
    (hl' : l' = { l with job := { l.job with state := .submitted }, toSubmit := m }) : Step effective l l'
  | register (l' : JobLife) (h : ¬ l.met)
    (hl' : l' = { l with job := { state := .submitted }, met := True }) : Step effective l l'
  | execute (l' : JobLife) (h : l.job.state = .submitted)
    (hl' : l' = { l with
      job := { l.job with state := .running, executing := true }, executed := l.executed + 1, started := l.started + 1 }) :
    Step effective l l'
  | reject (l' : JobLife) (h : l.job.state = .submitted)
    (hl' : l' = { l with job := { l.job with state := .rejected }, completed := l.completed + 1 }) : Step effective l l'
  | change (l' : JobLife) (state : JobState) (started ended completed : ℕ) (h : l.executed = 0)
    (hs : l.job.state = .submitted ∨ l.job.state = .running) (hs' : state ≠ .notSubmitted ∧ state ≠ .submitted)
    (hl' : l' = { l with
      job := { l.job with state := state }, changed := l.changed + 1, started := started, ended := ended
      completed := completed }) :
    Step effective l l'
  | requestKill (l' : JobLife) (h : l.job.killRequested = false) (hs : l.job.state = .running ∨ l.job.state.isComplete)
    (hl' : l' = { l with job := { l.job with killRequested := true }, kills := l.kills + 1 }) : Step effective l l'
  | kill (l' : JobLife) (k : ℕ) (hs : l.job.state = .running) (hx : l.job.executing) (h : l.kills = k + 1)
    (hw : effective → l.job.workDone = false)
    (hl' : l' = { l with
      job := { l.job with state := .completedKilled, executing := false }, kills := k, acks := l.acks + 1
      stopped := if l.job.workDone then l.stopped else l.stopped + 1 }) :
    Step effective l l'
  | leave (l' : JobLife) (k : ℕ) (hs : l.job.state ≠ .running) (hnot : ¬ effective) (h : l.kills = k + 1)
    (hl' : l' = { l with kills := k, acks := l.acks + 1 }) : Step effective l l'
  | workEnds (l' : JobLife) (hx : l.job.executing) (hl' : l' = { l with job := { l.job with workDone := true } }) :
    Step effective l l'
  | ends (l' : JobLife) (state : JobState) (hx : l.job.executing)
    (hs : state = .completedSuccessfully ∨ state = .completedFailed ∨ state = .completedWalltimeReached)
    (hl' : l' = { l with
      job := { l.job with state := state, executing := false }, completions := l.completions + 1 }) :
    Step effective l l'
  | complete (l' : JobLife) (c : ℕ) (h : l.completions = c + 1)
    (hl' : l' = { l with completions := c, ended := l.ended + 1, completed := l.completed + 1 }) : Step effective l l'
  | acknowledge (l' : JobLife) (n a : ℕ) (h : l.acks = n + a)
    (hl' : l' = { l with
      acks := a, written := l.written + n
      ended := if l.job.state = .completedKilled then l.ended + n else l.ended
      completed := if l.job.state = .completedKilled then l.completed + n else l.completed }) :
    Step effective l l'
  | resubmit (l' : JobLife) (n w : ℕ) (hn : 0 < n) (h : l.written = n + w)
    (hl' : l' = { l with written := w, resubmitted := l.resubmitted + 1 }) : Step effective l l'

/-- The job has not been given to the scheduler for good: it can be executed or rejected only later. -/
def Early (l : JobLife) : Prop := l.job.state = .notSubmitted ∨ l.job.state = .submitted

/-- The laws of the life of a job. -/
structure Lawful (l : JobLife) : Prop where
  /-- Nothing is known of a job before it is there. -/
  fresh : ¬ l.met → l.job = {} ∧ l.toSubmit = 0
  submitted_once : l.toSubmit ≤ 1 ∧ (l.job.state ≠ .notSubmitted → l.toSubmit = 0)
  early : l.Early → l.executed = 0 ∧ l.changed = 0 ∧ l.job.executing = false ∧ l.completions = 0 ∧ l.started = 0 ∧
    l.ended = 0 ∧ l.completed = 0
  /-- The scheduler does not change the state of a job that is executed. -/
  of_changed : 0 < l.changed → l.executed = 0 ∧ l.job.executing = false ∧ l.completions = 0
  /-- From when it is executed or rejected on, the job is at one of the places where it can be, or has been counted. -/
  balance : l.changed = 0 → ¬ l.Early → (if l.job.executing then 1 else 0) + l.completions +
    (if l.job.state = .completedKilled then l.kills + l.acks else 0) + l.completed = 1
  not_executed : l.changed = 0 → l.executed = 0 → ¬ l.Early → l.job.state = .rejected ∧ l.completed = 1
  counted : l.changed = 0 → l.executed ≤ 1 ∧ l.started = l.executed ∧ l.ended = if l.executed = 0 then 0 else l.completed
  running : l.job.executing → l.job.state = .running
  requested : l.changed = 0 → l.job.state = .completedKilled → l.job.killRequested
  /-- A job whose kill has been requested is on its way through the killer and the server back to the scheduler. -/
  kill_once : l.kills + l.acks + l.written + l.resubmitted = if l.job.killRequested then 1 else 0

variable {effective : Prop} {l l' : JobLife}

namespace Lawful

theorem executed_of_executing (h : l.Lawful) (hx : l.job.executing) : l.executed = 1 ∧ l.changed = 0 ∧ ¬ l.Early := by
  have hchanged : l.changed = 0 := by
    by_contra hne
    have := h.of_changed (by omega)
    simp_all
  have hlate : ¬ l.Early := fun he => by
    have := h.early he
    simp_all
  refine ⟨?_, hchanged, hlate⟩
  by_contra hne
  have hone := h.counted hchanged
  have hrejected := (h.not_executed hchanged (by omega) hlate).1
  simp [h.running hx] at hrejected

theorem executed_of_completions (h : l.Lawful) (hc : 0 < l.completions) : l.executed = 1 ∧ l.changed = 0 ∧ ¬ l.Early := by
  have hchanged : l.changed = 0 := by
    by_contra hne
    have := h.of_changed (by omega)
    omega
  have hlate : ¬ l.Early := fun he => by
    have := h.early he
    omega
  refine ⟨?_, hchanged, hlate⟩
  by_contra hne
  have hone := h.counted hchanged
  have hrejected := h.not_executed hchanged (by omega) hlate
  have hbalance := h.balance hchanged hlate
  omega

theorem submit (h : l.Lawful) {n m : ℕ} (hn : 0 < n) (hm : l.toSubmit = n + m) :
    Lawful { l with job := { l.job with state := .submitted }, toSubmit := m } := by
  obtain ⟨hfresh, honce, hearly, hof, hbalance, hnot, hcounted, hrunning, hrequested, hkill⟩ := h
  have hstate : l.job.state = .notSubmitted := by
    by_contra hne
    have := honce.2 hne
    omega
  have hzero := hearly (.inl hstate)
  constructor <;> simp only [Early] <;> grind -ring -linarith -order

theorem register (h : l.Lawful) (hmet : ¬ l.met) : Lawful { l with job := { state := .submitted }, met := True } := by
  obtain ⟨hjob, hnone⟩ := h.fresh hmet
  have hzero := h.early (.inl (by rw [hjob]))
  have hkill := h.kill_once
  constructor <;> simp only [Early] <;> grind -ring -linarith -order

theorem execute (h : l.Lawful) (hs : l.job.state = .submitted) :
    Lawful { l with
      job := { l.job with state := .running, executing := true }, executed := l.executed + 1, started := l.started + 1 } := by
  have hzero := h.early (.inr hs)
  obtain ⟨hfresh, honce, hearly, hof, hbalance, hnot, hcounted, hrunning, hrequested, hkill⟩ := h
  constructor <;> simp only [Early] <;> grind -ring -linarith -order

theorem reject (h : l.Lawful) (hs : l.job.state = .submitted) :
    Lawful { l with job := { l.job with state := .rejected }, completed := l.completed + 1 } := by
  have hzero := h.early (.inr hs)
  obtain ⟨hfresh, honce, hearly, hof, hbalance, hnot, hcounted, hrunning, hrequested, hkill⟩ := h
  constructor <;> simp only [Early] <;> grind -ring -linarith -order

theorem requestKill (h : l.Lawful) (hnot : l.job.killRequested = false)
    (hs : l.job.state = .running ∨ l.job.state.isComplete) :
    Lawful { l with job := { l.job with killRequested := true }, kills := l.kills + 1 } := by
  obtain ⟨hfresh, honce, hearly, hof, hbalance, hrejected, hcounted, hrunning, hrequested, hkill⟩ := h
  simp only [Early] at *
  constructor <;> simp only [Early] <;> grind -ring -linarith -order [JobState.isComplete]

theorem kill (h : l.Lawful) {k : ℕ} (s : ℕ) (hs : l.job.state = .running) (hx : l.job.executing) (hk : l.kills = k + 1) :
    Lawful { l with
      job := { l.job with state := .completedKilled, executing := false }, kills := k, acks := l.acks + 1, stopped := s } := by
  obtain ⟨hone, hchanged, hlate⟩ := h.executed_of_executing hx
  obtain ⟨hfresh, honce, hearly, hof, hbalance, hnot, hcounted, hrunning, hrequested, hkill⟩ := h
  have hsum := hbalance hchanged hlate
  constructor <;> simp only [Early] at * <;> grind -ring -linarith -order

theorem change (h : l.Lawful) (state : JobState) (started ended completed : ℕ) (hnot : l.executed = 0)
    (hs : l.job.state = .submitted ∨ l.job.state = .running) (hs' : state ≠ .notSubmitted ∧ state ≠ .submitted) :
    Lawful { l with
      job := { l.job with state := state }, changed := l.changed + 1, started := started, ended := ended
      completed := completed } := by
  have hexecuting := h.executed_of_executing
  have hcompletions := h.executed_of_completions
  obtain ⟨hfresh, honce, hearly, hof, hbalance, hrejected, hcounted, hrunning, hrequested, hkill⟩ := h
  constructor <;> simp only [Early] at * <;> grind -ring -linarith -order

theorem leave (h : l.Lawful) {k : ℕ} (hk : l.kills = k + 1) : Lawful { l with kills := k, acks := l.acks + 1 } := by
  obtain ⟨hfresh, honce, hearly, hof, hbalance, hnot, hcounted, hrunning, hrequested, hkill⟩ := h
  constructor <;> simp only [Early] at * <;> grind -ring -linarith -order

theorem workEnds (h : l.Lawful) (hx : l.job.executing) : Lawful { l with job := { l.job with workDone := true } } := by
  have hexecuting := h.executed_of_executing hx
  obtain ⟨hfresh, honce, hearly, hof, hbalance, hnot, hcounted, hrunning, hrequested, hkill⟩ := h
  constructor <;> simp only [Early] at * <;> grind -ring -linarith -order

theorem ends (h : l.Lawful) {state : JobState} (hx : l.job.executing)
    (hs : state = .completedSuccessfully ∨ state = .completedFailed ∨ state = .completedWalltimeReached) :
    Lawful { l with job := { l.job with state := state, executing := false }, completions := l.completions + 1 } := by
  obtain ⟨hone, hchanged, hlate⟩ := h.executed_of_executing hx
  obtain ⟨hfresh, honce, hearly, hof, hbalance, hnot, hcounted, hrunning, hrequested, hkill⟩ := h
  have hsum := hbalance hchanged hlate
  constructor <;> simp only [Early] at * <;> grind -ring -linarith -order

theorem complete (h : l.Lawful) {c : ℕ} (hc : l.completions = c + 1) :
    Lawful { l with completions := c, ended := l.ended + 1, completed := l.completed + 1 } := by
  obtain ⟨hone, hchanged, hlate⟩ := h.executed_of_completions (by omega)
  obtain ⟨hfresh, honce, hearly, hof, hbalance, hnot, hcounted, hrunning, hrequested, hkill⟩ := h
  have hsum := hbalance hchanged hlate
  constructor <;> simp only [Early] at * <;> grind -ring -linarith -order

theorem acknowledge (h : l.Lawful) {n a : ℕ} (ha : l.acks = n + a) :
    Lawful { l with
      acks := a, written := l.written + n
      ended := if l.job.state = .completedKilled then l.ended + n else l.ended
      completed := if l.job.state = .completedKilled then l.completed + n else l.completed } := by
  obtain ⟨hfresh, honce, hearly, hof, hbalance, hnot, hcounted, hrunning, hrequested, hkill⟩ := h
  constructor <;> simp only [Early] at * <;> grind -ring -linarith -order

theorem resubmit (h : l.Lawful) {n w : ℕ} (hn : 0 < n) (hw : l.written = n + w) :
    Lawful { l with written := w, resubmitted := l.resubmitted + 1 } := by
  obtain ⟨hfresh, honce, hearly, hof, hbalance, hnot, hcounted, hrunning, hrequested, hkill⟩ := h
  constructor <;> simp only [Early] at * <;> grind -ring -linarith -order

/-- What obeys the laws does so after every step. -/
theorem step (h : l.Lawful) (hs : Step effective l l') : l'.Lawful := by
  cases hs with
  | submit n m hn hm hl' => exact hl' ▸ h.submit hn hm
  | register hmet hl' => exact hl' ▸ h.register hmet
  | execute hs hl' => exact hl' ▸ h.execute hs
  | reject hs hl' => exact hl' ▸ h.reject hs
  | change state started ended completed hnot hs hs' hl' => exact hl' ▸ h.change state started ended completed hnot hs hs'
  | requestKill hnot hs hl' => exact hl' ▸ h.requestKill hnot hs
  | kill k hs hx hk hw hl' => exact hl' ▸ h.kill _ hs hx hk
  | leave k hs hnot hk hl' => exact hl' ▸ h.leave hk
  | workEnds hx hl' => exact hl' ▸ h.workEnds hx
  | ends state hx hs hl' => exact hl' ▸ h.ends hx hs
  | complete c hc hl' => exact hl' ▸ h.complete hc
  | acknowledge n a ha hl' => exact hl' ▸ h.acknowledge ha
  | resubmit n w hn hw hl' => exact hl' ▸ h.resubmit hn hw

end Lawful

/-- The killers have stopped every job that they have come to. -/
def Effective (l : JobLife) : Prop := l.stopped + l.kills = if l.job.killRequested then 1 else 0

/-- Effective killers stay effective. -/
theorem Effective.step (h : l.Effective) (hlaw : l.Lawful) (hs : Step True l l') : l'.Effective := by
  have hfresh := hlaw.fresh
  simp only [Effective] at *
  cases hs <;> grind -ring -linarith -order

namespace Lawful

/-- A job that is executed is counted as completed once, and as running no more when it is. -/
theorem executed_once (h : l.Lawful) (he : 0 < l.executed) :
    l.ended = l.completed ∧ l.completed ≤ 1 ∧
      (l.job.executing = false → l.completions = 0 → l.kills + l.acks = 0 → l.completed = 1) := by
  have hchanged : l.changed = 0 := by
    by_contra hne
    have := (h.of_changed (by omega)).1
    omega
  have hlate : ¬ l.Early := fun hearly => by
    have := (h.early hearly).1
    omega
  have hended := (h.counted hchanged).2.2
  rw [if_neg (by omega)] at hended
  have hbalance := h.balance hchanged hlate
  refine ⟨hended, by omega, fun hnot hc hk => ?_⟩
  rw [if_neg (by simp [hnot])] at hbalance
  split at hbalance <;> omega

/-- A job that has been rejected stays so. -/
theorem rejected (h : l.Lawful) (hs : Step effective l l') (hr : l.job.state = .rejected) : l'.job.state = .rejected := by
  have hfresh := h.fresh
  have honce := h.submitted_once
  have hrunning := h.running
  cases hs <;> grind -ring -linarith -order

/-- A job is counted as completed once, unless the scheduler changes its state. -/
theorem completed_once (h : l.Lawful) (hc : l.changed = 0) : l.completed ≤ 1 := by
  by_cases hearly : l.Early
  · have := h.early hearly
    omega
  · have := h.balance hc hearly
    omega

theorem met_of_completed (h : l.Lawful) (hc : 0 < l.completed) : l.met := by
  by_contra hmet
  have hjob := (h.fresh hmet).1
  have := h.early (.inl (by rw [hjob]))
  omega

/-- A job that is executed has not completed. -/
theorem of_executing (h : l.Lawful) (hx : l.job.executing) : l.met ∧ l.completed = 0 := by
  obtain ⟨-, hchanged, hlate⟩ := h.executed_of_executing hx
  have hbalance := h.balance hchanged hlate
  rw [if_pos hx] at hbalance
  refine ⟨?_, by omega⟩
  by_contra hmet
  exact hlate (.inl (by rw [(h.fresh hmet).1]))

theorem resubmitted_once (h : l.Lawful) : l.resubmitted ≤ 1 := by
  have := h.kill_once
  split at this <;> omega

/-- Where the killers are effective, the scheduler resubmits the jobs that have been stopped. -/
theorem stopped_of_resubmitted (h : l.Lawful) (he : l.Effective) (hr : 0 < l.resubmitted) : 0 < l.stopped := by
  have hkill := h.kill_once
  rw [Effective] at he
  split at hkill <;> split at he <;> omega

theorem resubmitted_of_stopped (h : l.Lawful) (he : l.Effective) (hs : 0 < l.stopped) (hk : l.kills + l.acks = 0)
    (hw : l.written = 0) : 0 < l.resubmitted := by
  have hkill := h.kill_once
  rw [Effective] at he
  split at hkill <;> split at he <;> simp_all

end Lawful

end JobLife

end ScheduleTest
