import ScheduleTest.Decision
import ScheduleTest.Lib.Execution

/-!
# What the messages tell about the jobs

The simulator submits jobs and reports their ends; the scheduler rejects jobs, executes them on machines and kills them. A platform
keeps what follows from these messages alone: which jobs run where and since when, and what became of the others. A job starts at
the date of the message that executes it, and its end is reported in a message of its date.
-/

namespace ScheduleTest

/-- A job that runs, by the decision that executed it. -/
structure RunningJob where
  id : String
  machines : IntervalSet
  start : ℚ
  deriving DecidableEq

/-- The jobs of a simulation. -/
structure Platform where
  /-- The date of the last message. -/
  now : ℚ
  submitted : List Job := []
  /-- The jobs executed whose ends have not been reported. -/
  running : List RunningJob := []
  /-- The jobs whose ends the message under way reports. -/
  reported : List RunningJob := []
  /-- The jobs whose ends were reported in the messages before. -/
  ended : List String := []
  executed : List String := []
  rejected : List String := []
  killed : Finset String := ∅

/-- What an event tells about the jobs. -/
inductive Notice where
  | submitted (job : Job)
  | completed (id : String)
  /-- The events of a message have been received, and the scheduler decides. -/
  | decided (date : ℚ)
  | other

/-- The jobs that some decisions execute, and their machines. -/
def executions (decisions : List Decision) : List (String × IntervalSet) :=
  decisions.filterMap fun
    | .executeJob id machines => some (id, machines)
    | _ => none

/-- The jobs that some decisions reject. -/
def rejections (decisions : List Decision) : List String :=
  decisions.filterMap fun
    | .rejectJob id => some id
    | _ => none

/-- The jobs that some decisions kill. -/
def kills (decisions : List Decision) : Finset String :=
  (decisions.map fun
    | .killJobs ids => ids
    | _ => ∅).foldr (· ∪ ·) ∅

namespace Platform

/-- The platform after an event. Only the end of a job that runs is reported, and time does not run backwards. -/
def receive (p : Platform) : Notice → Except Abort Platform
  | .submitted job => .ok { p with submitted := p.submitted ++ [job] }
  | .completed id =>
    match p.running.find? (·.id = id) with
    | some r => .ok { p with running := p.running.eraseP (·.id = id), reported := p.reported ++ [r] }
    | none => .error .impossibleMessage
  | .decided date => if p.now ≤ date then .ok { p with now := date } else .error .impossibleMessage
  | .other => .ok p

/-- The platform after the decisions about a message. -/
def send (p : Platform) (decisions : List Decision) : Platform :=
  { p with
    running := p.running ++ (executions decisions).map fun e => { id := e.1, machines := e.2, start := p.now }
    reported := []
    ended := p.ended ++ p.reported.map (·.id)
    executed := p.executed ++ (executions decisions).map (·.1)
    rejected := p.rejected ++ rejections decisions
    killed := p.killed ∪ kills decisions }

/-- No job that ran before the message runs longer than its walltime at a date. -/
def InTime (p : Platform) (date : ℚ) : Prop :=
  ∀ r ∈ p.running ++ p.reported, ∀ job ∈ p.submitted, job.id = r.id → date ≤ r.start + job.walltime

instance (p : Platform) (date : ℚ) : Decidable (p.InTime date) :=
  inferInstanceAs (Decidable (∀ r ∈ p.running ++ p.reported, ∀ job ∈ p.submitted, job.id = r.id → date ≤ r.start + job.walltime))

/-- The platform at the start of a simulation. -/
def new (date : ℚ) : Platform := { now := date }

end Platform

/-- A scheduler as far as its jobs go. -/
structure JobScheduler (σ ε : Type) where
  step : σ → ε → Except Abort σ
  /-- The decisions of the last step. -/
  decisions : σ → List Decision
  notice : ε → Notice

/-- A scheduler and its platform: the decisions are sent when the scheduler decides. -/
def JobScheduler.run {σ ε : Type} (r : JobScheduler σ ε) (t : σ × Platform) (event : ε) : Except Abort (σ × Platform) :=
  match t.2.receive (r.notice event) with
  | .ok p => (r.step t.1 event).map fun s => (s, match r.notice event with
    | .decided _ => p.send (r.decisions s)
    | _ => p)
  | .error e => .error e

/-- When a scheduler decides, no job has run longer than its walltime. -/
def JobScheduler.EndsInTime {σ ε : Type} (r : JobScheduler σ ε) (p : Platform) (event : ε) : Prop :=
  match r.notice event with
  | .decided date => p.InTime date
  | _ => True

instance {σ ε : Type} (r : JobScheduler σ ε) (p : Platform) (event : ε) : Decidable (r.EndsInTime p event) := by
  unfold JobScheduler.EndsInTime
  cases r.notice event <;> infer_instance

namespace JobScheduler

variable {σ ε : Type} {r : JobScheduler σ ε} {s : σ} {p : Platform} {t : σ × Platform} {event : ε}

/-- A scheduler that does the same upon an event, and says the same of it, does the same on the platform. -/
theorem run_congr {r' : JobScheduler σ ε} (hstep : r.step s event = r'.step s event) (hnotice : r.notice event = r'.notice event)
    (hdecisions : r.decisions = r'.decisions) : r.run (s, p) event = r'.run (s, p) event := by
  simp only [run, hstep, hnotice, hdecisions]

/-- A job is submitted. -/
theorem run_submitted {job : Job} (hn : r.notice event = .submitted job) (hx : r.run (s, p) event = .ok t) :
    ∃ s', r.step s event = .ok s' ∧ t = (s', { p with submitted := p.submitted ++ [job] }) := by
  simp only [run, hn, Platform.receive] at hx
  obtain ⟨s', hs, rfl⟩ := Execution.map_eq_ok.1 hx
  exact ⟨s', hs, rfl⟩

/-- The end of a job that runs is reported. -/
theorem run_completed {id : String} (hn : r.notice event = .completed id) (hx : r.run (s, p) event = .ok t) :
    ∃ s' job before after, r.step s event = .ok s' ∧ job.id = id ∧ p.running = before ++ job :: after ∧
      t = (s', { p with running := before ++ after, reported := p.reported ++ [job] }) := by
  simp only [run, hn, Platform.receive] at hx
  split at hx
  · rename_i p' hp
    split at hp
    · rename_i job hfind
      cases hp
      obtain ⟨s', hs, rfl⟩ := Execution.map_eq_ok.1 hx
      obtain ⟨hid, before, after, hjobs, hbefore⟩ := List.find?_eq_some_iff_append.1 hfind
      have herase : p.running.eraseP (·.id = id) = before ++ after := by
        rw [hjobs, List.eraseP_append_right _ (by simpa using hbefore), List.eraseP_cons_of_pos (by exact hid)]
      exact ⟨s', job, before, after, hs, of_decide_eq_true hid, hjobs, by rw [herase]⟩
    · nomatch hp
  · nomatch hx

/-- The scheduler decides, not before the last message. -/
theorem run_decided {date : ℚ} (hn : r.notice event = .decided date) (hx : r.run (s, p) event = .ok t) :
    p.now ≤ date ∧ ∃ s', r.step s event = .ok s' ∧ t = (s', { p with now := date }.send (r.decisions s')) := by
  simp only [run, hn, Platform.receive] at hx
  split at hx
  · rename_i p' hp
    split at hp
    · rename_i hle
      cases hp
      obtain ⟨s', hs, rfl⟩ := Execution.map_eq_ok.1 hx
      exact ⟨hle, s', hs, rfl⟩
    · cases hp
  · cases hx

/-- Other events tell nothing about the jobs. -/
theorem run_other (hn : r.notice event = .other) (hx : r.run (s, p) event = .ok t) :
    ∃ s', r.step s event = .ok s' ∧ t = (s', p) := by
  simp only [run, hn, Platform.receive] at hx
  obtain ⟨s', hs, rfl⟩ := Execution.map_eq_ok.1 hx
  exact ⟨s', hs, rfl⟩

end JobScheduler

section

variable {decisions decisions' : List Decision} {id : String} {machines : IntervalSet}

@[simp] theorem executions_nil : executions [] = [] := rfl

@[simp] theorem rejections_nil : rejections [] = [] := rfl

@[simp] theorem kills_nil : kills [] = ∅ := rfl

@[simp] theorem executions_append : executions (decisions ++ decisions') = executions decisions ++ executions decisions' :=
  List.filterMap_append

@[simp] theorem rejections_append : rejections (decisions ++ decisions') = rejections decisions ++ rejections decisions' :=
  List.filterMap_append

/-- A job is killed when some decision kills it. -/
theorem mem_kills : id ∈ kills decisions ↔ ∃ ids, .killJobs ids ∈ decisions ∧ id ∈ ids := by
  induction decisions with
  | nil => simp
  | cons d decisions ih =>
    rw [kills] at ih ⊢
    rw [List.map_cons, List.foldr_cons, Finset.mem_union, ih]
    cases d <;> simp [or_and_right, exists_or]

@[simp] theorem executions_executeJob : executions [.executeJob id machines] = [(id, machines)] := rfl

@[simp] theorem rejections_executeJob : rejections [.executeJob id machines] = [] := rfl

@[simp] theorem executions_rejectJob : executions [.rejectJob id] = [] := rfl

@[simp] theorem rejections_rejectJob : rejections [.rejectJob id] = [id] := rfl

end

end ScheduleTest
