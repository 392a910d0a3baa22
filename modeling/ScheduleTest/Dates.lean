import ScheduleTest.EasyBf2

/-!
# The dates of what is written

The main loop (`main.cpp`) handles the events of a message at their timestamps, and then lets the scheduler decide at the date of the
message; the date of the last event goes into the information that the queue is sorted with. `easy_bf.cpp`, `easy_bf2.cpp` and
`easy_bf3.cpp` write most decisions at the date of the message, and those about the first jobs of the queue at the date of the last
event. The writer (`protocol.cpp`) asserts that the dates do not go backwards.
-/

namespace ScheduleTest

/-- `JsonProtocolWriter`, as far as dates go. -/
structure ProtocolWriter where
  lastDate : ℚ := -1
  deriving DecidableEq

namespace ProtocolWriter

/-- Append an event: `none` where the assertion fails. -/
def append (w : ProtocolWriter) (date : ℚ) : Option ProtocolWriter := if w.lastDate ≤ date then some { lastDate := date } else none

/-- Append several events. -/
def appendAll (w : ProtocolWriter) : List ℚ → Option ProtocolWriter
  | [] => some w
  | date :: dates => (w.append date).bind fun w' => w'.appendAll dates

end ProtocolWriter

/-- An event of a message. Those of which these schedulers only remember that they occurred are one constructor. -/
inductive BatsimEvent where
  /-- What is drawn is the time to the first failure. -/
  | simulationBegins (failure : ℚ)
  | jobSubmitted (job : Job)
  | jobCompleted (id : String)
  | jobsKilled (ids : List String)
  | requestedCall (id : ℕ) (forWhat : CallMeLaterType) (draws : Draws)
  | noMoreStaticJobToSubmit
  | other

def BatsimEvent.isRequestedCall : BatsimEvent → Bool
  | .requestedCall _ _ _ => true
  | _ => false

/-- A message of Batsim: its date, its events with their timestamps, and what is drawn for the failures dealt with in the step. -/
structure Message where
  now : ℚ
  events : List (ℚ × BatsimEvent)
  instantDraws : ℕ → Draws
  downDraws : ℕ → Draws

namespace Message

/-- `current_date` after the events: the timestamp of the last. -/
def currentDate (m : Message) : ℚ := (m.events.getLast?.map (·.1)).getD m.now

/-- Whether the only event is a requested call. -/
def requestedCallbackOnly (m : Message) : Bool :=
  match m.events with
  | [(_, event)] => event.isRequestedCall
  | _ => false

end Message

/-- A scheduler that the main loop drives, with the dates of what it writes. -/
structure DatedScheduler (σ : Type) where
  handle : σ → ℚ → BatsimEvent → Except Abort (σ × List ℚ)
  makeDecisions : σ → Message → Except Abort (σ × List ℚ)

namespace DatedScheduler

variable {σ : Type} (a : DatedScheduler σ)

/-- The loop over the events of a message. -/
def handleEvents (s : σ) : List (ℚ × BatsimEvent) → Except Abort (σ × List ℚ)
  | [] => .ok (s, [])
  | (date, event) :: events =>
    match a.handle s date event with
    | .ok (s', dates) => (handleEvents s' events).map fun r => (r.1, dates ++ r.2)
    | .error e => .error e

/-- What the main loop does with a message: the state after it, and the dates of what is written for its events and of what is
decided. -/
def receive (callMakeDecisionsOnSingleNop : Bool) (s : σ) (m : Message) : Except Abort (σ × List ℚ × List ℚ) :=
  match a.handleEvents s m.events with
  | .ok (s', handled) =>
    if !callMakeDecisionsOnSingleNop && m.requestedCallbackOnly then .ok (s', handled, [])
    else (a.makeDecisions s' m).map fun r => (r.1, handled, r.2)
  | .error e => .error e

/-- A message with the writer: the run stops with `none` where the dates are inconsistent, and with the assertion where another one
fails. -/
def deliver (callMakeDecisionsOnSingleNop : Bool) (t : σ × ProtocolWriter) (m : Message) :
    Except (Option Abort) (σ × ProtocolWriter) :=
  match a.receive callMakeDecisionsOnSingleNop t.1 m with
  | .ok (s, handled, decided) =>
    match t.2.appendAll (handled ++ decided) with
    -- the message sent is dated no earlier than what was appended last, so that its own check passes
    | some w => .ok (s, w)
    | none => .error none
  | .error e => .error (some e)

end DatedScheduler

/-- The dates of what was written between two states of the decisions, at one date. -/
def datesWritten (before after : SchedulingDecision) (date : ℚ) : List ℚ :=
  List.replicate (after.decisions.length - before.decisions.length) date

namespace EasyBf

/-- The handlers of events. The start is notified. -/
def handle (c : EasyBfConfig) (s : EasyBfState) (date : ℚ) : BatsimEvent → Except Abort (EasyBfState × List ℚ)
  | .simulationBegins _ => .ok ({ s with schedule := Schedule.new c.nbMachines date }, [date])
  | .jobSubmitted job => (step c s (.jobSubmitted job)).map fun s' => (s', [])
  | .jobCompleted id => (step c s (.jobCompleted id)).map fun s' => (s', [])
  | _ => .ok (s, [])

/-- `make_decisions`, with the dates: the rejections at the date of the step, the executions of the first jobs of the queue at the
current date, and the others and five notifications at the date of the step. -/
def datedDecisions (c : EasyBfConfig) (s : EasyBfState) (date currentDate : ℚ) : Except Abort (EasyBfState × List ℚ) :=
  let s := { s with decision := s.decision.clear }
  match handleJobs c s currentDate with
  | .ok released =>
    match prepare c s date currentDate with
    | .ok sorted => (makeDecisions c s date currentDate).map fun decided =>
      ({ decided with jobsReleasedRecently := [], jobsEndedRecently := [] },
        datesWritten s.decision released.decision date ++ datesWritten released.decision sorted.decision currentDate ++
          (datesWritten sorted.decision decided.decision date ++ List.replicate 5 date))
    | .error e => .error e
  | .error e => .error e

/-- The scheduler with its dates. -/
def dated (c : EasyBfConfig) : DatedScheduler EasyBfState where
  handle := handle c
  makeDecisions := fun s m => datedDecisions c s m.now m.currentDate

end EasyBf

namespace EasyBf2

/-- The handlers of events. The start is notified, and the first failure is asked for; so is the next one when one is noted. -/
def handle (c : EasyBf2Config) (s : EasyBf2State) (date : ℚ) : BatsimEvent → Except Abort (EasyBf2State × List ℚ)
  | .simulationBegins failure =>
    let decision := c.setGenerators date failure
    .ok ({ s with schedule := Schedule.new c.nbMachines date, decision := decision }, date :: datesWritten {} decision date)
  | .jobSubmitted job => (step c s (.jobSubmitted job)).map fun s' => (s', [])
  | .jobCompleted id => (step c s (.jobCompleted id)).map fun s' => (s', [])
  | .jobsKilled ids => (step c s (.jobsKilled ids)).map fun s' => (s', [])
  | .requestedCall id forWhat draws =>
    (step c s (.requestedCall date id forWhat draws)).map fun s' => (s', datesWritten s.decision s'.decision date)
  | .noMoreStaticJobToSubmit => (step c s .noMoreStaticJobToSubmit).map fun s' => (s', [])
  | .other => .ok (s, [])

/-- `make_decisions`, with the dates: the rejections and what is written about failures at the date of the step, the executions of
the first jobs of the queue at the current date, and the others at the date of the step. -/
def datedDecisions (c : EasyBf2Config) (s : EasyBf2State) (m : Message) : Except Abort (EasyBf2State × List ℚ) :=
  let t := { s.toEasyBfState with decision := s.decision.clear }
  match EasyBf.handleJobs c.toEasyBfConfig t m.currentDate with
  | .ok released =>
    match released.schedule.updateFirstSlice m.now with
    | .ok schedule =>
      match handleFailures c { released with schedule := schedule } m.now (instantDowns s m.instantDraws) (downs s m.downDraws) with
      | .ok failed =>
        match prepare c t m.now m.currentDate (instantDowns s m.instantDraws) (downs s m.downDraws) with
        | .ok sorted =>
          match makeDecisions c t m.now m.currentDate (instantDowns s m.instantDraws) (downs s m.downDraws) with
          | .ok decided =>
            (step c s (.makeDecisions m.now m.currentDate m.instantDraws m.downDraws)).map fun s' =>
              (s', datesWritten t.decision failed.decision m.now ++ datesWritten failed.decision sorted.decision m.currentDate ++
                datesWritten sorted.decision decided.decision m.now)
          | .error e => .error e
        | .error e => .error e
      | .error e => .error e
    | .error e => .error e
  | .error e => .error e

/-- The scheduler with its dates. -/
def dated (c : EasyBf2Config) : DatedScheduler EasyBf2State where
  handle := handle c
  makeDecisions := datedDecisions c

end EasyBf2

namespace EasyBf3

/-- The handlers of events. The start is notified, and the first failure is asked for. -/
def handle (c : EasyBf2Config) (s : EasyBf3State) (date : ℚ) : BatsimEvent → Except Abort (EasyBf3State × List ℚ)
  | .simulationBegins failure =>
    let decision := c.setGenerators date failure
    .ok ({ s with
      availableMachines := s.availableMachines ∪ Finset.range c.nbMachines
      nbAvailableMachines := c.nbMachines
      decision := decision }, date :: datesWritten {} decision date)
  | .jobSubmitted job => (step ⟨c.nbMachines, c.order⟩ s (.jobSubmitted job)).map fun s' => (s', [])
  | .jobCompleted id => (step ⟨c.nbMachines, c.order⟩ s (.jobCompleted id)).map fun s' => (s', [])
  | _ => .ok (s, [])

/-- `make_decisions`, with the dates: the rejections at the date of the step, the executions of the first jobs of the queue at the
current date, and the others and two notifications at the date of the step. -/
def datedDecisions (c : EasyBf3Config) (s : EasyBf3State) (date currentDate : ℚ) : Except Abort (EasyBf3State × List ℚ) :=
  let s := { s with decision := s.decision.clear }
  let released := handleJobs c s currentDate
  match prepare c s currentDate with
  | .ok sorted => (makeDecisions c s date currentDate).map fun decided =>
    ({ decided with jobsReleasedRecently := [], jobsEndedRecently := [] },
      datesWritten s.decision released.decision date ++ datesWritten released.decision sorted.decision currentDate ++
        (datesWritten sorted.decision decided.decision date ++ List.replicate 2 date))
  | .error e => .error e

/-- The scheduler with its dates. -/
def dated (c : EasyBf2Config) : DatedScheduler EasyBf3State where
  handle := handle c
  makeDecisions := fun s m => datedDecisions ⟨c.nbMachines, c.order⟩ s m.now m.currentDate

end EasyBf3

end ScheduleTest
