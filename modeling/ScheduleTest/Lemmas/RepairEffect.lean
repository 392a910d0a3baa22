import ScheduleTest.Simulation
import ScheduleTest.Lemmas.Operations

/-!
# What a step does to the machines under repair

For each scheduler, a step other than the answer that reports a repair done either leaves the machines under repair alone and
asks for no such call, or puts one machine under repair and asks for one call, whose id is the number of calls asked for before.
The answer takes the machine that its id names out of repair. These are the only facts about the schedulers that the theorem on
their callbacks uses.
-/

namespace ScheduleTest

/-- The call that ends the repair of a machine. -/
def repairCall (id machine : ℕ) (targetTime : ℚ) : PendingCall where
  forWhat := .repairDone
  id := id
  targetTime := targetTime
  machine := machine

/-- A step puts at most one machine under repair, the one drawn, and asks for the call that ends its repair. -/
structure RepairEffect (r : RepairScheduler) (s s' : r.State) (machine : ℕ) (down : Option (ℕ × ℚ)) : Prop where
  repair : r.repairMachines s' = down.elim (r.repairMachines s) (fun d => insert d.1 (r.repairMachines s))
  fresh : ∀ m t, down = some (m, t) → m ∉ r.repairMachines s ∧ m = machine
  asked : repairsAmong (callsAsked machine (r.decision s').decisions) =
    (down.map fun d => repairCall (r.decision s).nbCallMeLaters machine d.2).toList

/-- What a scheduler does about repairs. -/
structure LawfulRepairs (r : RepairScheduler) : Prop where
  message : ∀ {s event date draws s'}, r.handle s event date draws = .ok s' →
    RepairEffect r s s' draws.number (r.goesDown s (.message event) date draws)
  call : ∀ {s date id forWhat draws s'}, forWhat ≠ .repairDone → r.onRequestedCall s date id forWhat draws = .ok s' →
    RepairEffect r s s' draws.number (r.goesDown s (.call forWhat) date draws)
  done : ∀ s date id draws, ∃ s', r.onRequestedCall s date id .repairDone draws = .ok s' ∧
    r.repairMachines s' = r.repairMachines s \ {id} ∧ repairsAmong (callsAsked draws.number (r.decision s').decisions) = []
  idle : ∀ s date draws, r.goesDown s (.call .repairDone) date draws = none

section

@[simp] theorem callsAsked_nil (machine : ℕ) : callsAsked machine [] = [] := rfl

theorem callsAsked_append (machine : ℕ) (l l' : List Decision) :
    callsAsked machine (l ++ l') = callsAsked machine l ++ callsAsked machine l' :=
  List.filterMap_append

theorem repairsAmong_append (l l' : List PendingCall) : repairsAmong (l ++ l') = repairsAmong l ++ repairsAmong l' :=
  List.filter_append ..

end

/-! ## The fast schedulers -/

namespace FastState

/-- Nothing happens to the machines under repair, and no call is asked for. -/
structure Quiet (s s' : FastState) : Prop where
  repair : s'.repairMachines = s.repairMachines
  asked : ∀ machine, callsAsked machine s'.decision.decisions = callsAsked machine s.decision.decisions

variable {c : FastConfig} {s s' s'' : FastState} {job : Job}

theorem Quiet.refl (s : FastState) : Quiet s s := ⟨rfl, fun _ => rfl⟩

theorem Quiet.trans (h : Quiet s s') (h' : Quiet s' s'') : Quiet s s'' :=
  ⟨h'.repair.trans h.repair, fun machine => (h'.asked machine).trans (h.asked machine)⟩

/-- A message that is no call is written. -/
theorem Quiet.add {decision : Decision} (hr : s'.repairMachines = s.repairMachines)
    (hd : s'.decision = s.decision.add decision) (hcall : callsAsked 0 [decision] = []) : Quiet s s' := by
  refine ⟨hr, fun machine => ?_⟩
  rw [hd, SchedulingDecision.decisions_add, callsAsked_append]
  cases decision with
  | callMeLater forWhat id targetTime => nomatch hcall
  | _ => exact List.append_nil _

theorem tryExecute_quiet (hx : s.tryExecute c job = .ok (some s')) : Quiet s s' := by
  rw [tryExecute] at hx
  split at hx
  · split at hx
    · cases hx
      exact Quiet.add rfl rfl rfl
    · split at hx
      · obtain ⟨t, ht, heq⟩ := Execution.map_eq_ok.1 hx
        cases heq
        rw [executeOnNewCoreMachine] at ht
        dsimp only at ht
        split at ht
        · cases ht
          exact Quiet.add rfl rfl rfl
        · nomatch ht
      · nomatch hx
  · split at hx
    · cases hx
      exact Quiet.add rfl rfl rfl
    · nomatch hx

theorem finishOnCore_quiet (hx : s.finishOnCore c job = .ok s') : Quiet s s' := by
  rw [finishOnCore] at hx
  dsimp only at hx
  split at hx
  · cases hx
    exact ⟨rfl, fun _ => rfl⟩
  · nomatch hx

theorem handleNewJobsToKill_quiet (s : FastState) : Quiet s s.handleNewJobsToKill := by
  rw [handleNewJobsToKill]
  split
  · exact Quiet.add rfl rfl rfl
  · exact Quiet.refl s

theorem handleResubmission_quiet (s : FastState) :
    Quiet s { s with decision := s.decision.handleResubmission s.jobsKilledRecently } := by
  refine ⟨rfl, fun machine => ?_⟩
  rw [SchedulingDecision.decisions_handleResubmission, callsAsked_append]
  simp [callsAsked, List.filterMap_map]

theorem sendFinishedSubmittingJobs_quiet (s : FastState) (date : ℚ) : Quiet s (s.sendFinishedSubmittingJobs date) := by
  rw [sendFinishedSubmittingJobs]
  split
  · exact Quiet.add rfl rfl rfl
  · exact Quiet.refl s

/-- The handlers of the messages other than requested calls. -/
theorem step_quiet {makeDecisions : FastState → ℚ → Except Abort FastState} {event : FastEvent}
    (hmake : ∀ t date t', makeDecisions t date = .ok t' → Quiet t t')
    (hcall : ∀ date id forWhat draws, event ≠ .requestedCall date id forWhat draws)
    (hx : s.step c makeDecisions event = .ok s') : Quiet { s with decision := s.decision.clear } s' := by
  cases event with
  | jobSubmitted job =>
    change onJobSubmitted _ job = .ok s' at hx
    rw [onJobSubmitted] at hx
    split at hx
    · nomatch hx
    · cases hx
      exact ⟨rfl, fun _ => rfl⟩
  | jobCompleted id =>
    change onJobCompleted _ id = .ok s' at hx
    rw [onJobCompleted] at hx
    split at hx
    · cases hx
      exact ⟨rfl, fun _ => rfl⟩
    · nomatch hx
  | jobsKilled ids =>
    cases hx
    exact ⟨rfl, fun _ => rfl⟩
  | requestedCall date id forWhat draws => exact absurd rfl (hcall date id forWhat draws)
  | machinesAvailable machines =>
    cases hx
    exact ⟨rfl, fun _ => rfl⟩
  | myKillJob victim =>
    cases hx
    rw [onMyKillJobNotifyEvent]
    split <;> exact ⟨rfl, fun _ => rfl⟩
  | noMoreStaticJobToSubmit =>
    cases hx
    exact ⟨rfl, fun _ => rfl⟩
  | makeDecisions date =>
    obtain ⟨t, ht, rfl⟩ := Execution.map_eq_ok.1 hx
    exact (hmake _ _ _ ht).trans ⟨rfl, fun _ => rfl⟩

/-- Only the machine that is drawn goes down, and only if it is not under repair. -/
theorem of_goesDown {cause : Cause FastEvent} {date : ℚ} {draws : Draws} {m : ℕ} {t : ℚ}
    (h : s.goesDown c cause date draws = some (m, t)) : m ∉ s.repairMachines ∧ m = draws.number := by
  have hif : ∀ {P : Prop} [Decidable P] {d : ℕ × ℚ}, (if P then some d else none) = some (m, t) → P ∧ d = (m, t) := by
    intro P _ d hd
    split at hd
    · exact ⟨‹P›, Option.some.inj hd⟩
    · nomatch hd
  cases cause with
  | message event => nomatch h
  | call forWhat =>
    cases forWhat with
    | smtbf =>
      obtain ⟨hcond, hd⟩ := hif h
      cases hd
      exact ⟨hcond.2.2, rfl⟩
    | fixedFailure =>
      obtain ⟨hcond, hd⟩ := hif h
      cases hd
      exact ⟨hcond.2.2, rfl⟩
    | mtbf => nomatch h
    | repairDone => nomatch h
    | reservationStart => nomatch h
    | checkpointBatsched => nomatch h
    | recoverFromCheckpoint => nomatch h

/-- A requested call, other than the one that reports a repair done, takes down the machine foreseen or none. -/
theorem onRequestedCall_effect (hd : s.decision.decisions = []) (date : ℚ) (id : ℕ) (draws : Draws)
    {forWhat : CallMeLaterType} (hne : forWhat ≠ .repairDone) :
    (s.onRequestedCall c date id draws forWhat).repairMachines =
        (s.goesDown c (.call forWhat) date draws).elim s.repairMachines (fun d => insert d.1 s.repairMachines) ∧
      repairsAmong (callsAsked draws.number (s.onRequestedCall c date id draws forWhat).decision.decisions) =
        ((s.goesDown c (.call forWhat) date draws).map
          fun d => repairCall s.decision.nbCallMeLaters draws.number d.2).toList := by
  have hfailure : ∀ forWhat' time, forWhat' ≠ .repairDone →
      ((s.onFailure c date draws).askAgain forWhat' time).repairMachines =
          (if c.repairTime ≠ 0 ∧ draws.number ∉ s.repairMachines then insert draws.number s.repairMachines
          else s.repairMachines) ∧
        repairsAmong (callsAsked draws.number ((s.onFailure c date draws).askAgain forWhat' time).decision.decisions) =
          if c.repairTime ≠ 0 ∧ draws.number ∉ s.repairMachines then
            [repairCall s.decision.nbCallMeLaters draws.number (date + repairTimeOf c draws.repair)]
          else [] := by
    intro forWhat' time hne'
    rw [onFailure]
    by_cases hz : c.repairTime = 0
    · rw [if_pos hz, onMachineInstantDownUp]
      split <;> simp [askAgain, SchedulingDecision.addCallMeLater, hd, callsAsked, repairsAmong, hz, hne']
    · rw [if_neg hz, onMachineDownForRepair]
      by_cases hr : draws.number ∈ s.repairMachines
      · simp [askAgain, SchedulingDecision.addCallMeLater, hd, callsAsked, repairsAmong, hr, hne']
      · simp [askAgain, SchedulingDecision.addCallMeLater, hd, callsAsked, repairsAmong, hr, hne', hz, repairCall]
  cases forWhat with
  | repairDone => exact absurd rfl hne
  | smtbf =>
    simp only [onRequestedCall, goesDown]
    by_cases hw : s.stillWorking
    · simp only [hw, if_true, true_and]
      refine ⟨(hfailure .smtbf _ (by simp)).1.trans ?_, (hfailure .smtbf _ (by simp)).2.trans ?_⟩ <;> split_ifs <;> rfl
    · simp [hw, hd, repairsAmong]
  | fixedFailure =>
    simp only [onRequestedCall, goesDown]
    by_cases hw : s.stillWorking
    · simp only [hw, if_true, true_and]
      refine ⟨(hfailure .fixedFailure _ (by simp)).1.trans ?_, (hfailure .fixedFailure _ (by simp)).2.trans ?_⟩ <;>
        split_ifs <;> rfl
    · simp [hw, hd, repairsAmong]
  | mtbf =>
    simp only [onRequestedCall, goesDown, onMyKillJobNotifyEvent]
    split_ifs <;> simp [askAgain, SchedulingDecision.addCallMeLater, hd, callsAsked, repairsAmong]
  | reservationStart => simp [onRequestedCall, goesDown, hd, repairsAmong]
  | checkpointBatsched => simp [onRequestedCall, goesDown, hd, repairsAmong]
  | recoverFromCheckpoint => simp [onRequestedCall, goesDown, hd, repairsAmong]

end FastState

/-- A fast scheduler keeps the laws of repairs if its `make_decisions` leaves them alone. -/
theorem fastScheduler_lawful {State : Type} {toFastState : State → FastState}
    {step : State → FastEvent → Except Abort State} {c : FastConfig}
    (hquiet : ∀ s event s', (∀ date id forWhat draws, event ≠ .requestedCall date id forWhat draws) → step s event = .ok s' →
      FastState.Quiet { toFastState s with decision := (toFastState s).decision.clear } (toFastState s'))
    (hcall : ∀ s date id forWhat draws, ∃ s', step s (.requestedCall date id forWhat draws) = .ok s' ∧
      toFastState s' = FastState.onRequestedCall c { toFastState s with decision := (toFastState s).decision.clear }
        date id draws forWhat) : LawfulRepairs (fastScheduler State toFastState step c) where
  message := by
    intro s event date draws s' hx
    have hne : ∀ date id forWhat draws, event ≠ .requestedCall date id forWhat draws := by
      rintro date id forWhat draws rfl
      nomatch hx
    have hstep : step s event = .ok s' := by
      cases event with
      | requestedCall date id forWhat draws => nomatch hx
      | _ => exact hx
    have h := hquiet s event s' hne hstep
    refine ⟨h.repair, fun m t hbad => (nomatch hbad), ?_⟩
    change repairsAmong (callsAsked draws.number (toFastState s').decision.decisions) = []
    rw [h.asked]
    rfl
  call := by
    intro s date id forWhat draws s' hne hx
    obtain ⟨t, ht, hstate⟩ := hcall s date id forWhat draws
    have heq : t = s' := Except.ok.inj (ht.symm.trans hx)
    subst heq
    have heffect := FastState.onRequestedCall_effect (c := c)
      (s := { toFastState s with decision := (toFastState s).decision.clear }) rfl date id draws hne
    rw [← hstate] at heffect
    exact ⟨heffect.1, fun m t hdown => FastState.of_goesDown hdown, heffect.2⟩
  done := by
    intro s date id draws
    obtain ⟨t, ht, hstate⟩ := hcall s date id .repairDone draws
    refine ⟨t, ht, ?_, ?_⟩
    · change (toFastState t).repairMachines = (toFastState s).repairMachines \ {id}
      rw [hstate]
      rfl
    · change repairsAmong (callsAsked draws.number (toFastState t).decision.decisions) = []
      rw [hstate]
      rfl
  idle := fun _ _ _ => rfl

open Execution FastState

/-- A loop of quiet steps is quiet. -/
theorem runFrom_quiet {State α : Type} (toFastState : State → FastState) {step : State → α → Except Abort State}
    (hstep : ∀ s a s', step s a = .ok s' → Quiet (toFastState s) (toFastState s')) {s s' : State} {as : List α}
    (hx : runFrom step s as = .ok s') : Quiet (toFastState s) (toFastState s') :=
  runFrom_invariant (C := fun _ _ => True) (I := fun t => Quiet (toFastState s) (toFastState t))
    (fun t a t' h _ ht => h.trans (hstep t a t' ht)) (Quiet.refl _) (allSteps_of_forall (by simp)) hx

namespace FCFSFast2

variable {c : FastConfig} {s s' : FastState} {job : Job}

theorem finishJob_quiet (hx : finishJob c s job = .ok s') : Quiet s s' := by
  rw [finishJob] at hx
  split at hx
  · exact finishOnCore_quiet hx
  · cases hx
    exact ⟨rfl, fun _ => rfl⟩

theorem executePending_quiet {before rest : List Job} (hx : executePending c s before rest = .ok s') : Quiet s s' := by
  induction rest generalizing s before with
  | nil =>
    cases hx
    exact Quiet.refl _
  | cons job rest ih =>
    rw [executePending] at hx
    split at hx
    · rename_i t ht
      have hrest : Quiet { t with pendingJobs := before.reverse ++ rest } s' := ih hx
      exact (tryExecute_quiet ht).trans ⟨hrest.repair, hrest.asked⟩
    · split at hx
      · exact ih hx
      · cases hx
        exact Quiet.refl _
    · nomatch hx

theorem releaseJob_quiet (hx : releaseJob c s job = .ok s') : Quiet s s' := by
  rw [releaseJob] at hx
  split at hx
  · cases hx
    exact Quiet.add rfl rfl rfl
  · split at hx
    · split at hx
      · rename_i t ht
        cases hx
        exact tryExecute_quiet ht
      · cases hx
        exact ⟨rfl, fun _ => rfl⟩
      · nomatch hx
    · split at hx <;>
      · cases hx
        exact ⟨rfl, fun _ => rfl⟩

theorem executeWaiting_quiet {jobEnded : Bool} (hx : executeWaiting c jobEnded s = .ok s') : Quiet s s' := by
  rw [executeWaiting] at hx
  split at hx
  · rename_i t ht
    have hfirst : Quiet s t := by
      split at ht
      · exact executePending_quiet ht
      · cases ht
        exact Quiet.refl _
    split at hx
    · exact hfirst.trans (executePending_quiet hx)
    · cases hx
      exact hfirst
  · nomatch hx

theorem makeDecisions_quiet {date : ℚ} (hx : makeDecisions c s date = .ok s') : Quiet s s' := by
  rw [makeDecisions] at hx
  split at hx
  · rename_i t ht
    obtain ⟨u, hu, rfl⟩ := map_eq_ok.1 hx
    rw [endAndExecute] at ht
    split at ht
    · rename_i v hv
      have hended : Quiet s v := runFrom_quiet id (fun _ _ _ h => finishJob_quiet h) hv
      have hkill : Quiet s v.handleNewJobsToKill := hended.trans (handleNewJobsToKill_quiet v)
      have hsent := hkill.trans (handleResubmission_quiet _)
      have hwait : Quiet s t := hsent.trans (executeWaiting_quiet ht)
      have hreleased : Quiet t u := runFrom_quiet id (fun _ _ _ h => releaseJob_quiet h) hu
      exact (hwait.trans hreleased).trans (sendFinishedSubmittingJobs_quiet u date)
    · nomatch ht
  · nomatch hx

theorem lawful (c : FastConfig) : LawfulRepairs (fastScheduler FastState id (step c) c) := by
  refine fastScheduler_lawful (fun s event s' hne hx => ?_) (fun s date id forWhat draws => ⟨_, rfl, rfl⟩)
  exact step_quiet (fun _ _ _ h => makeDecisions_quiet h) hne hx

end FCFSFast2

namespace EasyBFFast2

variable {c : FastConfig} {s s' : EasyState} {job : Job} {date : ℚ}

theorem setPriorityJob_quiet (hx : setPriorityJob c s job = .ok s') : Quiet s.toFastState s'.toFastState := by
  obtain ⟨d, _, rfl⟩ := map_eq_ok.1 hx
  exact Quiet.refl _

theorem tryExecute_quiet (hx : tryExecute c s job date = .ok (some s')) : Quiet s.toFastState s'.toFastState := by
  rw [tryExecute] at hx
  split at hx
  · rename_i t ht
    cases hx
    exact FastState.tryExecute_quiet ht
  · nomatch hx
  · nomatch hx

theorem finishJob_quiet (hx : finishJob c s job = .ok s') : Quiet s.toFastState s'.toFastState := by
  rw [finishJob] at hx
  split at hx
  · nomatch hx
  · dsimp only at hx
    split at hx
    · obtain ⟨t, ht, rfl⟩ := map_eq_ok.1 hx
      exact finishOnCore_quiet ht
    · cases hx
      exact ⟨rfl, fun _ => rfl⟩

theorem executePriorityJob_quiet (hx : executePriorityJob c s job date = .ok (some s')) :
    Quiet s.toFastState s'.toFastState := by
  obtain ⟨executed, ht, hmap⟩ := map_eq_ok.1 hx
  cases executed with
  | none => nomatch hmap
  | some t =>
    have hquiet := tryExecute_quiet ht
    cases hmap
    exact ⟨hquiet.repair, hquiet.asked⟩

theorem executePending_quiet {rest : List Job} (hx : executePending c date s rest = .ok s') :
    Quiet s.toFastState s'.toFastState := by
  induction rest generalizing s with
  | nil =>
    cases hx
    exact Quiet.refl _
  | cons job rest ih =>
    rw [executePending] at hx
    split at hx
    · rename_i t ht
      have hrest := ih hx
      exact (tryExecute_quiet ht).trans ⟨hrest.repair, hrest.asked⟩
    · have hprio := setPriorityJob_quiet hx
      exact ⟨hprio.repair, hprio.asked⟩
    · nomatch hx

theorem backfill_quiet {before rest : List Job} (hx : backfill c date s before rest = .ok s') :
    Quiet s.toFastState s'.toFastState := by
  induction rest generalizing s before with
  | nil =>
    cases hx
    exact Quiet.refl _
  | cons job rest ih =>
    rw [backfill] at hx
    split at hx
    · split at hx
      · rename_i t ht
        have hrest := ih hx
        exact (tryExecute_quiet ht).trans ⟨hrest.repair, hrest.asked⟩
      · exact ih hx
      · nomatch hx
    · exact ih hx

theorem handleEndedJobExecution_quiet {jobEnded : Bool} (hx : handleEndedJobExecution c s jobEnded date = .ok s') :
    Quiet s.toFastState s'.toFastState := by
  rw [handleEndedJobExecution] at hx
  split at hx
  · cases hx
    exact Quiet.refl _
  · split at hx
    · rename_i t ht
      split at hx
      · rename_i u hu
        exact ((executePriorityJob_quiet ht).trans (executePending_quiet hu)).trans (backfill_quiet hx)
      · nomatch hx
    · exact backfill_quiet hx
    · nomatch hx

theorem enqueue_quiet (hx : enqueue c s job = .ok s') : Quiet s.toFastState s'.toFastState := by
  rw [enqueue] at hx
  split at hx
  · exact setPriorityJob_quiet hx
  · split at hx <;>
    · cases hx
      exact ⟨rfl, fun _ => rfl⟩

theorem releaseJob_quiet (hx : releaseJob c date s job = .ok s') : Quiet s.toFastState s'.toFastState := by
  rw [releaseJob] at hx
  split at hx
  · cases hx
    exact Quiet.add rfl rfl rfl
  · split at hx
    · split at hx
      · rename_i t ht
        cases hx
        exact tryExecute_quiet ht
      · exact enqueue_quiet hx
      · nomatch hx
    · exact enqueue_quiet hx

theorem makeDecisions_quiet (hx : makeDecisions c s date = .ok s') : Quiet s.toFastState s'.toFastState := by
  rw [makeDecisions] at hx
  split at hx
  · rename_i t ht
    obtain ⟨u, hu, rfl⟩ := map_eq_ok.1 hx
    rw [endAndExecute] at ht
    split at ht
    · rename_i v hv
      have hended : Quiet s.toFastState v.toFastState :=
        runFrom_quiet EasyState.toFastState (fun _ _ _ h => finishJob_quiet h) hv
      have hkill := hended.trans (handleNewJobsToKill_quiet v.toFastState)
      have hsent := hkill.trans (handleResubmission_quiet _)
      have hwait : Quiet s.toFastState t.toFastState := hsent.trans (handleEndedJobExecution_quiet ht)
      have hreleased : Quiet t.toFastState u.toFastState :=
        runFrom_quiet EasyState.toFastState (fun _ _ _ h => releaseJob_quiet h) hu
      exact (hwait.trans hreleased).trans (sendFinishedSubmittingJobs_quiet u.toFastState date)
    · nomatch ht
  · nomatch hx

theorem lawful (c : FastConfig) : LawfulRepairs (fastScheduler EasyState (·.toFastState) (step c) c) := by
  refine fastScheduler_lawful (fun s event s' hne hx => ?_) (fun s date id forWhat draws => ⟨_, rfl, rfl⟩)
  by_cases hmake : ∃ date, event = .makeDecisions date
  · obtain ⟨date, rfl⟩ := hmake
    obtain ⟨t, ht, rfl⟩ := map_eq_ok.1 hx
    have hquiet := makeDecisions_quiet ht
    exact ⟨hquiet.repair, hquiet.asked⟩
  · rw [step] at hx
    · obtain ⟨t, ht, rfl⟩ := map_eq_ok.1 hx
      refine step_quiet (fun t _ t' h => ?_) hne ht
      cases h
      exact Quiet.refl t
    · exact fun date heq => hmake ⟨date, heq⟩

end EasyBFFast2

/-! ## The backfilling schedulers -/

namespace Schedule

variable {s s' : Schedule}

theorem removeJobs_repairMachines {jobs : List Job} (h : s.removeJobs jobs = .ok s') :
    s'.repairMachines = s.repairMachines := by
  induction jobs generalizing s with
  | nil => exact congrArg _ (Except.ok.inj h).symm
  | cons job jobs ih =>
    rw [removeJobs] at h
    split at h
    · rename_i h1
      exact (ih h).trans (removeJobIfExists_frame h1).2
    · nomatch h

/-- A call that does not repair leaves the machines under repair alone. -/
theorem runCall_repairMachines {call : ScheduleCall} (hadd : ∀ m, call ≠ .addRepairMachine m)
    (hremove : ∀ m, call ≠ .removeRepairMachines m) (h : call.run s = .ok s') : s'.repairMachines = s.repairMachines := by
  cases call with
  | addJobFirstFit job b =>
    obtain ⟨r, hr, rfl⟩ := map_eq_ok.1 h
    exact (addJobFirstFit_frame hr).2
  | removeJob job => exact (removeJobIfExists_frame (removeJob_ok h)).2
  | removeJobIfExists job =>
    obtain ⟨r, hr, rfl⟩ := map_eq_ok.1 h
    exact (removeJobIfExists_frame hr).2
  | updateFirstSlice t =>
    rw [ScheduleCall.run, updateFirstSlice] at h
    split at h
    · cases h
    · split at h
      · cases h
        rfl
      · cases h
  | addRepairMachine m => exact absurd rfl (hadd m)
  | removeRepairMachines m => exact absurd rfl (hremove m)

/-- The operations on reservations leave the machines under repair alone. -/
theorem runReservation_repairMachines {sorter : Sorter LargestFirst} {call : ReservationCall}
    (h : call.run sorter s = .ok s') : s'.repairMachines = s.repairMachines := by
  cases call with
  | addReservation job =>
    rw [ReservationCall.run] at h
    split at h
    · rename_i t reservation ht
      have hreserve : t.repairMachines = s.repairMachines := by
        rw [reserveTimeSlice] at ht
        split at ht
        · nomatch ht
        · dsimp only at ht
          split at ht
          · nomatch ht
          · nomatch ht
          · split at ht
            · cases ht
              rfl
            · cases ht
              rfl
      split at h
      · rw [Schedule.addReservation] at h
        split at h
        · nomatch h
        · cases h
          exact hreserve
      · cases h
        exact hreserve
    · nomatch h
  | addCurrentReservation job b =>
    obtain ⟨r, hr, rfl⟩ := map_eq_ok.1 h
    rw [Schedule.addCurrentReservation] at hr
    split at hr
    · nomatch hr
    · split at hr
      · nomatch hr
      · split at hr
        · split at hr
          · nomatch hr
          · cases hr
            rfl
        · split at hr
          · nomatch hr
          · cases hr
            rfl
  | removeReservationsIfReady =>
    obtain ⟨r, hr, rfl⟩ := map_eq_ok.1 h
    rw [Schedule.removeReservationsIfReady] at hr
    split at hr
    · cases hr
      rfl
    · dsimp only at hr
      split at hr
      · split at hr
        · rename_i hremoved
          have hframe := removeJobs_repairMachines hremoved
          cases hr
          exact hframe
        · nomatch hr
      · cases hr
        rfl
  | addJobFirstFit job b =>
    obtain ⟨r, hr, rfl⟩ := map_eq_ok.1 h
    exact (addJobFirstFit_frame hr).2
  | removeJob job => exact (removeJobIfExists_frame (removeJob_ok h)).2

end Schedule

namespace BackfillState

variable {c : BackfillConfig} {s s' : BackfillState} {date : ℚ} {draws : Draws}

/-- Nothing happens to the machines under repair, and no call for the end of a repair is asked for. -/
structure Quiet (s s' : BackfillState) (machine : ℕ) : Prop where
  repair : s'.schedule.repairMachines = s.schedule.repairMachines
  asked : repairsAmong (callsAsked machine s'.decision.decisions) = repairsAmong (callsAsked machine s.decision.decisions)

theorem noteFailure_quiet {forWhat : CallMeLaterType} (hne : forWhat ≠ .repairDone) (s : BackfillState) (time : ℚ)
    (machine : ℕ) : Quiet s (s.noteFailure c forWhat time) machine := by
  rw [noteFailure]
  split
  · refine ⟨rfl, ?_⟩
    simp [SchedulingDecision.addCallMeLater, callsAsked, repairsAmong, hne]
  · exact ⟨rfl, rfl⟩

theorem answerCall_quiet {forWhat : CallMeLaterType} (hne : forWhat ≠ .repairDone) (s : BackfillState) (date : ℚ) (id : ℕ)
    (draws : Draws) : Quiet s (s.answerCall c date id draws forWhat) draws.number := by
  cases forWhat with
  | repairDone => exact absurd rfl hne
  | smtbf => exact noteFailure_quiet (by simp) ..
  | fixedFailure => exact noteFailure_quiet (by simp) ..
  | mtbf => exact ⟨rfl, rfl⟩
  | reservationStart => exact ⟨rfl, rfl⟩
  | checkpointBatsched => exact ⟨rfl, rfl⟩
  | recoverFromCheckpoint => exact ⟨rfl, rfl⟩

theorem incorrectCallMeLater_repairMachines {schedule schedule' : Schedule} {difference : ℚ}
    (h : schedule.incorrectCallMeLater difference = .ok schedule') : schedule'.repairMachines = schedule.repairMachines := by
  rw [Schedule.incorrectCallMeLater] at h
  split at h
  · cases h
    rfl
  · nomatch h

/-- An answer does to the machines under repair what its branch does, and its messages are those of the branch. -/
theorem onRequestedCall_frame {forgetsCalls : Bool} {id : ℕ} {forWhat : CallMeLaterType}
    (hx : onRequestedCall c forgetsCalls s date id draws forWhat = .ok s') :
    s'.schedule.repairMachines = (s.answerCall c date id draws forWhat).schedule.repairMachines ∧
      s'.decision.decisions = (s.answerCall c date id draws forWhat).decision.decisions := by
  rw [onRequestedCall] at hx
  dsimp only at hx
  split at hx
  · split at hx
    · obtain ⟨schedule, hs, rfl⟩ := map_eq_ok.1 hx
      exact ⟨incorrectCallMeLater_repairMachines hs, rfl⟩
    · cases hx
      exact ⟨rfl, rfl⟩
  · cases hx
    exact ⟨rfl, rfl⟩

/-- The start of a repair puts the machine under repair and asks for the call that ends it. -/
theorem startRepair_effect {first : TimeSlice} {number : ℕ} {repair : ℚ} (hd : s.decision.decisions = [])
    (hx : startRepair c s first date number repair = .ok s') :
    s'.schedule.repairMachines = insert number s.schedule.repairMachines ∧
      repairsAmong (callsAsked number s'.decision.decisions) =
        [repairCall s.decision.nbCallMeLaters number (date + repairTimeOf c number repair)] := by
  have hinsert : (s.schedule.addRepairMachine {number}).1.repairMachines = insert number s.schedule.repairMachines := by
    rw [Finset.insert_eq, Finset.union_comm]
    rfl
  rw [startRepair] at hx
  split at hx
  · cases hx
    refine ⟨hinsert, ?_⟩
    simp [SchedulingDecision.addCallMeLater, hd, callsAsked, repairsAmong, repairCall]
  · obtain ⟨schedule, hs, rfl⟩ := map_eq_ok.1 hx
    refine ⟨(Schedule.removeJobs_repairMachines hs).trans hinsert, ?_⟩
    simp [SchedulingDecision.addCallMeLater, hd, callsAsked, repairsAmong, repairCall]

/-- A noted failure takes down the machine that is drawn, or nothing. -/
theorem onMachineDownForRepair_effect (hd : s.decision.decisions = []) (hx : onMachineDownForRepair c s date draws = .ok s') :
    s'.schedule.repairMachines = (s.goesDown c (.message .onMachineDownForRepair) date draws).elim s.schedule.repairMachines
        (fun d => insert d.1 s.schedule.repairMachines) ∧
      repairsAmong (callsAsked draws.number s'.decision.decisions) =
        ((s.goesDown c (.message .onMachineDownForRepair) date draws).map
          fun d => repairCall s.decision.nbCallMeLaters draws.number d.2).toList := by
  rw [onMachineDownForRepair] at hx
  split at hx
  · nomatch hx
  · rename_i first rest hprofile
    split at hx
    · rename_i hcond
      have hdown : s.goesDown c (.message .onMachineDownForRepair) date draws =
          some (draws.number, date + repairTimeOf c draws.number draws.repair) := by
        simp only [goesDown, hprofile]
        exact if_pos hcond
      rw [hdown]
      exact startRepair_effect hd hx
    · rename_i hcond
      have hdown : s.goesDown c (.message .onMachineDownForRepair) date draws = none := by
        simp only [goesDown, hprofile]
        exact if_neg hcond
      cases hx
      rw [hdown, hd]
      exact ⟨rfl, rfl⟩

/-- Only the machine that is drawn goes down, and only if it is not under repair. -/
theorem of_goesDown {cause : Cause BackfillEvent} {m : ℕ} {t : ℚ} (h : s.goesDown c cause date draws = some (m, t)) :
    m ∉ s.schedule.repairMachines ∧ m = draws.number := by
  unfold goesDown at h
  split at h
  · split at h
    · rename_i hcond
      cases h
      exact ⟨hcond.2, rfl⟩
    · nomatch h
  · nomatch h

theorem goesDown_of_ne {event : BackfillEvent} (hne : event ≠ .onMachineDownForRepair) :
    s.goesDown c (.message event) date draws = none := by
  unfold goesDown
  split
  · rename_i heq _
    cases heq
    exact absurd rfl hne
  · rfl

/-- An event other than a noted failure. -/
theorem handle_quiet {sorter : Sorter LargestFirst} {event : BackfillEvent} (hne : event ≠ .onMachineDownForRepair)
    (hx : handle c sorter s date draws event = .ok s') : Quiet s s' draws.number := by
  cases event with
  | schedule call =>
    cases call with
    | addRepairMachine m => nomatch hx
    | removeRepairMachines m => nomatch hx
    | _ =>
      obtain ⟨schedule, hs, rfl⟩ := map_eq_ok.1 hx
      exact ⟨Schedule.runCall_repairMachines (by simp) (by simp) hs, rfl⟩
  | reservation call =>
    obtain ⟨schedule, hs, rfl⟩ := map_eq_ok.1 hx
    exact ⟨Schedule.runReservation_repairMachines hs, rfl⟩
  | queueIsEmpty isEmpty =>
    cases hx
    exact ⟨rfl, rfl⟩
  | noMoreStaticJobToSubmit =>
    cases hx
    exact ⟨rfl, rfl⟩
  | callMeLater forWhat time jobId =>
    have hforWhat : forWhat ≠ .repairDone := by
      rintro rfl
      nomatch hx
    have hs : s' = { s with decision := s.decision.addCallMeLater forWhat 1 time jobId } := by
      rw [handle] at hx
      · exact (Except.ok.inj hx).symm
      · exact hforWhat
    subst hs
    refine ⟨rfl, ?_⟩
    simp [SchedulingDecision.addCallMeLater, callsAsked, repairsAmong, hforWhat]
  | onMachineDownForRepair => exact absurd rfl hne

end BackfillState

/-- The backfilling schedulers keep the laws of repairs. -/
theorem backfillScheduler_lawful (c : BackfillConfig) (sorter : Sorter LargestFirst) (forgetsCalls : Bool) :
    LawfulRepairs (backfillScheduler c sorter forgetsCalls) where
  message := by
    intro s event date draws s' hx
    have hfresh : ∀ m t, BackfillState.goesDown c s (.message event) date draws = some (m, t) →
        m ∉ s.schedule.repairMachines ∧ m = draws.number := fun m t hdown => BackfillState.of_goesDown hdown
    by_cases hne : event = .onMachineDownForRepair
    · subst hne
      change BackfillState.handle c sorter { s with decision := s.decision.clear } date draws .onMachineDownForRepair = .ok s' at hx
      rw [BackfillState.handle] at hx
      split at hx
      · nomatch hx
      · have heffect := BackfillState.onMachineDownForRepair_effect rfl hx
        exact ⟨heffect.1, hfresh, heffect.2⟩
    · have hnone : BackfillState.goesDown c s (.message event) date draws = none := BackfillState.goesDown_of_ne hne
      have hquiet := BackfillState.handle_quiet hne hx
      refine ⟨?_, hfresh, ?_⟩
      · change s'.schedule.repairMachines = (BackfillState.goesDown c s (.message event) date draws).elim _ _
        rw [hnone]
        exact hquiet.repair
      · change _ = ((BackfillState.goesDown c s (.message event) date draws).map _).toList
        rw [hnone]
        exact hquiet.asked
  call := by
    intro s date id forWhat draws s' hne hx
    have hframe := BackfillState.onRequestedCall_frame hx
    have hquiet := BackfillState.answerCall_quiet (c := c) hne { s with decision := s.decision.clear } date id draws
    have hfresh : ∀ m t, BackfillState.goesDown c s (.call forWhat) date draws = some (m, t) →
        m ∉ s.schedule.repairMachines ∧ m = draws.number := fun m t hdown => BackfillState.of_goesDown hdown
    refine ⟨hframe.1.trans hquiet.repair, hfresh, ?_⟩
    change repairsAmong (callsAsked draws.number s'.decision.decisions) = []
    rw [hframe.2]
    exact hquiet.asked
  done := by
    intro s date id draws
    have hok : ∃ s', BackfillState.onRequestedCall c forgetsCalls { s with decision := s.decision.clear } date id draws
        .repairDone = .ok s' := by
      rw [BackfillState.onRequestedCall]
      cases forgetsCalls with
      | true =>
        rw [if_pos rfl]
        exact ⟨_, if_neg fun hlate => nomatch hlate.2⟩
      | false => exact ⟨_, if_neg (by simp)⟩
    obtain ⟨s', hx⟩ := hok
    have hframe := BackfillState.onRequestedCall_frame hx
    refine ⟨s', hx, hframe.1, ?_⟩
    change repairsAmong (callsAsked draws.number s'.decision.decisions) = []
    rw [hframe.2]
    rfl
  idle := fun _ _ _ => rfl

/-- Every scheduler that repairs machines keeps the laws of repairs. -/
theorem RepairAlgorithm.lawful (c : BackfillConfig) (sorter : Sorter LargestFirst) (a : RepairAlgorithm) :
    LawfulRepairs (a.scheduler c sorter) := by
  cases a with
  | conservativeBf => exact backfillScheduler_lawful c sorter true
  | easyBf2 => exact backfillScheduler_lawful c sorter false
  | fcfsFast2 => exact FCFSFast2.lawful c.toFastConfig
  | easyBfFast2 => exact EasyBFFast2.lawful c.toFastConfig

end ScheduleTest
