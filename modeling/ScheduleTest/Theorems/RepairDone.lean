import ScheduleTest.Lemmas.RepairEffect

/-!
# Callbacks that end a repair

A scheduler that takes a machine down asks to be called back when the machine is repaired, and passes the machine's number as the
id of the call. The id that is sent is the number of calls asked for before, whatever is passed, and the answer carries it back;
the scheduler takes the machine of that number out of repair. So the callback names the machine that failed exactly when as many
calls had been asked for before as the machine's number is.
-/

namespace ScheduleTest

open Execution

/-- What a step is the answer to, or the message it handles. A call that is not pending has no answer. -/
def Simulation.cause {r : RepairScheduler} (S : Simulation r) : SimulationEvent r.Event → Option (Cause r.Event × ℚ × Draws)
  | .message event date draws => some (.message event, date, draws)
  | .requestedCall index date draws => S.pendingCalls[index]?.map fun call => (.call call.forWhat, date, draws)
  | .ownCall recovers date draws =>
    some (.call (if recovers then .recoverFromCheckpoint else .checkpointBatsched), date, draws)

/-- The machine that a step takes down, if it takes one down. -/
def Simulation.goesDown {r : RepairScheduler} (S : Simulation r) (event : SimulationEvent r.Event) : Option ℕ :=
  (S.cause event).bind fun cause => (r.goesDown S.scheduler cause.1 cause.2.1 cause.2.2).map (·.1)

/-- If the step takes a machine down, as many calls have been asked for so far as the number of the machine is. -/
def CountsToMachine {r : RepairScheduler} (S : Simulation r) (event : SimulationEvent r.Event) : Prop :=
  ∀ m ∈ S.goesDown event, m = (r.decision S.scheduler).nbCallMeLaters

instance {r : RepairScheduler} (S : Simulation r) (event : SimulationEvent r.Event) : Decidable (CountsToMachine S event) :=
  match h : S.goesDown event with
  | none => isTrue (by simp [CountsToMachine, h])
  | some m => decidable_of_iff (m = (r.decision S.scheduler).nbCallMeLaters) (by simp [CountsToMachine, h])

/-- The callbacks that end repairs name the machines that failed. -/
structure CallbacksNameMachines {r : RepairScheduler} (S : Simulation r) : Prop where
  /-- A pending callback takes the machine that failed when it was asked for out of repair, and no other. -/
  exact : ∀ call ∈ S.pendingCalls, call.forWhat = .repairDone → ∀ date draws, ∃ s',
    r.onRequestedCall S.scheduler date call.id .repairDone draws = .ok s' ∧
      call.machine ∈ r.repairMachines S.scheduler ∧
      r.repairMachines s' = r.repairMachines S.scheduler \ {call.machine}
  /-- Once all of them are delivered, no machine is under repair. -/
  complete : (∀ call ∈ S.pendingCalls, call.forWhat ≠ .repairDone) → r.repairMachines S.scheduler = ∅
  /-- A machine stays under repair until its repair time has elapsed. -/
  notEarly : ∀ m t, S.repairedAt m = some t → S.now < t → m ∈ r.repairMachines S.scheduler

namespace RepairAux

/-! ### The repairs under way -/

/-- The machines under repair are those of the pending callbacks, one each, which carry the machine's number as their id. -/
structure Followed (repair : IntervalSet) (calls : List PendingCall) (now : ℚ) (repairedAt : ℕ → Option ℚ) : Prop where
  ids : ∀ call ∈ calls, call.id = call.machine
  distinct : (calls.map (·.machine)).Nodup
  machines : ∀ m, m ∈ repair ↔ ∃ call ∈ calls, call.machine = m
  times : ∀ m t, repairedAt m = some t → t ≤ now ∨ ∃ call ∈ calls, call.machine = m ∧ call.targetTime = t

namespace Followed

variable {repair : IntervalSet} {calls calls' : List PendingCall} {now date : ℚ} {repairedAt : ℕ → Option ℚ}

theorem new (now : ℚ) : Followed ∅ [] now fun _ => none where
  ids := by simp
  distinct := List.nodup_nil
  machines := by simp
  times := by simp

/-- Time goes by, and the callbacks are listed in another order. -/
theorem later (h : Followed repair calls now repairedAt) (hp : calls'.Perm calls) (hle : now ≤ date) :
    Followed repair calls' date repairedAt where
  ids := fun call hmem => h.ids call (hp.mem_iff.1 hmem)
  distinct := (hp.map _).nodup_iff.2 h.distinct
  machines := fun m => (h.machines m).trans (exists_congr fun _ => and_congr_left fun _ => hp.mem_iff.symm)
  times := fun m t hat => (h.times m t hat).imp (fun ht => ht.trans hle)
    (fun ⟨call, hcall, heq⟩ => ⟨call, hp.mem_iff.2 hcall, heq⟩)

/-- A machine goes down, and the callback that is asked for has its number. -/
theorem down (h : Followed repair calls now repairedAt) {m : ℕ} (hm : m ∉ repair) (t : ℚ) :
    Followed (insert m repair) (calls ++ [repairCall m m t]) now fun k => if m = k then some t else repairedAt k where
  ids := by
    intro call hmem
    rcases List.mem_append.1 hmem with hold | hnew
    · exact h.ids call hold
    · rw [List.mem_singleton.1 hnew]
      rfl
  distinct := by
    rw [List.map_append]
    refine List.nodup_append.2 ⟨h.distinct, List.nodup_singleton _, ?_⟩
    rintro k hk k' hk' rfl
    obtain ⟨call, hcall, rfl⟩ := List.mem_map.1 hk
    have hkm : call.machine = m := List.mem_singleton.1 hk'
    exact hm ((h.machines m).2 ⟨call, hcall, hkm⟩)
  machines := by
    intro k
    rw [Finset.mem_insert, h.machines]
    constructor
    · rintro (rfl | ⟨call, hcall, hk⟩)
      · exact ⟨_, List.mem_append_right _ List.mem_cons_self, rfl⟩
      · exact ⟨call, List.mem_append_left _ hcall, hk⟩
    · rintro ⟨call, hcall, rfl⟩
      rcases List.mem_append.1 hcall with hold | hnew
      · exact .inr ⟨call, hold, rfl⟩
      · rw [List.mem_singleton.1 hnew]
        exact .inl rfl
  times := by
    intro k t' hat
    split at hat
    · rename_i hk
      refine .inr ⟨_, List.mem_append_right _ List.mem_cons_self, hk, Option.some.inj hat⟩
    · exact (h.times k t' hat).imp_right fun ⟨call, hcall, heq⟩ => ⟨call, List.mem_append_left _ hcall, heq⟩

/-- The callback of a repair whose time has elapsed is delivered. -/
theorem deliver {call : PendingCall} (h : Followed repair (call :: calls) now repairedAt) (hdue : call.targetTime ≤ now) :
    Followed (repair \ {call.id}) calls now repairedAt where
  ids := fun c hc => h.ids c (List.mem_cons_of_mem _ hc)
  distinct := (List.nodup_cons.1 h.distinct).2
  machines := by
    have hother : ∀ c ∈ calls, c.machine ≠ call.machine := fun c hc heq =>
      (List.nodup_cons.1 h.distinct).1 (List.mem_map.2 ⟨c, hc, heq⟩)
    intro m
    rw [Finset.mem_sdiff, Finset.mem_singleton, h.machines, h.ids call List.mem_cons_self]
    constructor
    · rintro ⟨⟨c, hc, rfl⟩, hne⟩
      rcases List.mem_cons.1 hc with rfl | hrest
      · exact absurd rfl hne
      · exact ⟨c, hrest, rfl⟩
    · rintro ⟨c, hc, rfl⟩
      exact ⟨⟨c, List.mem_cons_of_mem _ hc, rfl⟩, hother c hc⟩
  times := by
    intro m t hat
    rcases h.times m t hat with hle | ⟨c, hc, hm, ht⟩
    · exact .inl hle
    · rcases List.mem_cons.1 hc with rfl | hrest
      · exact .inl (ht ▸ hdue)
      · exact .inr ⟨c, hrest, hm, ht⟩

end Followed

/-! ### A step -/

/-- The simulation's repairs are followed. -/
def Follows {r : RepairScheduler} (S : Simulation r) : Prop :=
  Followed (r.repairMachines S.scheduler) (repairsAmong S.pendingCalls) S.now S.repairedAt

variable {r : RepairScheduler} {S S' : Simulation r} {s' : r.State} {date : ℚ} {draws : Draws}

theorem mem_repairsAmong {calls : List PendingCall} {call : PendingCall} :
    call ∈ repairsAmong calls ↔ call ∈ calls ∧ call.forWhat = .repairDone := by
  simp [repairsAmong]

/-- Where the repairs are followed, the callbacks name the machines that failed. -/
theorem callbacksNameMachines (hr : LawfulRepairs r) (h : Follows S) : CallbacksNameMachines S where
  exact := by
    intro call hcall hfor date draws
    have hmem : call ∈ repairsAmong S.pendingCalls := mem_repairsAmong.2 ⟨hcall, hfor⟩
    obtain ⟨s', hs, hrepair, _⟩ := hr.done S.scheduler date call.id draws
    refine ⟨s', hs, (h.machines _).2 ⟨call, hmem, rfl⟩, ?_⟩
    rw [hrepair, h.ids call hmem]
  complete := by
    intro hnone
    refine Finset.eq_empty_of_forall_notMem fun m hm => ?_
    obtain ⟨call, hcall, _⟩ := (h.machines m).1 hm
    exact hnone call (mem_repairsAmong.1 hcall).1 (mem_repairsAmong.1 hcall).2
  notEarly := by
    intro m t hat hlt
    rcases h.times m t hat with hle | ⟨call, hcall, hm, _⟩
    · exact absurd hlt (not_lt.2 hle)
    · exact (h.machines m).2 ⟨call, hcall, hm⟩

/-- The simulation after a step that asks for no callback of a repair. -/
theorem after_quiet {pending : List PendingCall}
    (hasked : repairsAmong (callsAsked draws.number (r.decision s').decisions) = [])
    (h : Followed (r.repairMachines s') (repairsAmong pending) date S.repairedAt) : Follows (S.after s' date draws pending) := by
  have hcalls : repairsAmong (S.after s' date draws pending).pendingCalls = repairsAmong pending := by
    rw [Simulation.after, repairsAmong_append, hasked, List.append_nil]
  have hat : (S.after s' date draws pending).repairedAt = S.repairedAt := by
    funext k
    simp only [Simulation.after]
    rw [hasked]
    rfl
  rw [Follows, hcalls, hat]
  exact h

/-- The simulation after a step that takes down the machine its count of calls names. -/
theorem after_down {pending : List PendingCall} {m : ℕ} {t : ℚ}
    (hasked : repairsAmong (callsAsked draws.number (r.decision s').decisions) = [repairCall m m t])
    (hrepair : r.repairMachines s' = insert m (r.repairMachines S.scheduler)) (hm : m ∉ r.repairMachines S.scheduler)
    (h : Followed (r.repairMachines S.scheduler) (repairsAmong pending) date S.repairedAt) :
    Follows (S.after s' date draws pending) := by
  have hcalls : repairsAmong (S.after s' date draws pending).pendingCalls = repairsAmong pending ++ [repairCall m m t] := by
    rw [Simulation.after, repairsAmong_append, hasked]
  have hat : (S.after s' date draws pending).repairedAt = fun k => if m = k then some t else S.repairedAt k := by
    funext k
    simp only [Simulation.after]
    rw [hasked]
    by_cases hk : m = k
    · simp [repairCall, hk]
    · simp [repairCall, hk]
  rw [Follows, hcalls, hat]
  change Followed (r.repairMachines s') _ _ _
  rw [hrepair]
  exact h.down hm t

/-- A step either has the effect its cause has on the machines under repair, or delivers the callback of a repair. -/
theorem step_cases (hr : LawfulRepairs r) {event : SimulationEvent r.Event} (hx : S.step event = .ok S') :
    (∃ cause date draws s' pending, S.cause event = some (cause, date, draws) ∧ S' = S.after s' date draws pending ∧
      S.now ≤ date ∧ (repairsAmong pending).Perm (repairsAmong S.pendingCalls) ∧
      RepairEffect r S.scheduler s' draws.number (r.goesDown S.scheduler cause date draws)) ∨
    (∃ call date draws s' pending, S.cause event = some (.call .repairDone, date, draws) ∧
      S' = S.after s' date draws pending ∧ S.now ≤ date ∧ call.targetTime ≤ date ∧
      (call :: repairsAmong pending).Perm (repairsAmong S.pendingCalls) ∧
      r.repairMachines s' = r.repairMachines S.scheduler \ {call.id} ∧
      repairsAmong (callsAsked draws.number (r.decision s').decisions) = []) := by
  cases event with
  | message event date draws =>
    rw [Simulation.step] at hx
    split at hx
    · rename_i hle
      obtain ⟨s', hs, rfl⟩ := map_eq_ok.1 hx
      exact .inl ⟨_, date, draws, s', _, rfl, rfl, hle, .refl _, hr.message hs⟩
    · nomatch hx
  | requestedCall index date draws =>
    rw [Simulation.step] at hx
    split at hx
    · rename_i call hcall
      split at hx
      · rename_i hdue
        obtain ⟨s', hs, rfl⟩ := map_eq_ok.1 hx
        have hcause : S.cause (.requestedCall index date draws) = some (.call call.forWhat, date, draws) := by
          rw [Simulation.cause, hcall]
          rfl
        have hperm : (call :: S.pendingCalls.eraseIdx index).Perm S.pendingCalls := by
          obtain ⟨hlt, rfl⟩ := List.getElem?_eq_some_iff.1 hcall
          exact List.getElem_cons_eraseIdx_perm hlt
        have hrepairs : (repairsAmong (call :: S.pendingCalls.eraseIdx index)).Perm (repairsAmong S.pendingCalls) :=
          hperm.filter _
        by_cases hfor : call.forWhat = .repairDone
        · obtain ⟨t, ht, hrepair, hasked⟩ := hr.done S.scheduler date call.id draws
          rw [hfor] at hs hcause
          obtain rfl : t = s' := Except.ok.inj (ht.symm.trans hs)
          rw [repairsAmong, List.filter_cons_of_pos (by simpa using hfor)] at hrepairs
          exact .inr ⟨call, date, draws, t, _, hcause, rfl, hdue.1, hdue.2, hrepairs, hrepair, hasked⟩
        · rw [repairsAmong, List.filter_cons_of_neg (by simpa using hfor)] at hrepairs
          exact .inl ⟨_, date, draws, s', _, hcause, rfl, hdue.1, hrepairs, hr.call hfor hs⟩
      · nomatch hx
    · nomatch hx
  | ownCall recovers date draws =>
    rw [Simulation.step] at hx
    split at hx
    · rename_i hle
      obtain ⟨s', hs, rfl⟩ := map_eq_ok.1 hx
      have hfor : (if recovers then CallMeLaterType.recoverFromCheckpoint else .checkpointBatsched) ≠ .repairDone := by
        cases recovers <;> simp
      exact .inl ⟨_, date, draws, s', _, rfl, rfl, hle, .refl _, hr.call hfor hs⟩
    · nomatch hx

/-- A step that takes down no machine or the one its count of calls names keeps the repairs followed. -/
theorem step_follows (hr : LawfulRepairs r) {event : SimulationEvent r.Event} (h : Follows S)
    (hcount : CountsToMachine S event) (hx : S.step event = .ok S') : Follows S' := by
  rcases step_cases hr hx with ⟨cause, date, draws, s', pending, hcause, rfl, hle, hperm, heffect⟩ |
    ⟨call, date, draws, s', pending, _, rfl, hle, hdue, hperm, hrepair, hasked⟩
  · have hlater := h.later hperm hle
    have hdown : S.goesDown event = (r.goesDown S.scheduler cause date draws).map (·.1) := by
      rw [Simulation.goesDown, hcause]
      rfl
    cases hd : r.goesDown S.scheduler cause date draws with
    | none =>
      rw [hd] at heffect
      refine after_quiet heffect.asked ?_
      rw [heffect.repair]
      exact hlater
    | some d =>
      rw [hd] at heffect hdown
      obtain ⟨hfresh, hm⟩ := heffect.fresh d.1 d.2 rfl
      have hnb : d.1 = (r.decision S.scheduler).nbCallMeLaters := hcount d.1 (by rw [hdown]; rfl)
      have hasked : repairsAmong (callsAsked draws.number (r.decision s').decisions) = [repairCall d.1 d.1 d.2] := by
        rw [heffect.asked, ← hnb, ← hm]
        rfl
      exact after_down hasked heffect.repair hfresh hlater
  · refine after_quiet hasked ?_
    rw [hrepair]
    exact (h.later hperm hle).deliver hdue

/-- A step that takes down another machine leaves a callback that does not name it. -/
theorem step_breaks (hr : LawfulRepairs r) {event : SimulationEvent r.Event} (hcount : ¬ CountsToMachine S event)
    (hx : S.step event = .ok S') : ¬ CallbacksNameMachines S' := by
  simp only [CountsToMachine, Classical.not_forall] at hcount
  obtain ⟨m, hm, hne⟩ := hcount
  rcases step_cases hr hx with ⟨cause, date, draws, s', pending, hcause, rfl, hle, hperm, heffect⟩ |
    ⟨call, date, draws, s', pending, hcause, _⟩
  · obtain ⟨d, hd, rfl⟩ : ∃ d, r.goesDown S.scheduler cause date draws = some d ∧ d.1 = m := by
      rw [Simulation.goesDown, hcause] at hm
      exact Option.map_eq_some_iff.1 hm
    rw [hd] at heffect
    obtain ⟨_, hnumber⟩ := heffect.fresh d.1 d.2 rfl
    intro hnames
    let call : PendingCall := repairCall (r.decision S.scheduler).nbCallMeLaters draws.number d.2
    have hasked : call ∈ repairsAmong (callsAsked draws.number (r.decision s').decisions) := by
      rw [heffect.asked]
      exact List.mem_cons_self
    obtain ⟨t, ht, hunder, hexact⟩ := hnames.exact call
      (List.mem_append_right _ (mem_repairsAmong.1 hasked).1) rfl date draws
    obtain ⟨t', ht', hdone, _⟩ := hr.done s' date call.id draws
    obtain rfl : t' = t := Except.ok.inj (ht'.symm.trans ht)
    -- the machine that failed stays under repair, since the callback has another number
    have hstays : draws.number ∈ r.repairMachines t' := by
      rw [hdone, Finset.mem_sdiff, Finset.mem_singleton]
      exact ⟨hunder, fun heq => hne (hnumber.trans heq)⟩
    rw [hexact, Finset.mem_sdiff] at hstays
    exact hstays.2 (Finset.mem_singleton_self _)
  · rw [Simulation.goesDown, hcause, Option.bind_some, hr.idle] at hm
    nomatch hm

/-- At the start no machine is under repair, and no callback of a repair is pending. -/
theorem new_follows (c : BackfillConfig) (sorter : Sorter LargestFirst) (a : RepairAlgorithm) (date failure : ℚ) :
    Follows (Simulation.new (a.initial c sorter date failure) date) := by
  have hgenerators : repairsAmong (callsAsked 0 (c.setGenerators date failure).decisions) = [] := by
    rw [FastConfig.setGenerators]
    split_ifs <;> simp [SchedulingDecision.addCallMeLater, callsAsked, repairsAmong]
  have hnew := Followed.new date
  rw [← hgenerators] at hnew
  cases a with
  | conservativeBf => exact hnew
  | easyBf2 => exact hnew
  | fcfsFast2 => exact hnew
  | easyBfFast2 => exact hnew

end RepairAux

open RepairAux in
/-- In every run of a scheduler that repairs machines, with answers to the calls coming in any order and at any time from their
dates on, the callbacks name the machines that failed in every state reached if every step that takes a machine down finds as
many calls asked for as the machine's number; and if the run goes through, only then. -/
theorem callbacks_name_machines_iff (c : BackfillConfig) (sorter : Sorter LargestFirst) (a : RepairAlgorithm)
    (date failure : ℚ) (events : List (SimulationEvent (a.scheduler c sorter).Event)) :
    (AllSteps Simulation.step CountsToMachine (Simulation.new (a.initial c sorter date failure) date) events →
      Always Simulation.step CallbacksNameMachines (Simulation.new (a.initial c sorter date failure) date) events) ∧
    ∀ S, runFrom Simulation.step (Simulation.new (a.initial c sorter date failure) date) events = .ok S →
      Always Simulation.step CallbacksNameMachines (Simulation.new (a.initial c sorter date failure) date) events →
      AllSteps Simulation.step CountsToMachine (Simulation.new (a.initial c sorter date failure) date) events := by
  have hr := a.lawful c sorter
  have hnew := new_follows c sorter a date failure
  have hstep : ∀ S event S', Follows S → CountsToMachine (r := a.scheduler c sorter) S event → S.step event = .ok S' →
      Follows S' := fun _ _ _ h hcount hx => step_follows hr h hcount hx
  constructor
  · exact fun hall => always_of_invariant hstep (fun _ h => callbacksNameMachines hr h) hnew hall
  · exact fun S hrun halways =>
      allSteps_of_always hstep (fun _ _ _ _ hcount hx => step_breaks hr hcount hx) hnew hrun halways

namespace RepairWitness

/-- Three machines, a failure every five seconds, a repair of two. -/
def config : BackfillConfig where
  nbMachines := 3
  fixedFailures := 5
  repairTime := 2

def sorter : Sorter LargestFirst := Sorter.stable LargestFirst

/-- The start of a simulation of `conservative_bf`. -/
def start : Simulation (RepairAlgorithm.conservativeBf.scheduler config sorter) :=
  Simulation.new (RepairAlgorithm.conservativeBf.initial config sorter 0 0) 0

def draws (number : ℕ) : Draws where
  number := number
  failure := 0
  repair := 0
  victim := ""

/-- The first failure hits the given machine, and then the callback that ends its repair is delivered. -/
def events (number : ℕ) : List (SimulationEvent (RepairAlgorithm.conservativeBf.scheduler config sorter).Event) :=
  [.requestedCall 0 5 (draws 0), .message .onMachineDownForRepair 5 (draws number), .requestedCall 1 7 (draws 0)]

end RepairWitness

open RepairWitness in
/-- The failure of machine 2 finds two calls asked for, and its callback names it. -/
theorem callbacks_name_machines_iff_witness :
    (runFrom Simulation.step start (events 2)).toOption.map (fun S => S.scheduler.schedule.repairMachines) = some ∅ ∧
      Always Simulation.step CallbacksNameMachines start (events 2) :=
  ⟨by decide +kernel, (callbacks_name_machines_iff config sorter .conservativeBf 0 0 (events 2)).1 (by decide +kernel)⟩

open RepairWitness in
/-- The callback of machine 0 names machine 2. Once it is delivered machine 0 is still under repair, and no callback that ends a
repair is pending. -/
theorem callbacks_name_machines_false :
    ¬ ∀ (c : BackfillConfig) (sorter : Sorter LargestFirst) (a : RepairAlgorithm) (date failure : ℚ)
        (events : List (SimulationEvent (a.scheduler c sorter).Event)),
      Always Simulation.step CallbacksNameMachines (Simulation.new (a.initial c sorter date failure) date) events := by
  intro h
  have halways := h config sorter .conservativeBf 0 0 (events 0)
  have hend : (runFrom Simulation.step start (events 0)).toOption.map (fun S =>
      decide (repairsAmong S.pendingCalls = [] ∧ 0 ∈ S.scheduler.schedule.repairMachines)) = some true := by
    decide +kernel
  obtain ⟨S, hS, hbad⟩ := toOption_map_eq_some.1 hend
  obtain ⟨hnone, hunder⟩ := of_decide_eq_true hbad
  have hempty := (halways.last hS).complete fun call hcall hfor => by
    have hmem : call ∈ repairsAmong S.pendingCalls := RepairAux.mem_repairsAmong.2 ⟨hcall, hfor⟩
    rw [hnone] at hmem
    nomatch hmem
  exact Finset.notMem_empty 0 (hempty ▸ hunder)

end ScheduleTest
