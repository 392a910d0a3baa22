import ScheduleTest.Lemmas.Sleeper
import ScheduleTest.Lib.Text

/-!
# The sleeper and the machines that it switches

As long as the simulator tells what can have happened, the sleeper knows the machines and the jobs as they are (`Mirrors`). So it does not
abort, and each of its decisions can be carried out. A job that waits is not left waiting: some machines are being switched then.
-/

namespace ScheduleTest

open Execution

namespace SleeperAux

open SleeperPlatform

variable {o : SleeperOptions} {p p' : SleeperPlatform} {s s' : SleeperState} {events : List SleeperEvent} {refused : List Job}

theorem isOn?_eq_some {pstate : ℤ} {on : Bool} (h : o.isOn? pstate = some on) : pstate = o.pstate on := by
  simpa using List.find?_some h

theorem isOn?_pstate (hne : o.computePstate ≠ o.sleepPstate) (on : Bool) : o.isOn? (o.pstate on) = some on := by
  cases on
  · simp [SleeperOptions.isOn?, SleeperOptions.pstate, hne.symm]
  · simp [SleeperOptions.isOn?, SleeperOptions.pstate]

/-! ### What the simulator tells -/

/-- The platform once the simulator has told some events. -/
structure Heard (o : SleeperOptions) (p : SleeperPlatform) (events : List SleeperEvent) (p' : SleeperPlatform) : Prop where
  idle : p'.idle = p.idle + changedTo o.computePstate (events.filterMap SleeperEvent.change?) +
    if events.filterMap SleeperEvent.ended? = [] then 0 else (p.running.map (·.2)).getD 0
  asleep : p'.asleep = p.asleep + changedTo o.sleepPstate (events.filterMap SleeperEvent.change?)
  switching : ∀ on, p'.switching on + changedTo (o.pstate on) (events.filterMap SleeperEvent.change?) = p.switching on
  keys : ∀ change ∈ events.filterMap SleeperEvent.change?, ∃ on, change.1 = o.pstate on
  running : events.filterMap SleeperEvent.ended? = [] ∧ p'.running = p.running ∨ ∃ running, p.running = some running ∧
    events.filterMap SleeperEvent.ended? = [running.1.id] ∧ p'.running = none
  submitted : p'.submitted = p.submitted ++ (events.filterMap SleeperEvent.released?).map Job.id
  nodup : ((events.filterMap SleeperEvent.released?).map Job.id).Nodup
  fresh : ∀ job ∈ events.filterMap SleeperEvent.released?, job.id ∉ p.submitted ∧ job.id ≠ "" ∧ 0 < job.nbRequestedResources
  waiting : p'.waiting = p.waiting ++ events.filterMap SleeperEvent.released?

/-- Each event is told on the platform that the ones before have left. -/
theorem runFrom_heard (hne : o.computePstate ≠ o.sleepPstate) (h : runFrom (SleeperPlatform.receive o) p events = .ok p') :
    Heard o p events p' := by
  induction events generalizing p with
  | nil =>
    obtain rfl := Except.ok.inj h
    exact ⟨by simp, by simp, by simp, nofun, .inl ⟨rfl, rfl⟩, by simp, List.nodup_nil, nofun, by simp⟩
  | cons event events ih =>
    obtain ⟨p₁, hfirst, hrest⟩ := of_runFrom_cons h
    have ih := ih hrest
    cases event with
    | simulationEnds =>
      obtain rfl := Except.ok.inj hfirst
      exact ⟨ih.idle, ih.asleep, ih.switching, ih.keys, ih.running, ih.submitted, ih.nodup, ih.fresh, ih.waiting⟩
    | notify =>
      obtain rfl := Except.ok.inj hfirst
      exact ⟨ih.idle, ih.asleep, ih.switching, ih.keys, ih.running, ih.submitted, ih.nodup, ih.fresh, ih.waiting⟩
    | jobSubmitted job =>
      simp only [SleeperPlatform.receive] at hfirst
      split at hfirst
      · cases hfirst
      · rename_i hnew
        rw [not_or] at hnew
        split at hfirst
        · cases hfirst
        rename_i hsome
        obtain rfl := Except.ok.inj hfirst
        have hlater : ∀ job' ∈ events.filterMap SleeperEvent.released?, job'.id ∉ p.submitted ∧ job'.id ≠ job.id := by
          intro job' hjob'
          simpa [not_or] using (ih.fresh job' hjob').1
        refine ⟨ih.idle, ih.asleep, ih.switching, ih.keys, ih.running, ?_, ?_, ?_, ?_⟩
        · rw [ih.submitted, List.append_assoc]
          rfl
        · refine List.nodup_cons.2 ⟨fun hmem => ?_, ih.nodup⟩
          obtain ⟨job', hjob', heq⟩ := List.mem_map.1 hmem
          exact (hlater job' hjob').2 heq
        · exact List.forall_mem_cons.2 ⟨⟨hnew.1, hnew.2, Nat.pos_of_ne_zero hsome⟩, fun job' hjob' =>
            ⟨(hlater job' hjob').1, (ih.fresh job' hjob').2⟩⟩
        · rw [ih.waiting, List.append_assoc]
          rfl
    | jobCompleted id =>
      simp only [SleeperPlatform.receive] at hfirst
      split at hfirst
      · rename_i job machines hrunning
        split at hfirst
        · rename_i hid
          obtain rfl := Except.ok.inj hfirst
          have hlast : events.filterMap SleeperEvent.ended? = [] ∧ p'.running = none := by
            rcases ih.running with hnone | ⟨running, hbad, -⟩
            · exact hnone
            · cases hbad
          have hended : (SleeperEvent.jobCompleted id :: events).filterMap SleeperEvent.ended? = [id] := by
            simp [SleeperEvent.ended?, hlast.1]
          refine ⟨?_, ih.asleep, ih.switching, ih.keys, .inr ⟨_, hrunning, ?_, hlast.2⟩, ih.submitted, ih.nodup, ih.fresh, ih.waiting⟩
          · have hidle := ih.idle
            rw [if_pos hlast.1, add_zero] at hidle
            rw [hended, if_neg (List.cons_ne_nil _ _), hrunning, hidle]
            exact add_right_comm _ _ _
          · rw [hended, hid]
        · cases hfirst
      · cases hfirst
    | resourceStateChanged machines newState =>
      simp only [SleeperPlatform.receive] at hfirst
      split at hfirst
      · rename_i on hon
        split at hfirst
        · rename_i hle
          obtain rfl := Except.ok.inj hfirst
          obtain rfl := isOn?_eq_some hon
          have hother : (o.sleepPstate : ℤ) ≠ o.computePstate := by exact_mod_cast hne.symm
          have hchanges : (SleeperEvent.resourceStateChanged machines (o.pstate on) :: events).filterMap SleeperEvent.change? =
              ((o.pstate on : ℤ), machines) :: events.filterMap SleeperEvent.change? := rfl
          refine ⟨?_, ?_, fun on' => ?_, ?_, ih.running, ih.submitted, ih.nodup, ih.fresh, ih.waiting⟩
          · rw [hchanges, changedTo_cons, ih.idle]
            cases on
            · have hidle : (p.switched false machines.val).idle = p.idle := by simp [switched]
              rw [if_neg (show ¬(o.pstate false : ℤ) = o.computePstate from hother), zero_add, hidle]
              rfl
            · simp only [switched, SleeperOptions.pstate, if_true, add_assoc]
              rfl
          · rw [hchanges, changedTo_cons, ih.asleep]
            cases on
            · simp [switched, SleeperOptions.pstate, add_assoc]
            · simp [switched, SleeperOptions.pstate, hother.symm]
          · rw [hchanges, changedTo_cons]
            have hswitching := ih.switching on'
            by_cases hsame : on' = on
            · subst hsame
              simp only [switched, Function.update_self] at hswitching
              rw [if_pos rfl, add_left_comm, hswitching]
              exact add_tsub_cancel_of_le hle
            · rw [if_neg (by simpa [o.pstate_inj hne] using Ne.symm hsame), zero_add, hswitching]
              exact Function.update_of_ne hsame _ _
          · exact List.forall_mem_cons.2 ⟨⟨on, rfl⟩, ih.keys⟩
        · cases hfirst
      · cases hfirst

/-! ### What the sleeper knows -/

/-- The sleeper knows the machines and the jobs as they are. Some jobs are to be rejected. -/
structure Mirrors (o : SleeperOptions) (p : SleeperPlatform) (s : SleeperState) (refused : List Job) : Prop where
  idle : p.idle = s.availableMachines.val
  asleep : p.asleep = s.sleepingMachines.val
  switching : ∀ on, p.switching on = (s.switching on).val
  running : p.running = none ∧ s.jobBeingComputed = "" ∧ s.computingMachines = ∅ ∨
    ∃ job, p.running = some (job, s.computingMachines.val) ∧ job.id = s.jobBeingComputed ∧ job.id ≠ "" ∧
      s.workload job.id = some job ∧ job.nbRequestedResources = s.computingMachines.card
  waiting : p.waiting.Perm (refused ++ s.queue.jobs)
  submitted : ∀ id, s.workload id = none ↔ id ∉ p.submitted
  jobs : ∀ job ∈ refused ++ s.queue.jobs, s.workload job.id = some job ∧ job.id ≠ ""
  fits : ∀ job ∈ s.queue.jobs, 0 < job.nbRequestedResources ∧ job.nbRequestedResources ≤ o.nbMachines
  tooLarge : ∀ job ∈ refused, o.nbMachines < job.nbRequestedResources
  placed : s.Placed o.nbMachines

/-- No job runs exactly if none is being computed. -/
theorem Mirrors.idle_iff (h : Mirrors o p s refused) : p.running = none ↔ s.jobBeingComputed = "" := by
  rcases h.running with ⟨hnone, hjob, -⟩ | ⟨job, hsome, hid, hname, -⟩
  · simp [hnone, hjob]
  · simp [hsome, ← hid, hname]

/-- No machine computes without a job. -/
theorem Mirrors.computing_empty (h : Mirrors o p s refused) (hidle : s.jobBeingComputed = "") : s.computingMachines = ∅ := by
  rcases h.running with ⟨-, -, hempty⟩ | ⟨job, -, hid, hname, -⟩
  · exact hempty
  · exact absurd (hid.trans hidle) hname

/-- What can have happened is acceptable to the sleeper. -/
theorem Mirrors.acceptable (h : Mirrors o p s []) (hheard : Heard o p events p') : Acceptable o s events where
  released := hheard.nodup
  fresh := fun job hjob => ⟨(h.submitted job.id).2 (hheard.fresh job hjob).1, (hheard.fresh job hjob).2.1⟩
  ended := by
    rcases hheard.running with ⟨hnone, -⟩ | ⟨running, hsome, hended, -⟩
    · exact .inl hnone
    · rcases h.running with ⟨hbad, -⟩ | ⟨job, hrunning, hid, -, hknown, hcard⟩
      · cases hsome.symm.trans hbad
      · obtain rfl := Option.some.inj (hsome.symm.trans hrunning)
        exact .inr ⟨by rw [hended, hid], job, by rw [← hid, hknown], hcard⟩
  keys := hheard.keys
  changed := by
    intro on
    rw [← h.switching on, ← hheard.switching on]
    exact Multiset.le_add_left _ _

/-- The sleeper has been told, and has still to reject the jobs that are too large. -/
theorem Mirrors.told (h : Mirrors o p s []) (hheard : Heard o p events p') (htold : Told o s events s') :
    Mirrors o p' s' (o.refused (events.filterMap SleeperEvent.released?)) := by
  set released := events.filterMap SleeperEvent.released? with hreleased
  have hqueue : ∀ job, job ∈ s'.queue.jobs ↔ job ∈ s.queue.jobs ∨ job ∈ released ∧ job.nbRequestedResources ≤ o.nbMachines := by
    intro job
    rw [htold.queue.mem_iff, List.mem_append, SleeperOptions.accepted, List.mem_filter, decide_eq_true_eq]
  have hold : ∀ id, (∃ job, s.workload id = some job) → s'.workload id = s.workload id := by
    rintro id ⟨job, hjob⟩
    refine htold.known id fun hmem => ?_
    obtain ⟨job', hjob', rfl⟩ := List.mem_map.1 hmem
    rw [(h.submitted job'.id).2 (hheard.fresh job' hjob').1] at hjob
    cases hjob
  refine ⟨?_, ?_, fun on => ?_, ?_, ?_, fun id => ?_, fun job hjob => ?_, fun job hjob => ?_, fun job hjob => ?_, htold.placed⟩
  · rw [hheard.idle, htold.available, h.idle]
    congr 1
    split
    · rfl
    · rename_i hsome
      rcases hheard.running with ⟨hbad, -⟩ | ⟨running, hrunning, -⟩
      · exact absurd hbad hsome
      · rcases h.running with ⟨hbad, -⟩ | ⟨job, hrunning', -⟩
        · cases hrunning.symm.trans hbad
        · simp [hrunning']
  · rw [hheard.asleep, htold.sleeping, h.asleep]
  · have hswitching := hheard.switching on
    rw [h.switching, ← htold.switching on] at hswitching
    exact add_right_cancel hswitching
  · rw [htold.job, htold.computing]
    rcases hheard.running with ⟨hnone, hsame⟩ | ⟨running, -, hended, hnow⟩
    · rw [if_pos hnone, if_pos hnone, hsame]
      refine h.running.imp_right ?_
      rintro ⟨job, hrunning, hid, hname, hknown, hcard⟩
      exact ⟨job, hrunning, hid, hname, (hold job.id ⟨job, hknown⟩).trans hknown, hcard⟩
    · rw [if_neg (by simp [hended]), if_neg (by simp [hended])]
      exact .inl ⟨hnow, rfl, rfl⟩
  · have hwaiting : p'.waiting.Perm (s.queue.jobs ++ released) := by
      rw [hheard.waiting]
      exact h.waiting.append_right _
    have hsplit : released.Perm (o.accepted released ++ o.refused released) := by
      refine (List.filter_append_perm (fun job : Job => decide (job.nbRequestedResources ≤ o.nbMachines)) released).symm.trans ?_
      refine List.Perm.append_left _ (List.Perm.of_eq (List.filter_congr fun job _ => ?_))
      rw [← decide_not]
      exact decide_eq_decide.2 not_le
    calc p'.waiting.Perm (s.queue.jobs ++ (o.accepted released ++ o.refused released)) := hwaiting.trans (hsplit.append_left _)
      _ = s.queue.jobs ++ o.accepted released ++ o.refused released := (List.append_assoc _ _ _).symm
      (s.queue.jobs ++ o.accepted released ++ o.refused released).Perm (o.refused released ++ s'.queue.jobs) :=
        List.perm_append_comm.trans (htold.queue.symm.append_left _)
  · rw [hheard.submitted, List.mem_append, not_or]
    by_cases hmem : id ∈ released.map Job.id
    · obtain ⟨job, hjob, rfl⟩ := List.mem_map.1 hmem
      rw [htold.released job hjob]
      exact iff_of_false (Option.some_ne_none job) fun hbad => hbad.2 hmem
    · rw [htold.known id hmem, h.submitted id]
      exact (and_iff_left hmem).symm
  · rcases List.mem_append.1 hjob with hjob | hjob
    · have hin := (List.mem_filter.1 hjob).1
      exact ⟨htold.released job hin, (hheard.fresh job hin).2.1⟩
    · rcases (hqueue job).1 hjob with hjob | ⟨hin, -⟩
      · obtain ⟨hknown, hname⟩ := h.jobs job hjob
        exact ⟨(hold job.id ⟨job, hknown⟩).trans hknown, hname⟩
      · exact ⟨htold.released job hin, (hheard.fresh job hin).2.1⟩
  · exact ((hqueue job).1 hjob).elim (h.fits job) fun hin => ⟨(hheard.fresh job hin.1).2.2, hin.2⟩
  · simpa [SleeperOptions.refused] using (List.mem_filter.1 hjob).2

/-! ### What the sleeper decides -/

/-- A job that waits is found by its id. -/
theorem Mirrors.find? (h : Mirrors o p s refused) {job : Job} (hmem : job ∈ refused ++ s.queue.jobs) :
    p.waiting.find? (·.id = job.id) = some job := by
  cases hfind : p.waiting.find? (·.id = job.id) with
  | none => simpa using List.find?_eq_none.1 hfind job (h.waiting.mem_iff.2 hmem)
  | some job' =>
    have hid : job'.id = job.id := by simpa using List.find?_some hfind
    have hknown := (h.jobs job' (h.waiting.mem_iff.1 (List.mem_of_find?_eq_some hfind))).1
    rw [hid, (h.jobs job hmem).1] at hknown
    exact hknown.symm

/-- A job that is too large is rejected. -/
theorem Mirrors.reject {job : Job} (h : Mirrors o p s (job :: refused)) :
    ∃ p', p.send o (.rejectJob job.id) = .ok p' ∧ Mirrors o p' s refused := by
  have hwaiting := h.waiting
  refine ⟨{ p with waiting := p.waiting.erase job }, ?_, { h with
    waiting := by simpa using hwaiting.erase job
    jobs := fun job' hjob' => h.jobs job' (List.mem_cons_of_mem _ hjob')
    tooLarge := fun job' hjob' => h.tooLarge job' (List.mem_cons_of_mem _ hjob') }⟩
  simp only [SleeperPlatform.send, h.find? List.mem_cons_self, if_pos (h.tooLarge job List.mem_cons_self)]

theorem Mirrors.rejectAll (h : Mirrors o p s refused) :
    ∃ p', runFrom (SleeperPlatform.send o) p (refused.map fun job => .rejectJob job.id) = .ok p' ∧ Mirrors o p' s [] := by
  induction refused generalizing p with
  | nil => exact ⟨p, rfl, h⟩
  | cons job refused ih =>
    obtain ⟨p₁, hfirst, h₁⟩ := h.reject
    obtain ⟨p', hrest, h'⟩ := ih h₁
    exact ⟨p', by rw [List.map_cons, runFrom_cons_ok hfirst, hrest], h'⟩

/-- A job that waits is executed on idle machines. -/
theorem Mirrors.execute (h : Mirrors o p s []) {job : Job} {machines : IntervalSet} (hx : Executes job machines s s') :
    ∃ p', p.send o (.executeJob job.id machines []) = .ok p' ∧ Mirrors o p' s' [] := by
  have hmem : job ∈ s.queue.jobs := hx.queue.mem_iff.2 List.mem_cons_self
  have hnone := h.idle_iff.2 hx.idle
  have hempty := h.computing_empty hx.idle
  have hidle : s'.availableMachines.val + machines.val = p.idle := by rw [hx.available, h.idle]
  have hframe := hx.frame
  have hjob := h.jobs job hmem
  refine ⟨{ p with
    idle := p.idle - machines.val
    waiting := p.waiting.erase job
    running := some (job, machines.val) }, ?_, ?_⟩
  · have hok : p.running.isNone ∧ 0 < machines.card ∧ machines.card = job.nbRequestedResources ∧ machines.val ≤ p.idle :=
      ⟨by simp [hnone], by rw [hx.card]; exact (h.fits job hmem).1, hx.card, by rw [← hidle]; exact Multiset.le_add_left _ _⟩
    simp only [SleeperPlatform.send, h.find? (by simpa using hmem)]
    rw [if_pos hok]
  · have hrest : ∀ job' ∈ s'.queue.jobs, job' ∈ s.queue.jobs := fun job' hjob' => hx.queue.mem_iff.2 (List.mem_cons_of_mem _ hjob')
    refine ⟨?_, ?_, fun on => ?_, .inr ⟨job, ?_, ?_, hjob.2, ?_, ?_⟩, ?_, fun id => ?_, fun job' hjob' => ?_,
      fun job' hjob' => h.fits job' (hrest job' hjob'), nofun, hx.placed hempty h.placed⟩
    · change p.idle - machines.val = _
      rw [← hidle]
      exact add_tsub_cancel_right _ _
    · rw [hframe]
      exact h.asleep
    · rw [hframe]
      exact h.switching on
    · rw [hframe]
    · rw [hframe]
    · rw [hframe]
      exact hjob.1
    · rw [hframe]
      exact hx.card.symm
    · have hwaiting := (h.waiting.trans hx.queue).erase job
      rwa [List.erase_cons_head] at hwaiting
    · rw [hframe]
      exact h.submitted id
    · rw [hframe]
      exact h.jobs job' (hrest job' hjob')

/-- Machines are switched that may be. -/
theorem Mirrors.switch (hne : o.computePstate ≠ o.sleepPstate) (h : Mirrors o p s []) {on : Bool} {machines : IntervalSet}
    (hx : Switches o on machines s s') : ∃ p', p.send o (o.switchOrder on machines) = .ok p' ∧ Mirrors o p' s' [] := by
  have hresting : ∀ on', p.resting on' = (s'.resting on').val + if on' = on then machines.val else 0 := by
    intro on'
    rw [hx.resting on']
    cases on'
    · exact h.idle
    · exact h.asleep
  have hframe := hx.frame
  have hread : (Text.stoi (toString (o.pstate on : ℤ)).toList).bind o.isOn? = some on := by
    have hstoi : Text.stoi ((toString (o.pstate on : ℤ)).toList ++ []) = some (o.pstate on : ℤ) :=
      Text.stoi_toString (o.isInt_pstate on) (by simp)
    rw [List.append_nil] at hstoi
    rw [hstoi]
    exact isOn?_pstate hne on
  refine ⟨p.order on machines.val, ?_, ?_⟩
  · have hok : 0 < machines.card ∧ machines.val ≤ p.resting on := by
      rw [hresting on, if_pos rfl]
      exact ⟨Finset.card_pos.2 hx.nonempty, Multiset.le_add_left _ _⟩
    simp only [SleeperPlatform.send, SleeperOptions.switchOrder, hread]
    rw [if_pos hok]
  · have hidle := hresting false
    have hasleep := hresting true
    simp only [resting, SleeperState.resting] at hidle hasleep
    refine ⟨?_, ?_, fun on' => ?_, ?_, ?_, ?_, ?_, ?_, by simp, hx.placed h.placed⟩
    · simp only [order, hidle]
      cases on <;> simp
    · simp only [order, hasleep]
      cases on <;> simp
    · rw [hx.switching on']
      by_cases hsame : on' = on
      · subst hsame
        simp [order, h.switching]
      · simp [order, h.switching, hsame]
    · rw [hframe]
      exact h.running
    · rw [hframe]
      exact h.waiting
    · rw [hframe]
      exact h.submitted
    · rw [hframe]
      exact h.jobs
    · rw [hframe]
      exact h.fits

/-- The machines and the jobs between two messages. If a job waits for machines, some are being switched. -/
structure Steady (o : SleeperOptions) (s : SleeperPlatform × SleeperState) : Prop where
  mirrors : Mirrors o s.1 s.2 []
  cleared : Cleared s.2
  some_switching : s.2.waits = true → ∃ on, (s.2.switching on).Nonempty

/-- No machine is left available, unless a job waits for machines or the simulation is over. -/
def SleepsUnused (s : SleeperState) : Prop := s.simulationFinished = false → s.waits = false → s.availableMachines = ∅

/-- The reasons to stop that lie in what the simulator tells. -/
def ofMessage : List SleeperRunAbort := [.impossibleMessage, .noMachineRequested]

theorem receive_error (event : SleeperEvent) : Yields (fun _ => True) (· ∈ ofMessage) (SleeperPlatform.receive o p event) := by
  cases event with
  | simulationEnds => trivial
  | notify => trivial
  | jobSubmitted job =>
    simp only [SleeperPlatform.receive]
    split
    · exact List.mem_cons_self
    · split
      · exact List.mem_cons_of_mem _ List.mem_cons_self
      · trivial
  | jobCompleted id =>
    simp only [SleeperPlatform.receive]
    split
    · split
      · trivial
      · exact List.mem_cons_self
    · exact List.mem_cons_self
  | resourceStateChanged machines newState =>
    simp only [SleeperPlatform.receive]
    split
    · split
      · trivial
      · exact List.mem_cons_self
    · exact List.mem_cons_self

/-- The decisions about a message are carried out, one after the other. -/
theorem Mirrors.decided (hne : o.computePstate ≠ o.sleepPstate) {told : SleeperState} (h : Mirrors o p told refused)
    (hdecision : told.decision = refused.map fun job => .rejectJob job.id) (hd : Decided o told s') :
    ∃ p', runFrom (SleeperPlatform.send o) p s'.decision = .ok p' ∧ Mirrors o p' s' [] := by
  obtain ⟨p₁, hreject, h₁⟩ := h.rejectAll
  rw [← hdecision] at hreject
  obtain ⟨s₁, hfirst, hlast⟩ := hd.steps
  obtain ⟨p₂, hexecute, h₂⟩ : ∃ p₂, runFrom (SleeperPlatform.send o) p s₁.decision = .ok p₂ ∧ Mirrors o p₂ s₁ [] := by
    rcases hfirst with rfl | ⟨job, machines, hx⟩
    · exact ⟨p₁, hreject, h₁⟩
    · obtain ⟨p₂, hsend, h₂⟩ := h₁.execute hx
      refine ⟨p₂, ?_, h₂⟩
      rw [hx.frame]
      change runFrom (SleeperPlatform.send o) p (told.decision ++ [_]) = _
      rw [runFrom_append hreject, runFrom_cons_ok hsend, runFrom_nil]
  rcases hlast with rfl | ⟨machines, hx⟩
  · exact ⟨p₂, hexecute, h₂⟩
  · obtain ⟨p', hsend, h'⟩ := h₂.switch hne hx
    refine ⟨p', ?_, h'⟩
    rw [hx.frame]
    change runFrom (SleeperPlatform.send o) p (s₁.decision ++ [_]) = _
    rw [runFrom_append hexecute, runFrom_cons_ok hsend, runFrom_nil]

theorem Decided.finished (hd : Decided o s s') : s'.simulationFinished = s.simulationFinished := by
  obtain ⟨s₁, hfirst, hlast⟩ := hd.steps
  have hsame : s₁.simulationFinished = s.simulationFinished := by
    rcases hfirst with rfl | ⟨job, machines, hx⟩
    · rfl
    · rw [hx.frame]
  rcases hlast with rfl | ⟨machines, hx⟩
  · exact hsame
  · rw [hx.frame]
    exact hsame

/-- The sleeper answers what can have happened, and its decisions are carried out. -/
theorem step_ok (hne : o.computePstate ≠ o.sleepPstate) (hs : Steady o (p, s)) (message : ℚ × List SleeperEvent)
    (hp : runFrom (SleeperPlatform.receive o) p message.2 = .ok p') : ∃ told decided p'', Told o s message.2 told ∧ Decided o told decided ∧
      SleeperPlatform.step o (p, s) message = .ok (p'', Sleeper.clearRecentDataStructures decided) ∧
      Steady o (p'', Sleeper.clearRecentDataStructures decided) ∧ SleepsUnused (Sleeper.clearRecentDataStructures decided) := by
  have h : Mirrors o p s [] := hs.mirrors
  have hheard := runFrom_heard hne hp
  obtain ⟨told, decided, htold, hd, hx⟩ : ∃ told decided, Told o s message.2 told ∧ Decided o told decided ∧
      Sleeper.onMessage o message.1 s message.2 = .ok (Sleeper.clearRecentDataStructures decided) :=
    onMessage_ok hne h.placed hs.cleared h.computing_empty (fun job hjob => (h.jobs job (by simpa using hjob)).2) (h.acceptable hheard)
  have hmirrors := h.told hheard htold
  obtain ⟨p'', hsend, h''⟩ := hmirrors.decided hne htold.decision hd
  refine ⟨told, decided, p'', htold, hd, ?_, ⟨{ h'' with }, ⟨rfl, rfl, rfl⟩, hd.some_switching fun job hjob => ?_⟩,
    fun hgoing => hd.none_available (hd.finished.symm.trans hgoing)⟩
  · simp only [SleeperPlatform.step, hp, hx]
    have hdecision : (Sleeper.clearRecentDataStructures decided).decision = decided.decision := rfl
    rw [hdecision, hsend]
    rfl
  · exact (hmirrors.fits job hjob).2

/-- Only what the simulator tells can be a reason to stop. -/
theorem step_steady (hne : o.computePstate ≠ o.sleepPstate) {s : SleeperPlatform × SleeperState} (hs : Steady o s)
    (message : ℚ × List SleeperEvent) :
    Yields (fun s' => Steady o s' ∧ SleepsUnused s'.2) (· ∈ ofMessage) (SleeperPlatform.step o s message) := by
  have hreceive : Yields (fun _ => True) (· ∈ ofMessage) (runFrom (SleeperPlatform.receive o) s.1 message.2) :=
    Yields.runFrom trivial fun _ event _ _ => receive_error event
  cases hp : runFrom (SleeperPlatform.receive o) s.1 message.2 with
  | error reason =>
    simp only [SleeperPlatform.step, hp]
    exact hreceive.of_error hp
  | ok p' =>
    obtain ⟨told, decided, p'', -, -, hx, hsteady, hunused⟩ := step_ok hne hs message hp
    rw [hx]
    exact ⟨hsteady, hunused⟩

/-- At the beginning all machines are idle. -/
theorem steady_new : Steady o ({ idle := (Finset.range o.nbMachines).val }, Sleeper.new o) where
  mirrors := ⟨rfl, rfl, fun on => by cases on <;> rfl, .inl ⟨rfl, rfl, rfl⟩, .nil, by simp [Sleeper.new], nofun, nofun, nofun,
    by simp [SleeperState.Placed, Sleeper.new]⟩
  cleared := ⟨rfl, rfl, rfl⟩
  some_switching := nofun

theorem run_steady (hne : o.computePstate ≠ o.sleepPstate) (messages : List (ℚ × List SleeperEvent)) :
    Yields (Steady o) (· ∈ ofMessage) (SleeperPlatform.run o messages) :=
  Yields.runFrom steady_new fun _ message _ hs => (step_steady hne hs message).imp (fun _ h => h.1) fun _ h => h

/-! ### The jobs come to an end -/

/-- The executions and the ends of jobs that are still to come. -/
def jobsLeft (s : SleeperState) : ℕ := 2 * s.queue.jobs.length + if s.jobBeingComputed = "" then 0 else 1

/-- How far the machines are from being available. -/
def machinesLeft (s : SleeperState) : ℕ :=
  3 * s.machinesBeingSwitchedOff.card + 2 * s.sleepingMachines.card + s.machinesBeingSwitchedOn.card

/-- What is left of the jobs counts before what is left of the machines. -/
def left (o : SleeperOptions) (s : SleeperState) : ℕ :=
  jobsLeft s * (3 * o.nbMachines + 1) + if jobsLeft s = 0 then 0 else machinesLeft s

theorem machinesLeft_le {n : ℕ} (hp : s.Placed n) : machinesLeft s ≤ 3 * n := by
  have hcard := congrArg Multiset.card hp
  simp only [Multiset.card_add, Finset.card_val, Finset.card_range] at hcard
  unfold machinesLeft
  omega

/-- What is left of the jobs, or else of the machines, gets less. -/
theorem left_lt (hp : s'.Placed o.nbMachines) (hsome : jobsLeft s ≠ 0)
    (h : jobsLeft s' < jobsLeft s ∨ jobsLeft s' = jobsLeft s ∧ machinesLeft s' < machinesLeft s) : left o s' < left o s := by
  have hle := machinesLeft_le hp
  unfold left
  rw [if_neg hsome]
  rcases h with hlt | ⟨heq, hlt⟩
  · have hmul := Nat.mul_le_mul_right (3 * o.nbMachines + 1) (Nat.succ_le_of_lt hlt)
    rw [Nat.succ_mul] at hmul
    split <;> omega
  · rw [heq, if_neg hsome]
    omega

/-- A job is executed, or the machines get no further from being available while a job waits. -/
theorem Decided.left (hd : Decided o s s') :
    jobsLeft s' < jobsLeft s ∨ jobsLeft s' = jobsLeft s ∧ (s.waits = true → machinesLeft s' ≤ machinesLeft s) := by
  obtain ⟨s₁, hfirst, hlast⟩ := hd.steps
  have hkept : jobsLeft s' = jobsLeft s₁ := by
    rcases hlast with rfl | ⟨machines, hx⟩
    · rfl
    · rw [hx.frame]
      rfl
  rcases hfirst with rfl | ⟨job, machines, hx⟩
  · refine .inr ⟨hkept, fun hwaits => ?_⟩
    rcases hlast with rfl | ⟨machines, hx⟩
    · exact le_rfl
    · rw [hwaits] at hx
      have hsleeping := congrArg Multiset.card (hx.resting true)
      have hon := congrArg Multiset.card (hx.switching true)
      have hoff := congrArg Multiset.card (hx.switching false)
      simp only [SleeperState.resting, SleeperState.switching, if_true, reduceCtorEq, if_false, add_zero, Multiset.card_add,
        Finset.card_val] at hsleeping hon hoff
      unfold machinesLeft
      omega
  · left
    have hlength := hx.queue.length_eq
    rw [hkept, hx.frame]
    unfold jobsLeft
    rw [if_pos hx.idle]
    simp only [List.length_cons] at hlength
    dsimp only
    split <;> omega

/-- Some jobs or machines are left to wait for, and the simulator can tell of them. -/
theorem exists_message (hne : o.computePstate ≠ o.sleepPstate) (date : ℚ) (hs : Steady o (p, s)) (hleft : jobsLeft s ≠ 0) :
    ∃ event p' s', SleeperPlatform.step o (p, s) (date, [event]) = .ok (p', s') ∧ event.released? = none ∧ event.isEnd = false ∧
      Steady o (p', s') ∧ left o s' < left o s := by
  have h : Mirrors o p s [] := hs.mirrors
  have hafter : ∀ (event : SleeperEvent) (p₁ : SleeperPlatform), SleeperPlatform.receive o p event = .ok p₁ → event.released? = none →
      event.isEnd = false → (∀ told, Told o s [event] told → jobsLeft told < jobsLeft s ∨ jobsLeft told = jobsLeft s ∧
        told.waits = true ∧ machinesLeft told < machinesLeft s) → ∃ event p' s',
      SleeperPlatform.step o (p, s) (date, [event]) = .ok (p', s') ∧ event.released? = none ∧ event.isEnd = false ∧
        Steady o (p', s') ∧ left o s' < left o s := by
    intro event p₁ hreceive hnew hend hfewer
    obtain ⟨told, decided, p', htold, hd, hx, hsteady, -⟩ := step_ok hne hs (date, [event])
      (by rw [runFrom_cons_ok hreceive, runFrom_nil])
    refine ⟨event, p', _, hx, hnew, hend, hsteady, left_lt hsteady.mirrors.placed hleft ?_⟩
    have hdecided := hd.left
    change jobsLeft decided < _ ∨ jobsLeft decided = _ ∧ machinesLeft decided < _
    rcases hfewer told htold with hlt | ⟨heq, hwaits, hlt⟩
    · omega
    · rcases hdecided with hlt' | ⟨heq', hle⟩
      · omega
      · have hle := hle hwaits
        omega
  rcases h.running with ⟨-, hidle, -⟩ | ⟨job, hrunning, hid, hname, -, -⟩
  · have hqueue : s.queue ≠ [] := by
      rintro hempty
      simp [jobsLeft, hidle, hempty, Queue.jobs] at hleft
    obtain ⟨on, hnonempty⟩ := hs.some_switching (by simp [SleeperState.waits, hidle, hqueue])
    refine hafter (.resourceStateChanged (s.switching on) (o.pstate on)) (p.switched on (s.switching on).val) ?_ rfl rfl
      fun told htold => .inr ?_
    · simp only [SleeperPlatform.receive, isOn?_pstate hne, h.switching, le_refl, if_true]
    · have hqueued : told.queue.jobs.Perm (s.queue.jobs ++ []) := htold.queue
      have hlength : told.queue.jobs.length = s.queue.jobs.length := by simpa using hqueued.length_eq
      have hjob : told.jobBeingComputed = "" := htold.job.trans hidle
      have hpos := Finset.card_pos.2 hnonempty
      have hchange : [SleeperEvent.resourceStateChanged (s.switching on) (o.pstate on)].filterMap SleeperEvent.change? =
          [((o.pstate on : ℤ), s.switching on)] := rfl
      have hsleeping := congrArg Multiset.card htold.sleeping
      have hon := congrArg Multiset.card (htold.switching true)
      have hoff := congrArg Multiset.card (htold.switching false)
      rw [hchange, changedTo_cons, changedTo_nil, add_zero] at hsleeping hon hoff
      refine ⟨by simp [jobsLeft, hlength, hjob, hidle], ?_, ?_⟩
      · have hmore : told.queue ≠ [] := by
          rintro hempty
          rw [hempty] at hlength
          exact hqueue (by simpa [Queue.jobs] using hlength.symm)
        simp [SleeperState.waits, hjob, hmore]
      · have hother : (o.sleepPstate : ℤ) ≠ o.computePstate := by exact_mod_cast hne.symm
        unfold machinesLeft
        cases on with
        | true =>
          simp only [SleeperOptions.pstate, SleeperState.switching, hother.symm, if_true, if_false, Multiset.card_add, add_zero,
            Finset.card_val] at hsleeping hon hoff hpos
          omega
        | false =>
          simp only [SleeperOptions.pstate, SleeperState.switching, hother, if_true, if_false, Multiset.card_add, add_zero,
            Finset.card_val] at hsleeping hon hoff hpos
          omega
  · refine hafter (.jobCompleted job.id) { p with idle := p.idle + s.computingMachines.val, running := none } ?_ rfl rfl
      fun told htold => .inl ?_
    · simp only [SleeperPlatform.receive, hrunning, if_true]
    · have hqueued : told.queue.jobs.Perm (s.queue.jobs ++ []) := htold.queue
      have hlength : told.queue.jobs.length = s.queue.jobs.length := by simpa using hqueued.length_eq
      have hjob : told.jobBeingComputed = "" := htold.job
      unfold jobsLeft
      rw [hlength, if_pos hjob, if_neg (by rw [← hid]; exact hname)]
      omega

end SleeperAux

open SleeperAux

variable {o : SleeperOptions}

/-- The sleeper never aborts, and every decision of it can be carried out, as long as each job requests a machine. It rejects jobs that
request more machines than there are, executes a job that waits on as many idle machines as it requests while no other job runs, and has
machines switched on that are asleep, or off that are idle. -/
theorem sleeper_decisions_carried_out (hne : o.computePstate ≠ o.sleepPstate) (messages : List (ℚ × List SleeperEvent)) :
    (∃ s, SleeperPlatform.run o messages = .ok s) ∨ SleeperPlatform.run o messages = .error .impossibleMessage ∨
      SleeperPlatform.run o messages = .error .noMachineRequested := by
  have hrun := run_steady hne messages
  cases hx : SleeperPlatform.run o messages with
  | ok s => exact .inl ⟨s, rfl⟩
  | error reason =>
    have hreason : reason ∈ [SleeperRunAbort.impossibleMessage, .noMachineRequested] := hrun.of_error hx
    exact .inr (by simpa using hreason)

theorem sleeper_decisions_carried_out_witness :
    (∃ s, SleeperPlatform.run { nbMachines := 2, computePstate := 0, sleepPstate := 1 }
      [(0, []), (1, [.jobSubmitted { id := "w!1", nbRequestedResources := 1, walltime := 1 }])] = .ok s) ∨
    SleeperPlatform.run { nbMachines := 2, computePstate := 0, sleepPstate := 1 }
      [(0, []), (1, [.jobSubmitted { id := "w!1", nbRequestedResources := 1, walltime := 1 }])] = .error .impossibleMessage ∨
    SleeperPlatform.run { nbMachines := 2, computePstate := 0, sleepPstate := 1 }
      [(0, []), (1, [.jobSubmitted { id := "w!1", nbRequestedResources := 1, walltime := 1 }])] = .error .noMachineRequested :=
  sleeper_decisions_carried_out (by decide) _

/-- The sleeper knows the machines and the jobs as they are. Each machine is idle, asleep, being switched or used, and no two of them; and
the job being computed has as many machines as it requests. -/
theorem sleeper_knows_machines (hne : o.computePstate ≠ o.sleepPstate) {messages : List (ℚ × List SleeperEvent)}
    {p : SleeperPlatform} {s : SleeperState} (h : SleeperPlatform.run o messages = .ok (p, s)) :
    (p.idle = s.availableMachines.val ∧ p.asleep = s.sleepingMachines.val ∧ p.switching true = s.machinesBeingSwitchedOn.val ∧
      p.switching false = s.machinesBeingSwitchedOff.val ∧ (p.running.map (·.2)).getD 0 = s.computingMachines.val) ∧
    p.idle + (p.running.map (·.2)).getD 0 + p.asleep + p.switching true + p.switching false = (Finset.range o.nbMachines).val ∧
    (p.running.map (·.1.id)).getD "" = s.jobBeingComputed ∧
    (∀ running ∈ p.running, running.2.card = running.1.nbRequestedResources) ∧ p.waiting.Perm s.queue.jobs := by
  have hm : Mirrors o p s [] := ((run_steady hne messages).of_ok h).mirrors
  have hrunning : (p.running.map (·.2)).getD 0 = s.computingMachines.val ∧ (p.running.map (·.1.id)).getD "" = s.jobBeingComputed ∧
      ∀ running ∈ p.running, running.2.card = running.1.nbRequestedResources := by
    rcases hm.running with ⟨hnone, hjob, hempty⟩ | ⟨job, hsome, hid, -, -, hcard⟩
    · simp [hnone, hjob, hempty]
    · simp [hsome, hid, hcard]
  refine ⟨⟨hm.idle, hm.asleep, hm.switching true, hm.switching false, hrunning.1⟩, ?_, hrunning.2.1, hrunning.2.2, hm.waiting⟩
  have hplaced := hm.placed
  unfold SleeperState.Placed at hplaced
  rw [hm.idle, hm.asleep, hrunning.1, hm.switching, hm.switching]
  exact hplaced

theorem sleeper_knows_machines_witness : ∃ p s,
    SleeperPlatform.run { nbMachines := 2, computePstate := 0, sleepPstate := 1 }
      [(0, []), (1, [.jobSubmitted { id := "w!1", nbRequestedResources := 1, walltime := 1 }])] = .ok (p, s) ∧
    (p.idle = s.availableMachines.val ∧ p.asleep = s.sleepingMachines.val ∧ p.switching true = s.machinesBeingSwitchedOn.val ∧
      p.switching false = s.machinesBeingSwitchedOff.val ∧ (p.running.map (·.2)).getD 0 = s.computingMachines.val) ∧
    p.idle + (p.running.map (·.2)).getD 0 + p.asleep + p.switching true + p.switching false = (Finset.range 2).val ∧
    (p.running.map (·.1.id)).getD "" = s.jobBeingComputed ∧
    (∀ running ∈ p.running, running.2.card = running.1.nbRequestedResources) ∧ p.waiting.Perm s.queue.jobs := by
  obtain ⟨p, s, h⟩ : ∃ p s, SleeperPlatform.run { nbMachines := 2, computePstate := 0, sleepPstate := 1 }
      [(0, []), (1, [.jobSubmitted { id := "w!1", nbRequestedResources := 1, walltime := 1 }])] = .ok (p, s) := ⟨_, _, rfl⟩
  exact ⟨p, s, h, sleeper_knows_machines (by decide) h⟩

/-- After each message, if a job waits and none runs, machines are being switched, of which the simulator will tell; and otherwise no
machine is left idle before the end of the simulation. -/
theorem sleeper_settles (hne : o.computePstate ≠ o.sleepPstate) {messages : List (ℚ × List SleeperEvent)}
    {message : ℚ × List SleeperEvent} {p : SleeperPlatform} {s : SleeperState}
    (h : SleeperPlatform.run o (messages ++ [message]) = .ok (p, s)) :
    (p.waiting ≠ [] → p.running = none → ∃ on, p.switching on ≠ 0) ∧
      (p.waiting = [] ∨ p.running ≠ none → s.simulationFinished = false → p.idle = 0) := by
  obtain ⟨s₀, hfirst, hlast⟩ := of_runFrom_append h
  obtain ⟨s₁, hstep, hend⟩ := of_runFrom_cons hlast
  obtain rfl := Except.ok.inj hend
  have hlater := (step_steady hne ((run_steady hne messages).of_ok hfirst) message).of_ok hstep
  have hm : Mirrors o p s [] := hlater.1.mirrors
  have hwaiting : p.waiting = [] ↔ s.queue = [] := by
    have hlength := hm.waiting.length_eq
    rw [← List.length_eq_zero_iff, hlength]
    simp [Queue.jobs]
  refine ⟨fun hsomeWaits hnoneRuns => ?_, fun hcase hgoing => ?_⟩
  · have hwaits : s.waits = true := by simp [SleeperState.waits, hm.idle_iff.1 hnoneRuns, mt hwaiting.2 hsomeWaits]
    obtain ⟨on, hne⟩ := hlater.1.some_switching hwaits
    refine ⟨on, ?_⟩
    rw [hm.switching]
    exact fun hbad => hne.ne_empty (Finset.val_eq_zero.1 hbad)
  · have hwaits : s.waits = false := by
      rcases hcase with hempty | hruns
      · simp [SleeperState.waits, hwaiting.1 hempty]
      · simp [SleeperState.waits, mt hm.idle_iff.2 hruns]
    rw [hm.idle, hlater.2 hgoing hwaits]
    rfl

theorem sleeper_settles_witness : ∃ p s,
    SleeperPlatform.run { nbMachines := 1, computePstate := 0, sleepPstate := 1 }
      ([] ++ [(0, [.jobSubmitted { id := "w!1", nbRequestedResources := 1, walltime := 1 }])]) = .ok (p, s) ∧
    (p.waiting ≠ [] → p.running = none → ∃ on, p.switching on ≠ 0) ∧
      (p.waiting = [] ∨ p.running ≠ none → s.simulationFinished = false → p.idle = 0) := by
  obtain ⟨p, s, h⟩ : ∃ p s, SleeperPlatform.run { nbMachines := 1, computePstate := 0, sleepPstate := 1 }
      ([] ++ [(0, [.jobSubmitted { id := "w!1", nbRequestedResources := 1, walltime := 1 }])]) = .ok (p, s) := ⟨_, _, rfl⟩
  exact ⟨p, s, h, sleeper_settles (by decide) h⟩

/-- A message of a date that tells of no new job, nor of the end of the simulation. -/
def TellsNothingNew (date : ℚ) (message : ℚ × List SleeperEvent) : Prop :=
  message.1 = date ∧ ∀ event ∈ message.2, event.released? = none ∧ event.isEnd = false

/-- Whatever has been told, the simulator can go on such that every job that waits is executed and ends. -/
theorem sleeper_drains (hne : o.computePstate ≠ o.sleepPstate) (date : ℚ) {messages : List (ℚ × List SleeperEvent)}
    {p : SleeperPlatform} {s : SleeperState} (h : SleeperPlatform.run o messages = .ok (p, s)) :
    ∃ more p' s', SleeperPlatform.run o (messages ++ more) = .ok (p', s') ∧ (∀ message ∈ more, TellsNothingNew date message) ∧
      p'.waiting = [] ∧ p'.running = none := by
  have hstep : ∀ s, Steady o s → left o s.2 ≠ 0 → ∃ more s', runFrom (SleeperPlatform.step o) s more = .ok s' ∧
      (∀ message ∈ more, TellsNothingNew date message) ∧ Steady o s' ∧ left o s'.2 < left o s.2 := by
    rintro ⟨p, s⟩ hs hleft
    have hjobs : jobsLeft s ≠ 0 := by
      intro hzero
      exact hleft (by simp [left, hzero])
    obtain ⟨event, p', s', hx, hnew, hend, hs', hlt⟩ := exists_message hne date hs hjobs
    refine ⟨[(date, [event])], (p', s'), by rw [runFrom_cons_ok hx, runFrom_nil], ?_, hs', hlt⟩
    exact List.forall_mem_singleton.2 ⟨rfl, List.forall_mem_singleton.2 ⟨hnew, hend⟩⟩
  obtain ⟨more, ⟨p', s'⟩, hrun, hkind, hs', hdone⟩ := exists_run_of_decreasing hstep ((run_steady hne messages).of_ok h)
  have hm : Mirrors o p' s' [] := hs'.mirrors
  replace hdone : left o s' = 0 := hdone
  have hjobs : jobsLeft s' = 0 := by
    by_contra hsome
    have hpos : 0 < jobsLeft s' * (3 * o.nbMachines + 1) := Nat.mul_pos (Nat.pos_of_ne_zero hsome) (Nat.succ_pos _)
    unfold left at hdone
    omega
  have hqueue : s'.queue.jobs.length = 0 ∧ s'.jobBeingComputed = "" := by
    unfold jobsLeft at hjobs
    split at hjobs
    · rename_i hidle
      exact ⟨by omega, hidle⟩
    · omega
  refine ⟨more, p', s', ?_, hkind, ?_, ?_⟩
  · unfold SleeperPlatform.run
    rw [runFrom_append h, hrun]
  · exact List.length_eq_zero_iff.1 (hm.waiting.length_eq.trans hqueue.1)
  · exact hm.idle_iff.2 hqueue.2

theorem sleeper_drains_witness : ∃ p s,
    SleeperPlatform.run { nbMachines := 2, computePstate := 0, sleepPstate := 1 }
      [(0, []), (1, [.jobSubmitted { id := "w!1", nbRequestedResources := 1, walltime := 1 }])] = .ok (p, s) ∧
    ∃ more p' s', SleeperPlatform.run { nbMachines := 2, computePstate := 0, sleepPstate := 1 }
        ([(0, []), (1, [.jobSubmitted { id := "w!1", nbRequestedResources := 1, walltime := 1 }])] ++ more) = .ok (p', s') ∧
      (∀ message ∈ more, TellsNothingNew 2 message) ∧ p'.waiting = [] ∧ p'.running = none := by
  obtain ⟨p, s, h⟩ : ∃ p s, SleeperPlatform.run { nbMachines := 2, computePstate := 0, sleepPstate := 1 }
      [(0, []), (1, [.jobSubmitted { id := "w!1", nbRequestedResources := 1, walltime := 1 }])] = .ok (p, s) := ⟨_, _, rfl⟩
  exact ⟨p, s, h, sleeper_drains (by decide) 2 h⟩

end ScheduleTest
