import ScheduleTest.Dates

/-!
# Dates that go backwards

The writer's check of the dates fails where a scheduler has written something at the date of the message, and then executes the first
job of the queue at the date of the last event, which was before. Nothing else makes it fail.
-/

namespace ScheduleTest

open Execution

namespace Message

/-- The date of the first event. -/
def firstDate (m : Message) : ℚ := (m.events.head?.map (·.1)).getD m.now

/-- The timestamps do not go backwards, and none is after the message. -/
structure Ordered (m : Message) : Prop where
  sorted : (m.events.map (·.1)).Pairwise (· ≤ ·)
  le_now : ∀ date ∈ m.events.map (·.1), date ≤ m.now

end Message

/-- The messages of a simulation whose clock goes forward: no event is earlier than the message before it. -/
def ClockForward (last : ℚ) : List Message → Prop
  | [] => True
  | m :: messages => last ≤ m.firstDate ∧ m.Ordered ∧ ClockForward m.now messages

/-- What is written for a message has dates that do not go backwards, and what is decided is not earlier than the last event. -/
structure DatesInOrder (m : Message) (handled decided : List ℚ) : Prop where
  sorted : (handled ++ decided).Pairwise (· ≤ ·)
  current : ∀ date ∈ decided, m.currentDate ≤ date

namespace DatedScheduler

variable {σ : Type}

/-- The condition under which the dates do not go backwards: nothing is decided, or the last event is as late as the message, or the
scheduler's own condition holds in the state after the events. -/
def KeepsDates (KeepsClock : σ → Message → Prop) (callMakeDecisionsOnSingleNop : Bool) (s : σ) (m : Message) : Prop :=
  callMakeDecisionsOnSingleNop = false ∧ m.requestedCallbackOnly = true ∨ m.currentDate = m.now ∨ KeepsClock s m

/-- In every run of messages, the dates written for the next one are in order, and the writer's check passes, if and only if the
condition holds in the state after its events. -/
def InOrderIff (a : DatedScheduler σ) (KeepsClock : σ → Message → Prop) : Prop :=
  ∀ (callMakeDecisionsOnSingleNop : Bool) (s₀ : σ) (messages : List Message) (m : Message), ClockForward (-1) (messages ++ [m]) →
    ∀ (s : σ) (w : ProtocolWriter), runFrom (a.deliver callMakeDecisionsOnSingleNop) (s₀, {}) messages = .ok (s, w) →
    ∀ (s₁ : σ) (handled₁ : List ℚ), a.handleEvents s m.events = .ok (s₁, handled₁) →
    ∀ (s' : σ) (handled decided : List ℚ), a.receive callMakeDecisionsOnSingleNop s m = .ok (s', handled, decided) →
      (DatesInOrder m handled decided ↔ KeepsDates KeepsClock callMakeDecisionsOnSingleNop s₁ m) ∧
      ((w.appendAll (handled ++ decided)).isSome ↔ KeepsDates KeepsClock callMakeDecisionsOnSingleNop s₁ m)

/-- What is written after a run for the next message: the dates for its events, those decided, and whether the check passes. -/
def datesNext (a : DatedScheduler σ) (s₀ : σ) (messages : List Message) (m : Message) : Option (List ℚ × List ℚ × Bool) :=
  (runFrom (a.deliver false) (s₀, {}) messages).toOption.bind fun t => (a.receive false t.1 m).toOption.map fun r =>
    (r.2.1, r.2.2, (t.2.appendAll (r.2.1 ++ r.2.2)).isSome)

end DatedScheduler

namespace EasyBf

/-- No job that was released is rejected. -/
def RejectsNone (c : EasyBfConfig) (s : EasyBfState) : Prop := ∀ job ∈ s.jobsReleasedRecently, isRejected c job = false

/-- The first job of the sorted queue is another one than before, and it starts at once. -/
def NewFirstJobStarts (c : EasyBfConfig) (s : EasyBfState) (before : Option Job) (currentDate : ℚ) : Prop :=
  (s.queue.sortQueue c.order currentDate).firstJob? ≠ before ∧
    ∃ job schedule schedule' alloc, (s.queue.sortQueue c.order currentDate).firstJob? = some job ∧
      removeBefore s.schedule before = .ok schedule ∧ schedule.addJobFirstFit job = .ok (schedule', alloc) ∧
      alloc.startedInFirstSlice = true

/-- Nothing is rejected, or no new first job starts at once. -/
def KeepsClock (c : EasyBfConfig) (s : EasyBfState) (m : Message) : Prop :=
  RejectsNone c s ∨ ∀ released schedule, handleJobs c { s with decision := s.decision.clear } m.currentDate = .ok released →
    released.schedule.updateFirstSlice m.now = .ok schedule →
    ¬ NewFirstJobStarts c { released with schedule := schedule } s.queue.firstJob? m.currentDate

end EasyBf

namespace EasyBf2

/-- No job runs on a machine. -/
def IdleAt (s : EasyBfState) (number : ℕ) : Prop := ∀ first ∈ s.schedule.profile.head?,
  s.schedule.numberOfRunningJobs = 0 ∨ (Schedule.jobsRunningOnMachines first {number}).isEmpty = true

/-- A machine does not go under repair: a reservation runs on it, or it is under repair. -/
def NotRepaired (s : EasyBfState) (draws : Draws) : Prop := ∀ first ∈ s.schedule.profile.head?,
  ¬ ((Schedule.reservationsRunningOnMachines first {draws.number}).isEmpty = true ∧ draws.number ∉ s.schedule.repairMachines)

/-- Nothing is rejected and nothing comes of the failures, or no new first job starts at once after them. -/
def KeepsClock (c : EasyBf2Config) (s : EasyBf2State) (m : Message) : Prop :=
  ∀ released schedule failed,
    EasyBf.handleJobs c.toEasyBfConfig { s.toEasyBfState with decision := s.decision.clear } m.currentDate = .ok released →
    released.schedule.updateFirstSlice m.now = .ok schedule →
    handleFailures c { released with schedule := schedule } m.now (instantDowns s m.instantDraws) (downs s m.downDraws) =
      .ok failed →
    EasyBf.RejectsNone c.toEasyBfConfig s.toEasyBfState ∧
        (∀ number ∈ instantDowns s m.instantDraws, IdleAt { released with schedule := schedule } number) ∧
        (∀ draws ∈ downs s m.downDraws, NotRepaired { released with schedule := schedule } draws) ∨
      ¬ EasyBf.NewFirstJobStarts c.toEasyBfConfig failed s.queue.firstJob? m.currentDate

end EasyBf2

namespace EasyBf3

/-- Nothing is rejected, or the first job of the sorted queue is the one that was, or it cannot run. -/
def KeepsClock (c : EasyBf3Config) (s : EasyBf3State) (m : Message) : Prop :=
  (∀ job ∈ s.jobsReleasedRecently, isRejected c job = false) ∨
    let released := handleJobs c { s with decision := s.decision.clear } m.currentDate
    ∀ job, (released.queue.sortQueue c.order m.currentDate).firstJob? = some job → some job ≠ s.queue.firstJob? →
      released.nbAvailableMachines < (PriorityJob.update released.priorityJob job).requestedResources

end EasyBf3

namespace DatesAux

variable {σ : Type} {a : DatedScheduler σ} {KeepsClock : σ → Message → Prop} {s s₁ s' : σ} {m : Message} {w w' : ProtocolWriter}
  {dates handled decided : List ℚ} {b : Bool}

/-! ## Lists of dates -/

/-- The writer appends the dates that do not go backwards. -/
theorem appendAll_isSome : (w.appendAll dates).isSome ↔ (w.lastDate :: dates).Pairwise (· ≤ ·) := by
  induction dates generalizing w with
  | nil => simp [ProtocolWriter.appendAll]
  | cons date dates ih =>
    rw [ProtocolWriter.appendAll, ProtocolWriter.append]
    by_cases hle : w.lastDate ≤ date
    · rw [if_pos hle, Option.bind_some, ih]
      constructor
      · intro h
        refine List.pairwise_cons.2 ⟨?_, h⟩
        exact List.forall_mem_cons.2 ⟨hle, fun d hd => hle.trans ((List.pairwise_cons.1 h).1 d hd)⟩
      · exact fun h => (List.pairwise_cons.1 h).2
    · rw [if_neg hle]
      refine iff_of_false (by simp) fun h => hle ?_
      exact (List.pairwise_cons.1 h).1 date List.mem_cons_self

/-- The last date of the writer is one that it has written. -/
theorem appendAll_lastDate (h : w.appendAll dates = some w') : w'.lastDate = w.lastDate ∨ w'.lastDate ∈ dates := by
  induction dates generalizing w with
  | nil => exact Or.inl (congrArg ProtocolWriter.lastDate (Option.some.inj h)).symm
  | cons date dates ih =>
    rw [ProtocolWriter.appendAll, ProtocolWriter.append] at h
    split at h
    · rw [Option.bind_some] at h
      rcases ih h with heq | hmem
      · exact Or.inr (heq ▸ List.mem_cons_self)
      · exact Or.inr (List.mem_cons_of_mem _ hmem)
    · cases h

/-- Dates of two clocks, one of which is behind, are in order where it is not used after the other, or not behind. -/
theorem pairwise_clocks {current now : ℚ} (hle : current ≤ now) (early middle late : ℕ) :
    (List.replicate early now ++ List.replicate middle current ++ List.replicate late now).Pairwise (· ≤ ·) ↔
      early = 0 ∨ middle = 0 ∨ current = now := by
  simp only [List.pairwise_append, List.pairwise_replicate, List.mem_append, List.mem_replicate]
  constructor
  · rintro ⟨⟨_, _, hearly⟩, _⟩
    by_cases he : early = 0
    · exact Or.inl he
    · by_cases hm : middle = 0
      · exact Or.inr (Or.inl hm)
      · exact Or.inr (Or.inr (le_antisymm hle (hearly now ⟨he, rfl⟩ current ⟨hm, rfl⟩)))
  · intro h
    refine ⟨⟨Or.inr le_rfl, Or.inr le_rfl, ?_⟩, Or.inr le_rfl, ?_⟩
    · rintro _ ⟨he, rfl⟩ _ ⟨hm, rfl⟩
      rcases h with h | h | h
      · exact absurd h he
      · exact absurd h hm
      · exact h.ge
    · rintro x hx _ ⟨_, rfl⟩
      rcases hx with ⟨_, rfl⟩ | ⟨_, rfl⟩
      · exact le_rfl
      · exact hle

/-! ## A message -/

theorem mem_events_cases (m : Message) : m.events = [] ∧ m.firstDate = m.now ∧ m.currentDate = m.now ∨
    ∃ first rest, m.events.map (·.1) = first :: rest ∧ m.firstDate = first ∧ m.currentDate ∈ first :: rest ∧
      ((first :: rest).Pairwise (· ≤ ·) → ∀ date ∈ first :: rest, date ≤ m.currentDate) := by
  unfold Message.firstDate Message.currentDate
  cases he : m.events with
  | nil => exact Or.inl ⟨rfl, rfl, rfl⟩
  | cons e events =>
    refine Or.inr ⟨e.1, events.map (·.1), rfl, rfl, ?_, ?_⟩
    · rw [← List.getLast?_map, List.map_cons, List.getLast?_cons, Option.getD_some]
      rcases List.eq_nil_or_concat (events.map (·.1)) with hnil | ⟨l, x, hx⟩
      · rw [hnil]
        simp
      · rw [hx]
        simp
    · intro hsorted date hmem
      rw [← List.getLast?_map, List.map_cons]
      rcases List.eq_nil_or_concat (e.1 :: events.map (·.1)) with hnil | ⟨l, x, hx⟩
      · cases hnil
      · rw [hx] at hsorted hmem ⊢
        rw [List.concat_eq_append] at hsorted hmem ⊢
        rw [List.getLast?_append, List.getLast?_singleton, Option.some_or, Option.getD_some]
        rcases List.mem_append.1 hmem with hmem | hmem
        · exact (List.pairwise_append.1 hsorted).2.2 date hmem x (List.mem_singleton_self x)
        · exact (List.mem_singleton.1 hmem).le

/-- The dates of a message whose timestamps do not go backwards. -/
theorem ordered_bounds (hm : m.Ordered) : m.firstDate ≤ m.currentDate ∧ m.currentDate ≤ m.now ∧
    ∀ date ∈ m.events.map (·.1), m.firstDate ≤ date ∧ date ≤ m.currentDate := by
  rcases mem_events_cases m with ⟨he, hfirst, hcurrent⟩ | ⟨first, rest, he, hfirst, hcurrent, hlast⟩
  · rw [hfirst, hcurrent, he]
    exact ⟨le_rfl, le_rfl, fun date hdate => absurd hdate (by simp)⟩
  · have hsorted := hm.sorted
    have hnow := hm.le_now
    rw [he] at hsorted hnow
    have hge : ∀ date ∈ first :: rest, m.firstDate ≤ date := by
      rw [hfirst]
      exact List.forall_mem_cons.2 ⟨le_rfl, (List.pairwise_cons.1 hsorted).1⟩
    rw [he]
    exact ⟨hge _ hcurrent, hnow _ hcurrent, fun date hdate => ⟨hge date hdate, hlast hsorted date hdate⟩⟩

/-- A handler that writes nothing. -/
theorem silent_of_map {x : Except Abort σ} (h : x.map (fun s => (s, ([] : List ℚ))) = .ok (s', dates)) (d : ℚ) : d ∉ dates := by
  obtain ⟨_, _, heq⟩ := map_eq_ok.1 h
  cases heq
  exact List.not_mem_nil

/-- A scheduler that writes at the date of an event what it writes for it, and what it decides at the date of the message, then at
that of the last event, and then at that of the message again. -/
structure TwoClocks (a : DatedScheduler σ) (KeepsClock : σ → Message → Prop) : Prop where
  handle : ∀ {s date event s' dates}, a.handle s date event = .ok (s', dates) → ∀ d ∈ dates, d = date
  decide : ∀ {s m s' decided}, a.makeDecisions s m = .ok (s', decided) → ∃ early middle late,
    decided = List.replicate early m.now ++ List.replicate middle m.currentDate ++ List.replicate late m.now ∧
      (early = 0 ∨ middle = 0 ↔ KeepsClock s m)

/-- What is written for the events has their dates, in order. -/
theorem TwoClocks.handleEvents (h : TwoClocks a KeepsClock) {events : List (ℚ × BatsimEvent)}
    (hsorted : (events.map (·.1)).Pairwise (· ≤ ·)) (he : a.handleEvents s events = .ok (s₁, handled)) :
    handled.Pairwise (· ≤ ·) ∧ ∀ d ∈ handled, d ∈ events.map (·.1) := by
  induction events generalizing s handled with
  | nil =>
    cases he
    exact ⟨List.Pairwise.nil, fun d hd => absurd hd (by simp)⟩
  | cons e events ih =>
    obtain ⟨date, event⟩ := e
    rw [DatedScheduler.handleEvents] at he
    split at he
    · rename_i s₂ dates hhandle
      obtain ⟨⟨s₃, rest⟩, hrest, heq⟩ := map_eq_ok.1 he
      cases heq
      rw [List.map_cons] at hsorted
      obtain ⟨hle, htail⟩ := List.pairwise_cons.1 hsorted
      obtain ⟨hpair, hmem⟩ := ih htail hrest
      have hdate := h.handle hhandle
      refine ⟨List.pairwise_append.2 ⟨?_, hpair, fun x hx y hy => ?_⟩, fun d hd => ?_⟩
      · exact List.pairwise_of_forall_mem_list fun x hx y hy => ((hdate x hx).trans (hdate y hy).symm).le
      · rw [hdate x hx]
        exact hle y (hmem y hy)
      · rw [List.map_cons]
        rcases List.mem_append.1 hd with hd | hd
        · exact hdate d hd ▸ List.mem_cons_self
        · exact List.mem_cons_of_mem _ (hmem d hd)
    · cases he

/-- What is written for a message has dates from its first event to the message, and they are in order under the condition. -/
theorem TwoClocks.receive (h : TwoClocks a KeepsClock) (hm : m.Ordered) {handled₁ : List ℚ}
    (he : a.handleEvents s m.events = .ok (s₁, handled₁)) (hr : a.receive b s m = .ok (s', handled, decided)) :
    (∀ d ∈ handled ++ decided, m.firstDate ≤ d ∧ d ≤ m.now) ∧ (∀ d ∈ decided, m.currentDate ≤ d) ∧
      ((handled ++ decided).Pairwise (· ≤ ·) ↔ DatedScheduler.KeepsDates KeepsClock b s₁ m) := by
  obtain ⟨hfirst, hcurrent, hevents⟩ := ordered_bounds hm
  obtain ⟨hpair, hmem⟩ := h.handleEvents hm.sorted he
  unfold DatedScheduler.receive at hr
  rw [he] at hr
  dsimp only at hr
  unfold DatedScheduler.KeepsDates
  split at hr
  · -- make_decisions is not called
    rename_i hskip
    cases hr
    have hskip : b = false ∧ m.requestedCallbackOnly = true := by simpa using hskip
    rw [List.append_nil]
    exact ⟨fun d hd => ⟨(hevents d (hmem d hd)).1, hm.le_now d (hmem d hd)⟩, fun d hd => absurd hd (by simp),
      iff_of_true hpair (Or.inl hskip)⟩
  · rename_i hskip
    obtain ⟨⟨s₂, written⟩, hdecide, heq⟩ := map_eq_ok.1 hr
    cases heq
    obtain ⟨early, middle, late, hdecided, hkeeps⟩ := h.decide hdecide
    have hclock : ∀ d ∈ written, m.currentDate ≤ d ∧ d ≤ m.now := by
      intro d hd
      rw [hdecided] at hd
      simp only [List.mem_append, List.mem_replicate] at hd
      rcases hd with (⟨_, rfl⟩ | ⟨_, rfl⟩) | ⟨_, rfl⟩
      · exact ⟨hcurrent, le_rfl⟩
      · exact ⟨le_rfl, hcurrent⟩
      · exact ⟨hcurrent, le_rfl⟩
    refine ⟨fun d hd => ?_, fun d hd => (hclock d hd).1, ?_⟩
    · rcases List.mem_append.1 hd with hd | hd
      · exact ⟨(hevents d (hmem d hd)).1, hm.le_now d (hmem d hd)⟩
      · exact ⟨hfirst.trans (hclock d hd).1, (hclock d hd).2⟩
    · have hskip : ¬ (b = false ∧ m.requestedCallbackOnly = true) := by simpa using hskip
      have hcross : ∀ x ∈ handled, ∀ y ∈ written, x ≤ y := fun x hx y hy =>
        (hevents x (hmem x hx)).2.trans (hclock y hy).1
      have hsplit : (handled ++ written).Pairwise (· ≤ ·) ↔ written.Pairwise (· ≤ ·) := by
        rw [List.pairwise_append]
        exact ⟨fun h => h.2.1, fun h => ⟨hpair, h, hcross⟩⟩
      rw [hsplit, hdecided, pairwise_clocks hcurrent, ← hkeeps, or_iff_right hskip, ← or_assoc, or_comm]

/-! ## A run -/

/-- A message that has been dealt with is one of which the events have been. -/
theorem handleEvents_of_receive (h : a.receive b s m = .ok (s', handled, decided)) :
    ∃ s₁ handled₁, a.handleEvents s m.events = .ok (s₁, handled₁) := by
  unfold DatedScheduler.receive at h
  split at h
  · rename_i s₁ handled₁ hevents
    exact ⟨s₁, handled₁, hevents⟩
  · cases h

/-- In a run of messages the writer has written nothing later than the next event. -/
theorem TwoClocks.lastDate_le (h : TwoClocks a KeepsClock) {last : ℚ} {messages : List Message}
    (hclock : ClockForward last (messages ++ [m])) (hle : w.lastDate ≤ last)
    (hrun : runFrom (a.deliver b) (s, w) messages = .ok (s', w')) : w'.lastDate ≤ m.firstDate ∧ m.Ordered := by
  induction messages generalizing s w last with
  | nil =>
    cases hrun
    exact ⟨hle.trans hclock.1, hclock.2.1⟩
  | cons m' messages ih =>
    obtain ⟨⟨s₂, w₂⟩, hstep, hrest⟩ := of_runFrom_cons hrun
    obtain ⟨hfirst, hordered, hclock'⟩ := hclock
    refine ih hclock' ?_ hrest
    unfold DatedScheduler.deliver at hstep
    split at hstep
    · rename_i s₃ handled decided hreceive
      split at hstep
      · rename_i w₃ happend
        cases hstep
        obtain ⟨s₁, handled₁, hevents⟩ := handleEvents_of_receive hreceive
        have hdates := (h.receive hordered hevents hreceive).1
        obtain ⟨hcurrent, hnow, _⟩ := ordered_bounds hordered
        rcases appendAll_lastDate happend with heq | hmem
        · rw [heq]
          exact (hle.trans hfirst).trans (hcurrent.trans hnow)
        · exact (hdates _ hmem).2
      · cases hstep
    · cases hstep

/-- A scheduler with two clocks writes dates in order exactly under its condition. -/
theorem TwoClocks.inOrderIff (h : TwoClocks a KeepsClock) : a.InOrderIff KeepsClock := by
  intro b s₀ messages m hclock s w hrun s₁ handled₁ hevents s' handled decided hreceive
  obtain ⟨hlast, hordered⟩ := h.lastDate_le hclock le_rfl hrun
  obtain ⟨hbounds, hcurrent, hpair⟩ := h.receive hordered hevents hreceive
  constructor
  · rw [← hpair]
    exact ⟨DatesInOrder.sorted, fun hsorted => ⟨hsorted, hcurrent⟩⟩
  · rw [appendAll_isSome, List.pairwise_cons, ← hpair]
    exact ⟨fun h => h.2, fun hsorted => ⟨fun d hd => hlast.trans (hbounds d hd).1, hsorted⟩⟩

/-- A run of which the dates written next are known. -/
theorem runs_of_datesNext {s₀ : σ} {messages : List Message} {passes : Bool}
    (h : a.datesNext s₀ messages m = some (handled, decided, passes)) :
    ∃ s w s₁ handled₁ s', runFrom (a.deliver false) (s₀, {}) messages = .ok (s, w) ∧
      a.handleEvents s m.events = .ok (s₁, handled₁) ∧ a.receive false s m = .ok (s', handled, decided) := by
  unfold DatedScheduler.datesNext at h
  obtain ⟨⟨s, w⟩, hrun, hnext⟩ := toOption_bind_eq_some.1 h
  obtain ⟨⟨s', handled', decided'⟩, hreceive, heq⟩ := toOption_map_eq_some.1 hnext
  cases heq
  obtain ⟨s₁, handled₁, hevents⟩ := handleEvents_of_receive hreceive
  exact ⟨s, w, s₁, handled₁, s', hrun, hevents, hreceive⟩

/-- Two messages of a simulation whose clock goes forward. -/
theorem clockForward_pair {m₁ m₂ : Message} (h₁ : -1 ≤ m₁.firstDate) (h₂ : m₁.now ≤ m₂.firstDate) (ho₁ : m₁.Ordered)
    (ho₂ : m₂.Ordered) : ClockForward (-1) [m₁, m₂] := ⟨h₁, ho₁, h₂, ho₂, trivial⟩

/-! ## `easy_bf.cpp` -/

section EasyBf

open EasyBf

variable {c : EasyBfConfig} {t u : EasyBfState} {before : Option Job} {currentDate : ℚ}

/-- What is written about the jobs released are the rejections. -/
theorem length_releaseJobs (c : EasyBfConfig) (currentDate : ℚ) (jobs : List Job) (t : EasyBfState) :
    (jobs.foldl (releaseJob c currentDate) t).decision.decisions.length =
      t.decision.decisions.length + (jobs.filter (isRejected c)).length := by
  induction jobs generalizing t with
  | nil => rfl
  | cons job jobs ih =>
    rw [List.foldl_cons, ih]
    unfold releaseJob
    by_cases hrejected : isRejected c job = true
    · rw [if_pos hrejected, List.filter_cons_of_pos hrejected]
      simp only [SchedulingDecision.decisions_add, List.length_append, List.length_cons, List.length_nil]
      omega
    · rw [if_neg hrejected, List.filter_cons_of_neg hrejected]

theorem handleJobs_written (h : handleJobs c t currentDate = .ok u) :
    t.decision.decisions.length ≤ u.decision.decisions.length ∧
      (u.decision.decisions.length - t.decision.decisions.length = 0 ↔ RejectsNone c t) := by
  obtain ⟨schedule, _, rfl⟩ := map_eq_ok.1 h
  rw [length_releaseJobs]
  refine ⟨Nat.le_add_right _ _, ?_⟩
  rw [Nat.add_sub_cancel_left, List.length_eq_zero_iff, List.filter_eq_nil_iff]
  simp only [RejectsNone, Bool.not_eq_true]

/-- The loop over the first jobs of the queue writes something if and only if the first of them starts at once. -/
theorem executePriorityJobs_written {jobs : List Job} (h : executePriorityJobs t jobs = .ok u) :
    t.decision.decisions.length ≤ u.decision.decisions.length ∧
      (u.decision.decisions.length - t.decision.decisions.length = 0 ↔
        ¬ ∃ job schedule alloc, jobs.head? = some job ∧ t.schedule.addJobFirstFit job = .ok (schedule, alloc) ∧
          alloc.startedInFirstSlice = true) := by
  induction jobs generalizing t with
  | nil =>
    cases h
    simp
  | cons job jobs ih =>
    rw [executePriorityJobs] at h
    split at h
    · rename_i schedule alloc hadd
      split at h
      · rename_i hstarts
        split at h
        · rename_i t' hexecute
          obtain ⟨queue, _, rfl⟩ := map_eq_ok.1 hexecute
          have hle := (ih h).1
          simp only [SchedulingDecision.decisions_add, List.length_append, List.length_cons, List.length_nil] at hle
          refine ⟨by omega, iff_of_false (by omega) fun hnot => hnot ⟨job, schedule, alloc, rfl, hadd, hstarts⟩⟩
        · cases h
      · rename_i hstarts
        cases h
        refine ⟨le_rfl, iff_of_true (Nat.sub_self _) ?_⟩
        rintro ⟨job', schedule', alloc', hjob, hadd', hstarts'⟩
        obtain rfl := Option.some.inj hjob
        rw [hadd] at hadd'
        cases hadd'
        exact hstarts hstarts'
    · cases h

theorem sortQueue_written (h : sortQueueWhileHandlingPriorityJob c t before currentDate = .ok u) :
    t.decision.decisions.length ≤ u.decision.decisions.length ∧
      (u.decision.decisions.length - t.decision.decisions.length = 0 ↔ ¬ NewFirstJobStarts c t before currentDate) := by
  unfold sortQueueWhileHandlingPriorityJob at h
  unfold NewFirstJobStarts
  dsimp only at h
  split at h
  · rename_i hne
    split at h
    · rename_i schedule hremove
      obtain ⟨hle, hiff⟩ := executePriorityJobs_written h
      refine ⟨hle, hiff.trans (not_congr ?_)⟩
      have hhead : (t.queue.sortQueue c.order currentDate).jobs.head? = (t.queue.sortQueue c.order currentDate).firstJob? :=
        List.head?_map
      rw [hhead]
      constructor
      · rintro ⟨job, schedule', alloc, hjob, hadd, hstarts⟩
        exact ⟨hne, job, schedule, schedule', alloc, hjob, hremove, hadd, hstarts⟩
      · rintro ⟨_, job, schedule₁, schedule', alloc, hjob, hremove', hadd, hstarts⟩
        rw [hremove] at hremove'
        cases hremove'
        exact ⟨job, schedule', alloc, hjob, hadd, hstarts⟩
    · cases h
  · rename_i heq
    cases h
    exact ⟨le_rfl, iff_of_true (Nat.sub_self _) fun h => heq h.1⟩

/-- `easy_bf.cpp` writes at two clocks. -/
theorem twoClocks_easyBf (c : EasyBfConfig) : TwoClocks (EasyBf.dated c) (EasyBf.KeepsClock c) where
  handle := by
    intro s date event s' dates h d hd
    cases event with
    | simulationBegins failure =>
      cases h
      exact List.mem_singleton.1 hd
    | jobSubmitted job => exact absurd hd (silent_of_map h d)
    | jobCompleted id => exact absurd hd (silent_of_map h d)
    | jobsKilled ids =>
      cases h
      cases hd
    | requestedCall id forWhat draws =>
      cases h
      cases hd
    | noMoreStaticJobToSubmit =>
      cases h
      cases hd
    | other =>
      cases h
      cases hd
  decide := by
    intro s m s' decided h
    have h : datedDecisions c s m.now m.currentDate = .ok (s', decided) := h
    unfold datedDecisions at h
    dsimp only at h
    split at h
    · rename_i released hreleased
      split at h
      · rename_i sorted hsorted
        obtain ⟨u, hdecided, heq⟩ := map_eq_ok.1 h
        cases heq
        have hearly := (handleJobs_written hreleased).2
        unfold prepare at hsorted
        rw [hreleased] at hsorted
        dsimp only at hsorted
        split at hsorted
        · rename_i schedule hschedule
          have hmiddle := (sortQueue_written hsorted).2
          refine ⟨_, _, _, by rw [datesWritten, datesWritten, datesWritten, List.replicate_append_replicate], ?_⟩
          unfold EasyBf.KeepsClock
          refine or_congr hearly (hmiddle.trans ⟨fun hnot released' schedule' hreleased' hschedule' => ?_,
            fun hall => hall released schedule hreleased hschedule⟩)
          rw [hreleased] at hreleased'
          cases hreleased'
          rw [hschedule] at hschedule'
          cases hschedule'
          exact hnot
        · cases hsorted
      · cases h
    · cases h

end EasyBf

/-! ## `easy_bf2.cpp` -/

section EasyBf2

open EasyBf2

variable {t u : EasyBfState}

/-- The number of decisions written so far. -/
def nbWritten (t : EasyBfState) : ℕ := t.decision.decisions.length

/-- A loop of which each step writes something unless a condition makes it do nothing writes nothing if and only if all its inputs
meet the condition in the state before it. -/
theorem runFrom_silent {α : Type} {step : EasyBfState → α → Except Abort EasyBfState} {Silent : EasyBfState → α → Prop}
    (hsilent : ∀ {t x u}, step t x = .ok u → Silent t x → u = t)
    (hwrites : ∀ {t x u}, step t x = .ok u → ¬ Silent t x → nbWritten t < nbWritten u) {xs : List α}
    (h : runFrom step t xs = .ok u) :
    nbWritten t ≤ nbWritten u ∧ (nbWritten u = nbWritten t ↔ ∀ x ∈ xs, Silent t x) ∧ ((∀ x ∈ xs, Silent t x) → u = t) := by
  induction xs generalizing t with
  | nil =>
    cases h
    simp
  | cons x xs ih =>
    obtain ⟨t', hstep, hrest⟩ := of_runFrom_cons h
    obtain ⟨hle, hiff, heq⟩ := ih hrest
    rw [List.forall_mem_cons]
    by_cases hx : Silent t x
    · obtain rfl := hsilent hstep hx
      exact ⟨hle, hiff.trans ⟨fun h => ⟨hx, h⟩, fun h => h.2⟩, fun h => heq h.2⟩
    · have hlt := hwrites hstep hx
      exact ⟨hlt.le.trans hle, iff_of_false (by omega) fun h => hx h.1, fun h => absurd h.1 hx⟩

theorem onMachineInstantDownUp_written {number : ℕ} (h : onMachineInstantDownUp t number = .ok u) :
    (IdleAt t number → u = t) ∧ (¬ IdleAt t number → nbWritten t < nbWritten u) := by
  unfold onMachineInstantDownUp at h
  unfold IdleAt
  split at h
  · cases h
  · rename_i first rest hprofile
    rw [hprofile]
    simp only [List.head?_cons, Option.mem_def, Option.some.injEq, forall_eq']
    split at h
    · rename_i hrunning
      dsimp only at h
      split at h
      · rename_i hempty
        cases h
        exact ⟨fun _ => rfl, fun hnot => absurd (Or.inr hempty) hnot⟩
      · rename_i hkilled
        obtain ⟨schedule, _, rfl⟩ := map_eq_ok.1 h
        refine ⟨fun hor => hor.elim (fun hzero => absurd hzero (by omega)) fun hempty => absurd hempty hkilled, fun _ => ?_⟩
        simp only [nbWritten, SchedulingDecision.decisions_add, List.length_append, List.length_cons, List.length_nil]
        omega
    · rename_i hnone
      cases h
      exact ⟨fun _ => rfl, fun hnot => absurd (Or.inl (by omega)) hnot⟩

theorem le_of_onMachineInstantDownUp {number : ℕ} (h : onMachineInstantDownUp t number = .ok u) : nbWritten t ≤ nbWritten u := by
  obtain ⟨hsame, hmore⟩ := onMachineInstantDownUp_written h
  by_cases hidle : IdleAt t number
  · exact (congrArg nbWritten (hsame hidle)).ge
  · exact (hmore hidle).le

theorem onMachineDownForRepair_written {c : EasyBf2Config} {date : ℚ} {draws : Draws}
    (h : onMachineDownForRepair c date t draws = .ok u) :
    (NotRepaired t draws → u = t) ∧ (¬ NotRepaired t draws → nbWritten t < nbWritten u) := by
  unfold onMachineDownForRepair at h
  unfold NotRepaired
  split at h
  · cases h
  · rename_i first rest hprofile
    rw [hprofile]
    simp only [List.head?_cons, Option.mem_def, Option.some.injEq, forall_eq']
    split at h
    · rename_i hrepaired
      refine ⟨fun hnot => absurd hrepaired hnot, fun _ => ?_⟩
      unfold startRepair at h
      refine lt_of_lt_of_le ?_ (le_of_onMachineInstantDownUp h)
      simp only [nbWritten, SchedulingDecision.addCallMeLater, List.length_append, List.length_cons, List.length_nil]
      omega
    · rename_i hnot
      cases h
      exact ⟨fun _ => rfl, fun hneg => absurd hnot hneg⟩

/-- What is written about failures. -/
theorem handleFailures_written {c : EasyBf2Config} {date : ℚ} {instantDowns : List ℕ} {downs : List Draws}
    (h : handleFailures c t date instantDowns downs = .ok u) :
    nbWritten t ≤ nbWritten u ∧ (nbWritten u = nbWritten t ↔
      (∀ number ∈ instantDowns, IdleAt t number) ∧ ∀ draws ∈ downs, NotRepaired t draws) := by
  unfold handleFailures at h
  split at h
  · rename_i t' hinstant
    obtain ⟨hle, hiff, hsame⟩ := runFrom_silent (fun h => (onMachineInstantDownUp_written h).1)
      (fun h => (onMachineInstantDownUp_written h).2) hinstant
    obtain ⟨hle', hiff', _⟩ := runFrom_silent (fun h => (onMachineDownForRepair_written h).1)
      (fun h => (onMachineDownForRepair_written h).2) h
    refine ⟨hle.trans hle', ?_⟩
    by_cases hidle : ∀ number ∈ instantDowns, IdleAt t number
    · obtain rfl := hsame hidle
      exact hiff'.trans ⟨fun h => ⟨hidle, h⟩, fun h => h.2⟩
    · have hne : nbWritten t' ≠ nbWritten t := fun heq => hidle (hiff.1 heq)
      exact iff_of_false (by omega) fun h => hidle h.1
  · cases h

/-- What is written before the queue is sorted. -/
theorem beforeSorting_written {c : EasyBf2Config} {released failed : EasyBfState} {schedule : Schedule} {currentDate date : ℚ}
    {instantDowns : List ℕ} {downs : List Draws} (hreleased : EasyBf.handleJobs c.toEasyBfConfig t currentDate = .ok released)
    (hfailed : handleFailures c { released with schedule := schedule } date instantDowns downs = .ok failed) :
    failed.decision.decisions.length - t.decision.decisions.length = 0 ↔ EasyBf.RejectsNone c.toEasyBfConfig t ∧
      (∀ number ∈ instantDowns, IdleAt { released with schedule := schedule } number) ∧
      ∀ draws ∈ downs, NotRepaired { released with schedule := schedule } draws := by
  obtain ⟨hle, hearly⟩ := handleJobs_written hreleased
  obtain ⟨hle', hfailures⟩ := handleFailures_written hfailed
  have hmove : nbWritten { released with schedule := schedule } = released.decision.decisions.length := rfl
  have hfailedNb : nbWritten failed = failed.decision.decisions.length := rfl
  rw [hmove, hfailedNb] at hle' hfailures
  rw [← hfailures, ← hearly]
  omega

/-- `easy_bf2.cpp` writes at two clocks. -/
theorem twoClocks_easyBf2 (c : EasyBf2Config) : TwoClocks (EasyBf2.dated c) (EasyBf2.KeepsClock c) where
  handle := by
    intro s date event s' dates h d hd
    cases event with
    | simulationBegins failure =>
      cases h
      rcases List.mem_cons.1 hd with rfl | hd
      · rfl
      · exact List.eq_of_mem_replicate hd
    | jobSubmitted job => exact absurd hd (silent_of_map h d)
    | jobCompleted id => exact absurd hd (silent_of_map h d)
    | jobsKilled ids =>
      cases h
      cases hd
    | requestedCall id forWhat draws =>
      cases h
      exact List.eq_of_mem_replicate hd
    | noMoreStaticJobToSubmit =>
      cases h
      cases hd
    | other =>
      cases h
      cases hd
  decide := by
    intro s m s' decided h
    have h : datedDecisions c s m = .ok (s', decided) := h
    unfold datedDecisions at h
    dsimp only at h
    split at h
    · rename_i released hreleased
      split at h
      · rename_i schedule hschedule
        split at h
        · rename_i failed hfailed
          split at h
          · rename_i sorted hsorted
            split at h
            · rename_i u hdecided
              obtain ⟨v, hstep, heq⟩ := map_eq_ok.1 h
              cases heq
              unfold EasyBf2.prepare at hsorted
              rw [hreleased] at hsorted
              dsimp only at hsorted
              rw [hschedule] at hsorted
              dsimp only at hsorted
              rw [hfailed] at hsorted
              have hmiddle := (sortQueue_written hsorted).2
              refine ⟨_, _, _, rfl, ?_⟩
              unfold EasyBf2.KeepsClock
              have hsilent := @beforeSorting_written _ c released failed schedule _ _ _ _ hreleased hfailed
              constructor
              · intro hor released' schedule' failed' hreleased' hschedule' hfailed'
                rw [hreleased] at hreleased'
                cases hreleased'
                rw [hschedule] at hschedule'
                cases hschedule'
                rw [hfailed] at hfailed'
                cases hfailed'
                exact hor.imp hsilent.1 hmiddle.1
              · intro hall
                exact (hall released schedule failed hreleased hschedule hfailed).imp hsilent.2 hmiddle.2
            · cases h
          · cases h
        · cases h
      · cases h
    · cases h

end EasyBf2

/-! ## `easy_bf3.cpp` -/

section EasyBf3

open EasyBf3

variable {c : EasyBf3Config} {t u : EasyBf3State} {before : Option Job} {currentDate : ℚ}

/-- The jobs that ended change nothing that is written. -/
theorem decision_handleFinishedJobs (ids : List String) (t : EasyBf3State) :
    (ids.foldl handleFinishedJob t).decision = t.decision := by
  induction ids generalizing t with
  | nil => rfl
  | cons id ids ih =>
    rw [List.foldl_cons, ih]
    unfold handleFinishedJob
    split <;> rfl

/-- What is written about the jobs released are the rejections. -/
theorem length_releaseJobs_easyBf3 (c : EasyBf3Config) (currentDate : ℚ) (jobs : List Job) (t : EasyBf3State) :
    (jobs.foldl (releaseJob c currentDate) t).decision.decisions.length =
      t.decision.decisions.length + (jobs.filter (isRejected c)).length := by
  induction jobs generalizing t with
  | nil => rfl
  | cons job jobs ih =>
    rw [List.foldl_cons, ih]
    unfold releaseJob
    by_cases hrejected : isRejected c job = true
    · rw [if_pos hrejected, List.filter_cons_of_pos hrejected]
      simp only [SchedulingDecision.decisions_add, List.length_append, List.length_cons, List.length_nil]
      omega
    · rw [if_neg hrejected, List.filter_cons_of_neg hrejected]

theorem handleJobs_written_easyBf3 (c : EasyBf3Config) (currentDate : ℚ) (t : EasyBf3State) :
    (handleJobs c t currentDate).decision.decisions.length - t.decision.decisions.length = 0 ↔
      ∀ job ∈ t.jobsReleasedRecently, isRejected c job = false := by
  unfold handleJobs
  rw [length_releaseJobs_easyBf3, decision_handleFinishedJobs, Nat.add_sub_cancel_left, List.length_eq_zero_iff,
    List.filter_eq_nil_iff]
  simp only [Bool.not_eq_true]

/-- Whether the first job can run, and that checking it writes nothing. -/
theorem checkPriorityJob_written (t : EasyBf3State) (job : Job) (date : ℚ) :
    (checkPriorityJob t job date).1.decision = t.decision ∧
      ((checkPriorityJob t job date).2.isSome ↔
        ((PriorityJob.update t.priorityJob job).requestedResources : ℤ) ≤ t.nbAvailableMachines) := by
  unfold checkPriorityJob
  dsimp only
  split
  · rename_i hfits
    exact ⟨rfl, iff_of_true rfl hfits⟩
  · rename_i hnot
    split
    · exact ⟨rfl, iff_of_false (by simp) hnot⟩
    · exact ⟨rfl, iff_of_false (by simp) hnot⟩

/-- The loop over the first jobs of the queue writes something if and only if the first of them can run. -/
theorem executePriorityJobs_written_easyBf3 {date : ℚ} {jobs : List Job} (h : executePriorityJobs date t jobs = .ok u) :
    t.decision.decisions.length ≤ u.decision.decisions.length ∧
      (u.decision.decisions.length - t.decision.decisions.length = 0 ↔
        ∀ job ∈ jobs.head?, t.nbAvailableMachines < (PriorityJob.update t.priorityJob job).requestedResources) := by
  induction jobs generalizing t with
  | nil =>
    cases h
    simp
  | cons job jobs ih =>
    obtain ⟨hsame, hruns⟩ := checkPriorityJob_written t job date
    simp only [List.head?_cons, Option.mem_def, Option.some.injEq, forall_eq']
    rw [executePriorityJobs] at h
    split at h
    · rename_i t' scheduled hcheck
      rw [hcheck] at hsame hruns
      split at h
      · rename_i t'' hexecute
        obtain ⟨queue, _, rfl⟩ := map_eq_ok.1 hexecute
        have hle := (ih h).1
        simp only [SchedulingDecision.decisions_add, List.length_append, List.length_cons, List.length_nil] at hle
        rw [show t'.decision = t.decision from hsame] at hle
        exact ⟨by omega, iff_of_false (by omega) (not_lt.2 (hruns.1 rfl))⟩
      · cases h
    · rename_i t' hcheck
      cases h
      rw [hcheck] at hsame hruns
      rw [show u.decision = t.decision from hsame]
      exact ⟨le_rfl, iff_of_true (Nat.sub_self _) (not_le.1 fun hle => absurd (hruns.2 hle) (by simp))⟩

/-- `easy_bf3.cpp` writes at two clocks. -/
theorem twoClocks_easyBf3 (c : EasyBf2Config) : TwoClocks (EasyBf3.dated c) (EasyBf3.KeepsClock ⟨c.nbMachines, c.order⟩) where
  handle := by
    intro s date event s' dates h d hd
    cases event with
    | simulationBegins failure =>
      cases h
      rcases List.mem_cons.1 hd with rfl | hd
      · rfl
      · exact List.eq_of_mem_replicate hd
    | jobSubmitted job => exact absurd hd (silent_of_map h d)
    | jobCompleted id => exact absurd hd (silent_of_map h d)
    | jobsKilled ids =>
      cases h
      cases hd
    | requestedCall id forWhat draws =>
      cases h
      cases hd
    | noMoreStaticJobToSubmit =>
      cases h
      cases hd
    | other =>
      cases h
      cases hd
  decide := by
    intro s m s' decided h
    have h : datedDecisions ⟨c.nbMachines, c.order⟩ s m.now m.currentDate = .ok (s', decided) := h
    unfold datedDecisions at h
    dsimp only at h
    split at h
    · rename_i sorted hsorted
      obtain ⟨u, hdecided, heq⟩ := map_eq_ok.1 h
      cases heq
      refine ⟨_, _, _, by rw [datesWritten, datesWritten, datesWritten, List.replicate_append_replicate], ?_⟩
      unfold EasyBf3.KeepsClock
      refine or_congr (handleJobs_written_easyBf3 _ _ _) ?_
      dsimp only
      unfold prepare sortQueueWhileHandlingPriorityJob at hsorted
      dsimp only at hsorted
      split at hsorted
      · rename_i hne
        rw [(executePriorityJobs_written_easyBf3 hsorted).2]
        have hhead : ∀ queue : Queue, queue.jobs.head? = queue.firstJob? := fun _ => List.head?_map
        rw [hhead]
        exact forall_congr' fun job => ⟨fun h hjob _ => h hjob, fun h hjob => h hjob fun heq => hne (hjob.trans heq)⟩
      · rename_i heq
        cases hsorted
        exact iff_of_true (Nat.sub_self _) fun job hjob hne => absurd (hjob.symm.trans (not_not.1 heq)) hne
    · cases h

end EasyBf3

end DatesAux

/-! ## The schedulers -/

namespace EasyBf

/-- The states are those of the scheduler without dates. -/
theorem datedDecisions_fst (c : EasyBfConfig) (s : EasyBfState) (date currentDate : ℚ) :
    (datedDecisions c s date currentDate).map Prod.fst = step c s (.makeDecisions date currentDate) := by
  unfold datedDecisions step
  dsimp only
  cases hreleased : handleJobs c { s with decision := s.decision.clear } currentDate with
  | error e => simp only [makeDecisions, prepare, hreleased]; rfl
  | ok released =>
    cases hsorted : prepare c { s with decision := s.decision.clear } date currentDate with
    | error e => simp only [makeDecisions, hsorted]; rfl
    | ok sorted =>
      dsimp only
      cases makeDecisions c { s with decision := s.decision.clear } date currentDate with
      | error e => rfl
      | ok decided => rfl

end EasyBf

namespace EasyBf2

/-- The states are those of the scheduler without dates. -/
theorem datedDecisions_fst (c : EasyBf2Config) (s : EasyBf2State) (m : Message) :
    (datedDecisions c s m).map Prod.fst = step c s (.makeDecisions m.now m.currentDate m.instantDraws m.downDraws) := by
  unfold datedDecisions step
  dsimp only
  generalize { s.toEasyBfState with decision := s.decision.clear } = t
  generalize instantDowns s m.instantDraws = instantDowns
  generalize downs s m.downDraws = downs
  cases hreleased : EasyBf.handleJobs c.toEasyBfConfig t m.currentDate with
  | error e => simp only [makeDecisions, prepare, hreleased]; rfl
  | ok released =>
    dsimp only
    cases hschedule : released.schedule.updateFirstSlice m.now with
    | error e => simp only [makeDecisions, prepare, hreleased, hschedule]; rfl
    | ok schedule =>
      dsimp only
      cases hfailed : handleFailures c { released with schedule := schedule } m.now instantDowns downs with
      | error e => simp only [makeDecisions, prepare, hreleased, hschedule, hfailed]; rfl
      | ok failed =>
        dsimp only
        cases hsorted : prepare c t m.now m.currentDate instantDowns downs with
        | error e => simp only [makeDecisions, hsorted]; rfl
        | ok sorted =>
          dsimp only
          cases makeDecisions c t m.now m.currentDate instantDowns downs with
          | error e => rfl
          | ok decided => rfl

end EasyBf2

namespace EasyBf3

/-- The states are those of the scheduler without dates. -/
theorem datedDecisions_fst (c : EasyBf3Config) (s : EasyBf3State) (date currentDate : ℚ) :
    (datedDecisions c s date currentDate).map Prod.fst = step c s (.makeDecisions date currentDate) := by
  unfold datedDecisions step
  dsimp only
  cases hsorted : prepare c { s with decision := s.decision.clear } currentDate with
  | error e => simp only [makeDecisions, hsorted]; rfl
  | ok sorted =>
    dsimp only
    cases makeDecisions c { s with decision := s.decision.clear } date currentDate with
    | error e => rfl
    | ok decided => rfl

end EasyBf3

open DatesAux in
/-- The dates of what `easy_bf.cpp`, `easy_bf2.cpp` and `easy_bf3.cpp` write for a message are in order exactly where nothing is
decided, or the last event is as late as the message, or nothing is written before the queue is sorted, or no new first job of the
queue starts at once. -/
theorem dates_in_order_iff (c : EasyBf2Config) :
    (EasyBf.dated c.toEasyBfConfig).InOrderIff (EasyBf.KeepsClock c.toEasyBfConfig) ∧
      (EasyBf2.dated c).InOrderIff (EasyBf2.KeepsClock c) ∧
      (EasyBf3.dated c).InOrderIff (EasyBf3.KeepsClock ⟨c.nbMachines, c.order⟩) :=
  ⟨(twoClocks_easyBf _).inOrderIff, (twoClocks_easyBf2 c).inOrderIff, (twoClocks_easyBf3 c).inOrderIff⟩

namespace DatesWitness

/-- A job for ten seconds. -/
def job (id : String) (nbRequestedResources : ℕ) : Job where
  id := id
  nbRequestedResources := nbRequestedResources
  walltime := 10

/-- A message without failures. -/
def message (now : ℚ) (events : List (ℚ × BatsimEvent)) : Message where
  now := now
  events := events
  instantDraws := fun _ => ⟨0, 0, 0, ""⟩
  downDraws := fun _ => ⟨0, 0, 0, ""⟩

/-- Two machines. -/
def config : EasyBf2Config := { nbMachines := 2 }

/-- The start. -/
def start : Message := message 0 [(0, .simulationBegins 0)]

/-- A job that fits and one that does not, both submitted at the date of the message. -/
def onTime : Message := message 5 [(5, .jobSubmitted (job "w!1" 3)), (5, .jobSubmitted (job "w!2" 1))]

/-- The same jobs, in a message of a later date. -/
def late : Message := message 10 [(5, .jobSubmitted (job "w!1" 3)), (5, .jobSubmitted (job "w!2" 1))]

end DatesWitness

open DatesWitness DatesAux in
/-- A job is rejected and another one started, both at the date of the events. -/
theorem dates_in_order_iff_witness :
    (EasyBf.dated config.toEasyBfConfig).datesNext (EasyBf.new config.toEasyBfConfig 0) [start] onTime =
      some ([], [5, 5, 5, 5, 5, 5, 5], true) ∧
    (EasyBf2.dated config).datesNext (EasyBf2.new config 0 0) [start] onTime = some ([], [5, 5], true) ∧
    (EasyBf3.dated config).datesNext (EasyBf3.new ⟨config.nbMachines, config.order⟩) [start] onTime =
      some ([], [5, 5, 5, 5], true) ∧
    DatesInOrder onTime [] [5, 5, 5, 5, 5, 5, 5] ∧ DatesInOrder onTime [] [5, 5] ∧ DatesInOrder onTime [] [5, 5, 5, 5] := by
  have hclock : ClockForward (-1) ([start] ++ [onTime]) := clockForward_pair (by decide +kernel) (by decide +kernel)
    ⟨by decide +kernel, by decide +kernel⟩ ⟨by decide +kernel, by decide +kernel⟩
  have hkeeps : onTime.currentDate = onTime.now := by decide +kernel
  have hnext : (EasyBf.dated config.toEasyBfConfig).datesNext (EasyBf.new config.toEasyBfConfig 0) [start] onTime =
      some ([], [5, 5, 5, 5, 5, 5, 5], true) := by decide +kernel
  have hnext₂ : (EasyBf2.dated config).datesNext (EasyBf2.new config 0 0) [start] onTime = some ([], [5, 5], true) := by
    decide +kernel
  have hnext₃ : (EasyBf3.dated config).datesNext (EasyBf3.new ⟨config.nbMachines, config.order⟩) [start] onTime =
      some ([], [5, 5, 5, 5], true) := by decide +kernel
  obtain ⟨s, w, s₁, handled₁, s', hrun, hevents, hreceive⟩ := runs_of_datesNext hnext
  obtain ⟨t, v, t₁, events₂, t', hrun₂, hevents₂, hreceive₂⟩ := runs_of_datesNext hnext₂
  obtain ⟨u, x, u₁, events₃, u', hrun₃, hevents₃, hreceive₃⟩ := runs_of_datesNext hnext₃
  obtain ⟨hiff, hiff₂, hiff₃⟩ := dates_in_order_iff config
  refine ⟨hnext, hnext₂, hnext₃, ?_, ?_, ?_⟩
  · exact (hiff false _ _ _ hclock s w hrun s₁ handled₁ hevents s' _ _ hreceive).1.2 (Or.inr (Or.inl hkeeps))
  · exact (hiff₂ false _ _ _ hclock t v hrun₂ t₁ events₂ hevents₂ t' _ _ hreceive₂).1.2 (Or.inr (Or.inl hkeeps))
  · exact (hiff₃ false _ _ _ hclock u x hrun₃ u₁ events₃ hevents₃ u' _ _ hreceive₃).1.2 (Or.inr (Or.inl hkeeps))

open DatesWitness DatesAux in
/-- A job is rejected at the date of the message, and then another one started at that of the last event. -/
theorem dates_in_order_false :
    ClockForward (-1) [start, late] ∧
    (EasyBf.dated config.toEasyBfConfig).datesNext (EasyBf.new config.toEasyBfConfig 0) [start] late =
      some ([], [10, 5, 10, 10, 10, 10, 10], false) ∧
    (EasyBf2.dated config).datesNext (EasyBf2.new config 0 0) [start] late = some ([], [10, 5], false) ∧
    (EasyBf3.dated config).datesNext (EasyBf3.new ⟨config.nbMachines, config.order⟩) [start] late =
      some ([], [10, 5, 10, 10], false) ∧
    ¬ DatesInOrder late [] [10, 5, 10, 10, 10, 10, 10] ∧ ¬ DatesInOrder late [] [10, 5] ∧
    ¬ DatesInOrder late [] [10, 5, 10, 10] := by
  refine ⟨clockForward_pair (by decide +kernel) (by decide +kernel) ⟨by decide +kernel, by decide +kernel⟩
    ⟨by decide +kernel, by decide +kernel⟩, by decide +kernel, by decide +kernel, by decide +kernel, ?_, ?_, ?_⟩
  · exact fun h => absurd h.sorted (by decide +kernel)
  · exact fun h => absurd h.sorted (by decide +kernel)
  · exact fun h => absurd h.sorted (by decide +kernel)

end ScheduleTest
