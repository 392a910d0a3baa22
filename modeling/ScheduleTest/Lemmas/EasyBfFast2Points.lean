import ScheduleTest.Lemmas.EasyBfFast2

/-!
# What the horizon points release

The search for the date at which a job can start at the latest goes over the points in order and counts machines: those that a point
releases, where its job does not share, and a shared machine with the last point on it (`released`). `earliestStart_spec` says where
the search stops. The points and the core counters agree with the allocations in every run, whatever fails (`Counts`), so a search
that does not stop has counted every machine that is available or held.
-/

namespace ScheduleTest

namespace EasyBFFast2

/-- Whether the job of a point shares its machine. -/
def pointShares (c : FastConfig) (point : HorizonPoint) : Bool := c.sharePacking && point.nbReleasedMachines == 1

/-- How many of some points are those of jobs that share a machine. -/
def pointSharers (c : FastConfig) (points : List HorizonPoint) (machine : ℕ) : ℕ :=
  points.countP (fun point => pointShares c point ∧ machine ∈ point.machines)

/-- The machines that some points release when others are still to come: those of the jobs that do not share, and the shared machines
that none of the points to come is on. -/
def released (c : FastConfig) (core : IntervalSet) (before after : List HorizonPoint) : ℕ :=
  ((before.filter (fun point => ¬ pointShares c point)).map HorizonPoint.nbReleasedMachines).sum +
    (core.filter (fun m => 0 < pointSharers c before m ∧ pointSharers c after m = 0)).card

variable {c : FastConfig} {core : IntervalSet} {before rest : List HorizonPoint} {point : HorizonPoint} {job : Job}

theorem pointSharers_cons (m : ℕ) : pointSharers c (point :: rest) m =
    pointSharers c rest m + if pointShares c point ∧ m ∈ point.machines then 1 else 0 := by
  simp [pointSharers, List.countP_cons]

theorem pointSharers_append (m : ℕ) : pointSharers c (before ++ rest) m = pointSharers c before m + pointSharers c rest m := by
  simp [pointSharers, List.countP_append]

/-- A point of a job that does not share releases its machines. -/
theorem released_own (hown : ¬ pointShares c point) :
    released c core (before ++ [point]) rest = released c core before (point :: rest) + point.nbReleasedMachines := by
  have hsharers : ∀ m, pointSharers c (point :: rest) m = pointSharers c rest m := by
    intro m
    simp [pointSharers_cons, hown]
  have hbefore : ∀ m, pointSharers c (before ++ [point]) m = pointSharers c before m := by
    intro m
    simp [hown, pointSharers]
  simp only [released, hsharers, hbefore, List.filter_append, List.map_append, List.sum_append]
  simp [hown]
  omega

/-- A point of a job that shares releases its machine where it is the last one on it. -/
theorem released_shared (hshares : pointShares c point) {m : ℕ} (hm : point.machines = {m}) (hcore : m ∈ core) :
    released c core (before ++ [point]) rest =
      released c core before (point :: rest) + if pointSharers c rest m = 0 then 1 else 0 := by
  have hcons : ∀ x, pointSharers c (point :: rest) x = pointSharers c rest x + if x = m then 1 else 0 := by
    intro x
    simp [pointSharers_cons, hshares, hm]
  have hbefore : ∀ x, pointSharers c (before ++ [point]) x = pointSharers c before x + if x = m then 1 else 0 := by
    intro x
    rw [pointSharers_append, pointSharers_cons]
    simp [hshares, hm, pointSharers]
  have hset : core.filter (fun x => 0 < pointSharers c (before ++ [point]) x ∧ pointSharers c rest x = 0) =
      if pointSharers c rest m = 0
      then insert m (core.filter (fun x => 0 < pointSharers c before x ∧ pointSharers c (point :: rest) x = 0))
      else core.filter (fun x => 0 < pointSharers c before x ∧ pointSharers c (point :: rest) x = 0) := by
    ext x
    by_cases hlast : pointSharers c rest m = 0
    · rw [if_pos hlast, Finset.mem_insert, Finset.mem_filter, Finset.mem_filter, hcons, hbefore]
      by_cases hx : x = m
      · simp [hx, hcore, hlast]
      · simp [hx]
    · rw [if_neg hlast, Finset.mem_filter, Finset.mem_filter, hcons, hbefore]
      by_cases hx : x = m
      · simp [hx, hlast]
      · simp [hx]
  have hnot : m ∉ core.filter (fun x => 0 < pointSharers c before x ∧ pointSharers c (point :: rest) x = 0) := by
    simp [hcons]
  simp only [released, hset, List.filter_append]
  split
  · rw [Finset.card_insert_of_notMem hnot]
    simp [hshares]
    omega
  · simp [hshares]

/-- Where a search over some points stops when `before` are behind it. -/
def Stops (c : FastConfig) (job : Job) (core : IntervalSet) (nb₀ : ℤ) (before rest : List HorizonPoint) (found : Except Abort ℚ) :
    Prop :=
  (∃ pre point post, rest = pre ++ point :: post ∧ found = .ok point.date ∧
    (job.nbRequestedResources = 1 ∧ pointShares c point ∨
      (job.nbRequestedResources : ℤ) ≤ nb₀ + released c core (before ++ pre ++ [point]) post)) ∨
  found = .error (.neverExecutable job.id) ∧ nb₀ + released c core (before ++ rest) [] < job.nbRequestedResources

/-- A search that goes on behind a point stops where it stops from there. -/
theorem Stops.next {nb₀ : ℤ} {found : Except Abort ℚ} (h : Stops c job core nb₀ (before ++ [point]) rest found) :
    Stops c job core nb₀ before (point :: rest) found := by
  rcases h with ⟨pre, stop, post, hrest, hfound, hstop⟩ | ⟨hfound, hlt⟩
  · refine .inl ⟨point :: pre, stop, post, by rw [hrest, List.cons_append], hfound, ?_⟩
    simpa using hstop
  · exact .inr ⟨hfound, by simpa using hlt⟩

/-- Where the search stops: at a point with which a job that shares finds a core, or with which enough machines are released; or
behind all points, when not enough of them are. -/
theorem earliestStart_spec (nb₀ : ℤ) {cores : ℕ → ℤ} {nb : ℤ}
    (hcores : ∀ m ∈ core, cores m = c.coreLimit m - pointSharers c rest m)
    (hplaced : ∀ point ∈ rest, pointShares c point → ∃ m ∈ core, point.machines = {m})
    (hnb : nb = nb₀ + released c core before rest) (hlt : nb < job.nbRequestedResources) :
    Stops c job core nb₀ before rest (earliestStart c job core cores nb rest) := by
  induction rest generalizing before cores nb with
  | nil =>
    right
    rw [List.append_nil]
    exact ⟨rfl, hnb ▸ hlt⟩
  | cons point rest ih =>
    have hrest : ∀ x ∈ rest, pointShares c x → ∃ m ∈ core, x.machines = {m} :=
      fun x hx => hplaced x (List.mem_cons_of_mem _ hx)
    rw [earliestStart]
    split
    · rename_i hshares
      have hshares' : pointShares c point := by simpa [pointShares] using hshares
      obtain ⟨m, hcore, hm⟩ := hplaced point List.mem_cons_self hshares'
      split
      · rename_i hone
        exact .inl ⟨[], point, rest, rfl, rfl, .inl ⟨hone, hshares'⟩⟩
      · have hreleased : released c core (before ++ [point]) rest = _ := released_shared hshares' hm hcore
        have hfreed : cores m + 1 = c.coreLimit m ↔ pointSharers c rest m = 0 := by
          have hm' := hcores m hcore
          rw [pointSharers_cons] at hm'
          simp only [hshares', hm, Finset.mem_singleton_self, and_self, if_true] at hm'
          push_cast at hm'
          omega
        rw [hm, firstMachine?_singleton]
        dsimp only
        rw [if_pos hcore]
        have hnb' : (if cores m + 1 = c.coreLimit m then nb + 1 else nb) =
            nb₀ + released c core (before ++ [point]) rest := by
          rw [hreleased]
          by_cases hlast : pointSharers c rest m = 0
          · rw [if_pos (hfreed.2 hlast), if_pos hlast]
            push_cast
            omega
          · rw [if_neg (fun h => hlast (hfreed.1 h)), if_neg hlast]
            simpa using hnb
        rw [hnb']
        split
        · rename_i hfit
          exact .inl ⟨[], point, rest, rfl, rfl, .inr (by simpa using hfit)⟩
        · rename_i hfit
          refine Stops.next (ih ?_ hrest rfl (not_le.1 hfit))
          intro x hx
          have hx' := hcores x hx
          rw [pointSharers_cons, hm] at hx'
          by_cases hxm : x = m
          · subst hxm
            simp only [hshares', Finset.mem_singleton_self, and_self, if_true] at hx'
            push_cast at hx'
            rw [Function.update_self]
            omega
          · simpa [hxm] using hx'
    · rename_i hown
      have hown' : ¬ pointShares c point := by simpa [pointShares] using hown
      have hreleased : released c core (before ++ [point]) rest = _ := released_own hown'
      have hnb' : nb + point.nbReleasedMachines = nb₀ + released c core (before ++ [point]) rest := by
        rw [hreleased, hnb]
        push_cast
        omega
      dsimp only
      split
      · rename_i hfit
        rw [hnb'] at hfit
        exact .inl ⟨[], point, rest, rfl, rfl, .inr (by simpa using hfit)⟩
      · rename_i hfit
        refine Stops.next (ih ?_ hrest hnb' (not_le.1 hfit))
        intro x hx
        have hx' := hcores x hx
        rw [pointSharers_cons] at hx'
        simpa [hown'] using hx'

/-- The core counters and the points agree with the allocations. -/
structure Counts (c : FastConfig) (s : EasyState) : Prop where
  cores : ∀ m, s.coresAvailable m = c.coreLimit m - sharers c s.currentAllocations m
  core : ∀ m, m ∈ s.availableCoreMachines ↔ 0 < sharers c s.currentAllocations m
  placed : ∀ e ∈ s.currentAllocations.entries, c.shares e.1 → ∃ m, e.2 = {m}
  points : (s.horizons.map fun point => (point.id, point.nbReleasedMachines, point.machines)).Perm
    (s.currentAllocations.entries.map fun e => (e.1.id, e.1.nbRequestedResources, e.2))
  sorted : s.horizons.Pairwise (fun p q => p.date ≤ q.date)

/-- The points stay in order. -/
theorem insertHorizonPoint_sorted {points : List HorizonPoint} (h : points.Pairwise (fun p q => p.date ≤ q.date)) :
    (insertHorizonPoint point points).Pairwise (fun p q => p.date ≤ q.date) := by
  induction h with
  | nil => exact List.pairwise_singleton _ _
  | @cons p rest hp hrest ih =>
    rw [insertHorizonPoint]
    split
    · rename_i hlt
      refine List.pairwise_cons.2 ⟨fun q hq => ?_, List.pairwise_cons.2 ⟨hp, hrest⟩⟩
      rcases List.mem_cons.1 hq with rfl | hq
      · exact hlt.le
      · exact hlt.le.trans (hp q hq)
    · rename_i hle
      refine List.pairwise_cons.2 ⟨fun q hq => ?_, ih⟩
      rcases List.mem_cons.1 ((insertHorizonPoint_perm point rest).mem_iff.1 hq) with rfl | hq
      · exact not_lt.1 hle
      · exact hp q hq

variable {s s' : EasyState} {date : ℚ}

/-- As many points as jobs are on a shared machine. -/
theorem Counts.pointSharers_eq (h : Counts c s) (m : ℕ) : pointSharers c s.horizons m = sharers c s.currentAllocations m := by
  have hcount := h.points.countP_eq (fun x => (c.sharePacking && x.2.1 == 1) ∧ m ∈ x.2.2)
  rw [List.countP_map, List.countP_map] at hcount
  exact hcount

/-- A job that is executed is counted. -/
theorem Counts.started {f : FastState} (h : Counts c s) (date : ℚ) (hnew : s.Fresh job) (hf : FastState.Started c s.toFastState job f) :
    Counts c { s with toFastState := f, horizons := insertHorizonPoint (pointOf f job date) s.horizons } := by
  have hframe := hf.frame
  have hsharers : ∀ m, sharers c f.currentAllocations m =
      sharers c s.currentAllocations m + if c.shares job ∧ m ∈ f.allocated job then 1 else 0 := by
    intro m
    rw [hframe.allocations, sharers_insert hnew]
  have hmem : ∀ {e}, e ∈ f.currentAllocations.entries ↔ e = (job, f.allocated job) ∨ e ∈ s.currentAllocations.entries := by
    intro e
    rw [hframe.allocations]
    exact KeyedMap.mem_insert_of_new hnew
  -- a job that shares takes a core of one machine
  have hcase : (c.shares job ∧ ∃ m, f.allocated job = {m} ∧
        f.coresAvailable = Function.update s.coresAvailable m (s.coresAvailable m - 1) ∧
        f.availableCoreMachines = s.availableCoreMachines ∪ {m}) ∨
      ¬ c.shares job ∧ f.coresAvailable = s.coresAvailable ∧ f.availableCoreMachines = s.availableCoreMachines := by
    cases hf with
    | @onCore m hshares hm hcores =>
      refine .inl ⟨hshares, m, FastState.allocated_insert rfl, rfl, ?_⟩
      exact (Finset.union_eq_left.2 (Finset.singleton_subset_iff.2 hm)).symm
    | @onNewCoreMachine m hshares hnone hpos hm => exact .inl ⟨hshares, m, FastState.allocated_insert rfl, rfl, rfl⟩
    | onMachines hshares hfit => exact .inr ⟨hshares, rfl, rfl⟩
  constructor
  case cores =>
    intro m
    change f.coresAvailable m = c.coreLimit m - sharers c f.currentAllocations m
    rw [hsharers]
    rcases hcase with ⟨hshares, x, hx, hcores, -⟩ | ⟨hshares, hcores, -⟩
    · by_cases hm : m = x
      · subst hm
        rw [hcores, Function.update_self, h.cores]
        simp [hshares, hx]
        omega
      · rw [hcores, Function.update_of_ne hm, h.cores]
        simp [hx, hm]
    · rw [hcores, h.cores]
      simp [hshares]
  case core =>
    intro m
    change m ∈ f.availableCoreMachines ↔ 0 < sharers c f.currentAllocations m
    rw [hsharers]
    rcases hcase with ⟨hshares, x, hx, -, hcore⟩ | ⟨hshares, -, hcore⟩
    · rw [hcore, Finset.mem_union, h.core, Finset.mem_singleton]
      by_cases hm : m = x
      · simp [hm, hshares, hx]
      · simp [hm, hx]
    · rw [hcore, h.core]
      simp [hshares]
  case placed =>
    intro e he hshares
    rcases hmem.1 he with rfl | he
    · rcases hcase with ⟨-, x, hx, -⟩ | ⟨hnot, -⟩
      · exact ⟨x, hx⟩
      · exact absurd hshares hnot
    · exact h.placed e he hshares
  case points =>
    refine ((insertHorizonPoint_perm _ _).map _).trans ?_
    change List.Perm _ (f.currentAllocations.entries.map _)
    rw [hframe.allocations]
    have hentries := (KeyedMap.perm_insert_of_new (b := f.allocated job) hnew).map
      fun e : Job × IntervalSet => (e.1.id, e.1.nbRequestedResources, e.2)
    exact (h.points.cons _).trans hentries.symm
  case sorted => exact insertHorizonPoint_sorted h.sorted

/-- A job that ends is counted no longer. -/
theorem Counts.finished (h : Counts c s) {machines : IntervalSet} (hentry : (job, machines) ∈ s.currentAllocations.entries)
    (hx : finishJob c s job = .ok s') : Counts c s' := by
  have hframe := finishJob_frame hx
  have hsharers : ∀ m, sharers c s.currentAllocations m =
      sharers c s'.currentAllocations m + if c.shares job ∧ m ∈ machines then 1 else 0 := by
    intro m
    rw [hframe.allocations, sharers_erase hentry]
  have hmem : ∀ {e}, e ∈ s'.currentAllocations.entries → e ∈ s.currentAllocations.entries := by
    intro e he
    rw [hframe.allocations, KeyedMap.mem_erase] at he
    exact he.1
  -- a job that shared gives back a core, and with the last of them the machine
  have hcase : (c.shares job ∧ ∃ m, machines = {m} ∧ s'.coresAvailable = Function.update s.coresAvailable m (s.coresAvailable m + 1) ∧
        s'.availableCoreMachines = if s.coresAvailable m + 1 = c.coreLimit m then s.availableCoreMachines \ {m}
          else s.availableCoreMachines) ∨
      ¬ c.shares job ∧ s'.coresAvailable = s.coresAvailable ∧ s'.availableCoreMachines = s.availableCoreMachines := by
    rw [finishJob, FastState.find?_of_entry hentry] at hx
    dsimp only at hx
    split at hx
    · rename_i hshares
      obtain ⟨m, rfl⟩ := h.placed _ hentry hshares
      obtain ⟨f, hf, rfl⟩ := Execution.map_eq_ok.1 hx
      rw [FastState.finishOnCore, FastState.find?_of_entry hentry] at hf
      simp only [Option.getD_some, firstMachine?_singleton] at hf
      cases hf
      exact .inl ⟨hshares, m, rfl, rfl, rfl⟩
    · rename_i hshares
      cases hx
      exact .inr ⟨hshares, rfl, rfl⟩
  constructor
  case cores =>
    intro m
    have hm := hsharers m
    rcases hcase with ⟨hshares, x, rfl, hcores, -⟩ | ⟨hshares, hcores, -⟩
    · by_cases hmx : m = x
      · subst hmx
        rw [hcores, Function.update_self, h.cores]
        simp only [hshares, Finset.mem_singleton_self, and_self, if_true] at hm
        omega
      · rw [hcores, Function.update_of_ne hmx, h.cores, hm]
        simp [hmx]
    · rw [hcores, h.cores, hm]
      simp [hshares]
  case core =>
    intro m
    have hm := hsharers m
    rcases hcase with ⟨hshares, x, rfl, -, hcore⟩ | ⟨hshares, -, hcore⟩
    · have hlast : s.coresAvailable x + 1 = c.coreLimit x ↔ sharers c s.currentAllocations x = 1 := by
        rw [h.cores]
        omega
      by_cases hmx : m = x
      · subst hmx
        simp only [hshares, Finset.mem_singleton_self, and_self, if_true] at hm
        rw [hcore]
        split
        · rename_i hl
          rw [Finset.mem_sdiff, Finset.mem_singleton]
          have := hlast.1 hl
          simp
          omega
        · rename_i hl
          rw [h.core]
          have := fun h => hl (hlast.2 h)
          omega
      · simp only [Finset.mem_singleton, hmx, and_false, if_false, Nat.add_zero] at hm
        rw [← hm, ← h.core, hcore]
        split <;> simp [hmx]
    · simp only [hshares, Bool.false_eq_true, false_and, if_false, Nat.add_zero] at hm
      rw [← hm, ← h.core, hcore]
  case placed => exact fun e he => h.placed e (hmem he)
  case points =>
    have hfilter := h.points.filter (fun x => x.1 ≠ job.id)
    rw [List.filter_map, List.filter_map] at hfilter
    rw [hframe.horizons, hframe.allocations]
    exact hfilter
  case sorted =>
    rw [hframe.horizons]
    exact h.sorted.filter _

/-- The jobs that end one after the other. -/
theorem Counts.finishedAll (h : Counts c s) {ended : List Job} {waiting : List Job}
    (hj : FastState.JobsOk s.toFastState waiting) (hknown : ∀ job ∈ ended, s.workload job.id = some job)
    (hx : Execution.runFrom (finishJob c) s ended = .ok s') : Counts c s' := by
  refine (Execution.runFrom_rest (R := fun t rest => Counts c t ∧ FastState.JobsOk t.toFastState waiting ∧
    ∀ job ∈ rest, t.workload job.id = some job) ?_ ⟨h, hj, hknown⟩ hx).1
  rintro t job rest t' ⟨hcounts, hjobs, hrest⟩ hstep
  have hframe := finishJob_frame hstep
  refine ⟨?_, hjobs.finished hframe.workload hframe.ended hframe.allocations, fun other ho => ?_⟩
  · rcases hjobs.entry (hrest job List.mem_cons_self) with ⟨machines, hentry⟩ | ⟨hnone, -⟩
    · exact hcounts.finished hentry hstep
    · obtain ⟨machines, hsome⟩ := hframe.held
      rw [hnone] at hsome
      cases hsome
  · rw [hframe.workload]
    exact hrest other (List.mem_cons_of_mem _ ho)

/-- Where only other things change, everything is counted as before. -/
theorem Counts.congr (h : Counts c s) (hcores : s'.coresAvailable = s.coresAvailable)
    (hcore : s'.availableCoreMachines = s.availableCoreMachines) (ha : s'.currentAllocations = s.currentAllocations)
    (hp : s'.horizons = s.horizons) : Counts c s' where
  cores := by rw [hcores, ha]; exact h.cores
  core := by rw [hcore, ha]; exact h.core
  placed := by rw [ha]; exact h.placed
  points := by rw [hp, ha]; exact h.points
  sorted := by rw [hp]; exact h.sorted

/-- An act keeps everything counted. -/
theorem Counts.act {a b : EasyState × List Job} (h : Counts c a.1) (hact : Act c date a b)
    (hj : FastState.JobsOk a.1.toFastState (waitingJobs a.1 ++ a.2)) : Counts c b.1 := by
  cases hact with
  | start hf hprecede hsub hjobs =>
    exact (h.started date ((hj.perm (waiting_perm hjobs)).fresh _ List.mem_cons_self) hf).congr rfl rfl rfl rfl
  | promote => exact h.congr rfl rfl rfl rfl
  | wait => exact h.congr rfl rfl rfl rfl
  | reject => exact h.congr rfl rfl rfl rfl

/-- The opening of a pass keeps everything counted. -/
theorem Counts.opening {jobEnded : Bool} {waiting : List Job} (h : Counts c s) (hopen : Opening c date s jobEnded waiting s')
    (hj : FastState.JobsOk s.toFastState (waitingJobs s ++ waiting)) : Counts c s' := by
  cases hopen with
  | nothing => exact h
  | blocked => exact h
  | executed hended hprio hf hacts =>
    obtain ⟨hnew, hjobs⟩ := priorityStarted_jobs hj hprio hf.frame
    exact Acts.keep (fun _ _ hact hj hcounts => Counts.act hcounts hact hj) hacts (hjobs.congr rfl rfl rfl)
      ((h.started date hnew hf).congr rfl rfl rfl rfl)

/-- The state in which the jobs that ended are gone and the jobs to kill have been sent. -/
theorem Counts.killsSent {p : Platform} {t : EasyState} (h : Counts c s) (ht : Tracks s p)
    (hfinish : Execution.runFrom (finishJob c) s s.jobsEndedRecently = .ok t) :
    Counts c (sendKills t) ∧ FastState.JobsOk (sendKills t).toFastState (waitingJobs (sendKills t) ++ t.jobsReleasedRecently) := by
  have hcounts := h.finishedAll ht.jobs ht.jobs.ended hfinish
  have hjobs := (ht.finished (finishJobs_all hfinish)).1
  obtain ⟨d, hkills, -⟩ := sendKills_eq t
  rw [hkills]
  exact ⟨hcounts.congr rfl rfl rfl rfl, hjobs.congr rfl rfl rfl⟩

/-- A pass keeps everything counted. -/
theorem Counts.decided {p : Platform} {t : EasyState × Platform} (h : Counts c s) (ht : Tracks s p)
    (hx : (scheduler c).run (s, p) (.makeDecisions date) = .ok t) : Counts c t.1 := by
  obtain ⟨-, s', hs, rfl⟩ := JobScheduler.run_decided rfl hx
  obtain ⟨w, hw, rfl⟩ := Execution.map_eq_ok.1 hs
  obtain ⟨t, u, v, hfinish, hopen, hacts, rfl⟩ := makeDecisions_acts hw
  have hclear : Counts c { s with decision := s.decision.clear } := h.congr rfl rfl rfl rfl
  obtain ⟨hcounts, hjobs⟩ := hclear.killsSent ht.clear hfinish
  obtain ⟨_, hopened⟩ := hopen.progress hjobs
  have hv : Counts c v := Acts.keep (fun _ _ hact hj hcounts => Counts.act hcounts hact hj) hacts hopened.jobs
    (hcounts.opening hopen hjobs)
  obtain ⟨d, need, heq, -⟩ := sendFinished_eq v.toFastState date
  change Counts c { v with toFastState := (v.toFastState.sendFinishedSubmittingJobs date).clearRecentDataStructures }
  rw [heq]
  exact hv.congr rfl rfl rfl rfl

/-- Every message keeps everything counted. -/
theorem Counts.run {p : Platform} {event : FastEvent} {t : EasyState × Platform} (h : Counts c s) (ht : Tracks s p)
    (hx : (scheduler c).run (s, p) event = .ok t) : Counts c t.1 := by
  have hother : ∀ {event}, event.notice = .other → (scheduler c).run (s, p) event = .ok t → Counts c t.1 := by
    intro event hn hx
    obtain ⟨s', hs, rfl⟩ := JobScheduler.run_other hn hx
    obtain ⟨hsame, -, hpoints, -⟩ := step_other hn hs
    exact h.congr hsame.cores hsame.core hsame.allocations hpoints
  cases event with
  | jobSubmitted job =>
    obtain ⟨s', hs, rfl⟩ := JobScheduler.run_submitted rfl hx
    change step c s (.jobSubmitted job) = .ok s' at hs
    obtain ⟨f, hf, rfl⟩ := step_handler (by simp) hs
    change FastState.onJobSubmitted _ job = .ok f at hf
    rw [FastState.onJobSubmitted] at hf
    split at hf
    · cases hf
    · cases hf
      exact h.congr rfl rfl rfl rfl
  | jobCompleted id =>
    obtain ⟨s', r, before, after, hs, -, -, rfl⟩ := JobScheduler.run_completed rfl hx
    change step c s (.jobCompleted id) = .ok s' at hs
    obtain ⟨f, hf, rfl⟩ := step_handler (by simp) hs
    change FastState.onJobCompleted _ id = .ok f at hf
    rw [FastState.onJobCompleted] at hf
    split at hf
    · cases hf
      exact h.congr rfl rfl rfl rfl
    · cases hf
  | makeDecisions date => exact h.decided ht hx
  | jobsKilled ids => exact hother rfl hx
  | requestedCall date id forWhat draws => exact hother rfl hx
  | machinesAvailable machines => exact hother rfl hx
  | myKillJob victim => exact hother rfl hx
  | noMoreStaticJobToSubmit => exact hother rfl hx

/-- At the start no core is taken. -/
theorem counts_new (c : FastConfig) (date failure : ℚ) : Counts c (new c date failure) := by
  constructor <;> simp [new, FastState.new, sharers]

/-- The search over all points, for a job that does not fit. -/
theorem Counts.search (h : Counts c s) (hlt : s.nbAvailableMachines < job.nbRequestedResources) :
    Stops c job s.availableCoreMachines s.nbAvailableMachines [] s.horizons
      (earliestStart c job s.availableCoreMachines s.coresAvailable s.nbAvailableMachines s.horizons) := by
  refine earliestStart_spec _ (fun m _ => ?_) (fun point hpoint hshares => ?_) (by simp [released, pointSharers]) hlt
  · rw [h.cores, h.pointSharers_eq]
  · have hmem := h.points.mem_iff.1 (List.mem_map_of_mem (f := fun p => (p.id, p.nbReleasedMachines, p.machines)) hpoint)
    obtain ⟨e, he, heq⟩ := List.mem_map.1 hmem
    simp only [Prod.mk.injEq] at heq
    have hshares' : c.shares e.1 := by
      rw [FastConfig.shares, heq.2.1]
      exact hshares
    obtain ⟨m, hm⟩ := h.placed e he hshares'
    refine ⟨m, (h.core m).2 (List.countP_pos_iff.2 ⟨e, he, ?_⟩), heq.2.2.symm.trans hm⟩
    simp [hshares', hm]

/-- Behind all points every machine that a job holds is released. -/
theorem Counts.released_all (h : Counts c s) : released c s.availableCoreMachines s.horizons [] =
    ((s.currentAllocations.entries.filter (fun e => ¬ c.shares e.1)).map (·.1.nbRequestedResources)).sum +
      s.availableCoreMachines.card := by
  have hown := ((h.points.filter (fun x => ¬ (c.sharePacking && x.2.1 == 1))).map (·.2.1)).sum_eq
  rw [List.filter_map, List.filter_map, List.map_map, List.map_map] at hown
  have hcore : s.availableCoreMachines.filter (fun m => 0 < pointSharers c s.horizons m ∧ pointSharers c [] m = 0) =
      s.availableCoreMachines := by
    refine Finset.filter_true_of_mem fun m hm => ⟨?_, rfl⟩
    rw [h.pointSharers_eq]
    exact (h.core m).1 hm
  rw [released, hcore]
  exact congrArg (· + _) hown

end EasyBFFast2

end ScheduleTest
