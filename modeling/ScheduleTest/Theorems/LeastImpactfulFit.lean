import Mathlib.Data.Finset.Union
import Mathlib.Data.Set.Card
import ScheduleTest.Lemmas.FirstFit
import ScheduleTest.Lemmas.Period

/-!
# The machines of a reservation with the least impact

`find_least_impactful_fit` takes the machines that are available throughout the window of the reservation, then those that neither
running jobs nor reservations hold, then those of the running jobs it kills. The machines of a killed job are added after those of
the reservations are taken out, so that one that a reservation holds later in the window comes back.
-/

namespace ScheduleTest

/-- Some job holds a machine in one of the slices; a reservation, or another job. -/
def HeldIn (slices : List TimeSlice) (reservation : Bool) (m : ℕ) : Prop :=
  ∃ t ∈ slices, ∃ e ∈ t.allocatedJobs.entries, e.1.isReservation = reservation ∧ m ∈ e.2

instance (slices : List TimeSlice) (reservation : Bool) : DecidablePred (HeldIn slices reservation) := fun m =>
  inferInstanceAs (Decidable (∃ t ∈ slices, ∃ e ∈ t.allocatedJobs.entries, e.1.isReservation = reservation ∧ m ∈ e.2))

namespace Schedule

/-- The slices from one index to another. -/
def window (s : Schedule) (sliceBegin sliceEnd : ℕ) : List TimeSlice :=
  (s.profile.drop sliceBegin).take (sliceEnd + 1 - sliceBegin)

/-- The machines available in every slice from one index to another. -/
def throughout (s : Schedule) (sliceBegin sliceEnd : ℕ) : IntervalSet :=
  (Finset.range s.nbMachines).filter (fun m => ∀ t ∈ s.window sliceBegin sliceEnd, m ∈ t.availableMachines)

/-- Each available machine is one of the platform, and no job of the slice holds it. -/
def AvailableUnheld (s : Schedule) : Prop :=
  ∀ t ∈ s.profile, ∀ m ∈ t.availableMachines, m < s.nbMachines ∧ ∀ e ∈ t.allocatedJobs.entries, m ∉ e.2

instance (s : Schedule) : Decidable s.AvailableUnheld :=
  inferInstanceAs (Decidable (∀ t ∈ s.profile, ∀ m ∈ t.availableMachines,
    m < s.nbMachines ∧ ∀ e ∈ t.allocatedJobs.entries, m ∉ e.2))

/-- It is so where every machine is accounted for. -/
theorem availableUnheld_of_machinesOk {W : NamedJobs} {s : Schedule} (h : MachinesOk W s) : s.AvailableUnheld := by
  intro t ht m hm
  obtain ⟨hlt, _, hunheld⟩ := ((h.slices t ht).available m).1 hm
  exact ⟨hlt, hunheld⟩

/-- What a choice of machines for a reservation of a window should be: as many as it requests, none that a reservation holds in the
window, and those of other jobs only where too few are available throughout the window, which are then all taken. -/
structure ChoosesSafely (s : Schedule) (sliceBegin sliceEnd requested : ℕ) (machines : IntervalSet) : Prop where
  card : machines.card = requested
  unreserved : ∀ m ∈ machines, ¬ HeldIn (s.window sliceBegin sliceEnd) true m
  needed : ∀ m ∈ machines, HeldIn (s.window sliceBegin sliceEnd) false m → (s.throughout sliceBegin sliceEnd).card < requested
  kept : (s.throughout sliceBegin sliceEnd).card < requested → s.throughout sliceBegin sliceEnd ⊆ machines

/-- Where the search for available machines begins: a first slice that begins with the window is searched too. -/
def searchedFrom (s : Schedule) (sliceBegin : ℕ) : ℕ :=
  if s.profile[sliceBegin]?.map (·.beginDate) = some s.firstSliceBegin then 0 else sliceBegin

/-- The jobs of a slice that run. -/
def runningIn (s : Schedule) (sliceBegin : ℕ) : List Job :=
  (s.profile[sliceBegin]?.toList.flatMap (·.allocatedJobs.keys)).filter
    (fun job => s.profile.head?.any (·.containsJob job))

/-- The machines that a job holds in a slice. -/
def machinesIn (s : Schedule) (sliceBegin : ℕ) (job : Job) : IntervalSet :=
  (s.profile[sliceBegin]?.bind (·.allocatedJobs.find? job)).getD ∅

/-- The machines to choose from beside those available: those that neither the running jobs hold at the begin of the window nor the
reservations in it, and those of the jobs killed that are no reservations. -/
def takeable (s : Schedule) (sliceBegin sliceEnd : ℕ) (killed : List Job) : IntervalSet :=
  (Finset.range s.nbMachines).filter (fun m => m ∉ s.throughout (s.searchedFrom sliceBegin) sliceEnd ∧
      (∀ job ∈ s.runningIn sliceBegin, m ∉ s.machinesIn sliceBegin job) ∧ ¬ HeldIn (s.window sliceBegin sliceEnd) true m) ∪
    (killed.toFinset.filter (fun job => job.isReservation = false)).biUnion (s.machinesIn sliceBegin)

/-- A running job has to be killed: with the machines of those ahead of it in the order there are still too few. -/
def MustBeKilled (sorter : Sorter LargestFirst) (s : Schedule) (sliceBegin sliceEnd requested : ℕ) (job : Job) : Prop :=
  ∃ ahead, ahead ++ [job] <+: sorter.sort (s.runningIn sliceBegin) ∧
    (s.throughout (s.searchedFrom sliceBegin) sliceEnd).card + (s.takeable sliceBegin sliceEnd ahead).card < requested

/-- A machine can be added to those available: neither a running job nor a reservation holds it, or a job that has to be killed. -/
def CanBeAdded (sorter : Sorter LargestFirst) (s : Schedule) (sliceBegin sliceEnd requested m : ℕ) : Prop :=
  m ∈ s.takeable sliceBegin sliceEnd [] ∨
    ∃ job, s.MustBeKilled sorter sliceBegin sliceEnd requested job ∧ job.isReservation = false ∧ m ∈ s.machinesIn sliceBegin job

/-- The available machines, and those of some others that can be added to them, are enough for the request. -/
def EnoughWith (sorter : Sorter LargestFirst) (s : Schedule) (sliceBegin sliceEnd requested : ℕ) (others : Set ℕ) : Prop :=
  requested ≤ (s.throughout (s.searchedFrom sliceBegin) sliceEnd).card +
    ({m | s.CanBeAdded sorter sliceBegin sliceEnd requested m} ∩ others).ncard

/-- No job that has to be killed shares with a reservation of the window a machine that is needed. Where an empty first slice begins
with the window its machines count too: then, if enough machines are available in the window, no job holds one that is needed, and
if not, those that are available in the window are needed. -/
structure SafeWindow (sorter : Sorter LargestFirst) (s : Schedule) (sliceBegin sliceEnd requested : ℕ) : Prop where
  unreserved : ∀ job, s.MustBeKilled sorter sliceBegin sliceEnd requested job → job.isReservation = false →
    ∀ m ∈ s.machinesIn sliceBegin job, HeldIn (s.window sliceBegin sliceEnd) true m →
      s.EnoughWith sorter sliceBegin sliceEnd requested (Set.Iio m)
  needed : requested ≤ (s.throughout sliceBegin sliceEnd).card → ∀ m, s.CanBeAdded sorter sliceBegin sliceEnd requested m →
    HeldIn (s.window sliceBegin sliceEnd) false m → s.EnoughWith sorter sliceBegin sliceEnd requested (Set.Iio m)
  kept : (s.throughout sliceBegin sliceEnd).card < requested → ∀ m ∈ s.throughout sliceBegin sliceEnd,
    m ∉ s.throughout (s.searchedFrom sliceBegin) sliceEnd → ¬ s.EnoughWith sorter sliceBegin sliceEnd requested (Set.Iio m)

end Schedule

namespace LeastImpactAux

variable {s : Schedule} {i j n : ℕ} {first beginSlice endSlice : TimeSlice}

/-! ## The search for available machines -/

/-- A slice takes some time, or begins with the schedule. -/
theorem begins_or_takes_time (ht : Timed s.profile) {t : TimeSlice} (hmem : t ∈ s.profile) :
    t.beginDate = s.firstSliceBegin ∨ t.beginDate < t.endDate := by
  obtain ⟨first, rest, hprofile, hfirst, hchain⟩ := exists_chain ht
  rw [hprofile] at hmem
  rcases List.mem_cons.1 hmem with rfl | hmem
  · exact Or.inl hfirst
  · exact Or.inr (Timeline.Tiling.bounds hchain hmem).2.1

/-- The profile around the slice with a given index. -/
theorem profile_around (h : s.profile[i]? = some beginSlice) :
    s.profile = s.profile.take i ++ beginSlice :: s.profile.drop (i + 1) := by
  obtain ⟨hlt, rfl⟩ := List.getElem?_eq_some_iff.1 h
  rw [List.getElem_cons_drop, List.take_append_drop]

theorem order_around (ht : Timed s.profile) (h : s.profile[i]? = some beginSlice) :
    (∀ t ∈ s.profile.take i, t.endDate ≤ beginSlice.beginDate) ∧ ∀ t ∈ s.profile.drop (i + 1), beginSlice.endDate ≤ t.beginDate := by
  obtain ⟨c, hchain⟩ := ht.chained
  rw [profile_around h] at hchain
  exact hchain.order

/-- The slices up to the last of a window begin before it ends. -/
theorem begins_before_end (ht : Timed s.profile) (hend : s.profile[j]? = some endSlice) (hlt : s.firstSliceBegin < endSlice.endDate)
    {t : TimeSlice} (hmem : t ∈ s.profile.take (j + 1)) : t.beginDate < endSlice.endDate := by
  rcases begins_or_takes_time ht (List.mem_of_mem_take hmem) with hfirst | hpos
  · exact hfirst ▸ hlt
  · rw [List.take_add_one, hend, Option.toList_some, List.mem_append, List.mem_singleton] at hmem
    rcases hmem with hmem | rfl
    · rcases begins_or_takes_time ht (List.mem_of_getElem? hend) with hfirst | hpos'
      · exact (hpos.trans_le ((order_around ht hend).1 t hmem)).trans (hfirst ▸ hlt)
      · exact (hpos.trans_le ((order_around ht hend).1 t hmem)).trans hpos'
    · exact hpos

/-- The slices that the search passes over begin before the window, and the one it begins with does not. -/
theorem searchedFrom_spec (ht : Timed s.profile) (hbegin : s.profile[i]? = some beginSlice)
    (hfirst : s.firstSliceBegin ≤ beginSlice.beginDate) :
    s.searchedFrom i ≤ i ∧ (∀ t ∈ s.profile.take (s.searchedFrom i), t.beginDate < beginSlice.beginDate) ∧
      ∃ slice, s.profile[s.searchedFrom i]? = some slice ∧ slice.beginDate = beginSlice.beginDate := by
  unfold Schedule.searchedFrom
  rw [hbegin, Option.map_some]
  split
  · rename_i heq
    obtain ⟨first, rest, hprofile, hbegins, _⟩ := exists_chain ht
    refine ⟨Nat.zero_le i, fun t hmem => absurd hmem List.not_mem_nil, first, by rw [hprofile]; rfl, ?_⟩
    rw [hbegins, ← Option.some.inj heq]
  · rename_i hne
    refine ⟨le_rfl, fun t hmem => ?_, beginSlice, hbegin, rfl⟩
    rcases begins_or_takes_time ht (List.mem_of_mem_take hmem) with hbegins | hpos
    · exact hbegins ▸ lt_of_le_of_ne hfirst fun heq => hne (by rw [heq])
    · exact hpos.trans_le ((order_around ht hbegin).1 t hmem)

/-- The search finds the machines that are available in every slice searched. -/
theorem search_window (ht : Timed s.profile) (hfree : s.AvailableUnheld) (hij : i ≤ j) (hbegin : s.profile[i]? = some beginSlice)
    (hend : s.profile[j]? = some endSlice) (hfirst : s.firstSliceBegin ≤ beginSlice.beginDate)
    (hlt : beginSlice.beginDate < endSlice.endDate) :
    s.availableMachinesDuringPeriod beginSlice.beginDate endSlice.endDate = .ok (s.throughout (s.searchedFrom i) j) := by
  obtain ⟨hle, hbefore, slice, hslice, hsame⟩ := searchedFrom_spec ht hbegin hfirst
  have hdropped : s.profile.drop (s.searchedFrom i) = slice :: s.profile.drop (s.searchedFrom i + 1) := by
    obtain ⟨hlt, rfl⟩ := List.getElem?_eq_some_iff.1 hslice
    exact List.drop_eq_getElem_cons hlt
  have hdrop : s.profile.dropWhile (fun slice => decide (slice.beginDate < beginSlice.beginDate)) =
      slice :: s.profile.drop (s.searchedFrom i + 1) := by
    rw [← List.take_append_drop (s.searchedFrom i) s.profile,
      List.dropWhile_append_of_pos fun t hmem => decide_eq_true (hbefore t hmem), List.take_append_drop, hdropped]
    exact List.dropWhile_cons_of_neg (by rw [hsame]; simp)
  have htake : (slice :: s.profile.drop (s.searchedFrom i + 1)).takeWhile (fun slice => decide (slice.beginDate < endSlice.endDate)) =
      s.window (s.searchedFrom i) j := by
    have hrest : (s.profile.drop (j + 1)).takeWhile (fun slice => decide (slice.beginDate < endSlice.endDate)) = [] := by
      cases hafter : s.profile.drop (j + 1) with
      | nil => rfl
      | cons t rest =>
        have hlater := (order_around ht hend).2 t (hafter ▸ List.mem_cons_self)
        exact List.takeWhile_cons_of_neg (by simpa using hlater)
    have hsplit : s.profile.drop (s.searchedFrom i) = s.window (s.searchedFrom i) j ++ s.profile.drop (j + 1) := by
      have hparts := List.take_append_drop (j + 1 - s.searchedFrom i) (s.profile.drop (s.searchedFrom i))
      rw [List.drop_drop, show s.searchedFrom i + (j + 1 - s.searchedFrom i) = j + 1 by omega] at hparts
      exact hparts.symm
    rw [← hdropped, hsplit, List.takeWhile_append_of_pos, hrest, List.append_nil]
    intro t hmem
    unfold Schedule.window at hmem
    rw [← List.drop_take] at hmem
    exact decide_eq_true (begins_before_end ht hend (hfirst.trans_lt hlt) (List.mem_of_mem_drop hmem))
  have hhorizon : endSlice.endDate ≤ s.infiniteHorizon := by
    obtain ⟨first, rest, hprofile, _, hchain⟩ := exists_chain ht
    rw [← hprofile, profile_around hend] at hchain
    exact (Timeline.chained_append_cons.1 hchain).1.le
  obtain ⟨machines, hok, hmem⟩ := PeriodAux.search_ok hfirst hhorizon hdrop
  rw [htake] at hmem
  rw [hok]
  have hhead : slice ∈ s.window (s.searchedFrom i) j := by
    unfold Schedule.window
    rw [hdropped, show j + 1 - s.searchedFrom i = (j - s.searchedFrom i) + 1 by omega, List.take_succ_cons]
    exact List.mem_cons_self
  congr 1
  ext m
  unfold Schedule.throughout
  rw [hmem m, Finset.mem_filter, Finset.mem_range]
  constructor
  · rintro ⟨havailable, hall⟩
    exact ⟨(hfree slice (List.mem_of_getElem? hslice) m havailable).1, hall⟩
  · rintro ⟨_, hall⟩
    exact ⟨hall slice hhead, hall⟩

/-! ## The machines added -/

/-- Some machines, and those of jobs that are no reservations. -/
def withJobs (f : Job → IntervalSet) (machines : IntervalSet) (jobs : List Job) : IntervalSet :=
  machines ∪ (jobs.toFinset.filter (fun job => job.isReservation = false)).biUnion f

theorem withJobs_nil (f : Job → IntervalSet) (machines : IntervalSet) : withJobs f machines [] = machines := by
  simp [withJobs]

theorem withJobs_cons (f : Job → IntervalSet) (machines : IntervalSet) (job : Job) (jobs : List Job) :
    withJobs f machines (job :: jobs) = withJobs f (if job.isReservation then machines else machines ∪ f job) jobs := by
  unfold withJobs
  rw [List.toFinset_cons, Finset.filter_insert]
  cases job.isReservation
  · simp
  · simp

theorem addUntilEnough_cons (f : Job → IntervalSet) (needed : ℕ) (base : IntervalSet) (job : Job) (jobs : List Job) :
    Schedule.addUntilEnough f needed base (job :: jobs) =
      if needed ≤ (if job.isReservation then base else base ∪ f job).card then
        some (if job.isReservation then base else base ∪ f job)
      else Schedule.addUntilEnough f needed (if job.isReservation then base else base ∪ f job) jobs := rfl

/-- The jobs are added up to the first with which there are enough machines. -/
theorem addUntilEnough_some {f : Job → IntervalSet} {needed : ℕ} {base machines : IntervalSet} {jobs : List Job}
    (hbase : base.card < needed) (h : Schedule.addUntilEnough f needed base jobs = some machines) :
    ∃ killed, killed <+: jobs ∧ machines = withJobs f base killed ∧ needed ≤ machines.card ∧
      ∀ fewer, fewer <+: killed → needed ≤ (withJobs f base fewer).card → fewer = killed := by
  induction jobs generalizing base with
  | nil => cases h
  | cons job jobs ih =>
    rw [addUntilEnough_cons] at h
    by_cases henough : needed ≤ (if job.isReservation then base else base ∪ f job).card
    · rw [if_pos henough] at h
      obtain rfl := Option.some.inj h
      refine ⟨[job], ⟨jobs, rfl⟩, by rw [withJobs_cons, withJobs_nil], henough, fun fewer hfewer hcard => ?_⟩
      rcases List.prefix_cons_iff.1 hfewer with rfl | ⟨rest, rfl, hrest⟩
      · rw [withJobs_nil] at hcard
        exact absurd hcard (not_le.2 hbase)
      · rw [List.prefix_nil.1 hrest]
    · rw [if_neg henough] at h
      obtain ⟨killed, hfront, hmachines, hcard', hleast⟩ := ih (not_le.1 henough) h
      refine ⟨job :: killed, List.cons_prefix_cons.2 ⟨rfl, hfront⟩, by rw [withJobs_cons, hmachines], hcard',
        fun fewer hfewer hcard => ?_⟩
      rcases List.prefix_cons_iff.1 hfewer with rfl | ⟨rest, rfl, hrest⟩
      · rw [withJobs_nil] at hcard
        exact absurd hcard (not_le.2 hbase)
      · rw [withJobs_cons] at hcard
        rw [hleast rest hrest hcard]

/-- No number of jobs has enough machines where none is found. -/
theorem addUntilEnough_none {f : Job → IntervalSet} {needed : ℕ} {base : IntervalSet} {jobs : List Job}
    (hbase : base.card < needed) (h : Schedule.addUntilEnough f needed base jobs = none) {killed : List Job}
    (hfront : killed <+: jobs) : (withJobs f base killed).card < needed := by
  induction jobs generalizing base killed with
  | nil =>
    rw [List.prefix_nil.1 hfront, withJobs_nil]
    exact hbase
  | cons job jobs ih =>
    rw [addUntilEnough_cons] at h
    by_cases henough : needed ≤ (if job.isReservation then base else base ∪ f job).card
    · rw [if_pos henough] at h
      cases h
    · rw [if_neg henough] at h
      rcases List.prefix_cons_iff.1 hfront with rfl | ⟨rest, rfl, hrest⟩
      · rw [withJobs_nil]
        exact hbase
      · rw [withJobs_cons]
        exact ih (not_le.1 henough) h hrest

theorem takeable_eq (s : Schedule) (i j : ℕ) (killed : List Job) :
    s.takeable i j killed = withJobs (s.machinesIn i) (s.takeable i j []) killed := by
  unfold withJobs Schedule.takeable
  simp

/-! ## The choice -/

theorem mem_foldl_union {α : Type*} (f : α → IntervalSet) (l : List α) (machines : IntervalSet) {m : ℕ} :
    m ∈ l.foldl (fun machines a => machines ∪ f a) machines ↔ m ∈ machines ∨ ∃ a ∈ l, m ∈ f a := by
  induction l generalizing machines with
  | nil => simp
  | cons a l ih => simp [ih, or_assoc]

/-- The machines that reservations hold in a slice, added to others. -/
theorem mem_foldl_reserved (entries : List (Job × IntervalSet)) (machines : IntervalSet) {m : ℕ} :
    m ∈ entries.foldl (fun machines entry => if entry.1.isReservation then machines ∪ entry.2 else machines) machines ↔
      m ∈ machines ∨ ∃ e ∈ entries, e.1.isReservation = true ∧ m ∈ e.2 := by
  induction entries generalizing machines with
  | nil => simp
  | cons e entries ih =>
    rw [List.foldl_cons, ih]
    cases h : e.1.isReservation
    · simp [h]
    · simp [h, or_assoc]

/-- The machines that reservations hold in some slices, added to others. -/
theorem mem_foldl_heldIn (slices : List TimeSlice) (machines : IntervalSet) {m : ℕ} :
    m ∈ slices.foldl (fun machines slice => slice.allocatedJobs.entries.foldl
      (fun machines entry => if entry.1.isReservation then machines ∪ entry.2 else machines) machines) machines ↔
      m ∈ machines ∨ HeldIn slices true m := by
  induction slices generalizing machines with
  | nil => simp [HeldIn]
  | cons t slices ih =>
    rw [List.foldl_cons, ih, mem_foldl_reserved, or_assoc]
    unfold HeldIn
    rw [List.exists_mem_cons_iff]

/-- The search, with what it chooses from. -/
theorem find_eq (sorter : Sorter LargestFirst) (job : Job) (ht : Timed s.profile) (hfree : s.AvailableUnheld) (hij : i ≤ j)
    (hbegin : s.profile[i]? = some beginSlice) (hend : s.profile[j]? = some endSlice)
    (hfirst : s.firstSliceBegin ≤ beginSlice.beginDate) (hlt : beginSlice.beginDate < endSlice.endDate) :
    s.findLeastImpactfulFit sorter job i j =
      if job.nbRequestedResources ≤ (s.throughout (s.searchedFrom i) j).card then
        .ok ((s.throughout (s.searchedFrom i) j).leftmost job.nbRequestedResources)
      else
        let stillNeeded := job.nbRequestedResources - (s.throughout (s.searchedFrom i) j).card
        if stillNeeded ≤ (s.takeable i j []).card then
          .ok ((s.takeable i j []).leftmost stillNeeded ∪ s.throughout (s.searchedFrom i) j)
        else
          (Schedule.addUntilEnough (s.machinesIn i) stillNeeded (s.takeable i j []) (sorter.sort (s.runningIn i))).elim (.ok ∅)
            fun machines => .ok (machines.leftmost stillNeeded ∪ s.throughout (s.searchedFrom i) j) := by
  obtain ⟨first, hhead⟩ : ∃ first, s.profile.head? = some first := by
    obtain ⟨first, rest, hprofile, _⟩ := exists_chain ht
    exact ⟨first, by rw [hprofile]; rfl⟩
  have hrunning : beginSlice.allocatedJobs.keys.filter first.containsJob = s.runningIn i := by
    unfold Schedule.runningIn
    rw [hbegin, hhead]
    simp
  have hmachines : ∀ job, (beginSlice.allocatedJobs.find? job).getD ∅ = s.machinesIn i job := by
    intro job
    unfold Schedule.machinesIn
    rw [hbegin]
    rfl
  have hall : ((Finset.range s.nbMachines \ s.throughout (s.searchedFrom i) j) \
      (s.runningIn i).foldl (fun machines job => machines ∪ s.machinesIn i job) ∅) \
      ((s.profile.drop i).take (j + 1 - i)).foldl (fun machines slice => slice.allocatedJobs.entries.foldl
        (fun machines entry => if entry.1.isReservation then machines ∪ entry.2 else machines) machines) ∅ =
      s.takeable i j [] := by
    ext m
    unfold Schedule.takeable Schedule.window
    rw [Finset.mem_sdiff, Finset.mem_sdiff, Finset.mem_sdiff, mem_foldl_union, mem_foldl_heldIn]
    simp [and_assoc]
  unfold Schedule.findLeastImpactfulFit
  rw [hhead, hbegin, hend]
  dsimp only
  rw [search_window ht hfree hij hbegin hend hfirst hlt]
  dsimp only
  rw [hrunning]
  simp only [hmachines]
  rw [hall]
  split
  · rfl
  · split
    · rfl
    · cases Schedule.addUntilEnough _ _ _ _ <;> rfl

/-! ## Its safety -/

/-- The jobs killed are the first of the running ones in order, as few as there have to be for enough machines. -/
structure Kills (sorter : Sorter LargestFirst) (s : Schedule) (sliceBegin sliceEnd requested : ℕ) (killed : List Job) : Prop where
  front : killed <+: sorter.sort (s.runningIn sliceBegin)
  enough : requested ≤ (s.throughout (s.searchedFrom sliceBegin) sliceEnd).card + (s.takeable sliceBegin sliceEnd killed).card
  least : ∀ fewer, fewer <+: killed →
    requested ≤ (s.throughout (s.searchedFrom sliceBegin) sliceEnd).card + (s.takeable sliceBegin sliceEnd fewer).card →
      fewer = killed

theorem takeable_subset {killed more : List Job} (h : killed <+: more) : s.takeable i j killed ⊆ s.takeable i j more :=
  Finset.union_subset_union le_rfl (Finset.biUnion_subset_biUnion_of_subset_left _
    (Finset.filter_subset_filter _ fun _ hjob => List.mem_toFinset.2 (h.subset (List.mem_toFinset.1 hjob))))

/-- The jobs killed are those that have to be. -/
theorem mustBeKilled_iff {sorter : Sorter LargestFirst} {killed : List Job} (hkills : Kills sorter s i j n killed) {job : Job} :
    s.MustBeKilled sorter i j n job ↔ job ∈ killed := by
  constructor
  · rintro ⟨ahead, hfront, hfew⟩
    rcases List.prefix_or_prefix_of_prefix hfront hkills.front with hin | hout
    · exact hin.subset (List.mem_append_right _ (List.mem_singleton_self job))
    · rcases List.prefix_concat_iff.1 hout with rfl | hahead
      · exact List.mem_append_right _ (List.mem_singleton_self job)
      · have hmore := Finset.card_le_card (takeable_subset (s := s) (i := i) (j := j) hahead)
        have henough := hkills.enough
        omega
  · intro hmem
    obtain ⟨ahead, behind, rfl⟩ := List.append_of_mem hmem
    refine ⟨ahead, (List.prefix_append_right_inj ahead |>.2 ⟨behind, rfl⟩).trans hkills.front, not_le.1 fun henough => ?_⟩
    have hsame := hkills.least ahead (List.prefix_append ahead _) henough
    exact absurd hsame (by simp)

/-- The machines that can be added are those left by the jobs killed. -/
theorem canBeAdded_iff {sorter : Sorter LargestFirst} {killed : List Job} (hkills : Kills sorter s i j n killed) {m : ℕ} :
    s.CanBeAdded sorter i j n m ↔ m ∈ s.takeable i j killed := by
  unfold Schedule.CanBeAdded
  rw [takeable_eq s i j killed, withJobs, Finset.mem_union]
  simp [mustBeKilled_iff hkills, and_assoc]

/-- Those below a machine are enough where it is none of the first that are still needed. -/
theorem enoughWith_Iio {sorter : Sorter LargestFirst} {killed : List Job} (hkills : Kills sorter s i j n killed) (m : ℕ) :
    s.EnoughWith sorter i j n (Set.Iio m) ↔
      n ≤ (s.throughout (s.searchedFrom i) j).card + ((s.takeable i j killed).filter (· < m)).card := by
  have hset : {c | s.CanBeAdded sorter i j n c} ∩ Set.Iio m = ((s.takeable i j killed).filter (· < m) : Finset ℕ) := by
    ext c
    simp [canBeAdded_iff hkills]
  unfold Schedule.EnoughWith
  rw [hset, Set.ncard_coe_finset]

/-- There are enough where some jobs are enough to kill. -/
theorem enoughWith_of_kills {sorter : Sorter LargestFirst} {killed : List Job} (hkills : Kills sorter s i j n killed) :
    s.EnoughWith sorter i j n Set.univ := by
  have hset : {c | s.CanBeAdded sorter i j n c} ∩ Set.univ = (s.takeable i j killed : Finset ℕ) := by
    ext c
    simp [canBeAdded_iff hkills]
  unfold Schedule.EnoughWith
  rw [hset, Set.ncard_coe_finset]
  exact hkills.enough

/-- There are too few where no number of jobs is enough to kill. -/
theorem not_enoughWith {sorter : Sorter LargestFirst} (hfew : ∀ killed, killed <+: sorter.sort (s.runningIn i) →
    (s.throughout (s.searchedFrom i) j).card + (s.takeable i j killed).card < n) : ¬ s.EnoughWith sorter i j n Set.univ := by
  intro henough
  have hset : {c | s.CanBeAdded sorter i j n c} ∩ Set.univ ⊆ (s.takeable i j (sorter.sort (s.runningIn i)) : Finset ℕ) := by
    rintro c ⟨hfree | ⟨job, ⟨ahead, hfront, _⟩, hjob, hheld⟩, _⟩
    · exact takeable_subset List.nil_prefix hfree
    · rw [Finset.mem_coe, takeable_eq, withJobs, Finset.mem_union]
      refine Or.inr (Finset.mem_biUnion.2 ⟨job, Finset.mem_filter.2 ⟨List.mem_toFinset.2 (hfront.subset ?_), hjob⟩, hheld⟩)
      exact List.mem_append_right _ (List.mem_singleton_self job)
  have hcard := Set.ncard_le_ncard hset (Finset.finite_toSet _)
  rw [Set.ncard_coe_finset] at hcard
  unfold Schedule.EnoughWith at henough
  have hall := hfew _ List.prefix_rfl
  omega

theorem mem_throughout {m : ℕ} : m ∈ s.throughout i j ↔ m < s.nbMachines ∧ ∀ t ∈ s.window i j, m ∈ t.availableMachines := by
  unfold Schedule.throughout
  rw [Finset.mem_filter, Finset.mem_range]

theorem throughout_subset {k : ℕ} (hle : k ≤ i) : s.throughout k j ⊆ s.throughout i j := by
  intro m hm
  rw [mem_throughout] at hm ⊢
  refine ⟨hm.1, fun t ht => hm.2 t ?_⟩
  unfold Schedule.window at ht ⊢
  rw [← List.drop_take] at ht ⊢
  rw [← Nat.add_sub_of_le hle, ← List.drop_drop] at ht
  exact List.mem_of_mem_drop ht

theorem mem_profile_of_mem_window {t : TimeSlice} (h : t ∈ s.window i j) : t ∈ s.profile :=
  List.mem_of_mem_drop (List.mem_of_mem_take h)

/-- No job holds a machine that is available throughout the window. -/
theorem not_heldIn (hfree : s.AvailableUnheld) {m : ℕ} (hm : m ∈ s.throughout i j) (reservation : Bool) :
    ¬ HeldIn (s.window i j) reservation m := by
  rintro ⟨t, ht, e, he, _, hheld⟩
  exact (hfree t (mem_profile_of_mem_window ht) m ((mem_throughout.1 hm).2 t ht)).2 e he hheld

theorem mem_window_begin (hij : i ≤ j) (hbegin : s.profile[i]? = some beginSlice) : beginSlice ∈ s.window i j := by
  unfold Schedule.window
  obtain ⟨hlt, rfl⟩ := List.getElem?_eq_some_iff.1 hbegin
  rw [List.drop_eq_getElem_cons hlt, show j + 1 - i = (j - i) + 1 by omega, List.take_succ_cons]
  exact List.mem_cons_self

/-- A job that holds a machine at the begin of the window holds it in the window. -/
theorem mem_machinesIn (hbegin : s.profile[i]? = some beginSlice) {job : Job} {m : ℕ} (h : m ∈ s.machinesIn i job) :
    ∃ e ∈ beginSlice.allocatedJobs.entries, m ∈ e.2 := by
  unfold Schedule.machinesIn at h
  rw [hbegin, Option.bind_some] at h
  cases hfind : beginSlice.allocatedJobs.find? job with
  | none =>
    rw [hfind] at h
    exact absurd h (Finset.notMem_empty m)
  | some machines =>
    rw [hfind] at h
    obtain ⟨p, hp, hkey⟩ := KeyedMap.find?_eq_some.1 hfind
    exact ⟨_, hp, h⟩

/-- No reservation holds a machine that no job has to be killed for. -/
theorem not_heldIn_of_takeable {m : ℕ} (h : m ∈ s.takeable i j []) : ¬ HeldIn (s.window i j) true m := by
  unfold Schedule.takeable at h
  rcases Finset.mem_union.1 h with h | h
  · exact (Finset.mem_filter.1 h).2.2.2
  · simp at h

/-- A machine available in the window, but not in the slices searched, can be taken without killing a job. -/
theorem mem_takeable_of_throughout (hfree : s.AvailableUnheld) (hij : i ≤ j) (hbegin : s.profile[i]? = some beginSlice) {m : ℕ}
    (hm : m ∈ s.throughout i j) (hnot : m ∉ s.throughout (s.searchedFrom i) j) : m ∈ s.takeable i j [] := by
  have hbeginning := (mem_throughout.1 hm).2 beginSlice (mem_window_begin hij hbegin)
  unfold Schedule.takeable
  refine Finset.mem_union_left _ (Finset.mem_filter.2 ⟨Finset.mem_range.2 (mem_throughout.1 hm).1, hnot, fun job _ hheld => ?_,
    not_heldIn hfree hm true⟩)
  obtain ⟨e, he, hin⟩ := mem_machinesIn hbegin hheld
  exact (hfree beginSlice (List.mem_of_getElem? hbegin) m hbeginning).2 e he hin

/-- The machines available and those to choose from beside them are different ones. -/
theorem disjoint_takeable (hfree : s.AvailableUnheld) (hij : i ≤ j) (hbegin : s.profile[i]? = some beginSlice)
    (hle : s.searchedFrom i ≤ i) (killed : List Job) : Disjoint (s.takeable i j killed) (s.throughout (s.searchedFrom i) j) := by
  rw [Finset.disjoint_right]
  intro m havailable hmem
  unfold Schedule.takeable at hmem
  rcases Finset.mem_union.1 hmem with hunheld | hkilled
  · exact (Finset.mem_filter.1 hunheld).2.1 havailable
  · obtain ⟨job, _, hjob⟩ := Finset.mem_biUnion.1 hkilled
    obtain ⟨e, he, hheld⟩ := mem_machinesIn hbegin hjob
    have hwindow := mem_window_begin hij hbegin
    have hthrough := (mem_throughout.1 (throughout_subset hle havailable)).2 beginSlice hwindow
    exact (hfree beginSlice (List.mem_of_getElem? hbegin) m hthrough).2 e he hheld

/-- The first machines to choose from, added to those available, are as many as requested. -/
theorem card_choice {sorter : Sorter LargestFirst} (hfree : s.AvailableUnheld) (hij : i ≤ j)
    (hbegin : s.profile[i]? = some beginSlice) (hle : s.searchedFrom i ≤ i)
    (hfew : (s.throughout (s.searchedFrom i) j).card < n) {killed : List Job} (hkills : Kills sorter s i j n killed) :
    ((s.takeable i j killed).leftmost (n - (s.throughout (s.searchedFrom i) j).card) ∪
      s.throughout (s.searchedFrom i) j).card = n := by
  have henough := hkills.enough
  have hdisjoint : Disjoint ((s.takeable i j killed).leftmost (n - (s.throughout (s.searchedFrom i) j).card))
      (s.throughout (s.searchedFrom i) j) :=
    Finset.disjoint_of_subset_left (Finset.leftmost_subset _ _) (disjoint_takeable hfree hij hbegin hle killed)
  rw [Finset.card_union_of_disjoint hdisjoint, Finset.card_leftmost_of_le (by omega)]
  omega

/-- They are a safe choice where the window is. -/
theorem choosesSafely_iff {sorter : Sorter LargestFirst} (hfree : s.AvailableUnheld) (hij : i ≤ j)
    (hbegin : s.profile[i]? = some beginSlice) (hle : s.searchedFrom i ≤ i)
    (hfew : (s.throughout (s.searchedFrom i) j).card < n) {killed : List Job} (hkills : Kills sorter s i j n killed) :
    s.ChoosesSafely i j n ((s.takeable i j killed).leftmost (n - (s.throughout (s.searchedFrom i) j).card) ∪
      s.throughout (s.searchedFrom i) j) ↔ s.SafeWindow sorter i j n := by
  have hadded : ∀ m, m ∈ (s.takeable i j killed).leftmost (n - (s.throughout (s.searchedFrom i) j).card) ↔
      s.CanBeAdded sorter i j n m ∧ ¬ s.EnoughWith sorter i j n (Set.Iio m) := by
    intro m
    rw [enoughWith_Iio hkills, canBeAdded_iff hkills]
    unfold Finset.leftmost
    rw [Finset.mem_filter]
    exact and_congr_right fun _ => by omega
  have hsub : s.throughout (s.searchedFrom i) j ⊆ s.throughout i j := throughout_subset hle
  constructor
  · intro hsafe
    constructor
    · intro job hjob hnormal m hm hheld
      by_contra hneeded
      exact hsafe.unreserved m (Finset.mem_union_left _ ((hadded m).2 ⟨Or.inr ⟨job, hjob, hnormal, hm⟩, hneeded⟩)) hheld
    · intro henough m hm hheld
      by_contra hneeded
      exact absurd (hsafe.needed m (Finset.mem_union_left _ ((hadded m).2 ⟨hm, hneeded⟩)) hheld) (not_lt.2 henough)
    · intro hlt m hm hnot
      exact ((hadded m).1 ((Finset.mem_union.1 (hsafe.kept hlt hm)).resolve_right hnot)).2
  · intro hwindow
    constructor
    · exact card_choice hfree hij hbegin hle hfew hkills
    · intro m hm hheld
      rcases Finset.mem_union.1 hm with hchosen | havailable
      · obtain ⟨hunheld | ⟨job, hjob, hnormal, hheld'⟩, hneeded⟩ := (hadded m).1 hchosen
        · exact not_heldIn_of_takeable hunheld hheld
        · exact hneeded (hwindow.unreserved job hjob hnormal m hheld' hheld)
      · exact not_heldIn hfree (hsub havailable) true hheld
    · intro m hm hheld
      rcases Finset.mem_union.1 hm with hchosen | havailable
      · by_contra hnot
        exact ((hadded m).1 hchosen).2 (hwindow.needed (not_lt.1 hnot) m ((hadded m).1 hchosen).1 hheld)
      · exact absurd hheld (not_heldIn hfree (hsub havailable) false)
    · intro hlt m hm
      by_cases hin : m ∈ s.throughout (s.searchedFrom i) j
      · exact Finset.mem_union_right _ hin
      · have hunheld := mem_takeable_of_throughout hfree hij hbegin hm hin
        exact Finset.mem_union_left _ ((hadded m).2 ⟨Or.inl hunheld, hwindow.kept hlt m hm hin⟩)

/-- Where enough machines are available, no machine is needed. -/
theorem safeWindow_of_enough {sorter : Sorter LargestFirst} (hle : s.searchedFrom i ≤ i)
    (henough : n ≤ (s.throughout (s.searchedFrom i) j).card) : s.SafeWindow sorter i j n := by
  have hall : ∀ others, s.EnoughWith sorter i j n others := fun _ => le_add_right henough
  refine ⟨fun _ _ _ m _ _ => hall (Set.Iio m), fun _ m _ _ => hall (Set.Iio m), fun hlt => ?_⟩
  have hcard := Finset.card_le_card (throughout_subset (s := s) (j := j) hle)
  omega

/-- The first of the machines that are available, where these are enough, are a safe choice. -/
theorem choosesSafely_of_enough (hfree : s.AvailableUnheld) (hle : s.searchedFrom i ≤ i)
    (henough : n ≤ (s.throughout (s.searchedFrom i) j).card) :
    s.ChoosesSafely i j n ((s.throughout (s.searchedFrom i) j).leftmost n) := by
  have hsub := throughout_subset (s := s) (j := j) hle
  constructor
  · exact Finset.card_leftmost_of_le henough
  · exact fun m hm => not_heldIn hfree (hsub (Finset.leftmost_subset _ _ hm)) true
  · exact fun m hm hheld => absurd hheld (not_heldIn hfree (hsub (Finset.leftmost_subset _ _ hm)) false)
  · intro hfew
    exact absurd (Finset.card_le_card hsub) (not_le.2 (hfew.trans_le henough))

/-- A result that adds the first machines to choose from is safe if and only if the window is. -/
theorem choice_iff {sorter : Sorter LargestFirst} (hfree : s.AvailableUnheld) (hij : i ≤ j)
    (hbegin : s.profile[i]? = some beginSlice) (hle : s.searchedFrom i ≤ i)
    (hfew : (s.throughout (s.searchedFrom i) j).card < n) {killed : List Job} (hkills : Kills sorter s i j n killed) :
    (∃ machines, Except.ok (ε := Abort) ((s.takeable i j killed).leftmost (n - (s.throughout (s.searchedFrom i) j).card) ∪
        s.throughout (s.searchedFrom i) j) = .ok machines ∧ (machines ≠ ∅ → s.ChoosesSafely i j n machines)) ↔
      (s.EnoughWith sorter i j n Set.univ → s.SafeWindow sorter i j n) := by
  rw [← choosesSafely_iff hfree hij hbegin hle hfew hkills]
  constructor
  · rintro ⟨machines, hok, hsafe⟩ _
    cases hok
    refine hsafe fun hempty => ?_
    have hcard := card_choice hfree hij hbegin hle hfew hkills
    rw [hempty, Finset.card_empty] at hcard
    omega
  · exact fun hsafe => ⟨_, rfl, fun _ => hsafe (enoughWith_of_kills hkills)⟩

end LeastImpactAux

open LeastImpactAux in
/-- For every schedule whose slices follow each other and in which no job holds an available machine, every window that takes some
time, and every request: the search gives a result, and one that is not empty is a safe choice if and only if there are too few
machines or no job that has to be killed shares a needed one with a reservation of the window. -/
theorem find_least_impactful_fit_iff (sorter : Sorter LargestFirst) (s : Schedule) (job : Job) (sliceBegin sliceEnd : ℕ)
    (beginSlice endSlice : TimeSlice) (ht : Timed s.profile) (hfree : s.AvailableUnheld) (hle : sliceBegin ≤ sliceEnd)
    (hbegin : s.profile[sliceBegin]? = some beginSlice) (hend : s.profile[sliceEnd]? = some endSlice)
    (hfirst : s.firstSliceBegin ≤ beginSlice.beginDate) (hlt : beginSlice.beginDate < endSlice.endDate) :
    (∃ machines, s.findLeastImpactfulFit sorter job sliceBegin sliceEnd = .ok machines ∧
      (machines ≠ ∅ → s.ChoosesSafely sliceBegin sliceEnd job.nbRequestedResources machines)) ↔
    (s.EnoughWith sorter sliceBegin sliceEnd job.nbRequestedResources Set.univ →
      s.SafeWindow sorter sliceBegin sliceEnd job.nbRequestedResources) := by
  have hsearched := (searchedFrom_spec ht hbegin hfirst).1
  rw [find_eq sorter job ht hfree hle hbegin hend hfirst hlt]
  dsimp only
  split
  · rename_i henough
    exact iff_of_true ⟨_, rfl, fun _ => choosesSafely_of_enough hfree hsearched henough⟩
      fun _ => safeWindow_of_enough hsearched henough
  · rename_i hfew
    have hfew := not_le.1 hfew
    split
    · rename_i henough
      have hkills : Kills sorter s sliceBegin sliceEnd job.nbRequestedResources [] :=
        ⟨List.nil_prefix, by omega, fun fewer hfewer _ => List.prefix_nil.1 hfewer⟩
      exact choice_iff hfree hle hbegin hsearched hfew hkills
    · rename_i hmore
      have hmore := not_le.1 hmore
      cases hfound : Schedule.addUntilEnough (s.machinesIn sliceBegin)
          (job.nbRequestedResources - (s.throughout (s.searchedFrom sliceBegin) sliceEnd).card)
          (s.takeable sliceBegin sliceEnd []) (sorter.sort (s.runningIn sliceBegin)) with
      | none =>
        have htooFew : ¬ s.EnoughWith sorter sliceBegin sliceEnd job.nbRequestedResources Set.univ := by
          refine not_enoughWith fun killed hfront => ?_
          have hcard := addUntilEnough_none hmore hfound hfront
          rw [← takeable_eq] at hcard
          omega
        exact iff_of_true ⟨∅, rfl, fun hne => absurd rfl hne⟩ fun henough => absurd henough htooFew
      | some machines =>
        obtain ⟨killed, hfront, rfl, henough, hleast⟩ := addUntilEnough_some hmore hfound
        rw [Option.elim_some, ← takeable_eq]
        rw [← takeable_eq] at henough
        have hkills : Kills sorter s sliceBegin sliceEnd job.nbRequestedResources killed := by
          refine ⟨hfront, by omega, fun fewer hfewer hcard => hleast fewer hfewer ?_⟩
          rw [← takeable_eq]
          omega
        exact choice_iff hfree hle hbegin hsearched hfew hkills

/-- Where no empty first slice begins with the window, it is enough that no job that has to be killed shares a needed machine with a
reservation. -/
theorem safeWindow_iff (sorter : Sorter LargestFirst) (s : Schedule) {sliceBegin sliceEnd requested : ℕ}
    (hsearched : s.searchedFrom sliceBegin = sliceBegin) : s.SafeWindow sorter sliceBegin sliceEnd requested ↔
      ∀ job, s.MustBeKilled sorter sliceBegin sliceEnd requested job → job.isReservation = false →
        ∀ m ∈ s.machinesIn sliceBegin job, HeldIn (s.window sliceBegin sliceEnd) true m →
          s.EnoughWith sorter sliceBegin sliceEnd requested (Set.Iio m) := by
  constructor
  · exact fun hwindow => hwindow.unreserved
  · intro hunreserved
    refine ⟨hunreserved, fun henough m _ _ => ?_, fun _ m hm hnot => ?_⟩
    · unfold Schedule.EnoughWith
      rw [hsearched]
      exact le_add_right henough
    · rw [hsearched] at hnot
      exact absurd hm hnot

namespace LeastImpactWitness

open Execution

/-- A job of one machine for ten seconds. -/
def job : Job := { id := "w!1", nbRequestedResources := 1, walltime := 10 }

/-- A reservation of machine 0 for ten seconds from the end of the job on. -/
def reservation : Job :=
  { id := "w!2", nbRequestedResources := 1, walltime := 10, purpose := "reservation", futureAllocations := {0}, start := 10 }

/-- A reservation of one machine for ten seconds while the job runs. -/
def request : Job := { id := "w!3", nbRequestedResources := 1, walltime := 10, purpose := "reservation", start := 5 }

/-- A sort of the running jobs. -/
def sorter : Sorter LargestFirst := Sorter.stable LargestFirst

/-- The one machine has the job and then the reservation, in a schedule cut for the request. -/
def cut : Option Schedule :=
  (runFrom (ReservationCall.run sorter) (Schedule.new 1 0) [.addJobFirstFit job true, .addReservation reservation]).toOption.bind
    fun s => (s.cutForReservation request).toOption.map fun parts => { s with profile := parts.1 }

/-- The slices of the schedule follow each other. -/
theorem exists_cut {β : Type*} {f : Schedule → β} {b : β} (h : cut.map f = some b) : ∃ s, Timed s.profile ∧ f s = b := by
  unfold cut at h
  obtain ⟨s, hs, hvalue⟩ := Option.map_eq_some_iff.1 h
  obtain ⟨s0, hrun, hcut⟩ := toOption_bind_eq_some.1 hs
  obtain ⟨parts, hparts, rfl⟩ := toOption_map_eq_some.1 hcut
  have ht : Timed s0.profile :=
    runFrom_invariant (I := fun s => Timed s.profile) (C := fun _ _ => True) (fun _ _ _ h _ hrun => h.runReservation hrun)
      (Timed.new 1 0) (allSteps_of_forall fun _ _ => trivial) hrun
  exact ⟨_, cutForReservation_rule (P := Timed) (fun _ i date h => h.splitSliceAt i date) ht hparts, hvalue⟩

end LeastImpactWitness

open LeastImpactWitness Execution in
/-- Two machines are requested while the job has one of the two: the job is killed for them. -/
theorem find_least_impactful_fit_iff_witness :
    ∃ s, runFrom (ReservationCall.run sorter) (Schedule.new 2 0) [.addJobFirstFit job true] = .ok s ∧
      ∃ machines, s.findLeastImpactfulFit sorter { request with nbRequestedResources := 2 } 0 0 = .ok machines ∧
        (machines ≠ ∅ → s.ChoosesSafely 0 0 2 machines) := by
  have hvalue : (runFrom (ReservationCall.run sorter) (Schedule.new 2 0) [.addJobFirstFit job true]).toOption.map (fun s =>
      decide (s.AvailableUnheld ∧ s.searchedFrom 0 = 0 ∧
        ∃ t ∈ s.profile[0]?, s.firstSliceBegin ≤ t.beginDate ∧ t.beginDate < t.endDate ∧
          ∀ e ∈ t.allocatedJobs.entries, e.1.isReservation = false)) = some true := by decide +kernel
  obtain ⟨s, hs, hvalue⟩ := toOption_map_eq_some.1 hvalue
  obtain ⟨hfree, hsearched, t, ht, hfirst, hlt, hjobs⟩ := of_decide_eq_true hvalue
  have htimed : Timed s.profile :=
    runFrom_invariant (I := fun s => Timed s.profile) (C := fun _ _ => True) (fun _ _ _ h _ hrun => h.runReservation hrun)
      (Timed.new 2 0) (allSteps_of_forall fun _ _ => trivial) hs
  refine ⟨s, hs, (find_least_impactful_fit_iff sorter s { request with nbRequestedResources := 2 } 0 0 t t htimed hfree le_rfl ht ht
    hfirst hlt).2 fun _ => (safeWindow_iff sorter s hsearched).2 fun job _ _ m _ hheld => ?_⟩
  obtain ⟨u, hu, e, he, hres, _⟩ := hheld
  have hwindow : s.window 0 0 = [t] := by
    obtain ⟨hlen, rfl⟩ := List.getElem?_eq_some_iff.1 ht
    unfold Schedule.window
    rw [List.drop_eq_getElem_cons hlen]
    rfl
  rw [hwindow, List.mem_singleton] at hu
  subst hu
  rw [hjobs e he] at hres
  exact absurd hres (by decide)

open LeastImpactWitness in
/-- The machine of the job that is killed has a reservation later in the window, and is chosen. -/
theorem find_least_impactful_fit_false :
    (¬ ∀ (sorter : Sorter LargestFirst) (s : Schedule) (job : Job) (sliceBegin sliceEnd : ℕ) (beginSlice endSlice : TimeSlice),
      Timed s.profile → s.AvailableUnheld → sliceBegin ≤ sliceEnd → s.profile[sliceBegin]? = some beginSlice →
      s.profile[sliceEnd]? = some endSlice → s.firstSliceBegin ≤ beginSlice.beginDate →
      beginSlice.beginDate < endSlice.endDate → ∀ machines, s.findLeastImpactfulFit sorter job sliceBegin sliceEnd = .ok machines →
        machines ≠ ∅ → s.ChoosesSafely sliceBegin sliceEnd job.nbRequestedResources machines) ∧
    cut.map (fun s => s.profile.map (fun t => (t.beginDate, t.allocatedJobs.entries.map (fun e => (e.1.id, e.2))))) =
      some [(0, [("w!1", {0})]), (5, [("w!1", {0})]), (10, [("w!2", {0})]), (15, [("w!2", {0})]), (20, [])] ∧
    cut.map (fun s => (s.findLeastImpactfulFit sorter request 1 2).toOption) = some (some {0}) := by
  have hvalue : cut.map (fun s => ((s.findLeastImpactfulFit sorter request 1 2).toOption,
      decide (s.AvailableUnheld ∧ HeldIn (s.window 1 2) true 0 ∧ ∃ b ∈ s.profile[1]?, ∃ e ∈ s.profile[2]?,
        s.firstSliceBegin ≤ b.beginDate ∧ b.beginDate < e.endDate))) = some (some {0}, true) := by decide +kernel
  refine ⟨fun h => ?_, by decide +kernel, by decide +kernel⟩
  obtain ⟨s, ht, hvalue⟩ := exists_cut hvalue
  obtain ⟨hfound, hstate⟩ := Prod.mk.inj hvalue
  obtain ⟨hfree, hheld, b, hbegin, e, hend, hfirst, hlt⟩ := of_decide_eq_true hstate
  cases hresult : s.findLeastImpactfulFit sorter request 1 2 with
  | error abort =>
    rw [hresult] at hfound
    cases hfound
  | ok machines =>
    rw [hresult] at hfound
    have hmachines : machines = {0} := Option.some.inj hfound
    have hsafe := h sorter s request 1 2 b e ht hfree (by decide) hbegin hend hfirst hlt machines hresult
      (by rw [hmachines]; decide)
    exact hsafe.unreserved 0 (by rw [hmachines]; decide) hheld

end ScheduleTest
