import ScheduleTest.Lemmas.FirstFit

/-!
# Reservations that start now

`add_current_reservation` looks for a place where enough machines are available, and then gives the reservation the machines that it
names. That the machines named are free there is not looked at: another reservation or a job that was added since may hold them in a
later slice.
-/

namespace ScheduleTest

open Timeline Execution

/-- No other job holds, from the present to the end of the reservation, a machine that it names. -/
def Schedule.FreeOfOthers (s : Schedule) (job : Job) (beginDate endDate : ℚ) : Prop :=
  ∀ x, beginDate ≤ x → x < endDate → ∀ content ∈ s.atDate x, ∀ other : Job, other.id ≠ job.id →
    ∀ machines ∈ content.allocatedJobs.find? other, Disjoint machines job.futureAllocations

/-- A reservation that starts now as it should: from the begin of the first slice, for its walltime, on the machines that it names,
of which no other job holds any in that time. -/
structure PlacedNow (s s' : Schedule) (job : Job) (alloc : JobAlloc) : Prop where
  inserted : alloc.hasBeenInserted = true
  beginDate : alloc.beginDate = s.firstSliceBegin
  endDate : alloc.endDate = s.firstSliceBegin + job.walltime
  usedMachines : alloc.usedMachines = job.futureAllocations
  held : ∀ x, s.firstSliceBegin ≤ x → ∀ content ∈ s'.atDate x,
    content.allocatedJobs.find? job = if x < s.firstSliceBegin + job.walltime then some job.futureAllocations else none
  alone : s'.FreeOfOthers job s.firstSliceBegin (s.firstSliceBegin + job.walltime)

/-- A reservation that was not placed, which changes neither what the schedule says nor how much it counts. -/
structure LeftAlone (s s' : Schedule) (alloc : JobAlloc) : Prop where
  notInserted : alloc.hasBeenInserted = false
  atDate : ∀ x, s'.atDate x = s.atDate x
  counters : s'.size = s.size ∧ s'.nbJobsSize = s.nbJobsSize ∧ s'.nbReservationsSize = s.nbReservationsSize

/-- From a slice on there are enough machines for a reservation, for long enough: as many are available, or under repair in the
slice itself, and each slice after it that is needed counts as many. -/
def CountsSuffice (repair : IntervalSet) (job : Job) (pit : TimeSlice) (rest : List TimeSlice) : Prop :=
  ∃ k, job.walltime ≤ totalLength (pit :: rest.take k) ∧
    job.nbRequestedResources ≤
      ((rest.take k).foldl (fun machines slice => machines ∩ slice.availableMachines) (pit.availableMachines ∪ repair)).card ∧
    ∀ slice ∈ rest.take k, (job.nbRequestedResources : ℤ) ≤ slice.nbAvailableMachines

/-- The first of some slices from which the counts suffice begins at a date. -/
def SufficesFirstAt (repair : IntervalSet) (job : Job) (date : ℚ) : List TimeSlice → Prop
  | [] => False
  | pit :: rest => CountsSuffice repair job pit rest ∧ pit.beginDate = date ∨
    ¬ CountsSuffice repair job pit rest ∧ SufficesFirstAt repair job date rest

namespace CurrentReservationAux

variable {s s' : Schedule} {job : Job} {b : Bool} {alloc : JobAlloc} {a : Anchor} {pit : TimeSlice} {before rest : List TimeSlice}

/-! ## The search -/

/-- The machines that are available in more slices are fewer. -/
theorem card_foldl_le (machines : IntervalSet) (l : List TimeSlice) :
    (l.foldl (fun machines slice => machines ∩ slice.availableMachines) machines).card ≤ machines.card := by
  induction l generalizing machines with
  | nil => exact le_rfl
  | cons t l ih => exact (ih _).trans (Finset.card_le_card Finset.inter_subset_left)

/-- The scan finds an end if and only if there are enough machines in the slices up to one where the time suffices. -/
theorem scanEnd_isSome {walltime total : ℚ} {covered : List TimeSlice} {machines : IntervalSet} (hshort : total < walltime) :
    (scanEnd (BasicResourceSelector.fitReservation job) job.nbRequestedResources walltime before covered machines total rest).isSome ↔
      ∃ k, walltime ≤ total + totalLength (rest.take k) ∧
        job.nbRequestedResources ≤
          ((rest.take k).foldl (fun machines slice => machines ∩ slice.availableMachines) machines).card ∧
        ∀ slice ∈ rest.take k, (job.nbRequestedResources : ℤ) ≤ slice.nbAvailableMachines := by
  induction rest generalizing covered machines total with
  | nil =>
    refine iff_of_false (by simp [scanEnd]) ?_
    rintro ⟨k, hk, _⟩
    rw [List.take_nil, totalLength_nil] at hk
    linarith
  | cons t rest ih =>
    rw [scanEnd]
    by_cases hnb : (job.nbRequestedResources : ℤ) ≤ t.nbAvailableMachines
    · rw [if_pos hnb]
      dsimp only
      by_cases hcard : (machines ∩ t.availableMachines).card < job.nbRequestedResources
      · rw [if_pos hcard]
        refine iff_of_false (by simp) ?_
        rintro ⟨k, hk, hmachines, _⟩
        cases k with
        | zero =>
          rw [List.take_zero, totalLength_nil] at hk
          linarith
        | succ k => exact absurd (hmachines.trans (card_foldl_le (machines ∩ t.availableMachines) (rest.take k))) (not_le.2 hcard)
      · rw [if_neg hcard]
        by_cases hlong : walltime ≤ total + t.length
        · rw [if_pos hlong, BasicResourceSelector.fitReservation, if_pos (not_lt.1 hcard)]
          refine iff_of_true rfl ⟨1, ?_, ?_, ?_⟩
          · simpa using hlong
          · simpa using not_lt.1 hcard
          · simpa using hnb
        · rw [if_neg hlong, ih (not_le.1 hlong)]
          constructor
          · rintro ⟨k, hk, hmachines, hcount⟩
            refine ⟨k + 1, ?_, hmachines, ?_⟩
            · rw [List.take_succ_cons, totalLength_cons]
              linarith
            · rw [List.take_succ_cons]
              exact List.forall_mem_cons.2 ⟨hnb, hcount⟩
          · rintro ⟨k, hk, hmachines, hcount⟩
            cases k with
            | zero =>
              rw [List.take_zero, totalLength_nil] at hk
              linarith
            | succ k =>
              rw [List.take_succ_cons] at hk hmachines hcount
              rw [totalLength_cons] at hk
              exact ⟨k, by linarith, hmachines, (List.forall_mem_cons.1 hcount).2⟩
    · rw [if_neg hnb]
      refine iff_of_false (by simp) ?_
      rintro ⟨k, hk, _, hcount⟩
      cases k with
      | zero =>
        rw [List.take_zero, totalLength_nil] at hk
        linarith
      | succ k => exact hnb (hcount t (by simp))

/-- What the search tries with a slice. -/
def placeFrom (repair : IntervalSet) (job : Job) (before : List TimeSlice) (pit : TimeSlice) (rest : List TimeSlice) : Option Anchor :=
  if decide (job.nbRequestedResources ≤ (pit.availableMachines ∪ repair).card) = true then
    if job.walltime ≤ pit.length then
      (BasicResourceSelector.fitReservation job (pit.availableMachines ∪ repair)).map fun used => ⟨before, [], pit, rest, used⟩
    else scanEnd (BasicResourceSelector.fitReservation job) job.nbRequestedResources job.walltime before [pit]
      (pit.availableMachines ∪ repair) pit.length rest
  else none

theorem placeFrom_isSome {repair : IntervalSet} :
    (placeFrom repair job before pit rest).isSome ↔ CountsSuffice repair job pit rest := by
  unfold CountsSuffice placeFrom
  by_cases hcard : job.nbRequestedResources ≤ (pit.availableMachines ∪ repair).card
  · rw [if_pos (decide_eq_true hcard)]
    by_cases hlong : job.walltime ≤ pit.length
    · rw [if_pos hlong, BasicResourceSelector.fitReservation, if_pos hcard]
      refine iff_of_true rfl ⟨0, ?_, hcard, ?_⟩
      · simpa using hlong
      · simp
    · rw [if_neg hlong, scanEnd_isSome (not_le.1 hlong)]
      simp only [totalLength_cons]
  · rw [if_neg (by simpa using hcard)]
    refine iff_of_false (by simp) ?_
    rintro ⟨k, _, hmachines, _⟩
    exact hcard (hmachines.trans (card_foldl_le _ _))

instance {repair : IntervalSet} : Decidable (CountsSuffice repair job pit rest) :=
  decidable_of_iff ((placeFrom repair job [] pit rest).isSome = true) placeFrom_isSome

instance decidableSufficesFirstAt (repair : IntervalSet) (job : Job) (date : ℚ) :
    (slices : List TimeSlice) → Decidable (SufficesFirstAt repair job date slices)
  | [] => isFalse id
  | pit :: rest =>
    have := decidableSufficesFirstAt repair job date rest
    inferInstanceAs (Decidable (CountsSuffice repair job pit rest ∧ pit.beginDate = date ∨
      ¬ CountsSuffice repair job pit rest ∧ SufficesFirstAt repair job date rest))

/-- What the search finds with a slice begins with it. -/
theorem placeFrom_some {repair : IntervalSet} (h : placeFrom repair job before pit rest = some a) :
    a.beginDate = pit.beginDate ∧ a.usedMachines = job.futureAllocations ∧ job.walltime ≤ totalLength a.slices ∧
      (a.covered ≠ [] → totalLength a.covered < job.walltime) := by
  unfold placeFrom at h
  have hmono : ∀ m m' : IntervalSet, m ⊆ m' → (BasicResourceSelector.fitReservation job m).isSome →
      (BasicResourceSelector.fitReservation job m').isSome := by
    intro m m' hsub hm
    unfold BasicResourceSelector.fitReservation at hm ⊢
    split at hm
    · rename_i hle
      rw [if_pos (hle.trans (Finset.card_le_card hsub))]
      rfl
    · cases hm
  have hnamed : ∀ {m used : IntervalSet}, BasicResourceSelector.fitReservation job m = some used → used = job.futureAllocations := by
    intro m used hm
    unfold BasicResourceSelector.fitReservation at hm
    split at hm
    · exact (Option.some.inj hm).symm
    · cases hm
  split at h
  · split at h
    · rename_i hlong
      obtain ⟨used, hused, rfl⟩ := Option.map_eq_some_iff.1 h
      exact ⟨rfl, hnamed hused, by simpa [Anchor.slices] using hlong, fun hne => absurd rfl hne⟩
    · rename_i hshort
      obtain ⟨mid, free, hf⟩ := scanEnd_found h
      have hcovered := hf.covered
      have henough := hf.enough
      have hless := hf.short hmono (not_le.1 hshort)
      refine ⟨?_, hnamed hf.fits, ?_, fun _ => ?_⟩
      · rw [Anchor.beginDate, hcovered]
        rfl
      · rw [Anchor.slices, hcovered]
        simp only [List.cons_append, List.nil_append, totalLength_cons, totalLength_append, totalLength_nil]
        linarith
      · rw [hcovered]
        simpa using hless
  · cases h

/-- The search, where it finds a place, and where it does not. -/
theorem scan_cases {repair : IntervalSet} {walltimeFrom : TimeSlice → ℚ} (hwalltime : ∀ t, walltimeFrom t = job.walltime)
    (slices : List TimeSlice) :
    let found := scanAnchor (fun pit => pit.availableMachines ∪ repair)
      (fun pit => job.nbRequestedResources ≤ (pit.availableMachines ∪ repair).card) (BasicResourceSelector.fitReservation job)
      job.nbRequestedResources walltimeFrom before slices
    (found = none → ∀ date, ¬ SufficesFirstAt repair job date slices) ∧
      ∀ a, found = some a → (∀ date, SufficesFirstAt repair job date slices ↔ a.beginDate = date) ∧
        a.usedMachines = job.futureAllocations ∧ job.walltime ≤ totalLength a.slices ∧
        (a.covered ≠ [] → totalLength a.covered < job.walltime) := by
  induction slices generalizing before with
  | nil =>
    refine ⟨fun _ _ h => h, ?_⟩
    intro a h
    cases h
  | cons pit rest ih =>
    obtain ⟨hnone, hsome⟩ := @ih (pit :: before)
    intro found
    unfold found
    rw [scanAnchor, hwalltime]
    split
    · rename_i a' hfound
      have hfound : placeFrom repair job before pit rest = some a' := hfound
      have hsuffice : CountsSuffice repair job pit rest := by
        rw [← placeFrom_isSome, hfound]
        rfl
      obtain ⟨hbegin, hrest⟩ := placeFrom_some hfound
      refine ⟨fun h => False.elim (Option.some_ne_none a' h), ?_⟩
      intro a ha
      obtain rfl := Option.some.inj ha
      refine ⟨fun date => ?_, hrest⟩
      rw [SufficesFirstAt, hbegin]
      exact ⟨fun hor => hor.elim (·.2) fun h => absurd hsuffice h.1, fun h => Or.inl ⟨hsuffice, h⟩⟩
    · rename_i hfound
      have hfound : placeFrom repair job before pit rest = none := hfound
      have hnot : ¬ CountsSuffice repair job pit rest := by
        rw [← placeFrom_isSome, hfound]
        simp
      refine ⟨fun h date hor => ?_, fun a ha => ?_⟩
      · rcases hor with hor | hor
        · exact hnot hor.1
        · exact hnone h date hor.2
      · obtain ⟨hiff, hrest⟩ := hsome a ha
        refine ⟨fun date => ?_, hrest⟩
        rw [SufficesFirstAt, ← hiff]
        exact ⟨fun hor => hor.elim (fun h => absurd h.1 hnot) (·.2), fun h => Or.inr ⟨hnot, h⟩⟩

/-! ## The place -/

/-- Which jobs hold which machines does not depend on how the slices count them. -/
theorem sliceAt_placeReservationAt (job : Job) (a : Anchor) (endDate x : ℚ) :
    (sliceAt (Schedule.placeReservationAt job a endDate) x).map (·.allocatedJobs) =
      (sliceAt (Schedule.placeAt job a endDate) x).map (·.allocatedJobs) := by
  refine lookup_congr ?_ x
  unfold Schedule.placeReservationAt Schedule.placeAt
  by_cases hc : a.covered.isEmpty = true
  · simp only [if_pos hc, List.map_append, List.map_map, List.map_cons]
    rfl
  · simp only [if_neg hc, List.map_append, List.map_map, List.map_cons]
    rfl

/-- What a call that does not abort does: the reservation is placed where the search finds a place, or only the size grows. -/
theorem addCurrentReservation_ok (h : s.addCurrentReservation job b = .ok (s', alloc)) :
    s.containsJob job = false ∧
      ((s.findReservationAnchor job = none ∧ s' = { s with size := s.size + 1 } ∧ alloc.hasBeenInserted = false) ∨
        ∃ a endDate, s.findReservationAnchor job = some a ∧ endDate = a.beginDate + s.walltimeFrom job (a.covered.head?.getD a.last) ∧
          s'.profile = Schedule.placeReservationAt job a endDate ∧ alloc.hasBeenInserted = true ∧ alloc.beginDate = a.beginDate ∧
          alloc.endDate = endDate ∧ alloc.usedMachines = a.usedMachines) := by
  unfold Schedule.addCurrentReservation at h
  split at h
  · cases h
  · rename_i hc
    refine ⟨by simpa using hc, ?_⟩
    split at h
    · cases h
    · split at h
      · rename_i a ha
        split at h
        · cases h
        · cases h
          exact Or.inr ⟨a, _, ha, rfl, rfl, rfl, rfl, rfl, rfl⟩
      · rename_i hnone
        split at h
        · cases h
        · cases h
          exact Or.inl ⟨hnone, rfl, rfl⟩

/-- The jobs of a schedule at a date from the present on, after a reservation has been placed. -/
theorem jobsAt_placed (ht : Timed s.profile) {endDate x : ℚ}
    (hshape : a.before.reverse ++ (a.covered ++ a.last :: a.rest) = s.profile) (hbegin : a.last.beginDate < endDate)
    (hend : endDate ≤ a.last.endDate) (hprofile : s'.profile = Schedule.placeReservationAt job a endDate)
    (hx : s.firstSliceBegin ≤ x) :
    (s'.atDate x).map (·.allocatedJobs) = (s.atDate x).map fun content =>
      if a.beginDate ≤ x ∧ x < endDate then content.allocatedJobs.insert job a.usedMachines else content.allocatedJobs := by
  have hfirst : ∀ first ∈ (a.before.reverse ++ (a.covered ++ a.last :: a.rest)).head?, first.beginDate ≤ x := by
    rw [hshape]
    intro first hfirst
    rw [Schedule.firstSliceBegin, Option.mem_def.1 hfirst] at hx
    exact hx
  have hview := @sliceAt_placeAt _ TimeSlice.allocatedJobs x job a endDate (fun _ _ _ _ => rfl) (hshape ▸ ht) hbegin hend hfirst
  rw [hshape] at hview
  rw [Schedule.atDate, Schedule.atDate, contentAt, contentAt, hprofile, Option.map_map, Option.map_map]
  have hjobs := sliceAt_placeReservationAt job a endDate x
  have hcontent : (fun content : SliceContent => content.allocatedJobs) ∘ TimeSlice.content = TimeSlice.allocatedJobs := rfl
  rw [hcontent, hjobs, hview]
  congr 1
  funext t
  rw [Function.comp_apply]
  split <;> rfl

/-- Placing a reservation changes what no other job holds. -/
theorem freeOfOthers_placed {beginDate endDate begins ends : ℚ} {used : IntervalSet} (hle : s.firstSliceBegin ≤ beginDate)
    (hjobs : ∀ x, s.firstSliceBegin ≤ x → (s'.atDate x).map (·.allocatedJobs) = (s.atDate x).map fun content =>
      if begins ≤ x ∧ x < ends then content.allocatedJobs.insert job used else content.allocatedJobs) :
    s'.FreeOfOthers job beginDate endDate ↔ s.FreeOfOthers job beginDate endDate := by
  unfold Schedule.FreeOfOthers
  refine forall_congr' fun x => forall_congr' fun hx => forall_congr' fun _ => ?_
  have hview := hjobs x (hle.trans hx)
  have hother : ∀ (content : SliceContent) (other : Job), other.id ≠ job.id →
      (if begins ≤ x ∧ x < ends then content.allocatedJobs.insert job used else content.allocatedJobs).find? other =
        content.allocatedJobs.find? other := by
    intro content other hne
    split
    · rw [KeyedMap.find?_insert, if_neg hne]
    · rfl
  cases h' : s'.atDate x with
  | none =>
    cases h : s.atDate x with
    | none => rfl
    | some content =>
      rw [h, h'] at hview
      cases hview
  | some content' =>
    cases h : s.atDate x with
    | none =>
      rw [h, h'] at hview
      cases hview
    | some content =>
      rw [h, h'] at hview
      have hview : content'.allocatedJobs = _ := Option.some.inj hview
      simp only [Option.mem_def, Option.some.injEq, forall_eq']
      refine forall_congr' fun other => forall_congr' fun hne => ?_
      rw [hview, hother content other hne]

/-- A job that is not in the schedule holds nothing at any date. -/
theorem find?_of_absent {x : ℚ} {content : SliceContent} (hc : s.containsJob job = false) (h : s.atDate x = some content) :
    content.allocatedJobs.find? job = none := by
  unfold Schedule.atDate contentAt at h
  obtain ⟨t, ht, rfl⟩ := Option.map_eq_some_iff.1 h
  have habsent : t.containsJob job = false := Schedule.containsJob_eq_false.1 hc t (mem_of_lookup ht).1
  rw [TimeSlice.containsJob, KeyedMap.contains_eq_isSome] at habsent
  exact Option.not_isSome_iff_eq_none.1 (Bool.eq_false_iff.1 habsent)

/-- A call that does not abort places the reservation as it should, or leaves the schedule alone, if and only if the first slice from
which the counts suffice begins when the first slice does, and no other job holds a machine of the reservation. -/
theorem addCurrentReservation_iff (ht : Timed s.profile) (hwalltime : job.hasWalltime = true) (hpos : 0 < job.walltime)
    (h : s.addCurrentReservation job b = .ok (s', alloc)) :
    PlacedNow s s' job alloc ∨ LeftAlone s s' alloc ↔
      SufficesFirstAt s.repairMachines job s.firstSliceBegin s.profile ∧
        s.FreeOfOthers job s.firstSliceBegin (s.firstSliceBegin + job.walltime) := by
  obtain ⟨hc, hcases⟩ := addCurrentReservation_ok h
  have hfrom : ∀ t, s.walltimeFrom job t = job.walltime := fun t => if_pos hwalltime
  obtain ⟨hnone, hsome⟩ := @scan_cases job [] s.repairMachines _ hfrom s.profile
  rcases hcases with ⟨hsearch, rfl, hinserted⟩ | ⟨a, endDate, hsearch, hend, hprofile, hinserted, hbegin, hallocEnd, hused⟩
  · -- no place is found, and the size has grown
    refine iff_of_false ?_ fun hand => hnone hsearch _ hand.1
    rintro (hplaced | halone)
    · have htrue := hplaced.inserted
      rw [hinserted] at htrue
      cases htrue
    · have hsize := halone.counters.1
      dsimp only at hsize
      omega
  · obtain ⟨hfirst, hnamed, henough, hshort⟩ := hsome a hsearch
    have hshape : a.before.reverse ++ (a.covered ++ a.last :: a.rest) = s.profile := by simpa using scanAnchor_shape hsearch
    rw [hfrom] at hend
    have hbounds := Timed.ends_in_last (hshape ▸ ht) henough hshort hpos
    rw [← hend] at hbounds
    have hjobs := fun x => jobsAt_placed (x := x) ht hshape hbounds.1 hbounds.2 hprofile
    constructor
    · rintro (hplaced | halone)
      · have hnow : a.beginDate = s.firstSliceBegin := hbegin.symm.trans hplaced.beginDate
        exact ⟨(hfirst _).2 hnow, (freeOfOthers_placed le_rfl hjobs).1 hplaced.alone⟩
      · have hfalse := halone.notInserted
        rw [hinserted] at hfalse
        cases hfalse
    · rintro ⟨hsuffice, hfree⟩
      have hnow : a.beginDate = s.firstSliceBegin := (hfirst _).1 hsuffice
      refine Or.inl ⟨hinserted, hbegin.trans hnow, ?_, hused.trans hnamed, ?_, (freeOfOthers_placed le_rfl hjobs).2 hfree⟩
      · rw [hallocEnd, hend, hnow]
      · intro x hx content' hcontent
        have hview := hjobs x hx
        rw [Option.mem_def.1 hcontent] at hview
        cases hs : s.atDate x with
        | none =>
          rw [hs] at hview
          cases hview
        | some content =>
          rw [hs] at hview
          have hview : content'.allocatedJobs = if a.beginDate ≤ x ∧ x < endDate then
            content.allocatedJobs.insert job a.usedMachines else content.allocatedJobs := Option.some.inj hview
          rw [hview, hend, hnow, hnamed]
          by_cases hlt : x < s.firstSliceBegin + job.walltime
          · rw [if_pos ⟨hx, hlt⟩, if_pos hlt, KeyedMap.find?_insert, if_pos rfl]
          · rw [if_neg fun hand => hlt hand.2, if_neg hlt]
            exact find?_of_absent hc hs

/-- No other job holds a machine of the reservation in any slice. -/
theorem freeOfOthers_of_slices {beginDate endDate : ℚ}
    (h : ∀ t ∈ s.profile, ∀ entry ∈ t.allocatedJobs.entries, entry.1.id ≠ job.id → Disjoint entry.2 job.futureAllocations) :
    s.FreeOfOthers job beginDate endDate := by
  intro x _ _ content hcontent other hne machines hmachines
  unfold Schedule.atDate contentAt at hcontent
  obtain ⟨t, ht, rfl⟩ := Option.map_eq_some_iff.1 hcontent
  obtain ⟨holder, hentry, hid⟩ := KeyedMap.find?_eq_some.1 hmachines
  exact h t (mem_of_lookup ht).1 (holder, machines) hentry (hid ▸ hne)

end CurrentReservationAux

open CurrentReservationAux in
/-- Reservations that are due when `remove_reservations_if_ready` returns true, and are then added one after the other in any order:
each that the scheduler does not abort at is placed as it should be, or leaves the schedule alone, if and only if the first slice
from which the counts suffice begins when the first slice does, and no other job holds a machine of the reservation. -/
theorem current_reservation_placed_iff (sorter : Sorter LargestFirst) (n : ℕ) (t0 : ℚ) (calls : List MixedCall) (s s₀ : Schedule)
    (due : List Job) (hcalls : runFrom (MixedCall.run sorter) (Schedule.new n t0) calls = .ok s)
    (hready : s.removeReservationsIfReady [] = .ok (s₀, due, true))
    (hwalltime : ∀ job ∈ due, job.hasWalltime = true ∧ 0 < job.walltime) (earlier : List (Job × Bool)) (job : Job) (b : Bool)
    (horder : (earlier.map Prod.fst ++ [job]).Subperm due) (s₁ s' : Schedule) (alloc : JobAlloc)
    (hearlier : runFrom (ReservationCall.run sorter) s₀ (earlier.map fun add => .addCurrentReservation add.1 add.2) = .ok s₁)
    (hadd : s₁.addCurrentReservation job b = .ok (s', alloc)) :
    PlacedNow s₁ s' job alloc ∨ LeftAlone s₁ s' alloc ↔
      SufficesFirstAt s₁.repairMachines job s₁.firstSliceBegin s₁.profile ∧
        s₁.FreeOfOthers job s₁.firstSliceBegin (s₁.firstSliceBegin + job.walltime) := by
  have hreached : Timed s.profile :=
    runFrom_invariant (I := fun s => Timed s.profile) (C := fun _ _ => True) (fun _ _ _ h _ hrun => h.runMixed hrun) (Timed.new n t0)
      (allSteps_of_forall fun _ _ => trivial) hcalls
  have hremoved : Timed s₀.profile := hreached.removeReservationsIfReady hready
  have htimed : Timed s₁.profile :=
    runFrom_invariant (I := fun s => Timed s.profile) (C := fun _ _ => True) (fun _ _ _ h _ hrun => h.runReservation hrun) hremoved
      (allSteps_of_forall fun _ _ => trivial) hearlier
  obtain ⟨hhas, hpos⟩ := hwalltime job (horder.subset (by simp))
  exact addCurrentReservation_iff htimed hhas hpos hadd

namespace CurrentReservationWitness

/-- A sort of the running jobs. -/
def sorter : Sorter LargestFirst := Sorter.stable LargestFirst

/-- A reservation for ten seconds. -/
def reservation (id : String) (machines : IntervalSet) (start : ℚ) : Job where
  id := id
  nbRequestedResources := machines.card
  walltime := 10
  purpose := "reservation"
  futureAllocations := machines
  start := start

/-- Two reservations for the same date, for one of which a machine goes under repair. -/
def callsOk : List MixedCall := [.reserving (.addReservation (reservation "w!1" {0, 1} 10)),
  .reserving (.addReservation (reservation "w!2" {2} 10)), .plain .basic (.addRepairMachine {0}), .plain .basic (.updateFirstSlice 10)]

/-- Two reservations of one machine, one after the other, of which the first is late by less than the tolerance. -/
def callsLate : List MixedCall := [.reserving (.addReservation (reservation "w!1" {0} 10)),
  .reserving (.addReservation (reservation "w!2" {0} 20)), .plain .basic (.updateFirstSlice (10 + 1 / 100000))]

/-- Two reservations of which the second begins before the first ends, on other machines, and a machine of the first goes under
repair. -/
def callsRepair : List MixedCall := [.reserving (.addReservation (reservation "w!1" {0, 1} 10)),
  .reserving (.addReservation (reservation "w!2" {2} 15)), .plain .basic (.addRepairMachine {0}), .plain .basic (.updateFirstSlice 10)]

end CurrentReservationWitness

open CurrentReservationWitness CurrentReservationAux in
/-- Two reservations start when they are due, the second after the first. -/
theorem current_reservation_placed_iff_witness :
    ∃ s₁ s' alloc, PlacedNow s₁ s' (reservation "w!2" {2} 10) alloc ∨ LeftAlone s₁ s' alloc := by
  have hrun : (runFrom (MixedCall.run sorter) (Schedule.new 4 0) callsOk).toOption.map (fun s =>
      (s.removeReservationsIfReady []).toOption.map fun r => (r.2, (runFrom (ReservationCall.run sorter) r.1
        [.addCurrentReservation (reservation "w!1" {0, 1} 10) true]).toOption.map fun s₁ =>
          (decide (SufficesFirstAt s₁.repairMachines (reservation "w!2" {2} 10) s₁.firstSliceBegin s₁.profile ∧
            ∀ t ∈ s₁.profile, ∀ entry ∈ t.allocatedJobs.entries, entry.1.id ≠ "w!2" → Disjoint entry.2 {2}),
            (s₁.addCurrentReservation (reservation "w!2" {2} 10) true).toOption.map fun _ => true))) =
      some (some (([reservation "w!1" {0, 1} 10, reservation "w!2" {2} 10], true), some (true, some true))) := by decide +kernel
  obtain ⟨s, hs, hremove⟩ := toOption_map_eq_some.1 hrun
  obtain ⟨⟨s₀, due, ready⟩, hready, hadds⟩ := toOption_map_eq_some.1 hremove
  obtain ⟨hdue, hadds⟩ := Prod.mk.inj hadds
  obtain ⟨rfl, rfl⟩ := Prod.mk.inj hdue
  obtain ⟨s₁, hearlier, hlast⟩ := toOption_map_eq_some.1 hadds
  obtain ⟨hcond, hadd⟩ := Prod.mk.inj hlast
  obtain ⟨⟨s', alloc⟩, hadd, _⟩ := toOption_map_eq_some.1 hadd
  obtain ⟨hsuffice, hfree⟩ := of_decide_eq_true hcond
  exact ⟨s₁, s', alloc, (current_reservation_placed_iff sorter 4 0 callsOk s s₀ _ hs hready (by decide +kernel)
    [(reservation "w!1" {0, 1} 10, true)] (reservation "w!2" {2} 10) true (List.Subperm.refl _) s₁ s' alloc hearlier hadd).2
      ⟨hsuffice, freeOfOthers_of_slices hfree⟩⟩

open CurrentReservationWitness in
/-- A reservation that starts late by less than the tolerance is given its machine also where the next one has it; and one of which a
machine is under repair is placed where the counts suffice, later than now. -/
theorem current_reservation_placed_false :
    ¬ (∀ (sorter : Sorter LargestFirst) (n : ℕ) (t0 : ℚ) (calls : List MixedCall) (s s₀ : Schedule) (due : List Job),
      runFrom (MixedCall.run sorter) (Schedule.new n t0) calls = .ok s → s.removeReservationsIfReady [] = .ok (s₀, due, true) →
      (∀ job ∈ due, job.hasWalltime = true ∧ 0 < job.walltime ∧ job.futureAllocations.card = job.nbRequestedResources) →
      due.Pairwise (fun job other => Disjoint job.futureAllocations other.futureAllocations) →
      ∀ (earlier : List (Job × Bool)) (job : Job), (earlier.map Prod.fst ++ [job]).Subperm due →
      ∀ (s₁ s' : Schedule) (alloc : JobAlloc),
        runFrom (ReservationCall.run sorter) s₀ (earlier.map fun add => .addCurrentReservation add.1 add.2) = .ok s₁ →
        s₁.addCurrentReservation job true = .ok (s', alloc) → PlacedNow s₁ s' job alloc ∨ LeftAlone s₁ s' alloc) ∧
    (runFrom (MixedCall.run sorter) (Schedule.new 3 0) callsRepair).toOption.bind (fun s =>
      (s.removeReservationsIfReady []).toOption.bind fun r =>
        (r.1.addCurrentReservation (reservation "w!1" {0, 1} 10) true).toOption.map fun added =>
          (r.2, r.1.firstSliceBegin, added.2.beginDate)) = some (([reservation "w!1" {0, 1} 10], true), 10, 15) := by
  refine ⟨fun h => ?_, by decide +kernel⟩
  have hrun : (runFrom (MixedCall.run sorter) (Schedule.new 2 0) callsLate).toOption.map (fun s =>
      (s.removeReservationsIfReady []).toOption.map fun r => (r.2,
        (r.1.addCurrentReservation (reservation "w!1" {0} 10) true).toOption.map fun added =>
          (r.1.firstSliceBegin, added.2.hasBeenInserted,
            decide ((added.1.atDate 20).map (fun content => content.allocatedJobs.find? (reservation "w!2" {0} 20)) =
              some (some {0}))))) =
      some (some (([reservation "w!1" {0} 10], true), some (10 + 1 / 100000, true, true))) := by decide +kernel
  obtain ⟨s, hs, hremove⟩ := toOption_map_eq_some.1 hrun
  obtain ⟨⟨s₀, due, ready⟩, hready, hadd⟩ := toOption_map_eq_some.1 hremove
  obtain ⟨hdue, hadd⟩ := Prod.mk.inj hadd
  obtain ⟨rfl, rfl⟩ := Prod.mk.inj hdue
  obtain ⟨⟨s', alloc⟩, hadd, hresult⟩ := toOption_map_eq_some.1 hadd
  obtain ⟨hbegin, hresult⟩ := Prod.mk.inj hresult
  obtain ⟨hinserted, hheld⟩ := Prod.mk.inj hresult
  obtain ⟨content, hcontent, hheld⟩ := Option.map_eq_some_iff.1 (of_decide_eq_true hheld)
  rcases h sorter 2 0 callsLate s s₀ _ hs hready (by decide +kernel) (List.pairwise_singleton _ _) [] _ (List.Subperm.refl _) s₀ s'
    alloc rfl hadd with hplaced | halone
  · have hdisjoint := hplaced.alone 20 (by rw [hbegin]; decide +kernel) (by rw [hbegin]; decide +kernel) content hcontent
      (reservation "w!2" {0} 20) (by decide) {0} hheld
    exact absurd hdisjoint (by decide)
  · rw [halone.notInserted] at hinserted
    cases hinserted

end ScheduleTest
