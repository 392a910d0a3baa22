import ScheduleTest.Lemmas.Anchor
import ScheduleTest.Lib.OneRun
import Mathlib.Tactic.Ring

/-!
# How the operations change a profile

The profile seen in three ways: as a tiling of the time from its first date to the horizon (`Tiles`), as a list of slices that
each keep some property, and, for one job, as the list of the machines the slices give it (`machinesOf`). Placing a job and
removing one are described in each of these ways, so that an invariant of the profile needs one lemma for each.
-/

namespace ScheduleTest

/-! ## Slices that differ in their dates only -/

/-- The slice with other dates. -/
def TimeSlice.retime (s : TimeSlice) (beginDate endDate length : ℚ) : TimeSlice :=
  { s with beginDate := beginDate, endDate := endDate, length := length }

/-- A property of a slice that does not depend on its dates. -/
def Timeless (P : TimeSlice → Prop) : Prop := ∀ s b e l, P s → P (s.retime b e l)

/-- The machines a slice gives a job. -/
def machinesOf (job : Job) (s : TimeSlice) : Option IntervalSet := s.allocatedJobs.find? job

@[simp] theorem machinesOf_retime (job : Job) (s : TimeSlice) (b e l : ℚ) : machinesOf job (s.retime b e l) = machinesOf job s :=
  rfl

theorem containsJob_eq_isSome (s : TimeSlice) (job : Job) : s.containsJob job = (machinesOf job s).isSome :=
  s.allocatedJobs.contains_eq_isSome job

theorem machinesOf_eq_none {s : TimeSlice} {job : Job} (h : s.containsJob job = false) : machinesOf job s = none := by
  rw [containsJob_eq_isSome] at h
  simpa using h

/-- Giving machines to a job changes what the slice gives that job, and no other. -/
theorem machinesOf_allocateJob (job job' : Job) (used : IntervalSet) (s : TimeSlice) :
    machinesOf job' (s.allocateJob job used) = if job'.id = job.id then some used else machinesOf job' s :=
  KeyedMap.find?_insert _ _ _ _

/-- Taking out a job changes what the slice gives that job, and no other. -/
theorem machinesOf_eraseJob (job job' : Job) (ms : IntervalSet) (s : TimeSlice) :
    machinesOf job' (s.eraseJob job ms) = if job'.id = job.id then none else machinesOf job' s :=
  KeyedMap.find?_erase _ _ _

/-- The first part of a split slice is the slice with another end. -/
theorem splitSlice_fst (s : TimeSlice) (date : ℚ) : ∃ e l, (s.splitSlice date).1 = s.retime s.beginDate e l := by
  rw [TimeSlice.splitSlice]
  split
  · exact ⟨_, _, rfl⟩
  · exact ⟨s.endDate, s.length, rfl⟩

/-- The second part of a split slice is the slice with another begin. -/
theorem splitSlice_snd {s s' : TimeSlice} {date : ℚ} (h : (s.splitSlice date).2 = some s') :
    ∃ b l, s' = s.retime b s.endDate l := by
  rw [TimeSlice.splitSlice] at h
  split at h
  · cases h
    exact ⟨_, _, rfl⟩
  · nomatch h

/-- A merged slice is the later of the two with another begin, and they held the same jobs by one of the two comparisons. -/
theorem mergeWithPrevious_some {previous pit merged : TimeSlice} (h : previous.mergeWithPrevious pit = .ok (some merged)) :
    merged = pit.retime previous.beginDate pit.endDate (pit.endDate - previous.beginDate) ∧
      (previous.allocatedJobs = pit.allocatedJobs ∨ previous.jobString = pit.jobString) ∧
      previous.availableMachines = pit.availableMachines := by
  rw [TimeSlice.mergeWithPrevious] at h
  split at h
  · rename_i h1
    split at h
    · rename_i h2
      cases h
      exact ⟨rfl, h1, h2⟩
    · nomatch h
  · nomatch h

/-! ## Tilings -/

/-- The slices tile the time from `b` to `e`, one after the other, and each knows its length. -/
def Tiles (e : ℚ) : ℚ → List TimeSlice → Prop
  | b, [] => b = e
  | b, s :: rest => s.beginDate = b ∧ s.beginDate ≤ s.endDate ∧ s.length = s.endDate - s.beginDate ∧ Tiles e s.endDate rest

/-- Two tilings that meet are a tiling. -/
theorem tiles_append {b e : ℚ} {l l' : List TimeSlice} : Tiles e b (l ++ l') ↔ ∃ c, Tiles c b l ∧ Tiles e c l' := by
  induction l generalizing b with
  | nil => simp [Tiles]
  | cons s l ih =>
    simp only [List.cons_append, Tiles, ih]
    constructor
    · rintro ⟨h1, h2, h3, c, h4, h5⟩
      exact ⟨c, ⟨h1, h2, h3, h4⟩, h5⟩
    · rintro ⟨c, ⟨h1, h2, h3, h4⟩, h5⟩
      exact ⟨h1, h2, h3, c, h4, h5⟩

/-- Time runs forward along a tiling, and the lengths of its slices add up to the time they tile. -/
theorem Tiles.totalLength {b e : ℚ} {l : List TimeSlice} (h : Tiles e b l) : totalLength l = e - b ∧ b ≤ e := by
  induction l generalizing b with
  | nil => simp [show b = e from h]
  | cons s l ih =>
    obtain ⟨h1, h2, h3, h4⟩ := h
    obtain ⟨h5, h6⟩ := ih h4
    rw [totalLength_cons, h5, h3, ← h1]
    exact ⟨by ring, h2.trans h6⟩

/-- A change of the slices that keeps their dates keeps a tiling. -/
theorem Tiles.map {b e : ℚ} {l : List TimeSlice} {f : TimeSlice → TimeSlice}
    (hf : ∀ s, (f s).beginDate = s.beginDate ∧ (f s).endDate = s.endDate ∧ (f s).length = s.length) (h : Tiles e b l) :
    Tiles e b (l.map f) := by
  induction l generalizing b with
  | nil => exact h
  | cons s l ih =>
    obtain ⟨h1, h2, h3, h4⟩ := h
    obtain ⟨f1, f2, f3⟩ := hf s
    exact ⟨f1.trans h1, by rwa [f1, f2], by rw [f1, f2, f3, h3], by rw [f2]; exact ih h4⟩

/-! ## Placing a job -/

/-- The slices of the profile after a job has been placed: old slices away from the anchor, the slices taken, and what is left
of the last one. -/
theorem of_mem_placeAt {job : Job} {a : Anchor} {endDate : ℚ} {s : TimeSlice} (hs : s ∈ Schedule.placeAt job a endDate) :
    s ∈ a.before ∨ s ∈ a.rest ∨ (∃ b e l, s = a.last.retime b e l) ∨
      ∃ s' ∈ a.slices, ∃ b e l, s = (s'.retime b e l).allocateJob job a.usedMachines := by
  rw [Schedule.placeAt] at hs
  simp only [List.mem_append, List.mem_cons, List.mem_reverse, List.mem_map, Option.mem_toList] at hs
  rcases hs with (hs | ⟨s', hs', rfl⟩) | rfl | hs | hs
  · exact Or.inl hs
  · exact Or.inr (Or.inr (Or.inr ⟨s', List.mem_append_left _ hs', s'.beginDate, s'.endDate, s'.length, rfl⟩))
  · obtain ⟨e, l, h⟩ := splitSlice_fst a.last endDate
    exact Or.inr (Or.inr (Or.inr ⟨a.last, List.mem_append_right _ List.mem_cons_self, _, e, l, by rw [h]⟩))
  · obtain ⟨b, l, h⟩ := splitSlice_snd hs
    exact Or.inr (Or.inr (Or.inl ⟨b, _, l, h⟩))
  · exact Or.inr (Or.inl hs)

/-- A property of slices that does not depend on their dates holds after a placement when it holds before, and of the slices
that took the job. -/
theorem forall_placeAt {P : TimeSlice → Prop} (hP : Timeless P) {job : Job} {a : Anchor} {endDate : ℚ}
    (h : ∀ s ∈ a.before.reverse ++ (a.covered ++ a.last :: a.rest), P s)
    (ha : ∀ s ∈ a.slices, ∀ b e l, P ((s.retime b e l).allocateJob job a.usedMachines)) :
    ∀ s ∈ Schedule.placeAt job a endDate, P s := by
  intro s hs
  rcases of_mem_placeAt hs with hs | hs | ⟨b, e, l, rfl⟩ | ⟨s', hs', b, e, l, rfl⟩
  · exact h s (List.mem_append_left _ (List.mem_reverse.2 hs))
  · exact h s (List.mem_append_right _ (List.mem_append_right _ (List.mem_cons_of_mem _ hs)))
  · exact hP _ b e l (h a.last (List.mem_append_right _ (List.mem_append_right _ List.mem_cons_self)))
  · exact ha s' hs' b e l

/-- Splitting a slice that tiles some time tiles that time. -/
theorem tiles_splitSlice {b e : ℚ} {s : TimeSlice} {rest : List TimeSlice} (date : ℚ) (h : Tiles e b (s :: rest)) :
    Tiles e b ((s.splitSlice date).1 :: ((s.splitSlice date).2.toList ++ rest)) := by
  rw [TimeSlice.splitSlice]
  split
  · rename_i hd
    obtain ⟨h1, h2, h3, h4⟩ := h
    exact ⟨h1, hd.1.le, rfl, rfl, hd.2.le, rfl, h4⟩
  · exact h

/-- Placing a job keeps the tiling. -/
theorem tiles_placeAt {b e : ℚ} {job : Job} {a : Anchor} (endDate : ℚ)
    (h : Tiles e b (a.before.reverse ++ (a.covered ++ a.last :: a.rest))) : Tiles e b (Schedule.placeAt job a endDate) := by
  obtain ⟨c, h1, h2⟩ := tiles_append.1 h
  obtain ⟨d, h3, h4⟩ := tiles_append.1 h2
  have h3' : Tiles d c (a.covered.map (TimeSlice.allocateJob job a.usedMachines)) := h3.map fun _ => ⟨rfl, rfl, rfl⟩
  obtain ⟨g1, g2, g3, g4⟩ := tiles_splitSlice endDate h4
  rw [Schedule.placeAt]
  exact tiles_append.2 ⟨d, tiles_append.2 ⟨c, h1, h3'⟩, g1, g2, g3, g4⟩

/-- What the profile after a placement gives a job: what it gave it, but its machines to the job that was placed; and once more
what the last slice taken gave, where that slice was split. -/
theorem map_machinesOf_placeAt (job job' : Job) (a : Anchor) (endDate : ℚ) :
    (Schedule.placeAt job a endDate).map (machinesOf job') =
      a.before.reverse.map (machinesOf job') ++
        (a.slices.map (fun s => if job'.id = job.id then some a.usedMachines else machinesOf job' s) ++
          ((if (a.last.splitSlice endDate).2.isSome then [machinesOf job' a.last] else []) ++ a.rest.map (machinesOf job'))) := by
  obtain ⟨e, l, h1⟩ := splitSlice_fst a.last endDate
  have h2 : (a.last.splitSlice endDate).2.toList.map (machinesOf job') =
      if (a.last.splitSlice endDate).2.isSome then [machinesOf job' a.last] else [] := by
    cases h : (a.last.splitSlice endDate).2 with
    | none => rfl
    | some s' =>
      obtain ⟨b, l', rfl⟩ := splitSlice_snd h
      rfl
  simp only [Schedule.placeAt, Anchor.slices, List.map_append, List.map_cons, List.map_map, List.map_nil, h1, ← h2,
    machinesOf_allocateJob, machinesOf_retime, List.append_assoc, List.singleton_append, Function.comp_def]

/-- Placing a job that is not in the profile keeps every job in one run of slices. -/
theorem oneRun_placeAt {job job' : Job} {a : Anchor} (endDate : ℚ)
    (hrun : ((a.before.reverse ++ (a.covered ++ a.last :: a.rest)).map (machinesOf job')).OneRun)
    (hnew : ∀ s ∈ a.before.reverse ++ (a.covered ++ a.last :: a.rest), s.containsJob job = false) :
    ((Schedule.placeAt job a endDate).map (machinesOf job')).OneRun := by
  rw [map_machinesOf_placeAt]
  by_cases hid : job'.id = job.id
  · -- the job placed: nothing, then its machines, then nothing
    have hnone : ∀ s ∈ a.before.reverse ++ (a.covered ++ a.last :: a.rest), machinesOf job' s = none := by
      intro s hs
      have := machinesOf_eq_none (hnew s hs)
      rwa [machinesOf, KeyedMap.find?_eq_none, ← hid, ← KeyedMap.find?_eq_none] at this
    refine List.oneRun_append (m := a.usedMachines) ?_ ?_ ?_
    · intro x hx
      obtain ⟨s, hs, rfl⟩ := List.mem_map.1 hx
      exact hnone s (List.mem_append_left _ hs)
    · intro x hx
      obtain ⟨s, _, rfl⟩ := List.mem_map.1 hx
      rw [if_pos hid]
    · intro x hx
      rcases List.mem_append.1 hx with hx | hx
      · split at hx
        · rw [List.mem_singleton] at hx
          rw [hx]
          exact hnone _ (List.mem_append_right _ (List.mem_append_right _ List.mem_cons_self))
        · nomatch hx
      · obtain ⟨s, hs, rfl⟩ := List.mem_map.1 hx
        exact hnone s (List.mem_append_right _ (List.mem_append_right _ (List.mem_cons_of_mem _ hs)))
  · -- another job: what the last slice gives it may be repeated
    simp only [if_neg hid]
    simp only [List.map_append, List.map_cons] at hrun
    split
    · simp only [Anchor.slices, List.map_append, List.map_cons, List.map_nil, List.append_assoc, List.singleton_append]
      rw [← List.append_assoc, List.oneRun_stutter, List.append_assoc]
      exact hrun
    · simpa [Anchor.slices] using hrun

end ScheduleTest
