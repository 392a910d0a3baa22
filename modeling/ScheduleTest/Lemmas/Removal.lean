import ScheduleTest.Lemmas.Profile

/-!
# Removing a job from a profile

`removeFrom` erases a job from the slices of its run and merges neighbours as it goes. It is a sequence of two kinds of steps,
an erasure in the first slice that still holds the job and a merge of two neighbours, and `removeFrom_rule` carries a property
of the profile through them. The neighbours that are merged hold the same jobs on the same machines, because the joined ids of
a slice name its jobs (`NamedJobs`) and a job has the same machines in every slice of its run (`allocatedJobs_eq`).
-/

namespace ScheduleTest

/-- Putting a slice behind others either appends it or merges it with the nearest. -/
theorem appendMerging_cases {before before' : List TimeSlice} {pit : TimeSlice} (h : appendMerging before pit = .ok before') :
    before' = pit :: before ∨ ∃ previous older merged, before = previous :: older ∧
      previous.mergeWithPrevious pit = .ok (some merged) ∧ before' = merged :: older := by
  cases before with
  | nil =>
    cases h
    exact Or.inl rfl
  | cons previous older =>
    rw [appendMerging] at h
    split at h
    · rename_i merged hm
      cases h
      exact Or.inr ⟨previous, older, merged, rfl, hm, rfl⟩
    · cases h
      exact Or.inl rfl
    · nomatch h

theorem containsJob_eraseJob (job : Job) (ms : IntervalSet) (s : TimeSlice) : (s.eraseJob job ms).containsJob job = false := by
  rw [containsJob_eq_isSome, machinesOf_eraseJob, if_pos rfl]
  rfl

@[simp] theorem containsJob_retime (job : Job) (s : TimeSlice) (b e l : ℚ) :
    (s.retime b e l).containsJob job = s.containsJob job := rfl

section Rules

variable {P : List TimeSlice → Prop} {job : Job} {ms : IntervalSet}

/-- A property of profiles that merging neighbours keeps is kept when a slice is put behind others. -/
theorem appendMerging_rule
    (merge : ∀ l previous pit merged r, P (l ++ previous :: pit :: r) → previous.mergeWithPrevious pit = .ok (some merged) →
      P (l ++ merged :: r))
    {before before' r : List TimeSlice} {pit : TimeSlice} (h : P (before.reverse ++ pit :: r))
    (ha : appendMerging before pit = .ok before') : P (before'.reverse ++ r) := by
  rcases appendMerging_cases ha with rfl | ⟨previous, older, merged, rfl, hm, rfl⟩
  · rwa [List.reverse_cons, List.append_assoc, List.singleton_append]
  · rw [List.reverse_cons, List.append_assoc, List.singleton_append] at h ⊢
    exact merge _ _ _ _ _ h hm

/-- The slices behind which a slice without the job is put do not hold the job either. -/
theorem appendMerging_absent {before before' : List TimeSlice} {pit : TimeSlice}
    (hb : ∀ s ∈ before, s.containsJob job = false) (hp : pit.containsJob job = false)
    (ha : appendMerging before pit = .ok before') : ∀ s ∈ before', s.containsJob job = false := by
  rcases appendMerging_cases ha with rfl | ⟨previous, older, merged, rfl, hm, rfl⟩
  · intro s hs
    rcases List.mem_cons.1 hs with rfl | hs
    · exact hp
    · exact hb s hs
  · intro s hs
    rcases List.mem_cons.1 hs with rfl | hs
    · rw [(mergeWithPrevious_some hm).1]
      exact hp
    · exact hb s (List.mem_cons_of_mem _ hs)

/-- A property of profiles that is kept by erasing the job from the first slice holding it, and by merging neighbours, is kept
by the removal of the job. -/
theorem removeFrom_rule
    (erase : ∀ l pit r, P (l ++ pit :: r) → (∀ s ∈ l, s.containsJob job = false) → pit.containsJob job = true →
      P (l ++ pit.eraseJob job ms :: r))
    (merge : ∀ l previous pit merged r, P (l ++ previous :: pit :: r) → previous.mergeWithPrevious pit = .ok (some merged) →
      P (l ++ merged :: r))
    {before after p' : List TimeSlice} (hb : ∀ s ∈ before, s.containsJob job = false) (h : P (before.reverse ++ after))
    (hr : removeFrom job ms before after = .ok p') : P p' := by
  induction after generalizing before with
  | nil =>
    cases hr
    rwa [List.append_nil] at h
  | cons pit rest ih =>
    rw [removeFrom] at hr
    split at hr
    · rename_i hc
      split at hr
      · rename_i before' ha
        have h' := erase _ _ _ h (fun s hs => hb s (List.mem_reverse.1 hs)) hc
        exact ih (appendMerging_absent hb (containsJob_eraseJob job ms pit) ha) (appendMerging_rule merge h' ha) hr
      · nomatch hr
    · split at hr
      · rename_i before' ha
        cases hr
        exact appendMerging_rule merge h ha
      · nomatch hr

/-- Where the property makes every merge of neighbours pass its assertion, the removal goes through. -/
theorem removeFrom_total
    (erase : ∀ l pit r, P (l ++ pit :: r) → (∀ s ∈ l, s.containsJob job = false) → pit.containsJob job = true →
      P (l ++ pit.eraseJob job ms :: r))
    (merge : ∀ l previous pit merged r, P (l ++ previous :: pit :: r) → previous.mergeWithPrevious pit = .ok (some merged) →
      P (l ++ merged :: r))
    (agree : ∀ l previous pit r, P (l ++ previous :: pit :: r) → ∃ o, previous.mergeWithPrevious pit = .ok o)
    {before after : List TimeSlice} (hb : ∀ s ∈ before, s.containsJob job = false) (h : P (before.reverse ++ after)) :
    ∃ p', removeFrom job ms before after = .ok p' := by
  have append_ok : ∀ {before : List TimeSlice} {pit : TimeSlice} {r : List TimeSlice}, P (before.reverse ++ pit :: r) →
      ∃ before', appendMerging before pit = .ok before' := by
    intro before pit r h
    cases before with
    | nil => exact ⟨[pit], rfl⟩
    | cons previous older =>
      rw [List.reverse_cons, List.append_assoc, List.singleton_append] at h
      obtain ⟨o, ho⟩ := agree _ _ _ _ h
      cases o with
      | none => exact ⟨pit :: previous :: older, by rw [appendMerging, ho]⟩
      | some merged => exact ⟨merged :: older, by rw [appendMerging, ho]⟩
  induction after generalizing before with
  | nil => exact ⟨before.reverse, rfl⟩
  | cons pit rest ih =>
    rw [removeFrom]
    split
    · rename_i hc
      have h' := erase _ _ _ h (fun s hs => hb s (List.mem_reverse.1 hs)) hc
      obtain ⟨before', ha⟩ := append_ok h'
      rw [ha]
      exact ih (appendMerging_absent hb (containsJob_eraseJob job ms pit) ha) (appendMerging_rule merge h' ha)
    · obtain ⟨before', ha⟩ := append_ok h
      rw [ha]
      exact ⟨_, rfl⟩

/-- The only abort of a removal is a merge that fails. -/
theorem removeFrom_error {before after : List TimeSlice} {e : Abort} (hr : removeFrom job ms before after = .error e) :
    e = .mergeMismatch := by
  have append_error : ∀ {before : List TimeSlice} {pit : TimeSlice} {e : Abort}, appendMerging before pit = .error e →
      e = .mergeMismatch := by
    intro before pit e h
    cases before with
    | nil => cases h
    | cons previous older =>
      rw [appendMerging] at h
      split at h
      · cases h
      · cases h
      · rename_i heq
        cases h
        unfold TimeSlice.mergeWithPrevious at heq
        split at heq
        · split at heq
          · cases heq
          · exact (Except.error.inj heq).symm
        · cases heq
  induction after generalizing before with
  | nil => cases hr
  | cons pit rest ih =>
    rw [removeFrom] at hr
    split at hr
    · split at hr
      · exact ih hr
      · rename_i ha
        cases hr
        exact append_error ha
    · split at hr
      · cases hr
      · rename_i ha
        cases hr
        exact append_error ha

/-- After the removal of a job that occupies one run of slices, no slice holds it. -/
theorem removeFrom_absent {before after p' : List TimeSlice} {m : IntervalSet}
    (hb : ∀ s ∈ before, s.containsJob job = false) (hrun : (after.map (machinesOf job)).RunTail m)
    (hr : removeFrom job ms before after = .ok p') : ∀ s ∈ p', s.containsJob job = false := by
  induction after generalizing before with
  | nil =>
    cases hr
    exact fun s hs => hb s (List.mem_reverse.1 hs)
  | cons pit rest ih =>
    rw [removeFrom] at hr
    split at hr
    · rename_i hc
      split at hr
      · rename_i before' ha
        rw [containsJob_eq_isSome] at hc
        obtain ⟨m', hm'⟩ := Option.isSome_iff_exists.1 hc
        rw [List.map_cons, hm'] at hrun
        exact ih (appendMerging_absent hb (containsJob_eraseJob job ms pit) ha) hrun.2 hr
      · nomatch hr
    · rename_i hc
      rw [Bool.not_eq_true] at hc
      split at hr
      · rename_i before' ha
        cases hr
        rw [List.map_cons, machinesOf_eq_none hc] at hrun
        intro s hs
        rcases List.mem_append.1 hs with hs | hs
        · exact appendMerging_absent hb hc ha s (List.mem_reverse.1 hs)
        · rw [containsJob_eq_isSome, hrun _ (List.mem_map_of_mem hs)]
          rfl
      · nomatch hr

end Rules

end ScheduleTest
