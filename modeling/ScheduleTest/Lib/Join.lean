import Mathlib.Data.List.Basic

/-!
# Joining strings with a separator

A list of non-empty strings that do not contain the separator is given back by splitting what they join to, so joining is
injective on such lists (`String.intercalate_inj`). The empty string has to be left out: alone it joins to the same text as no
string at all. Strings that contain the separator still join injectively where each contains a mark once, with no separator before
it (`String.intercalate_inj_of_marked`): the last separator before a mark is where the string of that mark begins.
-/

namespace List

variable {α : Type*} {c m : α}

/-- What stands before the first mark, and what stands after it, is known. -/
theorem append_cons_inj_of_notMem_left {x x' z z' : List α} (hx : m ∉ x) (hx' : m ∉ x') (h : x ++ m :: z = x' ++ m :: z') :
    x = x' ∧ z = z' := by
  induction x generalizing x' with
  | nil =>
    cases x' with
    | nil => simpa using h
    | cons a x' => exact absurd (List.cons.inj h).1 fun heq => hx' (heq ▸ List.mem_cons_self)
  | cons a x ih =>
    cases x' with
    | nil => exact absurd (List.cons.inj h).1.symm fun heq => hx (heq ▸ List.mem_cons_self)
    | cons a' x' =>
      obtain ⟨rfl, hrest⟩ := List.cons.inj h
      obtain ⟨rfl, hz⟩ := ih (fun hmem => hx (List.mem_cons_of_mem _ hmem)) (fun hmem => hx' (List.mem_cons_of_mem _ hmem)) hrest
      exact ⟨rfl, hz⟩

/-- What stands before the last mark, and what stands after it, is known. -/
theorem append_cons_inj_of_notMem_right {x x' z z' : List α} (hz : m ∉ z) (hz' : m ∉ z') (h : x ++ m :: z = x' ++ m :: z') :
    x = x' ∧ z = z' := by
  have hreverse := congrArg reverse h
  simp only [reverse_append, reverse_cons, append_assoc, singleton_append] at hreverse
  obtain ⟨hz, hx⟩ := append_cons_inj_of_notMem_left (by simpa using hz) (by simpa using hz') hreverse
  exact ⟨reverse_injective hx, reverse_injective hz⟩

/-- The list contains the mark once, and no separator before it. -/
def Marked (c m : α) (s : List α) : Prop := ∃ w k, s = w ++ m :: k ∧ c ∉ w ∧ m ∉ w ∧ m ∉ k

/-- What follows a marked list in a list that is joined. -/
private theorem intercalate_cons_marked {l : List (List α)} (u k : List α) (hl : ∀ t ∈ l, Marked c m t) :
    (l = [] ∧ [c].intercalate ((u ++ m :: k) :: l) = u ++ m :: k) ∨ ∃ w z, c ∉ w ∧ m ∉ w ∧ [c].intercalate l = w ++ m :: z ∧
      [c].intercalate ((u ++ m :: k) :: l) = u ++ m :: (k ++ c :: (w ++ m :: z)) := by
  cases l with
  | nil => exact .inl ⟨rfl, by simp⟩
  | cons t l =>
    obtain ⟨w, k', rfl, hc, hm, _⟩ := hl t mem_cons_self
    refine .inr ⟨w, k' ++ [c].intercalate ([] :: l), hc, hm, ?_, ?_⟩
    · cases l <;> simp
    · cases l <;> simp

/-- Lists of marked lists that join to the same list are equal. -/
theorem intercalate_inj_of_marked (hne : c ≠ m) {l l' : List (List α)} (hl : ∀ s ∈ l, Marked c m s) (hl' : ∀ s ∈ l', Marked c m s)
    (h : [c].intercalate l = [c].intercalate l') : l = l' := by
  induction l generalizing l' with
  | nil =>
    cases l' with
    | nil => rfl
    | cons s' l' =>
      obtain ⟨w, k, rfl, -⟩ := hl' s' mem_cons_self
      cases l' <;> simp at h
  | cons s l ih =>
    cases l' with
    | nil =>
      obtain ⟨w, k, rfl, -⟩ := hl s mem_cons_self
      cases l <;> simp at h
    | cons s' l' =>
      have hrest : ∀ t ∈ l, Marked c m t := fun t ht => hl t (mem_cons_of_mem _ ht)
      have hrest' : ∀ t ∈ l', Marked c m t := fun t ht => hl' t (mem_cons_of_mem _ ht)
      obtain ⟨w, k, rfl, -, hw, hk⟩ := hl s mem_cons_self
      obtain ⟨w', k', rfl, -, hw', hk'⟩ := hl' s' mem_cons_self
      rcases intercalate_cons_marked w k hrest with ⟨rfl, hs⟩ | ⟨v, z, hcv, hmv, hj, hs⟩ <;>
        rcases intercalate_cons_marked w' k' hrest' with ⟨rfl, hs'⟩ | ⟨v', z', hcv', hmv', hj', hs'⟩ <;>
        rw [hs, hs'] at h <;>
        obtain ⟨rfl, htail⟩ := append_cons_inj_of_notMem_left hw hw' h
      · rw [htail]
      · exact absurd (htail ▸ hk) (by simp)
      · exact absurd (htail.symm ▸ hk') (by simp)
      · -- the next mark is the same one, and the last separator before it
        have hsplit : (k ++ c :: v) ++ m :: z = (k' ++ c :: v') ++ m :: z' := by simpa using htail
        obtain ⟨hbefore, rfl⟩ := append_cons_inj_of_notMem_left (by simp [hk, hmv, hne.symm]) (by simp [hk', hmv', hne.symm]) hsplit
        obtain ⟨rfl, rfl⟩ := append_cons_inj_of_notMem_right hcv hcv' hbefore
        rw [ih hrest hrest' (hj.trans hj'.symm)]

end List

namespace String

/-- Lists of non-empty strings without the separator that join to the same text are equal. -/
theorem intercalate_inj {sep : String} {c : Char} (hsep : sep.toList = [c]) {l l' : List String}
    (hl : ∀ s ∈ l, s ≠ "" ∧ c ∉ s.toList) (hl' : ∀ s ∈ l', s ≠ "" ∧ c ∉ s.toList)
    (h : sep.intercalate l = sep.intercalate l') : l = l' := by
  have key : ∀ k : List String, (∀ s ∈ k, s ≠ "" ∧ c ∉ s.toList) → k ≠ [] →
      ((sep.intercalate k).toList.splitOn c = k.map toList) := by
    intro k hk hne
    rw [toList_intercalate, hsep]
    refine List.splitOn_intercalate c ?_ (by simpa using hne)
    intro x hx
    obtain ⟨s, hs, rfl⟩ := List.mem_map.1 hx
    exact (hk s hs).2
  have nil_of : ∀ k : List String, (∀ s ∈ k, s ≠ "" ∧ c ∉ s.toList) → sep.intercalate k = "" → k = [] := by
    intro k hk hempty
    by_contra hne
    have h1 := key k hk hne
    rw [hempty] at h1
    -- splitting the empty text gives one empty string, which is not among the strings joined
    have h2 : [] ∈ k.map toList := by
      rw [← h1]
      simp
    obtain ⟨s, hs, hs'⟩ := List.mem_map.1 h2
    exact (hk s hs).1 (by simpa using hs')
  by_cases h0 : l = []
  · subst h0
    exact (nil_of l' hl' (by rw [← h, intercalate_nil])).symm
  · by_cases h0' : l' = []
    · subst h0'
      exact nil_of l hl (by rw [h, intercalate_nil])
    · have h1 : l.map toList = l'.map toList := by
        rw [← key l hl h0, ← key l' hl' h0', h]
      exact (List.map_injective_iff.2 fun _ _ => toList_inj.1) h1

/-- Lists of marked strings that join to the same text are equal. -/
theorem intercalate_inj_of_marked {sep : String} {c m : Char} (hsep : sep.toList = [c]) (hne : c ≠ m) {l l' : List String}
    (hl : ∀ s ∈ l, List.Marked c m s.toList) (hl' : ∀ s ∈ l', List.Marked c m s.toList)
    (h : sep.intercalate l = sep.intercalate l') : l = l' := by
  have hlists : [c].intercalate (l.map toList) = [c].intercalate (l'.map toList) := by
    rw [← hsep, ← toList_intercalate, ← toList_intercalate, h]
  refine (List.map_injective_iff.2 fun _ _ => toList_inj.1) (List.intercalate_inj_of_marked hne ?_ ?_ hlists)
  · simpa using hl
  · simpa using hl'

end String
