import Mathlib.Data.Finset.Sort
import Mathlib.Order.Interval.Finset.Nat
import ScheduleTest.Lib.Leftmost

/-!
# The intervals of a finite set of numbers

A finite set of numbers is a union of intervals with gaps between them, listed here in increasing order by their lower and upper
ends. Consecutive numbers of the set lie in one of the intervals.
-/

namespace Finset

/-- Put a number before some intervals that begin after it: it extends the first where it is just below it. -/
def consInterval (x : ℕ) : List (ℕ × ℕ) → List (ℕ × ℕ)
  | [] => [(x, x)]
  | (lower, upper) :: rest => if x + 1 = lower then (x, upper) :: rest else (x, x) :: (lower, upper) :: rest

/-- The intervals of a set, in increasing order. -/
def intervals (s : Finset ℕ) : List (ℕ × ℕ) := (s.sort (· ≤ ·)).foldr consInterval []

variable {l : List ℕ} {x lower upper : ℕ}

/-- The first interval begins with the number put before the others, and the others are there, but for the one extended. -/
theorem consInterval_eq (x : ℕ) (is : List (ℕ × ℕ)) :
    (∃ upper rest, is = (x + 1, upper) :: rest ∧ consInterval x is = (x, upper) :: rest) ∨
      consInterval x is = (x, x) :: is ∧ ∀ upper rest, is ≠ (x + 1, upper) :: rest := by
  cases is with
  | nil => exact Or.inr ⟨rfl, nofun⟩
  | cons i rest =>
    obtain ⟨lower, upper⟩ := i
    rw [consInterval]
    split
    · rename_i h
      exact Or.inl ⟨upper, rest, by rw [h], rfl⟩
    · rename_i h
      refine Or.inr ⟨rfl, fun u r heq => h ?_⟩
      exact (Prod.mk.inj (List.cons.inj heq).1).1.symm

/-- The intervals are not empty, and hold numbers of the list only. -/
theorem mem_of_mem_foldr (l : List ℕ) :
    ∀ i ∈ l.foldr consInterval [], i.1 ≤ i.2 ∧ ∀ x, i.1 ≤ x → x ≤ i.2 → x ∈ l := by
  induction l with
  | nil => nofun
  | cons y l ih =>
    intro i hi
    rw [List.foldr_cons] at hi
    rcases consInterval_eq y (l.foldr consInterval []) with ⟨upper, rest, his, heq⟩ | ⟨heq, _⟩
    · rw [heq] at hi
      rw [his] at ih
      rcases List.mem_cons.1 hi with rfl | hi
      · obtain ⟨hle, hmem⟩ := ih (y + 1, upper) List.mem_cons_self
        refine ⟨by simp only at hle ⊢; omega, fun x hx hx' => ?_⟩
        rcases Nat.eq_or_lt_of_le hx with rfl | hlt
        · exact List.mem_cons_self
        · exact List.mem_cons_of_mem _ (hmem x hlt hx')
      · obtain ⟨hle, hmem⟩ := ih i (List.mem_cons_of_mem _ hi)
        exact ⟨hle, fun x hx hx' => List.mem_cons_of_mem _ (hmem x hx hx')⟩
    · rw [heq] at hi
      rcases List.mem_cons.1 hi with rfl | hi
      · refine ⟨le_rfl, fun x hx hx' => ?_⟩
        rw [Nat.le_antisymm hx' hx]
        exact List.mem_cons_self
      · obtain ⟨hle, hmem⟩ := ih i hi
        exact ⟨hle, fun x hx hx' => List.mem_cons_of_mem _ (hmem x hx hx')⟩

/-- The numbers that follow the first number of the list without a gap are in the first interval. -/
theorem head_foldr {y : ℕ} (hl : (y :: l).Pairwise (· < ·)) (hle : y ≤ upper)
    (hmem : ∀ x, y ≤ x → x ≤ upper → x ∈ y :: l) :
    ∃ u rest, (y :: l).foldr consInterval [] = (y, u) :: rest ∧ upper ≤ u := by
  induction l generalizing y with
  | nil =>
    have := hmem upper hle le_rfl
    exact ⟨y, [], rfl, (List.mem_singleton.1 this).le⟩
  | cons z l ih =>
    obtain ⟨hy, hl'⟩ := List.pairwise_cons.1 hl
    -- where more numbers follow, the next of the list is the next number
    have next : y < upper → ∃ u rest, (z :: l).foldr consInterval [] = (y + 1, u) :: rest ∧ upper ≤ u := by
      intro hlt
      have hz : z = y + 1 := by
        rcases List.mem_cons.1 ((List.mem_cons.1 (hmem (y + 1) (Nat.le_succ y) hlt)).resolve_left (by omega)) with h | h
        · exact h.symm
        · have := hy z List.mem_cons_self
          have := (List.pairwise_cons.1 hl').1 _ h
          omega
      subst hz
      exact ih hl' hlt fun x hx hx' => (List.mem_cons.1 (hmem x (by omega) hx')).resolve_left (by omega)
    rcases consInterval_eq y ((z :: l).foldr consInterval []) with ⟨u, rest, his, heq⟩ | ⟨heq, hno⟩
    · refine ⟨u, rest, heq, ?_⟩
      have hpos := (mem_of_mem_foldr (z :: l) (y + 1, u) (by rw [his]; exact List.mem_cons_self)).1
      rcases Nat.eq_or_lt_of_le hle with rfl | hlt
      · exact (Nat.le_succ y).trans hpos
      · obtain ⟨u', rest', his', hu'⟩ := next hlt
        rw [his] at his'
        exact (Prod.mk.inj (List.cons.inj his').1).2 ▸ hu'
    · refine ⟨y, _, heq, not_lt.1 fun hlt => ?_⟩
      obtain ⟨u', rest', his', _⟩ := next hlt
      exact hno u' rest' his'

/-- Consecutive numbers of the list are in one of the intervals. -/
theorem exists_mem_foldr (hl : l.Pairwise (· < ·)) (hle : lower ≤ upper) (hmem : ∀ x, lower ≤ x → x ≤ upper → x ∈ l) :
    ∃ i ∈ l.foldr consInterval [], i.1 ≤ lower ∧ upper ≤ i.2 := by
  induction l with
  | nil => nomatch hmem lower le_rfl hle
  | cons y l ih =>
    obtain ⟨hy, hl'⟩ := List.pairwise_cons.1 hl
    rcases List.mem_cons.1 (hmem lower le_rfl hle) with rfl | hlow
    · obtain ⟨u, rest, heq, hu⟩ := head_foldr hl hle hmem
      rw [heq]
      exact ⟨_, List.mem_cons_self, le_rfl, hu⟩
    · have hlt := hy lower hlow
      obtain ⟨i, hi, h1, h2⟩ := ih hl' fun x hx hx' => (List.mem_cons.1 (hmem x hx hx')).resolve_left (by omega)
      rw [List.foldr_cons]
      rcases consInterval_eq y (l.foldr consInterval []) with ⟨u, rest, his, heq⟩ | ⟨heq, _⟩
      · rw [heq]
        rw [his] at hi
        rcases List.mem_cons.1 hi with rfl | hi
        · exact ⟨_, List.mem_cons_self, hlt.le, h2⟩
        · exact ⟨i, List.mem_cons_of_mem _ hi, h1, h2⟩
      · rw [heq]
        exact ⟨i, List.mem_cons_of_mem _ hi, h1, h2⟩

variable {s : Finset ℕ}

/-- An interval of a set is a part of it. -/
theorem Icc_subset_of_mem_intervals {i : ℕ × ℕ} (h : i ∈ s.intervals) : i.1 ≤ i.2 ∧ Finset.Icc i.1 i.2 ⊆ s := by
  obtain ⟨hle, hmem⟩ := mem_of_mem_foldr _ i h
  refine ⟨hle, fun x hx => ?_⟩
  obtain ⟨h1, h2⟩ := Finset.mem_Icc.1 hx
  exact (Finset.mem_sort (· ≤ ·)).1 (hmem x h1 h2)

/-- Consecutive numbers of a set are in one of its intervals. -/
theorem exists_mem_intervals (hle : lower ≤ upper) (h : Finset.Icc lower upper ⊆ s) :
    ∃ i ∈ s.intervals, i.1 ≤ lower ∧ upper ≤ i.2 :=
  exists_mem_foldr s.sortedLT_sort.pairwise hle fun _ hx hx' => (Finset.mem_sort (· ≤ ·)).2 (h (Finset.mem_Icc.2 ⟨hx, hx'⟩))

/-- The leftmost numbers of an interval are consecutive. -/
theorem leftmost_Icc {n : ℕ} (h : lower + n ≤ upper + 1) : (Finset.Icc lower upper).leftmost n = Finset.Ico lower (lower + n) := by
  ext x
  rw [leftmost, Finset.mem_filter, Finset.mem_Icc, Finset.mem_Ico]
  constructor
  · rintro ⟨hx, hcard⟩
    have hbelow : (Finset.Icc lower upper).filter (· < x) = Finset.Ico lower x := by
      ext y
      simp only [Finset.mem_filter, Finset.mem_Icc, Finset.mem_Ico]
      omega
    rw [hbelow, Nat.card_Ico] at hcard
    omega
  · rintro ⟨h1, h2⟩
    have hbelow : (Finset.Icc lower upper).filter (· < x) = Finset.Ico lower x := by
      ext y
      simp only [Finset.mem_filter, Finset.mem_Icc, Finset.mem_Ico]
      omega
    rw [hbelow, Nat.card_Ico]
    omega

end Finset
