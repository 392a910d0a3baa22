import Mathlib.Data.Finset.Card
import Mathlib.Data.Finset.Max

/-!
# The leftmost elements of a finite set

`s.leftmost n` is the set of the `n` smallest elements of `s`, or all of `s` where it has fewer. It is stated by counting: an
element is among the `n` smallest when fewer than `n` elements are below it. Nothing here depends on what the elements are.
-/

namespace Finset

variable {α : Type*} [LinearOrder α]

/-- The `n` smallest elements of a finite set. -/
def leftmost (s : Finset α) (n : ℕ) : Finset α :=
  s.filter (fun x => (s.filter (· < x)).card < n)

/-- The leftmost elements are elements. -/
theorem leftmost_subset (s : Finset α) (n : ℕ) : s.leftmost n ⊆ s :=
  Finset.filter_subset _ _

@[simp] theorem leftmost_zero (s : Finset α) : s.leftmost 0 = ∅ := by
  simp [leftmost]

@[simp] theorem leftmost_empty (n : ℕ) : (∅ : Finset α).leftmost n = ∅ := by
  simp [leftmost]

/-- Adding a new greatest element to the set adds it to the leftmost ones exactly when there is room for it. -/
theorem leftmost_insert_max {s : Finset α} {a : α} (ha : ∀ x ∈ s, x < a) (n : ℕ) :
    (insert a s).leftmost n = if s.card < n then insert a (s.leftmost n) else s.leftmost n := by
  have hbelow : (insert a s).filter (· < a) = s := by
    rw [Finset.filter_insert, if_neg (lt_irrefl a)]
    exact Finset.filter_true_of_mem ha
  have hold : ∀ x ∈ s, (insert a s).filter (· < x) = s.filter (· < x) := by
    intro x hx
    rw [Finset.filter_insert, if_neg (not_lt.2 (ha x hx).le)]
  have hrest : s.filter (fun x => ((insert a s).filter (· < x)).card < n) = s.leftmost n := by
    refine Finset.filter_congr ?_
    intro x hx
    rw [hold x hx]
  rw [leftmost, Finset.filter_insert, hbelow, hrest]

/-- There are `n` leftmost elements, or as many as the set has. -/
theorem card_leftmost (s : Finset α) (n : ℕ) : (s.leftmost n).card = min n s.card := by
  induction s using Finset.induction_on_max with
  | empty => simp
  | insert a s ha ih =>
    have hnot : a ∉ s := fun h => lt_irrefl a (ha a h)
    have hnot' : a ∉ s.leftmost n := fun h => hnot (leftmost_subset s n h)
    rw [leftmost_insert_max ha, Finset.card_insert_of_notMem hnot]
    split
    · rw [Finset.card_insert_of_notMem hnot', ih]
      omega
    · rw [ih]
      omega

/-- Where the set has at least `n` elements, exactly `n` are leftmost. -/
theorem card_leftmost_of_le {s : Finset α} {n : ℕ} (h : n ≤ s.card) : (s.leftmost n).card = n := by
  rw [card_leftmost, min_eq_left h]

end Finset
