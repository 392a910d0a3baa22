import Mathlib.Data.List.Sort
import Mathlib.Data.List.Perm.Basic

/-!
# Sorting with an unspecified order of equal elements

A sorting routine that is not stable promises a permutation in order and nothing else. A `Sorter` is such a routine: results
about a program that sorts hold for every sorter.
-/

/-- A function that puts a list into the order `r`. -/
structure Sorter {α : Type*} (r : α → α → Prop) where
  sort : List α → List α
  perm : ∀ l, (sort l).Perm l
  sorted : ∀ l, (sort l).Pairwise r

namespace Sorter

variable {α : Type*} {r : α → α → Prop}

/-- Sorting keeps the elements. -/
@[simp] theorem mem_sort (f : Sorter r) {l : List α} {x : α} : x ∈ f.sort l ↔ x ∈ l :=
  (f.perm l).mem_iff

/-- A sorting routine that is stable, for a total order that can be decided. -/
def stable (r : α → α → Prop) [DecidableRel r] [Std.Total r] [IsTrans α r] : Sorter r where
  sort := List.insertionSort r
  perm := List.perm_insertionSort r
  sorted := List.pairwise_insertionSort r

end Sorter
