import Mathlib.Algebra.BigOperators.Group.List.Basic
import Mathlib.Algebra.Ring.Nat
import Mathlib.Data.Finset.Card
import Mathlib.Data.List.Perm.Basic

/-!
# A set divided among owners

`Divided all free parts` says that every element of a finite set is free or in exactly one of some parts. Owners take free elements
and give theirs back (`Divided.take`, `Divided.giveBack`), in whatever order they are listed (`Divided.perm`).

That some sets divide a set is also said by the sum of their multisets. Moving elements from one set to another keeps the sum
(`Finset.val_union_of_nodup`, `Finset.val_sdiff_add_val`).
-/

variable {α : Type*}

namespace Finset

variable [DecidableEq α] {s t : Finset α}

/-- The union of two sets that share no element is their sum. -/
theorem val_union_of_nodup (h : (s.val + t.val).Nodup) : (s ∪ t).val = s.val + t.val := by
  rw [Finset.union_val, Multiset.add_eq_union_iff_disjoint.2 (Multiset.nodup_add.1 h).2.2]

/-- A set is the sum of a part of it and the rest. -/
theorem val_sdiff_add_val (h : t ⊆ s) : (s \ t).val + t.val = s.val := by
  rw [Finset.sdiff_val, Multiset.sub_add_cancel (Finset.val_le_iff.2 h)]

end Finset

/-- The elements of a set are free or in one of some parts, and in no two of them. -/
structure Divided (all free : Finset α) (parts : List (Finset α)) : Prop where
  mem : ∀ x, x ∈ all ↔ x ∈ free ∨ ∃ part ∈ parts, x ∈ part
  free : ∀ part ∈ parts, Disjoint free part
  parts : parts.Pairwise Disjoint

namespace Divided

variable {all free part : Finset α} {parts parts' : List (Finset α)}

/-- At first everything is free. -/
theorem new (all : Finset α) : Divided all all [] where
  mem := by simp
  free := nofun
  parts := .nil

theorem perm (h : Divided all free parts) (hp : parts'.Perm parts) : Divided all free parts' where
  mem := fun x => (h.mem x).trans (by simp [hp.mem_iff])
  free := fun part hmem => h.free part (hp.mem_iff.1 hmem)
  parts := (hp.pairwise_iff fun hd => hd.symm).2 h.parts

variable [DecidableEq α]

/-- An owner takes free elements. -/
theorem take (h : Divided all free parts) (hsub : part ⊆ free) : Divided all (free \ part) (part :: parts) where
  mem := by
    intro x
    have hx := @hsub x
    simp only [h.mem, Finset.mem_sdiff, List.mem_cons, exists_eq_or_imp]
    tauto
  free := by
    intro other hmem
    rcases List.mem_cons.1 hmem with rfl | hmem
    · exact Finset.sdiff_disjoint
    · exact Finset.disjoint_of_subset_left Finset.sdiff_subset (h.free other hmem)
  parts := List.pairwise_cons.2 ⟨fun other hmem => Finset.disjoint_of_subset_left hsub (h.free other hmem), h.parts⟩

/-- An owner gives its elements back. -/
theorem giveBack (h : Divided all free (part :: parts)) : Divided all (free ∪ part) parts where
  mem := by
    intro x
    simp only [h.mem, Finset.mem_union, List.mem_cons, exists_eq_or_imp]
    tauto
  free := by
    intro other hmem
    refine Finset.disjoint_union_left.2 ⟨h.free other (List.mem_cons_of_mem _ hmem), ?_⟩
    exact (List.pairwise_cons.1 h.parts).1 other hmem
  parts := (List.pairwise_cons.1 h.parts).2

/-- How many elements are free when an owner has taken some. -/
theorem card_take (hsub : part ⊆ free) : ((free \ part).card : ℤ) = free.card - part.card := by
  have hsum := Finset.card_sdiff_add_card_eq_card hsub
  omega

/-- How many elements are free when an owner has given its own back. -/
theorem card_giveBack (h : Divided all free (part :: parts)) : ((free ∪ part).card : ℤ) = free.card + part.card := by
  have hunion := Finset.card_union_of_disjoint (h.free part List.mem_cons_self)
  omega

/-- All elements are free or in the parts. -/
theorem card_add_sum (h : Divided all free parts) : all.card = free.card + (parts.map Finset.card).sum := by
  induction parts generalizing free with
  | nil =>
    have hall : all = free := by
      ext x
      simpa using h.mem x
    simp [hall]
  | cons part parts ih =>
    have hrest := ih h.giveBack
    have hunion := h.card_giveBack
    rw [List.map_cons, List.sum_cons]
    omega

end Divided
