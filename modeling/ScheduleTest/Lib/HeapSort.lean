import Mathlib

/-!
# Heap sort in place

Sorting a vector by a key with a binary heap: the children of position `i` are `2 * i + 1` and `2 * i + 2`, a heap is built from
the last positions to the first, and then the largest element is swapped to the end of a prefix that gets shorter. The bounds of
every access are part of the definitions.
-/

namespace HeapSort

variable {α κ : Type*} [LinearOrder κ] (key : α → κ) {n : ℕ}

/-- The position with the largest key among a node and its children within the prefix: the node itself unless a child is
larger, and the left child unless the right one is larger. -/
def largest (v : Vector α n) (root size : ℕ) (hr : root < size) (hs : size ≤ n) : { m : ℕ // m < size } :=
  let m : { m : ℕ // m < size } :=
    if h : 2 * root + 1 < size then
      if key v[root] < key v[2 * root + 1] then ⟨2 * root + 1, h⟩ else ⟨root, hr⟩
    else ⟨root, hr⟩
  if h : 2 * root + 2 < size then
    if key v[m.1] < key v[2 * root + 2] then ⟨2 * root + 2, h⟩ else m
  else m

/-- What is the child of what. -/
def IsChild (c i : ℕ) : Prop := c = 2 * i + 1 ∨ c = 2 * i + 2

theorem IsChild.lt {c i : ℕ} (h : IsChild c i) : i < c := by
  unfold IsChild at h
  omega

theorem IsChild.unique {c i i' : ℕ} (h : IsChild c i) (h' : IsChild c i') : i = i' := by
  unfold IsChild at h h'
  omega

section

variable (v : Vector α n) {root size : ℕ} (hr : root < size) (hs : size ≤ n)

/-- The position found is the node or one of its children. -/
theorem largest_eq : (largest key v root size hr hs).1 = root ∨ IsChild (largest key v root size hr hs).1 root := by
  unfold largest IsChild
  grind

/-- Its key is at least the node's. -/
theorem le_largest (hm : (largest key v root size hr hs).1 < n) :
    key v[root] ≤ key v[(largest key v root size hr hs).1] := by
  unfold largest
  grind

/-- Its key is at least that of the node's children. -/
theorem child_le_largest {c : ℕ} (hc : c < size) (hchild : IsChild c root) (hm : (largest key v root size hr hs).1 < n) :
    key v[c] ≤ key v[(largest key v root size hr hs).1] := by
  unfold IsChild at hchild
  unfold largest
  grind

end

/-- Sift a node down: swap it with the larger of its children until neither is larger. -/
def maxHeapify (v : Vector α n) (root size : ℕ) (hr : root < size) (hs : size ≤ n) : Vector α n :=
  let max := largest key v root size hr hs
  if h : max.1 = root then v
  else maxHeapify (v.swap root max.1 (by omega) (by omega)) max.1 size max.2 hs
termination_by size - root
decreasing_by
  have hchild := (largest_eq key v hr hs).resolve_left h
  have hlt := hchild.lt
  omega

/-- Sift down the nodes from a position to the first. -/
def buildMaxHeap (v : Vector α n) (size : ℕ) (hs : size ≤ n) : (i : ℕ) → i < size → Vector α n
  | 0, h => maxHeapify key v 0 size h hs
  | i + 1, h => buildMaxHeap (maxHeapify key v (i + 1) size h hs) size hs i (by omega)

/-- Swap the first node to the end of the prefix, and sift down what came to the front, for a prefix that gets shorter. -/
def sortDown (v : Vector α n) : (j : ℕ) → j < n → Vector α n
  | 0, _ => v
  | j + 1, h => sortDown (maxHeapify key (v.swap 0 (j + 1) (by omega) h) 0 (j + 1) (by omega) (by omega)) j (by omega)

/-- Heap sort. -/
def sortMaxHeap (v : Vector α n) : Vector α n :=
  if h : n < 2 then v else sortDown key (buildMaxHeap key v n (Nat.le_refl n) (n / 2) (by omega)) (n - 1) (by omega)

/-! ## The elements stay -/

theorem maxHeapify_perm (v : Vector α n) (root size : ℕ) (hr : root < size) (hs : size ≤ n) :
    (maxHeapify key v root size hr hs).Perm v := by
  induction v, root, hr using maxHeapify.induct key size hs with
  | case1 v root hr max h =>
    rw [maxHeapify, dif_pos h]
  | case2 v root hr max h ih =>
    rw [maxHeapify, dif_neg h]
    exact ih.trans (Vector.swap_perm ..)

theorem buildMaxHeap_perm (v : Vector α n) (size : ℕ) (hs : size ≤ n) (i : ℕ) (hi : i < size) :
    (buildMaxHeap key v size hs i hi).Perm v := by
  induction i generalizing v with
  | zero => exact maxHeapify_perm ..
  | succ i ih => exact (ih _ _).trans (maxHeapify_perm ..)

theorem sortDown_perm (v : Vector α n) (j : ℕ) (hj : j < n) : (sortDown key v j hj).Perm v := by
  induction j generalizing v with
  | zero => exact .refl _
  | succ j ih => exact (ih _ _).trans ((maxHeapify_perm ..).trans (Vector.swap_perm ..))

/-- Sorting permutes. -/
theorem sortMaxHeap_perm (v : Vector α n) : (sortMaxHeap key v).Perm v := by
  rw [sortMaxHeap]
  split
  · exact .refl _
  · exact (sortDown_perm ..).trans (buildMaxHeap_perm ..)

/-- Sifting within a prefix leaves what is after it. -/
theorem maxHeapify_of_le {v : Vector α n} {root size : ℕ} (hr : root < size) (hs : size ≤ n) {k : ℕ} (hk : size ≤ k)
    (hkn : k < n) : (maxHeapify key v root size hr hs)[k] = v[k] := by
  induction v, root, hr using maxHeapify.induct key size hs with
  | case1 v root hr max h =>
    rw [maxHeapify, dif_pos h]
  | case2 v root hr max h ih =>
    rw [maxHeapify, dif_neg h]
    have hmax := max.2
    rw [ih, Vector.getElem_swap_of_ne] <;> omega

/-- What sifting within a prefix puts there was there. -/
theorem maxHeapify_mem (v : Vector α n) {root size : ℕ} (hr : root < size) (hs : size ≤ n) {k : ℕ} (hk : k < size) :
    ∃ l, ∃ hl : l < size, (maxHeapify key v root size hr hs)[k] = v[l] := by
  induction v, root, hr using maxHeapify.induct key size hs with
  | case1 v root hr max h =>
    rw [maxHeapify, dif_pos h]
    exact ⟨k, hk, rfl⟩
  | case2 v root hr max h ih =>
    rw [maxHeapify, dif_neg h]
    obtain ⟨l, hl, heq⟩ := ih
    refine Exists.imp (fun l' => ?_) (?_ : ∃ l', ∃ hl' : l' < size, (v.swap root max.1 (by omega) (by omega))[l] = v[l'])
    · exact fun ⟨hl', h'⟩ => ⟨hl', heq.trans h'⟩
    · by_cases hroot : l = root
      · subst hroot
        exact ⟨max.1, max.2, Vector.getElem_swap_left ..⟩
      · by_cases hmax : l = max.1
        · subst hmax
          exact ⟨root, hr, Vector.getElem_swap_right ..⟩
        · exact ⟨l, hl, Vector.getElem_swap_of_ne hroot hmax⟩

/-! ## Heaps -/

/-- A node's key is at least its children's within the prefix. -/
def HeapAt (v : Vector α n) (size : ℕ) (hs : size ≤ n) (i : ℕ) : Prop :=
  ∀ c (hc : c < size) (hi : i < n), IsChild c i → key v[c] ≤ key v[i]

/-- The nodes from `k` on are in order but for `r`, whose children are in order with its parent. -/
structure Sifting (v : Vector α n) (size : ℕ) (hs : size ≤ n) (k r : ℕ) : Prop where
  others : ∀ i, k ≤ i → i ≠ r → HeapAt key v size hs i
  above : ∀ p, k ≤ p → IsChild r p → ∀ c (hc : c < size), IsChild c r → ∀ hp : p < n, key v[c] ≤ key v[p]

/-- After a node was swapped with the larger of its children, what is out of order is the child. -/
theorem Sifting.swap {v : Vector α n} {size k r m : ℕ} {hs : size ≤ n} (hk : k ≤ r) (hr : r < size) (hm : m < size)
    (h : Sifting key v size hs k r) (hchild : IsChild m r) (hroot : key v[r] ≤ key v[m])
    (hmax : ∀ c (hc : c < size), IsChild c r → key v[c] ≤ key v[m]) :
    Sifting key (v.swap r m (by omega) (by omega)) size hs k m where
  others := by
    intro i hi hne c hc hin hci
    by_cases hir : i = r
    · subst hir
      rw [Vector.getElem_swap_left]
      by_cases hcm : c = m
      · subst hcm
        rw [Vector.getElem_swap_right]
        exact hroot
      · have hlt := hci.lt
        rw [Vector.getElem_swap_of_ne (by omega) hcm]
        exact hmax c hc hci
    · have hcm : c ≠ m := fun heq => hir ((heq ▸ hci).unique hchild)
      rw [Vector.getElem_swap_of_ne (i := r) (j := m) hir hne]
      by_cases hcr : c = r
      · subst hcr
        rw [Vector.getElem_swap_left]
        exact h.above i hi hci m hm hchild _
      · rw [Vector.getElem_swap_of_ne hcr hcm]
        exact h.others i hi hir c hc hin hci
  above := by
    intro p hp hmp c hc hcm hpn
    obtain rfl : p = r := hmp.unique hchild
    have hlt := hcm.lt
    have hlt' := hchild.lt
    rw [Vector.getElem_swap_left, Vector.getElem_swap_of_ne (by omega) (by omega)]
    exact h.others m (by omega) (by omega) c hc (by omega) hcm

/-- Sifting down the node that is out of order puts all in order. -/
theorem maxHeapify_heapAt {v : Vector α n} {size k r : ℕ} {hs : size ≤ n} (hr : r < size) (hk : k ≤ r)
    (h : Sifting key v size hs k r) : ∀ i, k ≤ i → HeapAt key (maxHeapify key v r size hr hs) size hs i := by
  induction v, r, hr using maxHeapify.induct key size hs with
  | case1 v root hr max hmax =>
    rw [maxHeapify, dif_pos hmax]
    intro i hi
    by_cases hir : i = root
    · subst hir
      intro c hc _ hchild
      have heq : (largest key v i size hr hs).1 = i := hmax
      have hle := child_le_largest key v hr hs hc hchild (by omega)
      simpa only [heq] using hle
    · exact h.others i hi hir
  | case2 v root hr max hmax ih =>
    rw [maxHeapify, dif_neg hmax]
    have hchild := (largest_eq key v hr hs).resolve_left hmax
    have hlt : root < max.1 := hchild.lt
    have hm : max.1 < n := Nat.lt_of_lt_of_le max.2 hs
    refine ih (by omega) (h.swap key hk hr max.2 hchild (le_largest key v hr hs hm) fun c hc hc' => ?_)
    exact child_le_largest key v hr hs hc hc' hm

/-- Nodes without children in the prefix are in order. -/
theorem heapAt_of_size_le {v : Vector α n} {size i : ℕ} {hs : size ≤ n} (h : size ≤ 2 * i + 1) :
    HeapAt key v size hs i := by
  intro c hc _ hchild
  unfold IsChild at hchild
  omega

/-- Sifting down the nodes from a position to the first, when those after it are in order, makes a heap. -/
theorem buildMaxHeap_heapAt {v : Vector α n} {size : ℕ} (hs : size ≤ n) {i : ℕ} (hi : i < size)
    (h : ∀ l, i < l → HeapAt key v size hs l) : ∀ l, HeapAt key (buildMaxHeap key v size hs i hi) size hs l := by
  have hsifting : ∀ (w : Vector α n) j, (∀ l, j < l → HeapAt key w size hs l) → Sifting key w size hs j j := by
    refine fun w j hw => ⟨fun l hl hne => hw l (by omega), fun p hp hchild => ?_⟩
    have hlt := hchild.lt
    omega
  induction i generalizing v with
  | zero =>
    intro l
    exact maxHeapify_heapAt key hi (Nat.le_refl _) (hsifting v 0 h) l (Nat.zero_le l)
  | succ i ih =>
    have hheap := maxHeapify_heapAt key hi (Nat.le_refl _) (hsifting v (i + 1) h)
    exact ih _ fun l hl => hheap l (by omega)

/-- The first element of a heap is the largest. -/
theorem le_root {v : Vector α n} {size : ℕ} {hs : size ≤ n} (h : ∀ i, HeapAt key v size hs i) (i : ℕ) (hi : i < size) :
    key v[i] ≤ key v[0] := by
  induction i using Nat.strongRecOn with
  | ind i ih =>
    cases i with
    | zero => exact le_refl _
    | succ i =>
      have hchild : IsChild (i + 1) (i / 2) := by
        unfold IsChild
        omega
      exact (h (i / 2) (i + 1) hi (by omega) hchild).trans (ih (i / 2) (by omega) (by omega))

/-- Up to `j` a heap, after it in order, and nothing up to `j` larger than what is after it. -/
structure HeapThenSorted (v : Vector α n) (j : ℕ) (hj : j < n) : Prop where
  heap : ∀ i, HeapAt key v (j + 1) hj i
  sorted : ∀ a b (hb : b < n), j < a → (hab : a < b) → key v[a] ≤ key v[b]
  bound : ∀ a b (hb : b < n), (ha : a ≤ j) → (hjb : j < b) → key v[a] ≤ key v[b]

/-- One swap and one sift move the largest element of the heap to the sorted part. -/
theorem HeapThenSorted.next {v : Vector α n} {j : ℕ} (hj : j + 1 < n) (h : HeapThenSorted key v (j + 1) hj) :
    HeapThenSorted key (maxHeapify key (v.swap 0 (j + 1) (by omega) hj) 0 (j + 1) (by omega) (by omega)) j (by omega) where
  heap := by
    intro i
    refine maxHeapify_heapAt key (by omega) (Nat.le_refl 0) ⟨fun l _ hl c hc hln hchild => ?_, fun p _ hp => ?_⟩ i (Nat.zero_le i)
    · have hlt := hchild.lt
      rw [Vector.getElem_swap_of_ne (by omega) (by omega), Vector.getElem_swap_of_ne (by omega) (by omega)]
      exact h.heap l c (by omega) hln hchild
    · have hlt := hp.lt
      omega
  sorted := by
    intro a b hb hja hab
    rw [maxHeapify_of_le key _ _ (by omega), maxHeapify_of_le key _ _ (by omega)]
    have hlast : (v.swap 0 (j + 1) (by omega) hj)[b] = v[b] := Vector.getElem_swap_of_ne (by omega) (by omega)
    rw [hlast]
    by_cases ha : a = j + 1
    · subst ha
      rw [Vector.getElem_swap_right]
      exact h.bound 0 b hb (by omega) (by omega)
    · rw [Vector.getElem_swap_of_ne (by omega) (by omega)]
      exact h.sorted a b hb (by omega) hab
  bound := by
    intro a b hb ha hjb
    rw [maxHeapify_of_le key (k := b) _ _ (by omega)]
    obtain ⟨l, hl, heq⟩ := maxHeapify_mem key (v.swap 0 (j + 1) (by omega) hj) (Nat.zero_lt_succ j) (Nat.le_of_lt hj)
      (Nat.lt_succ_of_le ha)
    rw [heq]
    -- what came to the front was at the end of the heap
    have hold : ∃ l', ∃ hl' : l' ≤ j + 1, (v.swap 0 (j + 1) (by omega) hj)[l] = v[l'] := by
      by_cases hl0 : l = 0
      · subst hl0
        exact ⟨j + 1, Nat.le_refl _, Vector.getElem_swap_left ..⟩
      · exact ⟨l, by omega, Vector.getElem_swap_of_ne hl0 (by omega)⟩
    obtain ⟨l', hl', heq'⟩ := hold
    rw [heq']
    by_cases hbj : b = j + 1
    · subst hbj
      rw [Vector.getElem_swap_right]
      exact le_root key h.heap l' (by omega)
    · rw [Vector.getElem_swap_of_ne (by omega) hbj]
      exact h.bound l' b hb hl' (by omega)

/-- Moving all of the heap to the sorted part sorts. -/
theorem sortDown_sorted {v : Vector α n} {j : ℕ} {hj : j < n} (h : HeapThenSorted key v j hj) (a b : ℕ) (hb : b < n)
    (hab : a < b) : key (sortDown key v j hj)[a] ≤ key (sortDown key v j hj)[b] := by
  induction j generalizing v with
  | zero =>
    rw [sortDown]
    by_cases ha : a = 0
    · exact h.bound a b hb (by omega) (by omega)
    · exact h.sorted a b hb (by omega) hab
  | succ j ih => exact ih (h.next key hj)

/-- Sorting sorts. -/
theorem sortMaxHeap_sorted (v : Vector α n) (a b : ℕ) (hb : b < n) (hab : a < b) :
    key (sortMaxHeap key v)[a] ≤ key (sortMaxHeap key v)[b] := by
  unfold sortMaxHeap
  split
  · omega
  · have hheap := buildMaxHeap_heapAt key (v := v) (Nat.le_refl n) (i := n / 2) (by omega)
      fun l hl => heapAt_of_size_le key (by omega)
    have hn : n - 1 + 1 = n := by omega
    refine sortDown_sorted key ⟨fun i c hc hi hchild => hheap i c (by omega) hi hchild, ?_, ?_⟩ a b hb hab
    · omega
    · omega

/-- The list of the elements of a list in order. -/
def sortList (l : List α) : List α := (sortMaxHeap key l.toArray.toVector).toList

theorem sortList_perm (l : List α) : (sortList key l).Perm l := by
  have h := (sortMaxHeap_perm key l.toArray.toVector).toList
  exact h

theorem sortList_sorted (l : List α) : (sortList key l).Pairwise (fun x y => key x ≤ key y) := by
  rw [List.pairwise_iff_getElem]
  intro a b ha hb hab
  have hlen : (sortList key l).length = l.length := (sortList_perm key l).length_eq
  exact sortMaxHeap_sorted key l.toArray.toVector a b (hb.trans_eq hlen) hab

end HeapSort
