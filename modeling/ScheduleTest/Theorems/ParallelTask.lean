import ScheduleTest.ParallelTask

/-!
# The merged amounts are the sums

The two loops go through the machines of either allocation in order, so that each of the four places advances with the machines of
its allocation: the state of the loops is known in full at every machine (`filled`, `filling`). Two things end the merge in what is
undefined: the place in the matrix is an `int`, and the matrix of the IO job is read also where it is empty.
-/

namespace ScheduleTest

namespace ParallelTask

/-! ## The machines of an allocation in order -/

/-- How many machines of the allocation come before one. -/
def rank (A : IntervalSet) (machine : ℕ) : ℕ := (A.filter (· < machine)).card

/-- How many machines of a list are in the allocation. -/
def countIn (A : IntervalSet) (machines : List ℕ) : ℕ := machines.countP (· ∈ A)

theorem rank_lt {A : IntervalSet} {machine : ℕ} (h : machine ∈ A) : rank A machine < A.card :=
  Finset.card_lt_card (Finset.filter_ssubset.2 ⟨machine, h, lt_irrefl _⟩)

theorem countIn_append (A : IntervalSet) (l : List ℕ) (machine : ℕ) :
    countIn A (l ++ [machine]) = countIn A l + if machine ∈ A then 1 else 0 := by
  simp [countIn, List.countP_append, List.countP_singleton]

section

variable {A B : IntervalSet} {pre post : List ℕ} {machine : ℕ}

/-- The machines of a list without repetitions that are in a set that the list covers. -/
theorem countIn_eq_card {l : List ℕ} (hnodup : l.Nodup) (hmem : ∀ x ∈ A, x ∈ l) : countIn A l = A.card := by
  rw [countIn, List.countP_eq_length_filter, ← List.toFinset_card_of_nodup (hnodup.filter _)]
  congr 1
  ext x
  simp only [List.mem_toFinset, List.mem_filter, decide_eq_true_eq]
  exact ⟨fun h => h.2, fun h => ⟨hmem x h, h⟩⟩

theorem countIn_sort (h : A ⊆ B) : countIn A B.sort = A.card :=
  countIn_eq_card (Finset.sort_nodup _ _) fun _ hx => (Finset.mem_sort _).2 (h hx)

/-- The machines in front of one are those below it. -/
theorem countIn_eq_rank (h : A ⊆ B) (hsort : B.sort = pre ++ machine :: post) : countIn A pre = rank A machine := by
  have hsorted : (pre ++ machine :: post).Pairwise (· < ·) := hsort ▸ Finset.sortedLT_sort B |>.pairwise
  have hmem : ∀ x, x ∈ B ↔ x ∈ pre ++ machine :: post := fun x => by rw [← hsort, Finset.mem_sort]
  obtain ⟨_, hpost, hacross⟩ := List.pairwise_append.1 hsorted
  rw [rank, ← countIn_eq_card (A := A.filter (· < machine)) (hsorted.nodup.of_append_left)]
  · refine List.countP_congr fun x hx => ?_
    have hlt : x < machine := hacross x hx machine List.mem_cons_self
    simp [hlt]
  · intro x hx
    obtain ⟨hA, hlt⟩ := Finset.mem_filter.1 hx
    refine (List.mem_append.1 ((hmem x).1 (h hA))).resolve_right fun hx => ?_
    rcases List.mem_cons.1 hx with rfl | hx
    · exact lt_irrefl _ hlt
    · exact lt_asymm hlt (List.rel_of_pairwise_cons hpost hx)

end

/-! ## The amounts of a task -/

section

variable {R : Type*} [AddZeroClass R]

/-- The computation of a task on a machine: none outside its allocation. -/
def computationOn (A : IntervalSet) (task : TaskAmounts R) (machine : ℕ) : R :=
  if machine ∈ A then task.computation.getD (rank A machine) 0 else 0

/-- What a task communicates between two machines: nothing outside its allocation, nor where it has no matrix. -/
def communicationBetween (A : IntervalSet) (task : TaskAmounts R) (machine machine' : ℕ) : R :=
  if machine ∈ A ∧ machine' ∈ A then task.communication.getD (rank A machine * A.card + rank A machine') 0 else 0

/-- The amounts of a task over an allocation. The matrix is left out where nothing is communicated. -/
structure Over (A : IntervalSet) (task : TaskAmounts R) : Prop where
  computation : task.computation.length = A.card
  communication : task.communication = [] ∨ task.communication.length = A.card * A.card

/-- A task that takes part reads its next amount; one that does not adds nothing. -/
def readPart (v : List R) (used : Prop) [Decidable used] (i : ℕ) : Option (R × ℕ) := if used then readNext v i else some (0, i)

/-- What two tasks add. -/
def addParts (x y : Option (R × ℕ)) : Option (Taken R) := x.bind fun x => y.map fun y => ⟨x.1 + y.1, x.2, y.2⟩

variable {J I : IntervalSet} {job io : TaskAmounts R} {c r i j : ℕ}

theorem readPart_congr {v : List R} {used used' : Prop} [Decidable used] [Decidable used'] (h : used ↔ used') (i : ℕ) :
    readPart v used i = readPart v used' i := if_congr h rfl rfl

theorem colAmount_eq (hc : c ∈ J ∪ I) :
    colAmount J I job io c i j = addParts (readPart job.computation (c ∈ J) i) (readPart io.computation (c ∈ I) j) := by
  rw [Finset.mem_union] at hc
  by_cases hJ : c ∈ J <;> by_cases hI : c ∈ I
  · simp [colAmount, addParts, readPart, hJ, hI]
  · simp [colAmount, addParts, readPart, hJ, hI, Option.map_eq_bind]
  · simp [colAmount, addParts, readPart, hJ, hI]
  · exact absurd hc (by simp [hJ, hI])

theorem rowAmount_eq (hc : c ∈ J ∪ I) (hr : r ∈ J ∪ I) :
    rowAmount J I job io (decide (c ∈ J \ I)) (decide (c ∈ I \ J)) r i j =
      addParts (readPart job.communication (job.communication.isEmpty = false ∧ c ∈ J ∧ r ∈ J) i)
        (readPart io.communication (c ∈ I ∧ r ∈ I) j) := by
  rw [Finset.mem_union] at hc hr
  -- three places for the column and three for the row, with and without a matrix of the job
  by_cases hJ : c ∈ J <;> by_cases hI : c ∈ I <;> by_cases hJ' : r ∈ J <;> by_cases hI' : r ∈ I <;>
    cases he : job.communication.isEmpty <;>
    simp_all [rowAmount, addParts, readPart, Option.map_eq_bind]

/-! ## The places in a task -/

/-- Where the rows of a column begin in the matrix of a task. -/
def placeBefore (A : IntervalSet) (task : TaskAmounts R) (pre : List ℕ) : ℕ :=
  if task.communication.isEmpty then 0 else countIn A pre * A.card

/-- How many rows of a column have been read from the matrix of a task. -/
def placeWithin (A : IntervalSet) (task : TaskAmounts R) (col : ℕ) (rows : List ℕ) : ℕ :=
  if task.communication.isEmpty = false ∧ col ∈ A then countIn A rows else 0

section

variable {A B : IntervalSet} {task : TaskAmounts R} {pre post rpre rpost : List ℕ}

omit [AddZeroClass R] in
/-- All rows of a column have been read. -/
theorem placeBefore_append (h : A ⊆ B) :
    placeBefore A task pre + placeWithin A task c B.sort = placeBefore A task (pre ++ [c]) := by
  rw [placeBefore, placeBefore, placeWithin, countIn_sort h, countIn_append]
  cases he : task.communication.isEmpty with
  | true => simp
  | false =>
    by_cases hc : c ∈ A
    · simp [hc, Nat.add_mul]
    · simp [hc]

theorem readNext_eq {v : List R} (hi : i < v.length) (hmax : v.length < 2 ^ 31) : readNext v i = some (v.getD i 0, i + 1) := by
  rw [readNext, List.getElem?_eq_getElem hi, Option.bind_some, increment, if_pos (by omega), List.getD_eq_getElem?_getD,
    List.getElem?_eq_getElem hi]
  rfl

/-- The next computation of a task is that of the machine of the column. -/
theorem readPart_computation (h : Over A task) (hA : A ⊆ B) (hsort : B.sort = pre ++ c :: post) (hmax : A.card < 2 ^ 31) :
    readPart task.computation (c ∈ A) (countIn A pre) = some (computationOn A task c, countIn A (pre ++ [c])) := by
  rw [readPart, computationOn, countIn_append]
  split
  · rename_i hc
    rw [countIn_eq_rank hA hsort]
    refine readNext_eq ?_ ?_
    · rw [h.computation]
      exact rank_lt hc
    · rw [h.computation]
      exact hmax
  · rfl

/-- The next communication of a task is that of the machines of the column and the row. -/
theorem readPart_communication (h : Over A task) (hA : A ⊆ B) (hsort : B.sort = pre ++ c :: post)
    (hrows : B.sort = rpre ++ r :: rpost) (hmax : A.card * A.card < 2 ^ 31) :
    readPart task.communication (task.communication.isEmpty = false ∧ c ∈ A ∧ r ∈ A)
        (placeBefore A task pre + placeWithin A task c rpre) =
      some (communicationBetween A task c r, placeBefore A task pre + placeWithin A task c (rpre ++ [r])) := by
  rw [readPart, communicationBetween, placeWithin, placeWithin, countIn_append]
  split
  · rename_i hused
    obtain ⟨hne, hc, hr⟩ := hused
    have hlength : task.communication.length = A.card * A.card := by
      refine h.communication.resolve_left fun hnil => ?_
      rw [hnil] at hne
      cases hne
    have hlt : rank A c * A.card + rank A r < A.card * A.card := calc
      rank A c * A.card + rank A r < rank A c * A.card + A.card := Nat.add_lt_add_left (rank_lt hr) _
      _ = (rank A c + 1) * A.card := (Nat.succ_mul _ _).symm
      _ ≤ A.card * A.card := Nat.mul_le_mul_right _ (rank_lt hc)
    rw [if_pos ⟨hne, hc⟩, if_pos ⟨hc, hr⟩, if_pos ⟨hne, hc⟩, if_pos hr, placeBefore, hne, countIn_eq_rank hA hsort,
      countIn_eq_rank hA hrows]
    exact readNext_eq (hlength ▸ hlt) (hlength ▸ hmax)
  · rename_i hunused
    congr 2
    · split
      · rename_i hin
        cases hne : task.communication.isEmpty with
        | true => rw [List.isEmpty_iff.1 hne, List.getD_nil]
        | false => exact absurd ⟨hne, hin⟩ hunused
      · rfl
    · split
      · rename_i hcol
        rw [if_neg fun hr => hunused ⟨hcol.1, hcol.2, hr⟩, Nat.add_zero]
      · rfl

end

/-! ## The loops -/

/-- The computation of a machine in the merged task. -/
def sumOn (J I : IntervalSet) (job io : TaskAmounts R) (machine : ℕ) : R :=
  computationOn J job machine + computationOn I io machine

/-- The communication of two machines in the merged task. -/
def sumBetween (J I : IntervalSet) (job io : TaskAmounts R) (machine machine' : ℕ) : R :=
  communicationBetween J job machine machine' + communicationBetween I io machine machine'

/-- The rows of the merged matrix. -/
def sumRows (J I : IntervalSet) (job io : TaskAmounts R) (columns : List ℕ) : List R :=
  columns.flatMap fun machine => (J ∪ I).sort.map (sumBetween J I job io machine)

/-- The state of the loop over the columns behind some machines, with others to come. -/
def filled (J I : IntervalSet) (job io : TaskAmounts R) (pre post : List ℕ) : Merging R where
  newComputation := pre.map (sumOn J I job io) ++ List.replicate post.length 0
  newCommunication := sumRows J I job io pre ++ List.replicate (post.length * (J ∪ I).sort.length) 0
  col := pre.length
  k := pre.length * (J ∪ I).sort.length
  colJobHostIndex := countIn J pre
  rowJobHostIndex := placeBefore J job pre
  colIoHostIndex := countIn I pre
  rowIoHostIndex := placeBefore I io pre

/-- The state of the loop over the rows of a column. -/
def filling (J I : IntervalSet) (job io : TaskAmounts R) (pre : List ℕ) (c : ℕ) (post rpre rpost : List ℕ) : Merging R where
  newComputation := (pre ++ [c]).map (sumOn J I job io) ++ List.replicate post.length 0
  newCommunication := (sumRows J I job io pre ++ rpre.map (sumBetween J I job io c)) ++
    List.replicate (rpost.length + post.length * (J ∪ I).sort.length) 0
  col := pre.length
  k := pre.length * (J ∪ I).sort.length + rpre.length
  colJobHostIndex := countIn J (pre ++ [c])
  rowJobHostIndex := placeBefore J job pre + placeWithin J job c rpre
  colIoHostIndex := countIn I (pre ++ [c])
  rowIoHostIndex := placeBefore I io pre + placeWithin I io c rpre

/-- Writing the first of the zeros that are left. -/
theorem write_append (written : List R) (n : ℕ) (x : R) :
    write (written ++ List.replicate (n + 1) 0) written.length x = some ((written ++ [x]) ++ List.replicate n 0) := by
  rw [write, if_pos (by simp), List.replicate_succ, List.set_append_right _ _ le_rfl, Nat.sub_self, List.set_cons_zero]
  simp

/-- A loop whose state is known at each of its elements. -/
theorem foldlM_state {σ : Type*} {step : σ → ℕ → Option σ} {l : List ℕ} (state : List ℕ → List ℕ → σ)
    (hstep : ∀ pre a post, l = pre ++ a :: post → step (state pre (a :: post)) a = some (state (pre ++ [a]) post)) :
    l.foldlM step (state [] l) = some (state l []) := by
  have run : ∀ post pre, l = pre ++ post → post.foldlM step (state pre post) = some (state l []) := by
    intro post
    induction post with
    | nil =>
      intro pre hl
      rw [List.foldlM_nil, hl, List.append_nil]
      rfl
    | cons a post ih =>
      intro pre hl
      rw [List.foldlM_cons, hstep pre a post hl]
      exact ih (pre ++ [a]) (by simpa using hl)
  exact run l [] rfl

variable {pre post rpre rpost : List ℕ}

theorem length_sumRows (pre : List ℕ) : (sumRows J I job io pre).length = pre.length * (J ∪ I).sort.length := by
  simp [sumRows, List.length_flatMap]

/-- One row. -/
theorem fillRow_filling (hjob : Over J job) (hio : Over I io) (hne : io.communication.isEmpty = false ∨ I = ∅)
    (hmax : (J ∪ I).card * (J ∪ I).card < 2 ^ 31) (hsort : (J ∪ I).sort = pre ++ c :: post)
    (hrows : (J ∪ I).sort = rpre ++ r :: rpost) :
    fillRow J I job io (decide (c ∈ J \ I)) (decide (c ∈ I \ J)) (filling J I job io pre c post rpre (r :: rpost)) r =
      some (filling J I job io pre c post (rpre ++ [r]) rpost) := by
  have hc : c ∈ J ∪ I := (Finset.mem_sort (· ≤ ·)).1 (hsort ▸ List.mem_append_right _ List.mem_cons_self)
  have hr : r ∈ J ∪ I := (Finset.mem_sort (· ≤ ·)).1 (hrows ▸ List.mem_append_right _ List.mem_cons_self)
  have hused : c ∈ I ∧ r ∈ I ↔ io.communication.isEmpty = false ∧ c ∈ I ∧ r ∈ I := by
    refine ⟨fun h => ⟨hne.resolve_right fun hI => ?_, h⟩, fun h => h.2⟩
    rw [hI] at h
    exact Finset.notMem_empty _ h.1
  have hcard : (J ∪ I).sort.length = (J ∪ I).card := Finset.length_sort _
  have hleft : pre.length + 1 ≤ (J ∪ I).sort.length := by
    rw [hsort]
    simp
  have hdown : rpre.length + 1 ≤ (J ∪ I).sort.length := by
    rw [hrows]
    simp
  have hle : ∀ A ⊆ J ∪ I, A.card * A.card < 2 ^ 31 := fun A hA =>
    (Nat.mul_le_mul (Finset.card_le_card hA) (Finset.card_le_card hA)).trans_lt hmax
  have htaken : rowAmount J I job io (decide (c ∈ J \ I)) (decide (c ∈ I \ J)) r
      (placeBefore J job pre + placeWithin J job c rpre) (placeBefore I io pre + placeWithin I io c rpre) =
        some ⟨sumBetween J I job io c r, placeBefore J job pre + placeWithin J job c (rpre ++ [r]),
          placeBefore I io pre + placeWithin I io c (rpre ++ [r])⟩ := by
    rw [rowAmount_eq hc hr, readPart_congr hused,
      readPart_communication hjob Finset.subset_union_left hsort hrows (hle J Finset.subset_union_left),
      readPart_communication hio Finset.subset_union_right hsort hrows (hle I Finset.subset_union_right)]
    rfl
  have hwritten : (sumRows J I job io pre ++ rpre.map (sumBetween J I job io c)).length =
      pre.length * (J ∪ I).sort.length + rpre.length := by
    rw [List.length_append, length_sumRows, List.length_map]
  have hk : pre.length * (J ∪ I).sort.length + rpre.length + 1 < 2 ^ 31 := calc
    pre.length * (J ∪ I).sort.length + rpre.length + 1
      ≤ pre.length * (J ∪ I).sort.length + (J ∪ I).sort.length := by omega
    _ = (pre.length + 1) * (J ∪ I).sort.length := (Nat.succ_mul _ _).symm
    _ ≤ (J ∪ I).sort.length * (J ∪ I).sort.length := Nat.mul_le_mul_right _ hleft
    _ < 2 ^ 31 := by rwa [hcard]
  rw [fillRow, filling, htaken, Option.bind_some]
  dsimp only
  rw [List.length_cons, Nat.add_right_comm, ← hwritten, write_append, hwritten, Option.bind_some, increment, if_pos hk]
  simp [filling, Nat.add_assoc]

/-- One column. -/
theorem fillColumn_filled (hjob : Over J job) (hio : Over I io) (hne : io.communication.isEmpty = false ∨ I = ∅)
    (hmax : (J ∪ I).card * (J ∪ I).card < 2 ^ 31) (hsort : (J ∪ I).sort = pre ++ c :: post) :
    fillColumn J I job io (J ∪ I).sort (filled J I job io pre (c :: post)) c = some (filled J I job io (pre ++ [c]) post) := by
  have hc : c ∈ J ∪ I := (Finset.mem_sort (· ≤ ·)).1 (hsort ▸ List.mem_append_right _ List.mem_cons_self)
  have hle : ∀ A ⊆ J ∪ I, A.card < 2 ^ 31 := fun A hA =>
    (Finset.card_le_card hA).trans_lt ((Nat.le_mul_self _).trans_lt hmax)
  have htaken : colAmount J I job io c (countIn J pre) (countIn I pre) =
      some ⟨sumOn J I job io c, countIn J (pre ++ [c]), countIn I (pre ++ [c])⟩ := by
    rw [colAmount_eq hc, readPart_computation hjob Finset.subset_union_left hsort (hle J Finset.subset_union_left),
      readPart_computation hio Finset.subset_union_right hsort (hle I Finset.subset_union_right)]
    rfl
  have hwrite : write (pre.map (sumOn J I job io) ++ List.replicate (post.length + 1) 0) pre.length (sumOn J I job io c) =
      some ((pre ++ [c]).map (sumOn J I job io) ++ List.replicate post.length 0) := by
    have h := write_append (pre.map (sumOn J I job io)) post.length (sumOn J I job io c)
    rw [List.length_map] at h
    rw [h]
    simp
  have hstart : { filled J I job io pre (c :: post) with
      newComputation := (pre ++ [c]).map (sumOn J I job io) ++ List.replicate post.length 0
      colJobHostIndex := countIn J (pre ++ [c])
      colIoHostIndex := countIn I (pre ++ [c]) } = filling J I job io pre c post [] (J ∪ I).sort := by
    simp [filled, filling, placeWithin, countIn, Nat.succ_mul, Nat.add_comm]
  have hend : { filling J I job io pre c post (J ∪ I).sort [] with col := pre.length + 1 } =
      filled J I job io (pre ++ [c]) post := by
    simp [filled, filling, sumRows, Nat.succ_mul, placeBefore_append Finset.subset_union_left,
      placeBefore_append Finset.subset_union_right]
  have hloop := foldlM_state (filling J I job io pre c post)
    fun rpre r rpost hrows => fillRow_filling hjob hio hne hmax hsort hrows
  rw [← hstart] at hloop
  rw [fillColumn, show (filled J I job io pre (c :: post)).colJobHostIndex = countIn J pre from rfl,
    show (filled J I job io pre (c :: post)).colIoHostIndex = countIn I pre from rfl, htaken, Option.bind_some]
  change (write (pre.map (sumOn J I job io) ++ List.replicate (post.length + 1) 0) pre.length (sumOn J I job io c)).bind _ = _
  rw [hwrite, Option.bind_some]
  exact (congrArg (Option.map _) hloop).trans (congrArg some hend)

/-- Where the places fit into an `int`, and the matrix of the IO job is not read in vain, the merge ends with the sums. -/
theorem mergeIo_eq (hjob : Over J job) (hio : Over I io) (hne : io.communication.isEmpty = false ∨ I = ∅)
    (hmax : (J ∪ I).card * (J ∪ I).card < 2 ^ 31) :
    mergeIo J I job io = some {
      hostsToUse := (J ∪ I).sort
      amounts := {
        computation := (J ∪ I).sort.map (sumOn J I job io)
        communication := sumRows J I job io (J ∪ I).sort } } := by
  have hloop := foldlM_state (filled J I job io)
    fun pre c post hsort => fillColumn_filled hjob hio hne hmax hsort
  have hsize : (J ∪ I).sort.length * (J ∪ I).sort.length % UInt32.size = (J ∪ I).sort.length * (J ∪ I).sort.length := by
    refine Nat.mod_eq_of_lt ?_
    rw [Finset.length_sort]
    exact hmax.trans (by decide)
  have hstart : filled J I job io [] (J ∪ I).sort = {
      newComputation := List.replicate (J ∪ I).sort.length 0
      newCommunication := List.replicate ((J ∪ I).sort.length * (J ∪ I).sort.length % UInt32.size) 0 } := by
    rw [hsize]
    simp [filled, sumRows, countIn, placeBefore]
  rw [hstart] at hloop
  rw [mergeIo, hloop]
  simp [filled]

/-! ## Where the merge is undefined -/

/-- A loop that ends has gone through each of its elements. -/
theorem foldlM_mem {σ : Type*} {step : σ → ℕ → Option σ} {l : List ℕ} {a : ℕ} {s s' : σ} (h : l.foldlM step s = some s')
    (ha : a ∈ l) : ∃ s₁ s₂, step s₁ a = some s₂ := by
  induction l generalizing s with
  | nil => cases ha
  | cons b l ih =>
    obtain ⟨s₁, hstep, hrest⟩ := Option.bind_eq_some_iff.1 (List.foldlM_cons.symm.trans h)
    rcases List.mem_cons.1 ha with rfl | ha
    · exact ⟨s, s₁, hstep⟩
    · exact ih hrest ha

/-- A loop each of whose steps adds the same to a number below some bound. -/
theorem foldlM_count {σ : Type*} {step : σ → ℕ → Option σ} (measure : σ → ℕ) (d bound : ℕ)
    (hstep : ∀ s a s', step s a = some s' → measure s' = measure s + d ∧ (measure s < bound → measure s' < bound)) {l : List ℕ}
    {s s' : σ} (h : l.foldlM step s = some s') :
    measure s' = measure s + l.length * d ∧ (measure s < bound → measure s' < bound) := by
  induction l generalizing s with
  | nil =>
    obtain rfl : s = s' := Option.some.inj h
    simp
  | cons a l ih =>
    obtain ⟨s₁, hfirst, hrest⟩ := Option.bind_eq_some_iff.1 (List.foldlM_cons.symm.trans h)
    obtain ⟨hcount, hbound⟩ := hstep s a s₁ hfirst
    obtain ⟨hcount', hbound'⟩ := ih hrest
    refine ⟨?_, fun hs => hbound' (hbound hs)⟩
    rw [hcount', hcount, List.length_cons, Nat.succ_mul]
    omega

/-- Every row moves the place in the merged matrix, which is an `int`. -/
theorem fillRow_k {onlyJob onlyIo : Bool} {m m' : Merging R} (h : fillRow J I job io onlyJob onlyIo m r = some m') :
    m'.k = m.k + 1 ∧ (m.k < 2 ^ 31 → m'.k < 2 ^ 31) := by
  obtain ⟨_, _, h⟩ := Option.bind_eq_some_iff.1 h
  obtain ⟨_, _, h⟩ := Option.bind_eq_some_iff.1 h
  obtain ⟨k, hk, rfl⟩ := Option.map_eq_some_iff.1 h
  rw [increment] at hk
  split at hk
  · rename_i hlt
    cases hk
    exact ⟨rfl, fun _ => hlt⟩
  · cases hk

/-- What a column that can be filled says of its rows. -/
theorem fillColumn_rows {l : List ℕ} {m m' : Merging R} (h : fillColumn J I job io l m c = some m') :
    ∃ m₁ m₂ : Merging R, l.foldlM (fillRow J I job io (decide (c ∈ J \ I)) (decide (c ∈ I \ J))) m₁ = some m₂ ∧ m₁.k = m.k ∧
      m'.k = m₂.k := by
  obtain ⟨_, _, h⟩ := Option.bind_eq_some_iff.1 h
  obtain ⟨_, _, h⟩ := Option.bind_eq_some_iff.1 h
  obtain ⟨m₂, hrows, rfl⟩ := Option.map_eq_some_iff.1 h
  exact ⟨_, m₂, hrows, rfl, rfl⟩

/-- Where the merge ends, the places in the merged matrix fit into an `int`. -/
theorem max_of_mergeIo {merged : MergedTask R} (h : mergeIo J I job io = some merged) : (J ∪ I).card * (J ∪ I).card < 2 ^ 31 := by
  obtain ⟨m, hloop, -⟩ := Option.map_eq_some_iff.1 h
  have hcount := foldlM_count Merging.k (J ∪ I).sort.length (2 ^ 31) (fun s a s' hstep => by
    obtain ⟨m₁, m₂, hrows, h1, h2⟩ := fillColumn_rows hstep
    have hrow := foldlM_count Merging.k 1 (2 ^ 31) (fun _ _ _ h => fillRow_k h) hrows
    rw [h1, ← h2, Nat.mul_one] at hrow
    exact hrow) hloop
  rw [Finset.length_sort] at hcount
  have hk : m.k = (J ∪ I).card * (J ∪ I).card := hcount.1.trans (Nat.zero_add _)
  exact hk ▸ hcount.2 (show 0 < 2 ^ 31 by decide)

/-- Where the merge ends, an IO job on some machines has a matrix. -/
theorem nonempty_of_mergeIo {merged : MergedTask R} (h : mergeIo J I job io = some merged) :
    io.communication.isEmpty = false ∨ I = ∅ := by
  refine or_iff_not_imp_right.2 fun hI => ?_
  obtain ⟨c, hc⟩ := Finset.nonempty_iff_ne_empty.2 hI
  have hin : c ∈ J ∪ I := Finset.mem_union_right _ hc
  have hmem : c ∈ (J ∪ I).sort := (Finset.mem_sort _).2 hin
  -- the machine's row in the machine's column
  obtain ⟨m, hloop, -⟩ := Option.map_eq_some_iff.1 h
  obtain ⟨_, _, hcolumn⟩ := foldlM_mem hloop hmem
  obtain ⟨_, _, hrows, -, -⟩ := fillColumn_rows hcolumn
  obtain ⟨_, _, hrow⟩ := foldlM_mem hrows hmem
  obtain ⟨taken, htaken, -⟩ := Option.bind_eq_some_iff.1 hrow
  rw [rowAmount_eq hin hin, addParts] at htaken
  obtain ⟨_, _, hio⟩ := Option.bind_eq_some_iff.1 htaken
  obtain ⟨_, hread, -⟩ := Option.map_eq_some_iff.1 hio
  rw [readPart, if_pos ⟨hc, hc⟩, readNext] at hread
  obtain ⟨_, hget, -⟩ := Option.bind_eq_some_iff.1 hread
  rw [Bool.eq_false_iff, Ne, List.isEmpty_iff]
  rintro hnil
  rw [hnil] at hget
  cases hget

/-- The merged task is for the machines of either allocation, in order, and its amounts are the sums of the two. -/
structure IsSum (J I : IntervalSet) (job io : TaskAmounts R) (merged : MergedTask R) : Prop where
  hosts : merged.hostsToUse = (J ∪ I).sort
  lengthComputation : merged.amounts.computation.length = (J ∪ I).card
  lengthCommunication : merged.amounts.communication.length = (J ∪ I).card * (J ∪ I).card
  computation : ∀ machine ∈ J ∪ I, merged.amounts.computation[rank (J ∪ I) machine]? =
    some (computationOn J job machine + computationOn I io machine)
  communication : ∀ machine ∈ J ∪ I, ∀ machine' ∈ J ∪ I,
    merged.amounts.communication[rank (J ∪ I) machine * (J ∪ I).card + rank (J ∪ I) machine']? =
      some (communicationBetween J job machine machine' + communicationBetween I io machine machine')

/-- The place of a machine in an allocation. -/
theorem exists_sort_eq {B : IntervalSet} {machine : ℕ} (h : machine ∈ B) :
    ∃ pre post, B.sort = pre ++ machine :: post ∧ pre.length = rank B machine := by
  obtain ⟨pre, post, hsort⟩ := List.append_of_mem ((Finset.mem_sort (· ≤ ·)).2 h)
  refine ⟨pre, post, hsort, ?_⟩
  rw [← countIn_eq_rank Finset.Subset.rfl hsort, countIn, List.countP_eq_length.2 fun x hx => ?_]
  rw [decide_eq_true_eq, ← Finset.mem_sort (· ≤ ·), hsort]
  exact List.mem_append_left _ hx

theorem isSum_mergeIo (J I : IntervalSet) (job io : TaskAmounts R) : IsSum J I job io {
    hostsToUse := (J ∪ I).sort
    amounts := {
      computation := (J ∪ I).sort.map (sumOn J I job io)
      communication := sumRows J I job io (J ∪ I).sort } } where
  hosts := rfl
  lengthComputation := by rw [List.length_map, Finset.length_sort]
  lengthCommunication := by rw [length_sumRows, Finset.length_sort]
  computation := by
    intro machine h
    obtain ⟨pre, post, hsort, hrank⟩ := exists_sort_eq h
    rw [← hrank, hsort, List.map_append, List.getElem?_append_right (by rw [List.length_map]), List.length_map, Nat.sub_self]
    rfl
  communication := by
    intro machine h machine' h'
    obtain ⟨pre, post, hsort, hrank⟩ := exists_sort_eq h
    obtain ⟨pre', post', hsort', hrank'⟩ := exists_sort_eq h'
    have hcard : (J ∪ I).sort.length = (J ∪ I).card := Finset.length_sort _
    have hrow : pre'.length < ((J ∪ I).sort.map (sumBetween J I job io machine)).length := by
      rw [List.length_map, hsort']
      simp
    have hsplit : sumRows J I job io (J ∪ I).sort =
        sumRows J I job io pre ++ ((J ∪ I).sort.map (sumBetween J I job io machine) ++ sumRows J I job io post) := by
      rw [sumRows, hsort, List.flatMap_append, List.flatMap_cons, ← hsort]
      rfl
    rw [← hrank, ← hrank', ← hcard, hsplit, List.getElem?_append_right (by rw [length_sumRows]; omega), length_sumRows,
      Nat.add_sub_cancel_left, List.getElem?_append_left hrow, List.getElem?_map, hsort', List.getElem?_append_right le_rfl,
      Nat.sub_self]
    rfl

/-- Merging an IO job into a job ends, and gives the sums of their computations and communications, exactly where the IO job has a
matrix of communications, or no machine, and at most 46340 machines are in one of the allocations. -/
theorem merge_is_sum_iff (machineIds ioAllocation : IntervalSet) (job io : TaskAmounts R) (hjob : Over machineIds job)
    (hio : Over ioAllocation io) :
    (∃ merged, mergeIo machineIds ioAllocation job io = some merged ∧ IsSum machineIds ioAllocation job io merged) ↔
      (io.communication ≠ [] ∨ ioAllocation = ∅) ∧ (machineIds ∪ ioAllocation).card ≤ 46340 := by
  have hmax : (machineIds ∪ ioAllocation).card * (machineIds ∪ ioAllocation).card < 2 ^ 31 ↔
      (machineIds ∪ ioAllocation).card ≤ 46340 := by
    generalize (machineIds ∪ ioAllocation).card = n
    constructor
    · intro h
      by_contra hlt
      exact absurd (Nat.mul_le_mul (not_le.1 hlt) (not_le.1 hlt)) (by omega)
    · exact fun h => (Nat.mul_le_mul h h).trans_lt (by decide)
  have hempty : io.communication.isEmpty = false ↔ io.communication ≠ [] := by
    rw [Bool.eq_false_iff, Ne, List.isEmpty_iff]
  constructor
  · rintro ⟨merged, h, _⟩
    exact ⟨(nonempty_of_mergeIo h).imp_left hempty.1, hmax.1 (max_of_mergeIo h)⟩
  · rintro ⟨hne, hle⟩
    exact ⟨_, mergeIo_eq hjob hio (hne.imp_left hempty.2) (hmax.2 hle), isSum_mergeIo _ _ _ _⟩

end

/-- The amounts of a homogeneous task are over its allocation. -/
theorem over_generateParallelHomogeneous (A : IntervalSet) (cpu com : ℚ) : Over A (generateParallelHomogeneous cpu com A.card) where
  computation := by simp [generateParallelHomogeneous]
  communication := by
    by_cases h : 0 < com
    · exact Or.inr (by simp [generateParallelHomogeneous, h, List.length_flatMap])
    · exact Or.inl (by simp [generateParallelHomogeneous, h])

/-- A job on two machines and an IO job that shares one of them. -/
theorem merge_is_sum_iff_witness :
    ∃ merged, mergeIo {0, 1} {1, 2} (generateParallelHomogeneous 5 3 2) (generateParallelHomogeneous 2 1 2) = some merged ∧
      IsSum {0, 1} {1, 2} (generateParallelHomogeneous 5 3 2) (generateParallelHomogeneous 2 1 2) merged :=
  (merge_is_sum_iff {0, 1} {1, 2} _ _ (over_generateParallelHomogeneous {0, 1} 5 3) (over_generateParallelHomogeneous {1, 2} 2 1)).2
    ⟨Or.inl (by decide +kernel), by decide⟩

/-- A job and an IO job that only computes, on one machine: the merge reads the matrix that the IO job does not have. -/
theorem merge_is_sum_false :
    ¬ (∀ (machineIds ioAllocation : IntervalSet) (job io : TaskAmounts ℚ), Over machineIds job → Over ioAllocation io →
      ∃ merged, mergeIo machineIds ioAllocation job io = some merged ∧ IsSum machineIds ioAllocation job io merged) ∧
    mergeIo {0} {0} (generateParallelHomogeneous 5 3 1) (generateParallelHomogeneous 2 0 1) = none := by
  have hnone : mergeIo {0} {0} (generateParallelHomogeneous 5 3 1) (generateParallelHomogeneous 2 0 1) = none := by
    rw [Option.eq_none_iff_forall_ne_some]
    intro merged h
    rcases nonempty_of_mergeIo h with hne | hI
    · exact absurd hne (by decide +kernel)
    · exact absurd hI (Finset.singleton_ne_empty 0)
  refine ⟨fun h => ?_, hnone⟩
  obtain ⟨merged, hsome, _⟩ := h {0} {0} _ _ (over_generateParallelHomogeneous {0} 5 3) (over_generateParallelHomogeneous {0} 2 0)
  rw [show Finset.card {0} = 1 from rfl, hnone] at hsome
  cases hsome

end ParallelTask

end ScheduleTest
