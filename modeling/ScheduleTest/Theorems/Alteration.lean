import ScheduleTest.Lemmas.Alteration

/-!
# The identifiers of copied jobs

The copies of a round get numbers in a row, and are taken in only if neither an identifier nor a profile has these names (`Free`).
Everything else is kept (`Grown`). So the copies are made exactly where the numbers above the largest one among the jobs that are
not reservations are free.
-/

namespace ScheduleTest

namespace Alteration

open Execution

/-! ## Numbers as names -/

/-- Numbers that are printed alike are the same. -/
theorem toString_injective : Function.Injective (toString : ℤ → String) := by
  have hread : ∀ n : ℕ, Text.readDigits (Nat.toDigits 10 n) = some n := fun n => by
    have h := @Text.readDigits_toDigits [] n fun _ hc => by cases hc
    rwa [List.append_nil] at h
  have hminus : ∀ (n : ℕ) (l : List Char), Nat.toDigits 10 n ≠ '-' :: l := by
    intro n l h
    have hdigit : ('-').isDigit = true := Nat.isDigit_of_mem_toDigits (b := 10) (by decide) (by decide) (h ▸ List.mem_cons_self)
    exact absurd hdigit (by decide)
  intro z z' h
  have hlist := congrArg String.toList h
  rw [Text.toList_toString, Text.toList_toString] at hlist
  split_ifs at hlist with hz hz'
  · have habs := (hread z.natAbs).symm.trans ((congrArg Text.readDigits hlist).trans (hread z'.natAbs))
    have := Option.some.inj habs
    omega
  · exact absurd hlist (hminus _ _)
  · exact absurd hlist.symm (hminus _ _)
  · have habs := (hread z.natAbs).symm.trans ((congrArg Text.readDigits (List.cons.inj hlist).2).trans (hread z'.natAbs))
    have := Option.some.inj habs
    omega

theorem identifier_injective (workload : String) : Function.Injective (identifier workload) := by
  intro n n' h
  have hlist := congrArg String.toList h
  simp only [identifier, String.toList_append] at hlist
  exact toString_injective (String.toList_inj.1 (List.append_cancel_left hlist))

/-! ## The numbers of the copies -/

/-- Some numbers in a row. -/
def numbersFrom (startId : ℤ) : ℕ → List ℤ
  | 0 => []
  | n + 1 => startId :: numbersFrom (startId + 1) n

/-- The numbers of the copies of `n` jobs. One number is left out between two rounds. -/
def copyNumbers (n : ℕ) : ℕ → ℤ → List ℤ
  | 0, _ => []
  | rounds + 1, startId => numbersFrom startId n ++ copyNumbers n rounds (toInt (startId + n + 1))

@[simp] theorem length_numbersFrom (startId : ℤ) (n : ℕ) : (numbersFrom startId n).length = n := by
  induction n generalizing startId with
  | zero => rfl
  | succ n ih => rw [numbersFrom, List.length_cons, ih]

theorem length_copyNumbers (n rounds : ℕ) (startId : ℤ) : (copyNumbers n rounds startId).length = rounds * n := by
  induction rounds generalizing startId with
  | zero => rw [copyNumbers, List.length_nil, Nat.zero_mul]
  | succ rounds ih => rw [copyNumbers, List.length_append, length_numbersFrom, ih, Nat.succ_mul, Nat.add_comm]

/-- Numbers are free if no two are the same, and no job and no profile has their names. -/
structure Free {F P : Type*} (w : AlterableWorkload F P) (numbers : List ℤ) : Prop where
  distinct : numbers.Nodup
  id : ∀ n ∈ numbers, ∀ job ∈ w.jobs, job.id ≠ identifier w.name n
  profile : ∀ n ∈ numbers, w.profiles (toString n) = none

theorem Free.nil {F P : Type*} (w : AlterableWorkload F P) : Free w [] :=
  ⟨List.nodup_nil, fun _ hn => absurd hn List.not_mem_nil, fun _ hn => absurd hn List.not_mem_nil⟩

theorem Free.left {F P : Type*} {w : AlterableWorkload F P} {numbers numbers' : List ℤ} (h : Free w (numbers ++ numbers')) :
    Free w numbers :=
  ⟨(List.nodup_append.1 h.distinct).1, fun n hn => h.id n (List.mem_append_left _ hn), fun n hn =>
    h.profile n (List.mem_append_left _ hn)⟩

variable {F P : Type*} (reader : DescriptionReader F P)

/-- Copies of these numbers have come in, with their profiles. What was there is kept, but for what reading does to it. -/
structure Grown (w w' : AlterableWorkload F P) (numbers : List ℤ) : Prop where
  name : w'.name = w.name
  jobs : ∃ copies, w'.jobs.map (·.key) = w.jobs.map (·.key) ++ copies ∧
    copies.map (fun key => (key.1, key.2.1, key.2.2.2)) = numbers.map fun n => (identifier w.name n, n, toString n)
  reservations : ∀ job ∈ w.jobs, job.isReservation = true → job ∈ w'.jobs
  profiles : ∀ name, (∀ n ∈ numbers, toString n ≠ name) → EditedTo reader (w.profiles name) (w'.profiles name)
  copied : ∀ n ∈ numbers, (w'.profiles (toString n)).isSome

variable {reader}

theorem Keeps.grown {w w' : AlterableWorkload F P} (h : Keeps reader w w') : Grown reader w w' [] where
  name := h.name
  jobs := ⟨[], by rw [h.keys, List.append_nil], rfl⟩
  reservations := h.reservations
  profiles := fun name _ => h.profiles name
  copied := fun _ hn => absurd hn List.not_mem_nil

/-- The identifiers in a workload that has grown. -/
theorem Grown.ids {w w' : AlterableWorkload F P} {numbers : List ℤ} (h : Grown reader w w' numbers) :
    w'.jobs.map (·.id) = w.jobs.map (·.id) ++ numbers.map (identifier w.name) := by
  obtain ⟨copies, hkeys, hcopies⟩ := h.jobs
  have hids := congrArg (List.map (·.1)) hkeys
  have hnew := congrArg (List.map (·.1)) hcopies
  simp only [List.map_map, List.map_append, Function.comp_def, WorkloadJob.key] at hids hnew
  rw [hids, hnew]

theorem Grown.trans {w₁ w₂ w₃ : AlterableWorkload F P} {numbers numbers' : List ℤ} (h : Grown reader w₁ w₂ numbers)
    (h' : Grown reader w₂ w₃ numbers') : Grown reader w₁ w₃ (numbers ++ numbers') where
  name := h'.name.trans h.name
  jobs := by
    obtain ⟨copies, hkeys, hcopies⟩ := h.jobs
    obtain ⟨copies', hkeys', hcopies'⟩ := h'.jobs
    refine ⟨copies ++ copies', by rw [hkeys', hkeys, List.append_assoc], ?_⟩
    rw [List.map_append, List.map_append, hcopies, hcopies', h.name]
  reservations := fun job hjob hres => h'.reservations job (h.reservations job hjob hres) hres
  profiles := fun name hname => (h.profiles name fun n hn => hname n (List.mem_append_left _ hn)).trans
    (h'.profiles name fun n hn => hname n (List.mem_append_right _ hn))
  copied := by
    intro n hn
    by_cases hnew : n ∈ numbers'
    · exact h'.copied n hnew
    · have hne : ∀ n' ∈ numbers', toString n' ≠ toString n := fun n' hn' hsame => hnew (toString_injective hsame ▸ hn')
      rw [(h'.profiles _ hne).isSome_eq]
      exact h.copied n ((List.mem_append.1 hn).resolve_right hnew)

/-- Numbers are free one after the other. -/
theorem Grown.free_append {w w' : AlterableWorkload F P} {numbers : List ℤ} (h : Grown reader w w' numbers) (numbers' : List ℤ) :
    Free w (numbers ++ numbers') ↔ Free w numbers ∧ Free w' numbers' := by
  have hids : ∀ n, (∀ job ∈ w'.jobs, job.id ≠ identifier w.name n) ↔
      (∀ job ∈ w.jobs, job.id ≠ identifier w.name n) ∧ n ∉ numbers := by
    intro n
    have hmem : ∀ jobs : List (WorkloadJob F), (∀ job ∈ jobs, job.id ≠ identifier w.name n) ↔
        identifier w.name n ∉ jobs.map (·.id) := fun jobs => by
      rw [List.mem_map, not_exists]
      exact forall_congr' fun job => not_and.symm
    rw [hmem, hmem, h.ids, List.mem_append, not_or, List.mem_map_of_injective (identifier_injective w.name)]
  have hprofiles : ∀ n, n ∉ numbers → (w'.profiles (toString n) = none ↔ w.profiles (toString n) = none) := by
    intro n hn
    have hsome := (h.profiles (toString n) fun n' hn' hsame => hn (toString_injective hsame ▸ hn')).isSome_eq
    rw [← Option.not_isSome_iff_eq_none, ← Option.not_isSome_iff_eq_none, hsome]
  constructor
  · intro hfree
    have hdistinct := List.nodup_append.1 hfree.distinct
    have hnot : ∀ n ∈ numbers', n ∉ numbers := fun n hn hold => hdistinct.2.2 n hold n hn rfl
    refine ⟨hfree.left, hdistinct.2.1, fun n hn => ?_, fun n hn => ?_⟩
    · rw [h.name]
      exact (hids n).2 ⟨hfree.id n (List.mem_append_right _ hn), hnot n hn⟩
    · exact (hprofiles n (hnot n hn)).2 (hfree.profile n (List.mem_append_right _ hn))
  · rintro ⟨hfirst, hsecond⟩
    have hsplit : ∀ n ∈ numbers', (∀ job ∈ w.jobs, job.id ≠ identifier w.name n) ∧ n ∉ numbers := fun n hn =>
      (hids n).1 (h.name ▸ hsecond.id n hn)
    refine ⟨List.nodup_append.2 ⟨hfirst.distinct, hsecond.distinct, fun n hn n' hn' hsame => ?_⟩, fun n hn => ?_, fun n hn => ?_⟩
    · exact (hsplit n' hn').2 (hsame ▸ hn)
    · exact (List.mem_append.1 hn).elim (hfirst.id n) fun hn => (hsplit n hn).1
    · exact (List.mem_append.1 hn).elim (hfirst.profile n) fun hn => (hprofiles n (hsplit n hn).2).1 (hsecond.profile n hn)

theorem Keeps.free_iff {w w' : AlterableWorkload F P} (h : Keeps reader w w') (numbers : List ℤ) :
    Free w numbers ↔ Free w' numbers :=
  (h.grown.free_append numbers).trans (and_iff_right (.nil w))

theorem Keeps.trans_grown {w₁ w₂ w₃ : AlterableWorkload F P} {numbers : List ℤ} (h : Keeps reader w₁ w₂)
    (h' : Grown reader w₂ w₃ numbers) : Grown reader w₁ w₃ numbers := h.grown.trans h'

theorem Grown.nodup {w w' : AlterableWorkload F P} {numbers : List ℤ} (h : Grown reader w w' numbers) (hfree : Free w numbers)
    (hw : w.WellFormed) : (w'.jobs.map (·.id)).Nodup := by
  rw [h.ids, List.nodup_append]
  refine ⟨hw.unique, hfree.distinct.map (identifier_injective w.name), fun id hid new hnew => ?_⟩
  obtain ⟨job, hjob, rfl⟩ := List.mem_map.1 hid
  obtain ⟨n, hn, rfl⟩ := List.mem_map.1 hnew
  exact hfree.id n hn job hjob

theorem Grown.wellFormed {w w' : AlterableWorkload F P} {numbers : List ℤ} (h : Grown reader w w' numbers) (hfree : Free w numbers)
    (hw : w.WellFormed) (hdescribed : ∀ job ∈ w'.jobs, job.Described) : w'.WellFormed where
  unique := h.nodup hfree hw
  described := hdescribed
  profile := by
    intro job hjob
    obtain ⟨copies, hkeys, hcopies⟩ := h.jobs
    have hkey : job.key ∈ w.jobs.map (·.key) ++ copies := hkeys ▸ List.mem_map_of_mem hjob
    rcases List.mem_append.1 hkey with hold | hnew
    · obtain ⟨old, hold, hsame⟩ := List.mem_map.1 hold
      have hsome := hw.profile old hold
      have hne : ∀ n ∈ numbers, toString n ≠ job.profile := by
        intro n hn hname
        rw [profile_eq_of_key hsame, ← hname, hfree.profile n hn] at hsome
        cases hsome
      rw [(h.profiles _ hne).isSome_eq, ← profile_eq_of_key hsame]
      exact hsome
    · have hnames : (job.id, job.jobNumber, job.profile) ∈ copies.map fun key => (key.1, key.2.1, key.2.2.2) :=
        List.mem_map.2 ⟨job.key, hnew, rfl⟩
      obtain ⟨n, hn, hsame⟩ := List.mem_map.1 (hcopies ▸ hnames)
      have hname : toString n = job.profile := congrArg (·.2.2) hsame
      exact hname ▸ h.copied n hn

/-! ## One round of copies -/

variable (reader)

/-- A copy has a number, and the names that come with it. -/
structure IsCopy (workload : String) (n : ℤ) (job : WorkloadJob F) : Prop where
  id : job.id = identifier workload n
  jobNumber : job.jobNumber = n
  profile : job.profile = toString n
  described : job.Described

variable {reader}

theorem copySubtime_error {c : Copies} {st : CopyState} {t : ℚ} {e : AlterationAbort} (h : copySubtime c st t = .error e) :
    e = .refused := by
  unfold copySubtime at h
  split at h
  case h_6 =>
    cases h
    rfl
  case h_8 => split_ifs at h
  all_goals cases h

theorem isCopy_setCopied {job : WorkloadJob F} (hjob : job.Described) (workload : String) (n : ℤ)
    (date : Option (ℚ × Option String)) : IsCopy workload n (setCopied (renumber workload n job) date) := by
  cases date with
  | none => exact ⟨rfl, rfl, rfl, rfl, hjob.subtime, hjob.submissionTimes⟩
  | some date => exact ⟨rfl, rfl, rfl, rfl, rfl, hjob.submissionTimes⟩

theorem copyLoop_yields (reader : DescriptionReader F P) (c : Copies) (workload : String) (profiles : String → Option P)
    (st : CopyState) {jobs : List (WorkloadJob F)} (hjobs : ∀ job ∈ jobs, job.Described) :
    Execution.Yields
      (fun copied => List.Forall₂ (fun n copy => IsCopy workload n copy.1) (numbersFrom st.startId jobs.length) copied.1 ∧
        ∀ n ∈ numbersFrom st.startId jobs.length, n + 1 < 2 ^ 31)
      (fun e => e = .refused ∨ ∃ n ∈ numbersFrom st.startId jobs.length, 2 ^ 31 ≤ n + 1)
      (copyLoop reader c workload profiles st jobs) := by
  induction jobs generalizing st with
  | nil => exact ⟨.nil, fun _ hn => absurd hn List.not_mem_nil⟩
  | cons job jobs ih =>
    rw [List.forall_mem_cons] at hjobs
    simp only [copyLoop, List.length_cons, numbersFrom]
    cases (profiles job.profile).bind (reader.copyProfile (toString st.startId)) with
    | none => exact .inl rfl
    | some profile =>
      cases hdate : copySubtime c st job.submissionTime with
      | error e => exact .inl (copySubtime_error hdate)
      | ok dated =>
        dsimp only
        split_ifs with hlarge
        · exact .inr ⟨st.startId, List.mem_cons_self, hlarge⟩
        · have hrest := ih { dated.2 with startId := st.startId + 1 } hjobs.2
          refine .intro (fun copied h => ?_) fun e h => ?_
          · obtain ⟨rest, hrun, rfl⟩ := Execution.map_eq_ok.1 h
            obtain ⟨hcopies, hsmall⟩ := hrest.of_ok hrun
            exact ⟨.cons (isCopy_setCopied hjobs.1 workload st.startId dated.1) hcopies,
              List.forall_mem_cons.2 ⟨lt_of_not_ge hlarge, hsmall⟩⟩
          · refine (hrest.of_error (Execution.map_eq_error.1 h)).imp_right ?_
            rintro ⟨n, hn, hn'⟩
            exact ⟨n, List.mem_cons_of_mem _ hn, hn'⟩

/-- One copy comes in. -/
theorem grown_append (reader : DescriptionReader F P) (w : AlterableWorkload F P) {n : ℤ} {job : WorkloadJob F}
    (hjob : IsCopy w.name n job) (profile : P) :
    Grown reader w { w with
      jobs := w.jobs ++ [job]
      profiles := Function.update w.profiles job.profile (some profile) } [n] where
  name := rfl
  jobs := by
    refine ⟨[job.key], List.map_append, ?_⟩
    simp only [List.map_singleton, WorkloadJob.key, hjob.id, hjob.jobNumber, hjob.profile]
  reservations := fun _ hold _ => List.mem_append_left _ hold
  profiles := by
    intro name hname
    dsimp only
    rw [Function.update_of_ne fun hsame => hname n List.mem_cons_self (hjob.profile ▸ hsame.symm)]
    exact .refl _
  copied := by
    intro n' hn'
    dsimp only
    rw [List.mem_singleton.1 hn', ← hjob.profile, Function.update_self]
    rfl

/-- `extend` takes in copies if their numbers are free. -/
theorem extend_yields (reader : DescriptionReader F P) {w : AlterableWorkload F P} (hw : ∀ job ∈ w.jobs, job.Described)
    {numbers : List ℤ} {copies : List (WorkloadJob F × P)}
    (hcopies : List.Forall₂ (fun n copy => IsCopy w.name n copy.1) numbers copies) :
    Execution.Yields (fun w' => Free w numbers ∧ Grown reader w w' numbers ∧ ∀ job ∈ w'.jobs, job.Described)
      (fun _ => ¬Free w numbers) (extend w copies) := by
  induction copies generalizing w numbers with
  | nil =>
    cases hcopies
    exact ⟨.nil w, (Keeps.refl w).grown, hw⟩
  | cons copy copies ih =>
    cases hcopies with
    | @cons n _ numbers _ hcopy hcopies =>
      simp only [extend]
      split_ifs with hexists hprofile
      · obtain ⟨job, hjob, hid⟩ := List.any_eq_true.1 hexists
        exact fun hfree => hfree.id n List.mem_cons_self job hjob ((of_decide_eq_true hid).trans hcopy.id)
      · intro hfree
        rw [hcopy.profile, hfree.profile n List.mem_cons_self] at hprofile
        cases hprofile
      · have hgrown := grown_append reader w hcopy copy.2
        have hone : Free w [n] := by
          refine ⟨List.nodup_singleton n, fun n' hn' job hjob hid => ?_, fun n' hn' => ?_⟩
          · rw [List.mem_singleton.1 hn'] at hid
            exact hexists (List.any_eq_true.2 ⟨job, hjob, decide_eq_true (hid.trans hcopy.id.symm)⟩)
          · rw [List.mem_singleton.1 hn', ← hcopy.profile]
            exact Option.not_isSome_iff_eq_none.1 hprofile
        have hdescribed : ∀ job ∈ w.jobs ++ [copy.1], job.Described := fun job hjob =>
          (List.mem_append.1 hjob).elim (hw job) fun hjob => List.mem_singleton.1 hjob ▸ hcopy.described
        have hrest := ih (w := { w with
          jobs := w.jobs ++ [copy.1]
          profiles := Function.update w.profiles copy.1.profile (some copy.2) }) hdescribed hcopies
        have hsplit := hgrown.free_append numbers
        refine .intro (fun w' h => ?_) fun e h hfree => ?_
        · obtain ⟨hfree, hgrown', hall⟩ := hrest.of_ok h
          exact ⟨hsplit.2 ⟨hone, hfree⟩, hgrown.trans hgrown', hall⟩
        · exact hrest.of_error h (hsplit.1 hfree).2

variable (reader) (sorter : Sorter (SortJobBySubmit (F := F)))

theorem copyComponents_yields (c : Copies) (workload : String) (profiles : String → Option P) (st : CopyState)
    {oldJobs : List (WorkloadJob F)} (hold : ∀ job ∈ oldJobs, job.Described ∧ job.isReservation = false) :
    Execution.Yields
      (fun out => Edited reader profiles out.1 ∧
        List.Forall₂ (fun n copy => IsCopy workload n copy.1) (numbersFrom st.startId oldJobs.length) out.2.1 ∧
        ∀ n ∈ numbersFrom st.startId oldJobs.length, n + 1 < 2 ^ 31)
      (fun e => e = .refused ∨ ∃ n ∈ numbersFrom st.startId oldJobs.length, 2 ^ 31 ≤ n + 1)
      (copyComponents reader sorter c workload profiles st oldJobs) := by
  unfold copyComponents
  cases hread : getJobsAsCopiedVector reader profiles oldJobs with
  | error e => exact .inl (getJobsAsCopiedVector_error hread)
  | ok read =>
    obtain ⟨hedited, hagain⟩ := getJobsAsCopiedVector_ok (fun job hjob => (hold job hjob).1) hread
    rw [List.filter_eq_self.2 fun job hjob => by rw [(hold job hjob).2]; rfl] at hagain
    have hdescribed := Again.described_all hagain fun job hjob => (hold job hjob).1
    have hloop := copyLoop_yields reader c workload read.1 { st with previousSubtime := -1 }
      fun job hjob => hdescribed job (sorter.mem_sort.1 hjob)
    rw [(sorter.perm read.2).length_eq, ← hagain.length_eq] at hloop
    refine .intro (fun out h => ?_) fun e h => hloop.of_error (Execution.map_eq_error.1 h)
    obtain ⟨copied, hrun, rfl⟩ := Execution.map_eq_ok.1 h
    have hcopied := hloop.of_ok hrun
    exact ⟨hedited, hcopied.1, hcopied.2⟩

/-- The rounds of copies go through if all their numbers are free, and small. -/
theorem copyRounds_yields (c : Copies) {oldJobs : List (WorkloadJob F)}
    (hold : ∀ job ∈ oldJobs, job.Described ∧ job.isReservation = false) (rounds : ℕ) (st : CopyState) {w : AlterableWorkload F P}
    (hw : ∀ job ∈ w.jobs, job.Described) :
    Execution.Yields
      (fun w' => (∀ n ∈ copyNumbers oldJobs.length rounds st.startId, n + 1 < 2 ^ 31) ∧
        Free w (copyNumbers oldJobs.length rounds st.startId) ∧ Grown reader w w' (copyNumbers oldJobs.length rounds st.startId) ∧
        ∀ job ∈ w'.jobs, job.Described)
      (fun e => e = .refused ∨ ¬((∀ n ∈ copyNumbers oldJobs.length rounds st.startId, n + 1 < 2 ^ 31) ∧
        Free w (copyNumbers oldJobs.length rounds st.startId)))
      (copyRounds reader sorter c oldJobs rounds st w) := by
  induction rounds generalizing st w with
  | zero =>
    exact ⟨fun _ hn => absurd hn List.not_mem_nil, .nil w, (Keeps.refl w).grown, hw⟩
  | succ rounds ih =>
    rw [copyRounds, copyNumbers, List.forall_mem_append]
    have hcopies := copyComponents_yields reader sorter c w.name w.profiles st hold
    cases hrun : copyComponents reader sorter c w.name w.profiles st oldJobs with
    | error e =>
      refine (hcopies.of_error hrun).imp_right ?_
      rintro ⟨n, hn, hlarge⟩ ⟨⟨hsmall, -⟩, -⟩
      exact absurd (hsmall n hn) (not_lt.2 hlarge)
    | ok out =>
      obtain ⟨hedited, hnew, hsmall⟩ := hcopies.of_ok hrun
      have hlength : out.2.1.length = oldJobs.length := by rw [← hnew.length_eq, length_numbersFrom]
      have hkeeps : Keeps reader w { w with profiles := out.1 } := ⟨rfl, rfl, fun _ hjob _ => hjob, hedited⟩
      have hextend := extend_yields reader (w := { w with profiles := out.1 }) hw hnew
      simp only [hlength]
      cases hextended : extend { w with profiles := out.1 } out.2.1 with
      | error e =>
        refine .inr ?_
        rintro ⟨-, hfree⟩
        exact hextend.of_error hextended ((hkeeps.free_iff _).1 hfree.left)
      | ok w₁ =>
        obtain ⟨hfree, hgrown, hw₁⟩ := hextend.of_ok hextended
        have hsplit := (hkeeps.trans_grown hgrown).free_append
          (copyNumbers oldJobs.length rounds (toInt (st.startId + oldJobs.length + 1)))
        have hrest := ih { out.2.2 with startId := toInt (st.startId + oldJobs.length + 1) } hw₁
        refine .intro (fun w' h => ?_) fun e h => ?_
        · obtain ⟨hsmall', hfree', hgrown', hw'⟩ := hrest.of_ok h
          exact ⟨⟨hsmall, hsmall'⟩, hsplit.2 ⟨(hkeeps.free_iff _).2 hfree, hfree'⟩, (hkeeps.trans_grown hgrown).trans hgrown', hw'⟩
        · exact (hrest.of_error h).imp_right fun hno hall => hno ⟨hall.1.2, (hsplit.1 hall.2).2⟩

/-! ## `alter_workload` -/

/-- The numbers that `--copy` gives: they begin above the largest one of the jobs that are not reservations. -/
def copyNumbersOf (w : AlterableWorkload F P) (c : Copies) : List ℤ :=
  copyNumbers w.others.length (c.copies - 1) (largestId w.others + 1)

/-- Those numbers are counted in an `int`, and are free. -/
structure CopyFree (w : AlterableWorkload F P) (c : Copies) : Prop where
  first : largestId w.others + 1 < 2 ^ 31
  small : ∀ n ∈ copyNumbersOf w c, n + 1 < 2 ^ 31
  free : Free w (copyNumbersOf w c)

theorem largestId_eq {jobs jobs' : List (WorkloadJob F)} (h : jobs'.map (·.key) = jobs.map (·.key)) :
    largestId jobs' = largestId jobs := by
  have hnumbers := congrArg (List.map (·.2.1)) h
  simp only [List.map_map, Function.comp_def, WorkloadJob.key] at hnumbers
  rw [largestId, largestId, hnumbers]

omit reader in
theorem others_key (w : AlterableWorkload F P) :
    w.others.map (·.key) = (w.jobs.map (·.key)).filter fun key => !(key.2.2.1 == "reservation") := by
  rw [List.filter_map]
  rfl

variable {reader}

theorem Keeps.others_key {w w' : AlterableWorkload F P} (h : Keeps reader w w') :
    w'.others.map (·.key) = w.others.map (·.key) := by
  rw [Alteration.others_key, Alteration.others_key, h.keys]

theorem Keeps.copyNumbersOf_eq {w w' : AlterableWorkload F P} (h : Keeps reader w w') (c : Copies) :
    copyNumbersOf w' c = copyNumbersOf w c := by
  have hlength : w'.others.length = w.others.length := by simpa only [List.length_map] using congrArg List.length h.others_key
  rw [copyNumbersOf, copyNumbersOf, largestId_eq h.others_key, hlength]

theorem Keeps.copyFree_iff {w w' : AlterableWorkload F P} (h : Keeps reader w w') (c : Copies) : CopyFree w c ↔ CopyFree w' c := by
  have hlargest := largestId_eq h.others_key
  have hnumbers := h.copyNumbersOf_eq c
  constructor
  · rintro ⟨hfirst, hsmall, hfree⟩
    exact ⟨hlargest ▸ hfirst, hnumbers ▸ hsmall, hnumbers ▸ (h.free_iff _).1 hfree⟩
  · rintro ⟨hfirst, hsmall, hfree⟩
    exact ⟨hlargest ▸ hfirst, hnumbers ▸ hsmall, (h.free_iff _).2 (hnumbers ▸ hfree)⟩

variable (reader)

theorem copyJobs_yields (c : Copies) {w : AlterableWorkload F P} (hw : w.WellFormed) :
    Execution.Yields (fun w' => CopyFree w c ∧ Grown reader w w' (copyNumbersOf w c) ∧ w'.WellFormed)
      (fun e => e = .refused ∨ ¬CopyFree w c) (copyJobs reader sorter w (some c)) := by
  simp only [copyJobs]
  cases hread : getJobsAsCopiedVector reader w.profiles w.jobs with
  | error e => exact .inl (getJobsAsCopiedVector_error hread)
  | ok read =>
    obtain ⟨hedited, hagain⟩ := getJobsAsCopiedVector_ok hw.described hread
    have hkey : read.2.map (·.key) = w.others.map (·.key) := Again.map_key hagain
    have hold : ∀ job ∈ read.2, job.Described ∧ job.isReservation = false := by
      intro job hjob
      obtain ⟨old, hmem, hsame⟩ := List.mem_map.1 (hkey ▸ List.mem_map_of_mem hjob : job.key ∈ w.others.map (·.key))
      refine ⟨Again.described_all hagain (fun j hj => hw.described j (AlterableWorkload.mem_others.1 hj).1) job hjob, ?_⟩
      rw [← isReservation_eq_of_key hsame]
      exact (AlterableWorkload.mem_others.1 hmem).2
    have hkeeps : Keeps reader w { w with profiles := read.1 } := ⟨rfl, rfl, fun _ hjob _ => hjob, hedited⟩
    have hrounds := copyRounds_yields reader sorter c hold (c.copies - 1) { startId := largestId read.2 + 1 }
      (w := { w with profiles := read.1 }) hw.described
    have hlength : read.2.length = w.others.length := hagain.length_eq.symm
    simp only [largestId_eq hkey, hlength] at hrounds ⊢
    split_ifs with hlarge
    · exact .inr fun hfree => absurd hfree.first (not_lt.2 hlarge)
    · refine .intro (fun w' h => ?_) fun e h => ?_
      · obtain ⟨hsmall, hfree, hgrown, hdescribed⟩ := hrounds.of_ok h
        have hfree := (hkeeps.free_iff _).2 hfree
        have hgrown := hkeeps.trans_grown hgrown
        exact ⟨⟨lt_of_not_ge hlarge, hsmall, hfree⟩, hgrown, hgrown.wellFormed hfree hw hdescribed⟩
      · exact (hrounds.of_error h).imp_right fun hno hfree => hno ⟨hfree.small, (hkeeps.free_iff _).1 hfree.free⟩

/-- Everything that was in a workload is in another one, which has some jobs more, with profiles of their own. -/
structure Copied (w w' : AlterableWorkload F P) (added : ℕ) : Prop where
  unique : (w'.jobs.map (·.id)).Nodup
  length : w'.jobs.length = w.jobs.length + added
  kept : (w'.jobs.take w.jobs.length).map (·.key) = w.jobs.map (·.key)
  reservations : ∀ job ∈ w.jobs, job.isReservation = true → job ∈ w'.jobs
  profiles : ∀ name p, w.profiles name = some p →
    ∃ p', w'.profiles name = some p' ∧ Relation.ReflTransGen (fun p p' => ∃ fields, p' = reader.editProfile fields p) p p'
  newProfiles : ((w'.jobs.drop w.jobs.length).map (·.profile)).Nodup
  newProfile : ∀ job ∈ w'.jobs.drop w.jobs.length, w.profiles job.profile = none ∧ (w'.profiles job.profile).isSome

variable {reader}

theorem Grown.copied_of_free {w w' : AlterableWorkload F P} {numbers : List ℤ} (h : Grown reader w w' numbers)
    (hfree : Free w numbers) (hw : w.WellFormed) : Copied reader w w' numbers.length := by
  obtain ⟨copies, hkeys, hcopies⟩ := h.jobs
  have hlength : w.jobs.length = (w.jobs.map (·.key)).length := (List.length_map _).symm
  have hdrop : (w'.jobs.drop w.jobs.length).map (·.key) = copies := by
    rw [List.map_drop, hkeys, hlength, List.drop_left]
  have hnew : (w'.jobs.drop w.jobs.length).map (·.profile) = numbers.map toString := by
    have hnames := congrArg (List.map (·.2.2)) hcopies
    rw [← hdrop] at hnames
    simpa only [List.map_map, Function.comp_def, WorkloadJob.key] using hnames
  refine ⟨h.nodup hfree hw, ?_, ?_, h.reservations, fun name p hp => ?_, hnew ▸ hfree.distinct.map toString_injective, ?_⟩
  · have hids := congrArg List.length h.ids
    simpa only [List.length_append, List.length_map] using hids
  · rw [List.map_take, hkeys, hlength, List.take_left]
  · have hne : ∀ n ∈ numbers, toString n ≠ name := fun n hn hsame => by
      rw [← hsame, hfree.profile n hn] at hp
      cases hp
    have hedited := h.profiles name hne
    rw [hp] at hedited
    cases hp' : w'.profiles name with
    | none => rw [hp'] at hedited; cases hedited
    | some p' =>
      rw [hp'] at hedited
      cases hedited with
      | some hsteps => exact ⟨p', rfl, hsteps⟩
  · intro job hjob
    obtain ⟨n, hn, hname⟩ := List.mem_map.1 (hnew ▸ List.mem_map_of_mem hjob : job.profile ∈ numbers.map toString)
    exact hname ▸ ⟨hfree.profile n hn, h.copied n hn⟩

theorem Grown.trans_keeps {w₁ w₂ w₃ : AlterableWorkload F P} {numbers : List ℤ} (h : Grown reader w₁ w₂ numbers)
    (h' : Keeps reader w₂ w₃) : Grown reader w₁ w₃ numbers := List.append_nil numbers ▸ h.trans h'.grown

variable (reader)

theorem alterWorkload_yields (before : Option SubmissionTimes) (copy : Option Copies) (after : Option SubmissionTimes)
    {w : AlterableWorkload F P} (hw : w.WellFormed) :
    Execution.Yields
      (fun w' => (∀ c ∈ copy, CopyFree w c) ∧ Free w (copy.elim [] (copyNumbersOf w)) ∧
        Grown reader w w' (copy.elim [] (copyNumbersOf w)))
      (fun e => e = .refused ∨ ¬∀ c ∈ copy, CopyFree w c) (alterWorkload reader sorter before copy after w) := by
  have hbefore := changeSubmits_yields reader sorter before hw
  unfold alterWorkload
  cases hfirst : changeSubmits reader sorter w before with
  | error e => exact .inl (hbefore.of_error hfirst)
  | ok w₁ =>
    obtain ⟨hkeeps, hw₁⟩ := hbefore.of_ok hfirst
    cases copy with
    | none =>
      have hafter := changeSubmits_yields reader sorter after hw₁
      refine .intro (fun w' h => ?_) fun e h => .inl (hafter.of_error h)
      exact ⟨fun _ hc => (Option.not_mem_none _ hc).elim, .nil w, (hkeeps.trans (hafter.of_ok h).1).grown⟩
    | some c =>
      have hcopy := copyJobs_yields reader sorter c hw₁
      have hall : (∀ c' ∈ some c, CopyFree w c') ↔ CopyFree w₁ c := by
        rw [← hkeeps.copyFree_iff]
        exact ⟨fun h => h c rfl, fun h c' hc' => Option.some.inj hc' ▸ h⟩
      dsimp only
      rw [hall]
      cases hsecond : copyJobs reader sorter w₁ (some c) with
      | error e => exact hcopy.of_error hsecond
      | ok w₂ =>
        obtain ⟨hfree, hgrown, hw₂⟩ := hcopy.of_ok hsecond
        have hafter := changeSubmits_yields reader sorter after hw₂
        have hnew := hfree.free
        rw [hkeeps.copyNumbersOf_eq] at hnew hgrown
        exact .intro (fun w' h => ⟨hfree, (hkeeps.free_iff _).2 hnew, (hkeeps.trans_grown hgrown).trans_keeps (hafter.of_ok h).1⟩)
          fun e h => .inl (hafter.of_error h)

end Alteration

open Alteration

/-- Where Batsim refuses none of the descriptions and options, altering a workload loses nothing and adds `copies - 1` jobs for each
job that is not a reservation if and only if the numbers above the largest of those jobs' are free: no job has such an identifier,
and no profile is called so. -/
theorem alter_workload_copies_iff {F P : Type*} (reader : DescriptionReader F P) (sorter : Sorter (SortJobBySubmit (F := F)))
    (before : Option SubmissionTimes) (copy : Option Copies) (after : Option SubmissionTimes) {w : AlterableWorkload F P}
    (hw : w.WellFormed) (hread : alterWorkload reader sorter before copy after w ≠ .error .refused) :
    (∃ w', alterWorkload reader sorter before copy after w = .ok w' ∧
      Copied reader w w' (copy.elim 0 fun c => (c.copies - 1) * w.others.length)) ↔ ∀ c ∈ copy, CopyFree w c := by
  have hall := alterWorkload_yields reader sorter before copy after hw
  have hlength : (copy.elim [] (copyNumbersOf w)).length = copy.elim 0 fun c => (c.copies - 1) * w.others.length := by
    cases copy with
    | none => rfl
    | some c => exact length_copyNumbers _ _ _
  constructor
  · rintro ⟨w', h, -⟩
    exact (hall.of_ok h).1
  · intro hfree
    cases hrun : alterWorkload reader sorter before copy after w with
    | error e =>
      rcases hall.of_error hrun with rfl | hno
      · exact absurd hrun hread
      · exact absurd hfree hno
    | ok w' =>
      obtain ⟨-, hnew, hgrown⟩ := hall.of_ok hrun
      exact ⟨w', rfl, hlength ▸ hgrown.copied_of_free hnew hw⟩

namespace AlteredWorkload

/-- Nothing is done to descriptions that is not always done. -/
def reader : DescriptionReader (ProfileType × LoadedJob) Profile := LoadOptions.reader {} fun _ => false

def sorter : Sorter (SortJobBySubmit (F := ProfileType × LoadedJob)) := Sorter.stable _

/-- A job of profile `p`, submitted at 0. -/
def job (jobNumber : ℤ) (purpose : String) : WorkloadJob (ProfileType × LoadedJob) where
  id := identifier "w0" jobNumber
  jobNumber := jobNumber
  purpose := purpose
  profile := "p"
  submissionTime := 0
  submissionTimes := [0]
  jsonDescription := { profile := "p", subtime := 0, submissionTimes := some [0] }
  fields := (.delay, { description := { id := identifier "w0" jobNumber, profile := "p" } })

/-- A job of number 1 and a reservation. -/
def workload (reservation : ℤ) : AlterableWorkload (ProfileType × LoadedJob) Profile where
  name := "w0"
  jobs := [job 1 "job", job reservation "reservation"]
  profiles := fun name => if name = "p" then some (.ofDescription { type := .delay, amount := 10 }) else none

theorem workload_wellFormed {n : ℤ} (hn : 1 ≠ n) : (workload n).WellFormed where
  unique := List.nodup_cons.2 ⟨fun h => hn (identifier_injective "w0" (List.mem_singleton.1 h)), List.nodup_singleton _⟩
  described := by
    intro j hj
    rcases List.mem_pair.1 hj with rfl | rfl
    all_goals exact ⟨rfl, rfl, rfl⟩
  profile := by
    intro j hj
    rcases List.mem_pair.1 hj with rfl | rfl
    all_goals rfl

end AlteredWorkload

open AlteredWorkload in
/-- Two copies of a job of number 1, beside a reservation of number 3: the copy gets the number 2. -/
theorem alter_workload_copies_iff_witness :
    ∃ w', alterWorkload reader sorter none (some { copies := 2 }) none (workload 3) = .ok w' ∧
      Copied reader (workload 3) w' 1 := by
  have hread : alterWorkload reader sorter none (some { copies := 2 }) none (workload 3) ≠ .error .refused := by
    intro h
    have hok : (alterWorkload reader sorter none (some { copies := 2 }) none (workload 3)).isOk = true := rfl
    rw [h] at hok
    cases hok
  refine (alter_workload_copies_iff reader sorter none (some { copies := 2 }) none (workload_wellFormed (by decide)) hread).2 ?_
  intro c hc
  rw [← Option.some.inj hc]
  exact ⟨by decide, by decide, ⟨by decide, by decide, by decide⟩⟩

open AlteredWorkload in
/-- Two copies of a job of number 1, beside a reservation of number 2: the copy would get the reservation's number. -/
theorem alter_workload_copies_false :
    (workload 2).WellFormed ∧
      alterWorkload reader sorter none (some { copies := 2 }) none (workload 2) = .error (.jobExists "w0!2") ∧
      ¬∃ w', alterWorkload reader sorter none (some { copies := 2 }) none (workload 2) = .ok w' ∧
        Copied reader (workload 2) w' 1 := by
  have habort : alterWorkload reader sorter none (some { copies := 2 }) none (workload 2) = .error (.jobExists "w0!2") := rfl
  refine ⟨workload_wellFormed (by decide), habort, ?_⟩
  rintro ⟨w', h, -⟩
  rw [habort] at h
  cases h

end ScheduleTest
