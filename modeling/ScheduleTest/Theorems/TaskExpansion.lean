import ScheduleTest.TaskExpansion
import Mathlib.Order.WellFounded
import Mathlib.Data.Fintype.Order
import Mathlib.Order.RelClasses
import Mathlib.Logic.Relation
import Mathlib.Data.Set.Finite.Basic

/-!
# When the expansion of a job ends

The validity of a workload does not ask whether a composed profile refers to itself. The recursion follows the references, so it ends
for a job exactly when no profile that can be reached from its own comes back to itself.
-/

namespace ScheduleTest

open Relation (ReflTransGen TransGen)

/-- In a finite set that is closed under a relation without cycles, there is no infinite chain. -/
theorem acc_of_no_cycle {α : Type*} {R : α → α → Prop} {s : Set α} (hfinite : s.Finite)
    (hclosed : ∀ a ∈ s, ∀ b, R a b → b ∈ s) (hcycle : ∀ a ∈ s, ¬TransGen R a a) : ∀ a ∈ s, Acc (fun b a => R a b) a := by
  have : Finite s := hfinite
  let below : s → s → Prop := fun b a => TransGen R a b
  have : IsTrans s below := ⟨fun _ _ _ hab hbc => hbc.trans hab⟩
  have : Std.Irrefl below := ⟨fun a => hcycle a a.2⟩
  have hwf : WellFounded below := Finite.wellFounded_of_trans_of_irrefl below
  intro a ha
  have hacc : ∀ x : s, Acc (fun b a => R a b) x.1 := by
    intro x
    induction x using hwf.induction with
    | h x ih => exact ⟨x.1, fun b hb => ih ⟨b, hclosed x.1 x.2 b hb⟩ (.single hb)⟩
  exact hacc ⟨a, ha⟩

namespace ProfiledWorkload

variable {w : ProfiledWorkload} {w' : CheckedWorkload}

/-- A composed profile that is executed at least once refers to the profiles of its sequence. -/
def Refers (w : ProfiledWorkload) (p q : String) : Prop :=
  ∃ data, w.profile? p = some (.sequence data) ∧ 0 < data.repeats ∧ q ∈ data.sequence

/-- No profile that is reached from a profile leads back to itself. -/
def NoCycleFrom (w : ProfiledWorkload) (p : String) : Prop := ¬∃ q, ReflTransGen w.Refers p q ∧ TransGen w.Refers q q

theorem mapM_checkUsed {profile : String} {l found : List String} (h : l.mapM (w.checkUsed profile) = .ok found) :
    found = l ∧ ∀ q ∈ l, (w.profile? q).isSome := by
  have hall := Execution.mapM_eq_ok.1 h
  induction hall with
  | nil => exact ⟨rfl, fun q hq => absurd hq List.not_mem_nil⟩
  | @cons q q' l found hq htail ih =>
    obtain ⟨rfl, hrest⟩ := ih (Execution.mapM_eq_ok.2 htail)
    unfold checkUsed at hq
    split at hq
    · rename_i hexists
      obtain rfl := Except.ok.inj hq
      exact ⟨rfl, List.forall_mem_cons.2 ⟨hexists, hrest⟩⟩
    · cases hq

theorem checkProfile_ok {entry : String × WorkloadProfile} {pointers : String × List String} (h : w.checkProfile entry = .ok pointers) :
    pointers.1 = entry.1 ∧ ∀ data, entry.2 = .sequence data → pointers.2 = data.sequence ∧ ∀ q ∈ data.sequence, (w.profile? q).isSome := by
  unfold checkProfile at h
  split at h
  · rename_i data hdata
    obtain ⟨found, hfound, rfl⟩ := Execution.map_eq_ok.1 h
    obtain ⟨rfl, hexists⟩ := mapM_checkUsed hfound
    refine ⟨rfl, fun data' hdata' => ?_⟩
    obtain rfl := WorkloadProfile.sequence.inj (hdata.symm.trans hdata')
    exact ⟨rfl, hexists⟩
  · rename_i hother
    obtain rfl := Except.ok.inj h
    exact ⟨rfl, fun data hdata => absurd hdata (hother data)⟩

theorem checkSingleJobValidity_ok {job job' : ProfiledJob} (h : w.checkSingleJobValidity job = .ok job') :
    (w.profile? job.profile).isSome := by
  unfold checkSingleJobValidity at h
  split at h
  · cases h
  all_goals
    rename_i hprofile
    rw [hprofile]
    rfl

/-- The pointers that have been put into the composed profiles. -/
theorem find?_profileSequences {profiles : List (String × WorkloadProfile)} {pointers : List (String × List String)}
    (h : List.Forall₂ (fun entry pointers => w.checkProfile entry = .ok pointers) profiles pointers) {name : String}
    {entry : String × WorkloadProfile} (hentry : profiles.find? (·.1 = name) = some entry) :
    ∃ found, pointers.find? (·.1 = name) = some found ∧ w.checkProfile entry = .ok found := by
  induction h with
  | nil => cases hentry
  | @cons first found profiles pointers hfirst htail ih =>
    have hname := (checkProfile_ok hfirst).1
    by_cases heq : first.1 = name
    · rw [List.find?_cons_of_pos (by simpa using heq)] at hentry
      obtain rfl := Option.some.inj hentry
      exact ⟨found, List.find?_cons_of_pos (by simpa [hname] using heq), hfirst⟩
    · rw [List.find?_cons_of_neg (by simpa using heq)] at hentry
      obtain ⟨found', hfound', hcheck⟩ := ih hentry
      exact ⟨found', by rw [List.find?_cons_of_neg (by simpa [hname] using heq), hfound'], hcheck⟩

/-- What is known of a workload that has been checked: the pointers are to the profiles of the sequences, which exist, and so do
those of the jobs. -/
structure Accepted (w : ProfiledWorkload) (w' : CheckedWorkload) : Prop where
  unchanged : w'.toProfiledWorkload = w
  subProfile : ∀ name data, w.profile? name = some (.sequence data) → ∀ i (hi : i < data.sequence.length),
    w'.subProfile name i = .ok data.sequence[i]
  used : ∀ p q, w.Refers p q → (w.profile? q).isSome
  jobs : ∀ job ∈ w.jobs, (w.profile? job.profile).isSome

/-- The pointers of a workload that has been checked are those of the sequences, to profiles that exist. -/
theorem pointers_of_checkValidity (h : w.checkValidity = .ok w') {name : String} {data : SequenceProfileData}
    (hdata : w.profile? name = some (.sequence data)) :
    ∃ found, w'.profileSequences.find? (·.1 = name) = some found ∧ found.2 = data.sequence ∧
      ∀ q ∈ data.sequence, (w.profile? q).isSome := by
  unfold checkValidity at h
  cases hprofiles : w.profiles.mapM w.checkProfile with
  | error e =>
    rw [hprofiles] at h
    cases h
  | ok pointers =>
    rw [hprofiles] at h
    obtain ⟨jobs, -, rfl⟩ := Execution.map_eq_ok.1 h
    obtain ⟨entry, hentry, hsecond⟩ := Option.map_eq_some_iff.1 hdata
    obtain ⟨found, hfound, hcheck⟩ := find?_profileSequences (Execution.mapM_eq_ok.1 hprofiles) hentry
    exact ⟨found, hfound, (checkProfile_ok hcheck).2 data hsecond⟩

theorem accepted_of_checkValidity (h : w.checkValidity = .ok w') : Accepted w w' := by
  have hpointers := fun name data hdata => @pointers_of_checkValidity w w' h name data hdata
  unfold checkValidity at h
  cases hprofiles : w.profiles.mapM w.checkProfile with
  | error e =>
    rw [hprofiles] at h
    cases h
  | ok pointers =>
    rw [hprofiles] at h
    obtain ⟨jobs, hjobs, rfl⟩ := Execution.map_eq_ok.1 h
    constructor
    · rfl
    · intro name data hdata i hi
      obtain ⟨found, hfound, hsequence, -⟩ := hpointers name data hdata
      unfold CheckedWorkload.subProfile
      dsimp only at hfound ⊢
      rw [hfound, Option.bind_some, hsequence, List.getElem?_eq_getElem hi]
    · rintro p q ⟨data, hdata, -, hq⟩
      obtain ⟨found, -, -, hexists⟩ := hpointers p data hdata
      exact hexists q hq
    · intro job hjob
      obtain ⟨i, hi, rfl⟩ := List.getElem_of_mem hjob
      exact checkSingleJobValidity_ok ((Execution.mapM_eq_ok.1 hjobs).get hi ((Execution.mapM_eq_ok.1 hjobs).length_eq ▸ hi))

/-! ## The recursion -/

variable {p q : String} {depth : ℕ}

/-- The indices of the loops over a sequence. -/
theorem mem_indices {repeats size i : ℕ} :
    i ∈ (List.replicate repeats (List.range size)).flatten ↔ 0 < repeats ∧ i < size := by
  simp [List.mem_flatten, List.mem_replicate, Nat.pos_iff_ne_zero]

theorem exists_of_forall₂ {α β : Type*} {R : α → β → Prop} {l : List α} {l' : List β} (h : List.Forall₂ R l l') {a : α} (ha : a ∈ l) :
    ∃ b ∈ l', R a b := by
  induction h with
  | nil => cases ha
  | @cons a' b l l' hab _ ih =>
    rcases List.mem_cons.1 ha with rfl | ha
    · exact ⟨b, List.mem_cons_self, hab⟩
    · obtain ⟨b', hb', hR⟩ := ih ha
      exact ⟨b', List.mem_cons_of_mem _ hb', hR⟩

/-- Finitely many bounds have a common one. -/
theorem exists_common_bound {α : Type*} {P : ℕ → α → Prop} {l : List α} (h : ∀ a ∈ l, ∃ bound, ∀ n, bound ≤ n → P n a) :
    ∃ bound, ∀ a ∈ l, ∀ n, bound ≤ n → P n a := by
  induction l with
  | nil => exact ⟨0, fun a ha => absurd ha List.not_mem_nil⟩
  | cons a l ih =>
    obtain ⟨first, hfirst⟩ := h a List.mem_cons_self
    obtain ⟨rest, hrest⟩ := ih fun a ha => h a (List.mem_cons_of_mem _ ha)
    refine ⟨max first rest, List.forall_mem_cons.2 ⟨fun n hn => hfirst n (le_of_max_le_left hn), fun a ha n hn => ?_⟩⟩
    exact hrest a ha n (le_of_max_le_right hn)

/-- No pointer is followed too deep. -/
theorem subProfile_ne_tooDeep {name : String} {i : ℕ} : w'.subProfile name i ≠ .error .tooDeep := by
  unfold CheckedWorkload.subProfile
  split <;> simp

theorem subIoProfile_ne_tooDeep {ioProfile : Option String} {i : ℕ} : w'.subIoProfile ioProfile i ≠ .error .tooDeep := by
  unfold CheckedWorkload.subIoProfile
  split
  · simp
  · split
    · exact fun h => subProfile_ne_tooDeep (Execution.map_eq_error.1 h)
    · simp

/-- What is cut off in the expansion of a profile is cut off in that of a profile that it refers to. -/
theorem Accepted.tooDeep_of_succ (h : Accepted w w') {ioProfile : Option String}
    (hdeep : w'.initializeSequentialTasks (depth + 1) p ioProfile = .error .tooDeep) :
    ∃ q ioProfile, w.Refers p q ∧ w'.initializeSequentialTasks depth q ioProfile = .error .tooDeep := by
  rw [CheckedWorkload.initializeSequentialTasks, h.unchanged] at hdeep
  split at hdeep
  · cases hdeep
  · rename_i data hdata
    obtain ⟨i, hi, herror⟩ := Execution.error_of_mapM (Execution.map_eq_error.1 hdeep)
    obtain ⟨hrepeats, hlength⟩ := mem_indices.1 hi
    rw [h.subProfile p data hdata i hlength] at herror
    change (w'.subIoProfile ioProfile i).bind _ = _ at herror
    cases hio : w'.subIoProfile ioProfile i with
    | error e =>
      rw [hio] at herror
      obtain rfl := Except.error.inj herror
      exact absurd hio subIoProfile_ne_tooDeep
    | ok subIo =>
      rw [hio] at herror
      exact ⟨data.sequence[i], subIo, ⟨data, hdata, hrepeats, List.getElem_mem hlength⟩, herror⟩
  · cases hdeep

/-- Where there is no infinite chain of references, nothing is cut off from some depth on. -/
theorem Accepted.ends_of_acc (h : Accepted w w') (hacc : Acc (fun q p => w.Refers p q) p) :
    ∃ bound, ∀ depth, bound ≤ depth → ∀ ioProfile, w'.initializeSequentialTasks depth p ioProfile ≠ .error .tooDeep := by
  induction hacc with
  | intro p _ ih =>
    have hbound : ∃ bound, ∀ q, w.Refers p q → ∀ depth, bound ≤ depth → ∀ ioProfile,
        w'.initializeSequentialTasks depth q ioProfile ≠ .error .tooDeep := by
      by_cases hrefers : ∃ data, w.profile? p = some (.sequence data) ∧ 0 < data.repeats
      · obtain ⟨data, hdata, hrepeats⟩ := hrefers
        obtain ⟨bound, hbound⟩ := exists_common_bound (l := data.sequence) fun q hq => ih q ⟨data, hdata, hrepeats, hq⟩
        refine ⟨bound, ?_⟩
        rintro q ⟨data', hdata', -, hq⟩
        obtain rfl := WorkloadProfile.sequence.inj (Option.some.inj (hdata.symm.trans hdata'))
        exact hbound q hq
      · refine ⟨0, ?_⟩
        rintro q ⟨data, hdata, hrepeats, -⟩
        exact absurd ⟨data, hdata, hrepeats⟩ hrefers
    obtain ⟨bound, hbound⟩ := hbound
    refine ⟨bound + 1, fun depth hdepth ioProfile hdeep => ?_⟩
    cases depth with
    | zero => omega
    | succ depth =>
      obtain ⟨q, subIo, hrefers, hsub⟩ := h.tooDeep_of_succ hdeep
      exact hbound q hrefers depth (by omega) subIo hsub

/-- Without an IO profile, everything that is read is there. -/
theorem Accepted.ok_of_ends (h : Accepted w w') (hexists : (w.profile? p).isSome)
    (hends : w'.initializeSequentialTasks depth p none ≠ .error .tooDeep) :
    ∃ task, w'.initializeSequentialTasks depth p none = .ok task := by
  cases hresult : w'.initializeSequentialTasks depth p none with
  | ok task => exact ⟨task, rfl⟩
  | error e =>
    exfalso
    cases e with
    | tooDeep => exact hends hresult
    | undefinedRead =>
      clear hends
      induction depth generalizing p with
      | zero => cases hresult
      | succ depth ih =>
        rw [CheckedWorkload.initializeSequentialTasks, h.unchanged] at hresult
        split at hresult
        · rename_i hnone
          rw [hnone] at hexists
          cases hexists
        · rename_i data hdata
          obtain ⟨i, hi, herror⟩ := Execution.error_of_mapM (Execution.map_eq_error.1 hresult)
          obtain ⟨hrepeats, hlength⟩ := mem_indices.1 hi
          rw [h.subProfile p data hdata i hlength] at herror
          exact ih (h.used p _ ⟨data, hdata, hrepeats, List.getElem_mem hlength⟩) herror
        · cases hresult

/-- What is made for a profile contains what is made for those that it refers to. -/
theorem Accepted.ok_of_refers (h : Accepted w w') (hrefers : w.Refers p q) {task : SequentialTask}
    (hok : w'.initializeSequentialTasks depth p none = .ok task) :
    ∃ depth' < depth, ∃ task, w'.initializeSequentialTasks depth' q none = .ok task := by
  obtain ⟨data, hdata, hrepeats, hq⟩ := hrefers
  cases depth with
  | zero => cases hok
  | succ depth =>
    rw [CheckedWorkload.initializeSequentialTasks, h.unchanged, hdata] at hok
    obtain ⟨tasks, htasks, -⟩ := Execution.map_eq_ok.1 hok
    obtain ⟨i, hi, rfl⟩ := List.getElem_of_mem hq
    obtain ⟨task, -, htask⟩ := exists_of_forall₂ (Execution.mapM_eq_ok.1 htasks) (mem_indices.2 ⟨hrepeats, hi⟩)
    rw [h.subProfile p data hdata i hi] at htask
    exact ⟨depth, Nat.lt_succ_self _, task, htask⟩

/-- What has been made for a profile that comes back to itself would contain itself. -/
theorem Accepted.not_ok_of_cycle (h : Accepted w w') (hcycle : TransGen w.Refers q q) :
    ∀ depth task, w'.initializeSequentialTasks depth q none ≠ .ok task := by
  have hbelow : ∀ {r : String}, TransGen w.Refers q r → ∀ {depth : ℕ} {task : SequentialTask},
      w'.initializeSequentialTasks depth q none = .ok task →
        ∃ depth' < depth, ∃ task, w'.initializeSequentialTasks depth' r none = .ok task := by
    intro r hr
    induction hr with
    | single hrefers => exact fun hok => h.ok_of_refers hrefers hok
    | tail _ hrefers ih =>
      intro depth task hok
      obtain ⟨depth', hlt, task', hok'⟩ := ih hok
      obtain ⟨depth'', hlt', hok''⟩ := h.ok_of_refers hrefers hok'
      exact ⟨depth'', hlt'.trans hlt, hok''⟩
  intro depth
  induction depth using Nat.strong_induction_on with
  | _ depth ih =>
    intro task hok
    obtain ⟨depth', hlt, task', hok'⟩ := hbelow hcycle hok
    exact ih depth' hlt task' hok'

theorem Accepted.ok_of_reaches (h : Accepted w w') (hreaches : ReflTransGen w.Refers p q) {task : SequentialTask}
    (hok : w'.initializeSequentialTasks depth p none = .ok task) :
    ∃ depth task, w'.initializeSequentialTasks depth q none = .ok task := by
  induction hreaches with
  | refl => exact ⟨depth, task, hok⟩
  | tail _ hrefers ih =>
    obtain ⟨depth', task', hok'⟩ := ih
    obtain ⟨depth'', -, hok''⟩ := h.ok_of_refers hrefers hok'
    exact ⟨depth'', hok''⟩

/-- The profiles that are reached from one that exists are among those of the workload. -/
theorem Accepted.acc_of_noCycle (h : Accepted w w') (hexists : (w.profile? p).isSome) (hcycle : w.NoCycleFrom p) :
    Acc (fun q p => w.Refers p q) p := by
  have hmem : ∀ q, (w.profile? q).isSome → q ∈ w.profiles.map (·.1) := by
    intro q hq
    obtain ⟨profile, hprofile⟩ := Option.isSome_iff_exists.1 hq
    obtain ⟨entry, hentry, -⟩ := Option.map_eq_some_iff.1 hprofile
    have hname : entry.1 = q := by simpa using List.find?_some hentry
    exact List.mem_map.2 ⟨entry, List.mem_of_find?_eq_some hentry, hname⟩
  have hreached : ∀ q, ReflTransGen w.Refers p q → (w.profile? q).isSome := by
    intro q hq
    rcases ReflTransGen.cases_tail hq with rfl | ⟨r, -, hr⟩
    · exact hexists
    · exact h.used r q hr
  have hfinite : {q | ReflTransGen w.Refers p q}.Finite :=
    Set.Finite.subset (List.finite_toSet (w.profiles.map Prod.fst)) fun q hq => hmem q (hreached q hq)
  refine acc_of_no_cycle hfinite (fun a ha b hab => ReflTransGen.tail ha hab) (fun a ha hloop => hcycle ⟨a, ha, hloop⟩) p .refl

/-- The expansion of a job of a workload that has been accepted ends exactly when no profile reached from that of the job leads back
to itself. Then it ends with any IO profile, too. -/
theorem expansion_ends_iff (w : ProfiledWorkload) (w' : CheckedWorkload) (hcheck : w.checkValidity = .ok w') (job : ProfiledJob)
    (hjob : job ∈ w.jobs) :
    ((∃ depth task, w'.initializeSequentialTasks depth job.profile none = .ok task) ↔ w.NoCycleFrom job.profile) ∧
    (w.NoCycleFrom job.profile →
      ∃ depth, ∀ ioProfile, w'.initializeSequentialTasks depth job.profile ioProfile ≠ .error .tooDeep) := by
  have h := accepted_of_checkValidity hcheck
  have hexists := h.jobs job hjob
  have hends : w.NoCycleFrom job.profile →
      ∃ depth, ∀ ioProfile, w'.initializeSequentialTasks depth job.profile ioProfile ≠ .error .tooDeep := by
    intro hcycle
    obtain ⟨bound, hbound⟩ := h.ends_of_acc (h.acc_of_noCycle hexists hcycle)
    exact ⟨bound, hbound bound le_rfl⟩
  refine ⟨⟨?_, ?_⟩, hends⟩
  · rintro ⟨depth, task, hok⟩ ⟨q, hreaches, hloop⟩
    obtain ⟨depth', task', hok'⟩ := h.ok_of_reaches hreaches hok
    exact h.not_ok_of_cycle hloop depth' task' hok'
  · intro hcycle
    obtain ⟨depth, hdepth⟩ := hends hcycle
    obtain ⟨task, htask⟩ := h.ok_of_ends hexists (hdepth none)
    exact ⟨depth, task, htask⟩

/-- A composed profile that names itself. -/
def circularWorkload : ProfiledWorkload where
  profiles := [("a", .sequence { repeats := 1, sequence := ["a"] })]
  jobs := [{ id := "w0!1", profile := "a", requestedNbRes := 1 }]

/-- A composed profile of two others. -/
def nestedWorkload : ProfiledWorkload where
  profiles := [("a", .sequence { repeats := 2, sequence := ["b", "b"] }), ("b", .other)]
  jobs := [{ id := "w0!1", profile := "a", requestedNbRes := 1 }]

theorem expansion_ends_iff_witness : nestedWorkload.NoCycleFrom "a" :=
  (expansion_ends_iff nestedWorkload { nestedWorkload with profileSequences := [("a", ["b", "b"]), ("b", [])] } rfl
    { id := "w0!1", profile := "a", requestedNbRes := 1 } (by simp [nestedWorkload])).1.1 ⟨2, _, rfl⟩

/-- A workload that is accepted, with a job whose expansion is cut off at every depth. -/
theorem expansion_ends_false :
    ¬∀ (w : ProfiledWorkload) (w' : CheckedWorkload), w.checkValidity = .ok w' → ∀ job ∈ w.jobs,
      ∃ depth task, w'.initializeSequentialTasks depth job.profile none = .ok task := by
  intro h
  have hcutOff : ∀ depth, ({ circularWorkload with profileSequences := [("a", ["a"])] } :
      CheckedWorkload).initializeSequentialTasks depth "a" none = .error .tooDeep := by
    intro depth
    induction depth with
    | zero => rfl
    | succ depth ih =>
      rw [CheckedWorkload.initializeSequentialTasks]
      change Except.map _ (List.mapM _ [0]) = _
      rw [List.mapM_cons]
      change Except.map _ (Except.bind (CheckedWorkload.initializeSequentialTasks _ depth "a" none) _) = _
      rw [ih]
      rfl
  obtain ⟨depth, task, hok⟩ := h circularWorkload { circularWorkload with profileSequences := [("a", ["a"])] } rfl
    { id := "w0!1", profile := "a", requestedNbRes := 1 } (by simp [circularWorkload])
  rw [hcutOff depth] at hok
  cases hok

end ProfiledWorkload

end ScheduleTest
