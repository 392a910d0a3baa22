import ScheduleTest.ProfileCollection
import ScheduleTest.Theorems.TaskExpansion

/-!
# When the profiles that are needed are kept

Deleting a job removes its profile and all that this one uses, whoever else does. Profiles that are needed are kept exactly as long
as each job that is deleted is the last one that uses what is removed with it.
-/

namespace ScheduleTest

open Execution Relation

variable {stored : List (String × StoredProfile)} {removed removed' : Finset String} {depth : ℕ} {name p q : String}

/-- A profile has a pointer to another one. -/
def Uses (stored : List (String × StoredProfile)) (p q : String) : Prop :=
  ∃ profile, findProfile stored p = some profile ∧ q ∈ profile.subprofiles

/-- What can be reached from a profile through profiles that have not been removed. -/
def Reaches (stored : List (String × StoredProfile)) (removed : Finset String) : String → String → Prop :=
  ReflTransGen fun p q => p ∉ removed ∧ Uses stored p q

/-! ## Removing a profile -/

/-- What is reached is reached with fewer profiles removed. -/
theorem Reaches.mono (hsub : removed ⊆ removed') (h : Reaches stored removed' p q) : Reaches stored removed p q :=
  ReflTransGen.mono (fun _ _ huse => ⟨fun hmem => huse.1 (hsub hmem), huse.2⟩) _ _ h

/-- If what has been removed since includes all that it uses, what was reached has been removed or is still reached. -/
theorem Reaches.removed_or (hclosed : ∀ p ∈ removed', p ∉ removed → ∀ q, Uses stored p q → q ∈ removed')
    (h : Reaches stored removed p q) : q ∈ removed' ∨ Reaches stored removed' p q := by
  induction h with
  | refl => exact .inr .refl
  | @tail q r _ huse ih =>
    by_cases hq : q ∈ removed'
    · exact .inl (hclosed q hq huse.1 r huse.2)
    · exact .inr ((ih.resolve_left hq).tail ⟨hq, huse.2⟩)

/-- What is reached from one of some profiles that are removed one after the other. -/
theorem mem_runFrom_removeProfile
    (hone : ∀ removed name removed', removeProfile stored depth removed name = .ok removed' →
      ∀ q, q ∈ removed' ↔ q ∈ removed ∨ Reaches stored removed name q) {names : List String}
    (h : runFrom (removeProfile stored depth) removed names = .ok removed') (q : String) :
    q ∈ removed' ↔ q ∈ removed ∨ ∃ name ∈ names, Reaches stored removed name q := by
  induction names generalizing removed with
  | nil => simp [Except.ok.inj h]
  | cons name names ih =>
    obtain ⟨removed₁, hfirst, hrest⟩ := of_runFrom_cons h
    have hmem := hone removed name removed₁ hfirst
    have hsub : removed ⊆ removed₁ := fun p hp => (hmem p).2 (.inl hp)
    have hclosed : ∀ p ∈ removed₁, p ∉ removed → ∀ q, Uses stored p q → q ∈ removed₁ := by
      intro p hp hnot q huse
      exact (hmem q).2 (.inr (((hmem p).1 hp).resolve_left hnot |>.tail ⟨hnot, huse⟩))
    rw [ih hrest, hmem]
    constructor
    · rintro ((hq | hq) | ⟨name', hname', hq⟩)
      · exact .inl hq
      · exact .inr ⟨name, List.mem_cons_self, hq⟩
      · exact .inr ⟨name', List.mem_cons_of_mem _ hname', hq.mono hsub⟩
    · rintro (hq | ⟨name', hname', hq⟩)
      · exact .inl (.inl hq)
      · rcases List.mem_cons.1 hname' with rfl | hname'
        · exact .inl (.inr hq)
        · rcases hq.removed_or hclosed with hq | hq
          · exact .inl ((hmem q).1 hq)
          · exact .inr ⟨name', hname', hq⟩

/-- Removing a profile removes all that it reaches. -/
theorem mem_removeProfile (h : removeProfile stored depth removed name = .ok removed') (q : String) :
    q ∈ removed' ↔ q ∈ removed ∨ Reaches stored removed name q := by
  induction depth generalizing removed name removed' q with
  | zero => cases h
  | succ depth ih =>
    rw [removeProfile] at h
    split at h
    · cases h
    rename_i profile hprofile
    split at h
    · rename_i hname
      obtain rfl := Except.ok.inj h
      refine ⟨.inl, fun hq => hq.elim id fun hq => ?_⟩
      rcases hq.cases_head with rfl | ⟨r, huse, -⟩
      · exact hname
      · exact absurd hname huse.1
    · rename_i hname
      obtain ⟨removed₁, hloop, rfl⟩ := map_eq_ok.1 h
      have hmem := mem_runFrom_removeProfile (fun removed name removed' h q => ih h q) hloop q
      rw [Finset.mem_insert, hmem]
      constructor
      · rintro (rfl | hq | ⟨r, hr, hq⟩)
        · exact .inr .refl
        · exact .inl hq
        · exact .inr (.head ⟨hname, profile, hprofile, hr⟩ hq)
      · rintro (hq | hq)
        · exact .inr (.inl hq)
        · rcases hq.cases_head with rfl | ⟨r, ⟨-, profile', hprofile', hr⟩, hq⟩
          · exact .inl rfl
          · obtain rfl := Option.some.inj (hprofile.symm.trans hprofile')
            exact .inr (.inr ⟨r, hr, hq⟩)

namespace WorkloadJobs

variable {w w' : WorkloadJobs} {id : String} {job : ProfiledJob}

/-- A profile can be looked up with `Profiles::at`. -/
def Accessible (w : WorkloadJobs) (name : String) : Prop := ∃ profile, w.profileAt name = .ok profile

/-- Every profile that a job uses, itself or through sequences, can be looked up. -/
def KeepsNeeded (w : WorkloadJobs) : Prop := ∀ job ∈ w.jobs, ∀ q, ReflTransGen (Uses w.stored) job.profile q → w.Accessible q

/-- A profile that is not accessible any more is not that of a job that is left, and no profile that is left has a pointer to it. -/
def FreesUnneeded (w w' : WorkloadJobs) : Prop :=
  ∀ q, w.Accessible q → ¬w'.Accessible q → (∀ job ∈ w'.jobs, job.profile ≠ q) ∧ ∀ p, w'.Accessible p → ¬Uses w'.stored p q

/-- After an event, what is needed has been kept, and nothing that is needed has been freed. -/
def Collects (depth : ℕ) (w : WorkloadJobs) (event : ProfilesEvent) : Prop :=
  ∀ w', w.step depth event = .ok w' → w'.KeepsNeeded ∧ w.FreesUnneeded w'

/-- A job that is deleted is the last one to use the profiles that can be reached from its own. -/
def LastUse (w : WorkloadJobs) : ProfilesEvent → Prop
  | .deleteJob id => ∀ job, w.jobs.find? (·.id = id) = some job → ∀ q, ReflTransGen (Uses w.stored) job.profile q →
      (∀ other ∈ w.jobs, other.id ≠ id → other.profile ≠ q) ∧
        ∀ p, w.Accessible p → Uses w.stored p q → ReflTransGen (Uses w.stored) job.profile p
  | _ => True

theorem accessible_iff : w.Accessible name ↔ (findProfile w.stored name).isSome ∧ name ∉ w.removed := by
  unfold Accessible profileAt
  cases findProfile w.stored name with
  | none => simp
  | some profile => by_cases hname : name ∈ w.removed <;> simp [hname]

/-- What is accessible uses what is accessible, and jobs have accessible profiles. -/
structure Sound (w : WorkloadJobs) : Prop where
  uses : ∀ p q, w.Accessible p → Uses w.stored p q → w.Accessible q
  jobs : ∀ job ∈ w.jobs, w.Accessible job.profile

/-- What is reached from an accessible profile is accessible. -/
theorem Sound.accessible (h : w.Sound) (hp : w.Accessible p) (hreach : ReflTransGen (Uses w.stored) p q) : w.Accessible q := by
  induction hreach with
  | refl => exact hp
  | tail _ huse ih => exact h.uses _ _ ih huse

theorem Sound.keepsNeeded (h : w.Sound) : w.KeepsNeeded := fun job hjob _ hreach => h.accessible (h.jobs job hjob) hreach

/-- From an accessible profile, removed profiles cut nothing off. -/
theorem Sound.reaches_iff (h : w.Sound) (hp : w.Accessible p) :
    Reaches w.stored w.removed p q ↔ ReflTransGen (Uses w.stored) p q := by
  constructor
  · exact fun hreach => ReflTransGen.mono (fun _ _ huse => huse.2) _ _ hreach
  · intro hreach
    induction hreach with
    | refl => exact .refl
    | tail hpath huse ih => exact ih.tail ⟨(accessible_iff.1 (h.accessible hp hpath)).2, huse⟩

/-! ## One event -/

/-- What the deletion of a job leaves. -/
theorem deleteJob_ok (h : w.deleteJob depth id true = .ok w') :
    ∃ job, w.jobs.find? (·.id = id) = some job ∧ w'.stored = w.stored ∧ w'.jobs = w.jobs.filter (·.id ≠ id) ∧
      ∀ q, q ∈ w'.removed ↔ q ∈ w.removed ∨ Reaches w.stored w.removed job.profile q := by
  unfold deleteJob at h
  split at h
  · cases h
  split at h
  · cases h
  rename_i job hjob
  obtain ⟨removed, hremoved, rfl⟩ := map_eq_ok.1 h
  exact ⟨job, hjob, rfl, rfl, mem_removeProfile hremoved⟩

/-- After the deletion, what can be reached from the profile of the job is not accessible, and the rest is as before. -/
theorem Sound.accessible_deleteJob (hs : w.Sound) (h : w.deleteJob depth id true = .ok w')
    (hjob : w.jobs.find? (·.id = id) = some job) :
    w'.Accessible q ↔ w.Accessible q ∧ ¬ReflTransGen (Uses w.stored) job.profile q := by
  obtain ⟨job', hjob', hstored, -, hremoved⟩ := deleteJob_ok h
  obtain rfl := Option.some.inj (hjob'.symm.trans hjob)
  rw [accessible_iff, accessible_iff, hstored, hremoved, not_or, hs.reaches_iff (hs.jobs job' (List.mem_of_find?_eq_some hjob)),
    and_assoc]

/-- A deletion keeps what is needed and frees only what is not, if and only if it is the last use. -/
theorem Sound.deleteJob_iff (hs : w.Sound) (h : w.deleteJob depth id true = .ok w') :
    (w'.KeepsNeeded ∧ w.FreesUnneeded w' ↔ w.LastUse (.deleteJob id)) ∧ (w.LastUse (.deleteJob id) → w'.Sound) := by
  obtain ⟨job, hjob, hstored, hjobs, -⟩ := deleteJob_ok h
  have haccessible : ∀ q, w'.Accessible q ↔ w.Accessible q ∧ ¬ReflTransGen (Uses w.stored) job.profile q :=
    fun q => hs.accessible_deleteJob h hjob
  have hprofile := hs.jobs job (List.mem_of_find?_eq_some hjob)
  have hsound : w.LastUse (.deleteJob id) → w'.Sound := by
    intro hlast
    refine ⟨fun p q hp huse => ?_, fun other hother => ?_⟩
    · rw [hstored] at huse
      obtain ⟨hp, hnot⟩ := (haccessible p).1 hp
      exact (haccessible q).2 ⟨hs.uses p q hp huse, fun hreach => hnot ((hlast job hjob q hreach).2 p hp huse)⟩
    · rw [hjobs, List.mem_filter, decide_eq_true_eq] at hother
      refine (haccessible _).2 ⟨hs.jobs other hother.1, fun hreach => ?_⟩
      exact (hlast job hjob _ hreach).1 other hother.1 hother.2 rfl
  refine ⟨⟨fun hgood job' hjob' q hreach => ?_, fun hlast => ⟨(hsound hlast).keepsNeeded, fun q hq hnot => ?_⟩⟩, hsound⟩
  · obtain rfl := Option.some.inj (hjob.symm.trans hjob')
    -- the profile is freed, so nothing that is left refers to it
    obtain ⟨hothers, huses⟩ := hgood.2 q (hs.accessible hprofile hreach) fun hq => ((haccessible q).1 hq).2 hreach
    refine ⟨fun other hother hne => hothers other ?_, fun p hp huse => ?_⟩
    · rw [hjobs, List.mem_filter, decide_eq_true_eq]
      exact ⟨hother, hne⟩
    · by_contra hp'
      exact huses p ((haccessible p).2 ⟨hp, hp'⟩) (hstored ▸ huse)
  · have hreach : ReflTransGen (Uses w.stored) job.profile q := by
      by_contra hreach
      exact hnot ((haccessible q).2 ⟨hq, hreach⟩)
    obtain ⟨hothers, huses⟩ := hlast job hjob q hreach
    refine ⟨fun other hother => ?_, fun p hp huse => ?_⟩
    · rw [hjobs, List.mem_filter, decide_eq_true_eq] at hother
      exact hothers other hother.1 hother.2
    · obtain ⟨hp, hp'⟩ := (haccessible p).1 hp
      exact hp' (huses p hp (hstored ▸ huse))

/-- Where the profiles that were accessible still are, nothing has been freed. -/
theorem freesUnneeded_of_accessible (h : ∀ q, w.Accessible q → w'.Accessible q) : w.FreesUnneeded w' :=
  fun q hq hnot => absurd (h q hq) hnot

/-- A new profile uses none, and the others are as before. -/
theorem Sound.registerProfile {profile : WorkloadProfile} (hs : w.Sound) (h : w.registerProfile name profile = .ok w') :
    w'.Sound ∧ ∀ q, w.Accessible q → w'.Accessible q := by
  unfold WorkloadJobs.registerProfile at h
  split at h
  · cases h
  rename_i hnew
  cases h
  have hfind : ∀ q, (findProfile w.stored q).isSome →
      findProfile (w.stored ++ [(name, ⟨profile, []⟩)]) q = findProfile w.stored q := by
    intro q hq
    rw [findProfile, Option.isSome_map] at hq
    rw [findProfile, findProfile, List.find?_append, Option.or_of_isSome hq]
  have hkept : ∀ q, w.Accessible q →
      WorkloadJobs.Accessible { w with stored := w.stored ++ [(name, ⟨profile, []⟩)] } q := by
    intro q hq
    rw [accessible_iff] at hq ⊢
    exact ⟨by rw [hfind q hq.1]; exact hq.1, hq.2⟩
  refine ⟨⟨fun p q hp huse => ?_, fun job hjob => hkept _ (hs.jobs job hjob)⟩, hkept⟩
  obtain ⟨stored, hstored, hmem⟩ := huse
  by_cases hold : (findProfile w.stored p).isSome
  · have hp' : w.Accessible p := accessible_iff.2 ⟨hold, (accessible_iff.1 hp).2⟩
    exact hkept q (hs.uses p q hp' ⟨stored, (hfind p hold).symm.trans hstored, hmem⟩)
  · -- the new profile has no pointers
    rw [findProfile, Option.isSome_map, Bool.not_eq_true, Option.isSome_eq_false_iff, Option.isNone_iff_eq_none] at hold
    dsimp only at hstored
    rw [findProfile, List.find?_append, hold, Option.none_or, List.find?_singleton] at hstored
    split at hstored
    · obtain rfl := Option.some.inj hstored
      cases profile <;> exact absurd hmem List.not_mem_nil
    · cases hstored

/-- A new job has an accessible profile. -/
theorem Sound.registerJob (hs : w.Sound) (h : w.registerJob job = .ok w') :
    w'.Sound ∧ ∀ q, w.Accessible q → w'.Accessible q := by
  unfold WorkloadJobs.registerJob at h
  split at h
  · cases h
  split at h
  · cases h
  rename_i profile hprofile
  split at h
  · cases h
  cases h
  refine ⟨⟨hs.uses, fun job' hjob' => ?_⟩, fun q hq => hq⟩
  rcases List.mem_append.1 hjob' with hjob' | hjob'
  · exact hs.jobs job' hjob'
  · rw [List.mem_singleton.1 hjob']
    exact ⟨profile, hprofile⟩

/-- An event keeps what is needed and frees only what is not, if and only if it deletes no job that is not the last one to use its
profiles. -/
theorem Sound.step_iff {event : ProfilesEvent} (hs : w.Sound) (h : w.step depth event = .ok w') :
    (w'.KeepsNeeded ∧ w.FreesUnneeded w' ↔ w.LastUse event) ∧ (w.LastUse event → w'.Sound) := by
  have hkept : w'.Sound → (∀ q, w.Accessible q → w'.Accessible q) → w'.KeepsNeeded ∧ w.FreesUnneeded w' :=
    fun hs' hall => ⟨hs'.keepsNeeded, freesUnneeded_of_accessible hall⟩
  cases event with
  | registerProfile name profile =>
    obtain ⟨hs', hall⟩ := hs.registerProfile h
    exact ⟨iff_of_true (hkept hs' hall) trivial, fun _ => hs'⟩
  | registerJob job =>
    obtain ⟨hs', hall⟩ := hs.registerJob h
    exact ⟨iff_of_true (hkept hs' hall) trivial, fun _ => hs'⟩
  | completeJob id =>
    rw [step] at h
    split at h
    · cases h
      exact ⟨iff_of_true (hkept hs fun _ hq => hq) trivial, fun _ => hs⟩
    · cases h
  | deleteJob id => exact hs.deleteJob_iff h

/-! ## The workload that is loaded -/

/-- A profile that only the map points to is used by no job and no accessible profile. -/
theorem unused_of_useCount (hcount : w.useCount name < 2) (hname : w.Accessible name) :
    (∀ job ∈ w.jobs, job.profile ≠ name) ∧ ∀ p, w.Accessible p → ¬Uses w.stored p name := by
  unfold useCount at hcount
  rw [if_neg (accessible_iff.1 hname).2] at hcount
  constructor
  · intro job hjob heq
    have hpos : 0 < w.jobs.countP (·.profile = name) := List.countP_pos_iff.2 ⟨job, hjob, by simpa using heq⟩
    omega
  · rintro p hp ⟨profile, hprofile, hmem⟩
    obtain ⟨entry, hentry, rfl⟩ := Option.map_eq_some_iff.1 hprofile
    have hkey : entry.1 = p := by simpa using List.find?_some hentry
    have hin : entry ∈ w.stored.filter (·.1 ∉ w.removed) := by
      rw [List.mem_filter, hkey]
      exact ⟨List.mem_of_find?_eq_some hentry, by simpa using (accessible_iff.1 hp).2⟩
    have hpos : 0 < ((w.stored.filter (·.1 ∉ w.removed)).flatMap (·.2.subprofiles)).count name :=
      List.count_pos_iff.2 (List.mem_flatMap.2 ⟨entry, hin, hmem⟩)
    omega

/-- Removing a profile that only the map points to frees nothing that is needed. -/
theorem Sound.removeIfUnreferenced (hs : w.Sound) (name : String) : (w.removeIfUnreferenced name).Sound := by
  unfold WorkloadJobs.removeIfUnreferenced
  split
  · rename_i hremoved
    obtain ⟨hexists, hcount⟩ := hremoved
    by_cases hmem : name ∈ w.removed
    · rwa [Finset.insert_eq_of_mem hmem]
    · obtain ⟨hjobs, huses⟩ := unused_of_useCount hcount (accessible_iff.2 ⟨hexists, hmem⟩)
      have haccessible : ∀ q, WorkloadJobs.Accessible { w with removed := insert name w.removed } q ↔
          w.Accessible q ∧ q ≠ name := by
        intro q
        rw [accessible_iff, accessible_iff, Finset.mem_insert, not_or, and_assoc]
        exact and_congr_right fun _ => and_comm
      refine ⟨fun p q hp huse => ?_, fun job hjob => (haccessible _).2 ⟨hs.jobs job hjob, hjobs job hjob⟩⟩
      have hp' := ((haccessible p).1 hp).1
      refine (haccessible q).2 ⟨hs.uses p q hp' huse, ?_⟩
      rintro rfl
      exact huses p hp' huse
  · exact hs

theorem Sound.removeUnreferencedProfiles (hs : w.Sound) (names : List String) : (w.removeUnreferencedProfiles names).Sound := by
  unfold WorkloadJobs.removeUnreferencedProfiles
  induction names generalizing w with
  | nil => exact hs
  | cons name names ih => exact ih (hs.removeIfUnreferenced name)

end WorkloadJobs

/-- The profile under a name, once the workload has been checked. -/
theorem findProfile_workloadJobs (checked : CheckedWorkload) (name : String) :
    findProfile checked.workloadJobs.stored name =
      (checked.profile? name).map fun profile => { profile := profile, profileSequence := checked.pointers name } := by
  unfold findProfile CheckedWorkload.workloadJobs ProfiledWorkload.profile?
  rw [List.find?_map]
  cases hentry : checked.profiles.find? (·.1 = name) with
  | none =>
    have hnone : checked.profiles.find? ((fun entry : String × StoredProfile => decide (entry.1 = name)) ∘ fun entry =>
        (entry.1, { profile := entry.2, profileSequence := checked.pointers entry.1 })) = none := hentry
    rw [hnone]
    rfl
  | some entry =>
    have hsome : checked.profiles.find? ((fun entry : String × StoredProfile => decide (entry.1 = name)) ∘ fun entry =>
        (entry.1, { profile := entry.2, profileSequence := checked.pointers entry.1 })) = some entry := hentry
    have hkey : entry.1 = name := by simpa using List.find?_some hentry
    rw [hsome]
    simp [hkey]

namespace WorkloadJobs

/-- A workload that has been loaded is sound. -/
theorem sound_of_load {w : ProfiledWorkload} {names : List String} {start : WorkloadJobs} (h : w.load names = .ok start) :
    start.Sound := by
  obtain ⟨checked, hchecked, rfl⟩ := map_eq_ok.1 h
  refine Sound.removeUnreferencedProfiles ?_ names
  have haccepted := ProfiledWorkload.accepted_of_checkValidity hchecked
  have haccessible : ∀ q, (w.profile? q).isSome → checked.workloadJobs.Accessible q := by
    intro q hq
    refine accessible_iff.2 ⟨?_, Finset.notMem_empty q⟩
    rw [findProfile_workloadJobs, Option.isSome_map, haccepted.unchanged]
    exact hq
  refine ⟨fun p q _ huse => ?_, fun job hjob => haccessible _ (haccepted.jobs job ?_)⟩
  · obtain ⟨stored, hstored, hmem⟩ := huse
    rw [findProfile_workloadJobs] at hstored
    obtain ⟨profile, hprofile, rfl⟩ := Option.map_eq_some_iff.1 hstored
    rw [haccepted.unchanged] at hprofile
    cases profile with
    | sequence data =>
      obtain ⟨found, hfound, hsequence, hexists⟩ := ProfiledWorkload.pointers_of_checkValidity hchecked hprofile
      have hpointers : checked.pointers p = data.sequence := by
        rw [CheckedWorkload.pointers, hfound, Option.map_some, Option.getD_some, hsequence]
      exact haccessible q (hexists q (hpointers ▸ hmem))
    | parallel nbRes => exact absurd hmem List.not_mem_nil
    | other => exact absurd hmem List.not_mem_nil
  · have hjobs : checked.workloadJobs.jobs = w.jobs := congrArg ProfiledWorkload.jobs haccepted.unchanged
    rwa [← hjobs]

/-- Whatever happens to a workload that has been loaded: profiles that are needed are kept, and only those that are not are freed,
if and only if each job that is deleted is the last one to use the profiles that can be reached from its own. -/
theorem profiles_kept_iff (w : ProfiledWorkload) (names : List String) (depth : ℕ) (start last : WorkloadJobs)
    (events : List ProfilesEvent) (hload : w.load names = .ok start) (hrun : runFrom (step depth) start events = .ok last) :
    start.KeepsNeeded ∧ AllSteps (step depth) (Collects depth) start events ↔ AllSteps (step depth) LastUse start events := by
  have hstart := sound_of_load hload
  rw [and_iff_right hstart.keepsNeeded]
  refine allSteps_iff_of_ok (fun w event w' hs h => ?_) (fun w event w' hs hlast h => (hs.step_iff h).2 hlast) hstart hrun
  rw [← (hs.step_iff h).1]
  constructor
  · exact fun hgood => hgood w' h
  · intro hgood w'' h'
    obtain rfl := Except.ok.inj (h.symm.trans h')
    exact hgood

/-- Two jobs with one profile. -/
def sharing : ProfiledWorkload where
  profiles := [("delay", .other)]
  jobs := [{ id := "w0!1", profile := "delay", requestedNbRes := 1 }, { id := "w0!2", profile := "delay", requestedNbRes := 1 }]

theorem profiles_kept_iff_witness : ∃ start last, sharing.load ["delay"] = .ok start ∧
    runFrom (step 2) start [.completeJob "w0!1", .deleteJob "w0!1"] = .ok last ∧
    (start.KeepsNeeded ∧ AllSteps (step 2) (Collects 2) start [.completeJob "w0!1", .deleteJob "w0!1"] ↔
      AllSteps (step 2) LastUse start [.completeJob "w0!1", .deleteJob "w0!1"]) :=
  ⟨_, _, rfl, rfl, profiles_kept_iff sharing ["delay"] 2 _ _ _ rfl rfl⟩

/-- Once the first of the two jobs has been deleted, the profile of the second cannot be looked up. -/
theorem profiles_kept_false : ∃ start last, sharing.load ["delay"] = .ok start ∧
    runFrom (step 2) start [.completeJob "w0!1", .deleteJob "w0!1"] = .ok last ∧ ¬last.KeepsNeeded := by
  refine ⟨_, _, rfl, rfl, fun h => ?_⟩
  obtain ⟨profile, hprofile⟩ := h { id := "w0!2", profile := "delay", requestedNbRes := 1 } List.mem_cons_self "delay" .refl
  cases hprofile

end WorkloadJobs

end ScheduleTest
