import ScheduleTest.Loading
import Mathlib.Tactic.Ring

/-!
# What loading a workload makes of its profiles

A job's profile should have the delay that the job needs: that of the file by the performance factor, with the dumps in it. A profile
that has been changed for one job is changed once more for the next one that is read, so this holds as long as each job finds its
profile as the file has it.
-/

namespace ScheduleTest

open Execution

section

variable (o : LoadOptions)

/-- What a profile gets of an amount when it is read for a job with some times: the performance factor times it, and the dumps unless
the profile comes from a checkpoint of the simulator, which is when it has an original amount. The dumps are counted by the quotient
of the time and the interval. -/
def amountBy (quotient : ℚ → ℚ) (type : ProfileType) (t : CheckpointTimes) (amount original : ℚ) : ℚ :=
  if o.checkpointingOn ∧ original = -1 then
    let delay := timeOf o type (scaled o amount)
    amountOf o type (withDumps o t delay (quotient (delay / t.checkpointInterval)))
  else scaled o amount

/-- What a job with some times needs of a profile, by its description. -/
def neededInFile (d : ProfileDescription) (t : CheckpointTimes) : ℚ := amountBy o id d.type t d.amount (d.original.getD (-1))

/-- Where a profile is from: the description that it has in the file, or that the profile has which it is a copy of, the original
amount it was made with, and the times of the job it was last changed for. -/
structure Origin where
  description : ProfileDescription
  isCopy : Bool := false
  originalAmount : ℚ := description.original.getD (-1)
  readFor : Option CheckpointTimes := none

namespace Origin

/-- What the job needs that the profile was last changed for; the amount in the file, before there is one. -/
def amount (origin : Origin) : ℚ :=
  match origin.readFor with
  | none => origin.description.amount
  | some t => neededInFile o origin.description t

/-- The work that is recorded: that in the file, or what there is when dumps are added. -/
def recorded (origin : Origin) : Option ℚ :=
  origin.description.original <|>
    if o.checkpointingOn ∧ origin.readFor.isSome then some (scaled o origin.description.amount) else none

/-- A copy is made with what is recorded. -/
def copy (origin : Origin) : Origin := { origin with
  isCopy := true
  originalAmount := (origin.recorded o).getD (-1) }

end Origin

/-- A workload, and where its profiles are from. -/
structure Loading where
  workload : LoadedWorkload
  origins : String → Option Origin

namespace Loading

/-- The profiles of the file have been read. -/
def new (file : String → Option ProfileDescription) : Loading where
  workload := { profiles := fun name => (file name).map Profile.ofDescription }
  origins := fun name => (file name).map fun d => { description := d }

/-- A job has been read: its profile was changed for it, unless it is a resubmission. -/
def originsRead (s : Loading) (d : JobDescription) : String → Option Origin :=
  match s.origins d.profile with
  | none => s.origins
  | some origin =>
    match timesOf o origin.description.type d with
    | .error _ => s.origins
    | .ok t =>
      if d.isResubmission ∨ origin.description.type = .other then s.origins
      else Function.update s.origins d.profile (some { origin with readFor := some t })

/-- Where the profiles are from after an event. -/
def originsAfter (s : Loading) : LoadEvent → String → Option Origin
  | .load d => s.originsRead o d
  | .readAgain id source _ _ =>
    match s.workload.jobs source id with
    | some job => if job.description.purpose = "reservation" then s.origins else s.originsRead o job.description
    | none => s.origins
  | .setJob _ _ => s.origins
  | .extend id newId =>
    match s.workload.jobs .newJobs id with
    | some job => Function.update s.origins newId ((s.origins job.description.profile).map (Origin.copy o))
    | none => s.origins

def step (s : Loading) (event : LoadEvent) : Except LoadAbort Loading :=
  (s.workload.step o event).map fun w => { workload := w, origins := s.originsAfter o event }

end Loading

/-- A profile has the amount that a job needs, and records the work in it. Dumps are needed at intervals that are not zero. -/
structure JobOk (origin : Origin) (p : Profile) (t : CheckpointTimes) : Prop where
  amount : p.amount = neededInFile o origin.description t
  recorded : o.checkpointingOn = true → p.description.original =
    some (origin.description.original.getD (scaled o origin.description.amount))
  work : o.checkpointingOn = true → origin.isCopy = false → origin.description.original.getD (-1) = -1 →
    p.realAmount = scaled o origin.description.amount
  interval : o.checkpointingOn = true → origin.description.original.getD (-1) = -1 → t.checkpointInterval ≠ 0

/-- Each job that is no resubmission executes a profile that is right for it. -/
def ProfilesOk (s : Loading) : Prop :=
  ∀ v id job, s.workload.jobs v id = some job → job.description.isResubmission = false →
    ∀ p origin, s.workload.profiles job.description.profile = some p → s.origins job.description.profile = some origin →
      p.description.type ≠ .other → JobOk o origin p job.times

/-- A profile can be read for a job with some times: it has the amount it has in the file, up to the performance factor, and the
quotient of the doubles counts the dumps that the exact one does. A copy that records the work already has what the job needs. -/
def Origin.CanBeReadFor (origin : Origin) (t : CheckpointTimes) : Prop :=
  (if o.checkpointingOn ∧ origin.isCopy ∧ origin.recorded o ≠ none then
    amountBy o o.round origin.description.type t (origin.amount o) origin.originalAmount = neededInFile o origin.description t
  else scaled o (origin.amount o) = scaled o origin.description.amount ∧
    amountBy o o.round origin.description.type t origin.description.amount (origin.description.original.getD (-1)) =
      neededInFile o origin.description t) ∧
  (o.checkpointingOn = true → origin.description.original.getD (-1) = -1 → t.checkpointInterval ≠ 0)

/-- A job is read while its profile can be read for it, and if another job shares the profile, both need the same of it. -/
def ReadOnce (s : Loading) (d : JobDescription) : Prop :=
  d.isResubmission = false → ∀ origin t, s.origins d.profile = some origin → origin.description.type ≠ .other →
    timesOf o origin.description.type d = .ok t → origin.CanBeReadFor o t ∧
      ((∃ v id job, s.workload.jobs v id = some job ∧ job.description.isResubmission = false ∧
        job.description.profile = d.profile) → neededInFile o origin.description t = origin.amount o)

/-- What a step has to meet: jobs are read once, and a copy that is made of a resubmission, whose profile is not changed for it, needs
what the profile was last changed for, or else what the file has. -/
def LoadsOnce (s : Loading) : LoadEvent → Prop
  | .load d => s.workload.jobs .jobs d.id = none → ReadOnce o s d
  | .readAgain id source _ _ =>
    ∀ job, s.workload.jobs source id = some job → job.description.purpose ≠ "reservation" → ReadOnce o s job.description
  | .setJob _ _ => True
  | .extend id newId => ∀ job p origin, s.workload.jobs .newJobs id = some job → job.description.isResubmission = true →
      ({ job.description with id := newId, profile := newId } : JobDescription).isResubmission = false →
      s.workload.profiles job.description.profile = some p → s.origins job.description.profile = some origin →
      origin.description.type ≠ .other → (Profile.fromJson newId p.description).toOption.isSome →
      s.workload.jobs .jobs newId = none → s.workload.profiles newId = none →
        neededInFile o origin.description job.times = origin.amount o ∧ (o.checkpointingOn = true → (origin.recorded o).isSome ∧
          (origin.description.original.getD (-1) = -1 → job.times.checkpointInterval ≠ 0))

/-! ## One read -/

/-- What holds of every profile, by where it is from. -/
structure ProfileKept (origin : Origin) (p : Profile) : Prop where
  type : p.description.type = origin.description.type
  described : p.description.amount = p.amount
  amount : p.amount = origin.amount o
  recorded : p.description.original = origin.recorded o
  originalAmount : p.originalAmount = origin.originalAmount
  original : origin.originalAmount = -1 → origin.description.original.getD (-1) = -1
  ofFile : origin.isCopy = false → origin.description.original.getD (-1) = -1 → origin.originalAmount = -1
  made : origin.originalAmount ≠ -1 → origin.recorded o ≠ none

end

variable {o : LoadOptions} {origin : Origin} {p p' : Profile} {d : JobDescription} {t : CheckpointTimes} {s s' : Loading}
  {w w' : LoadedWorkload} {target : JobVector} {job : LoadedJob} {id newId : String}

namespace Profile

theorem scale_eq : p.scale o = { p with
    amount := scaled o p.amount
    description := { p.description with
      amount := if o.performanceFactor ≠ 1 then scaled o p.amount else p.description.amount } } := by
  unfold scale
  split
  · rfl
  · rename_i hone
    rw [scaled, if_neg hone]

/-- A profile that gets its dumps. -/
theorem edit_of_dumps (hresub : d.isResubmission = false) (hon : o.checkpointingOn = true) (horiginal : p.originalAmount = -1) :
    p.edit o p.description.type d t = { p with
      amount := amountBy o o.round p.description.type t p.amount p.originalAmount
      realAmount := scaled o p.amount
      description := { p.description with
        amount := amountBy o o.round p.description.type t p.amount p.originalAmount
        original := p.description.original <|> some (scaled o p.amount) } } := by
  unfold edit addDumps amountBy
  simp only [hresub, hon, scale_eq, horiginal]
  rfl

/-- A profile that gets no dumps. -/
theorem edit_of_noDumps (hdescribed : p.description.amount = p.amount) (hresub : d.isResubmission = false)
    (hno : ¬(o.checkpointingOn = true ∧ p.originalAmount = -1)) :
    p.edit o p.description.type d t = { p with
      amount := scaled o p.amount
      description := { p.description with amount := scaled o p.amount } } := by
  have hscale : p.scale o = { p with
      amount := scaled o p.amount
      description := { p.description with amount := scaled o p.amount } } := by
    rw [scale_eq]
    split
    · rfl
    · rename_i hone
      rw [scaled, if_neg hone, hdescribed]
  unfold edit addDumps
  by_cases hon : o.checkpointingOn = true
  · have horiginal : p.originalAmount ≠ -1 := fun heq => hno ⟨hon, heq⟩
    simp only [hresub, hon, hscale, horiginal]
    rfl
  · simp only [hresub, hon, hscale]
    rfl

end Profile

/-- What a profile gets that gets no dumps. -/
theorem amountBy_of_noDumps {quotient : ℚ → ℚ} {type : ProfileType} {amount original : ℚ}
    (hno : ¬(o.checkpointingOn = true ∧ original = -1)) : amountBy o quotient type t amount original = scaled o amount := by
  rw [amountBy, if_neg hno]

namespace Origin

/-- What is recorded is the work that the file has. -/
theorem recorded_of_ne (hsome : origin.recorded o ≠ none) :
    origin.recorded o = some (origin.description.original.getD (scaled o origin.description.amount)) := by
  unfold recorded at hsome ⊢
  cases horiginal : origin.description.original with
  | some v => rfl
  | none =>
    rw [horiginal] at hsome
    split at hsome
    · rename_i hread
      rw [if_pos hread]
      rfl
    · exact absurd rfl hsome

/-- Nothing is recorded of what the file has no record of. -/
theorem original_of_recorded (hnone : origin.recorded o = none) : origin.description.original = none := by
  unfold recorded at hnone
  cases horiginal : origin.description.original with
  | some v =>
    rw [horiginal] at hnone
    nomatch hnone
  | none => rfl

/-- What a profile that is given dumps records after that. -/
theorem recorded_read (hon : o.checkpointingOn = true) : ({ origin with readFor := some t } : Origin).recorded o =
    some (origin.description.original.getD (scaled o origin.description.amount)) := by
  unfold recorded
  rw [if_pos ⟨hon, rfl⟩]
  cases origin.description.original <;> rfl

end Origin

/-- What is recorded of a profile that is given dumps. -/
theorem ProfileKept.orElse_original (h : ProfileKept o origin p)
    (hsame : origin.recorded o = none → scaled o (origin.amount o) = scaled o origin.description.amount) :
    (p.description.original <|> some (scaled o p.amount)) =
      some (origin.description.original.getD (scaled o origin.description.amount)) := by
  rw [h.recorded, h.amount]
  by_cases hnone : origin.recorded o = none
  · rw [hnone, Origin.original_of_recorded hnone, Option.getD_none, ← hsame hnone]
    rfl
  · rw [Origin.recorded_of_ne hnone]
    rfl

/-- A profile is right for a job that has just been read if it could be read for it. -/
theorem jobOk_edit_iff (hkept : ProfileKept o origin p) (hresub : d.isResubmission = false) :
    JobOk o origin (p.edit o p.description.type d t) t ↔ origin.CanBeReadFor o t := by
  by_cases hdumps : o.checkpointingOn = true ∧ p.originalAmount = -1
  · have horiginal : origin.originalAmount = -1 := hkept.originalAmount ▸ hdumps.2
    have hfile := hkept.original horiginal
    have hgiven : amountBy o o.round p.description.type t p.amount p.originalAmount =
        amountBy o o.round origin.description.type t (origin.amount o) origin.originalAmount := by
      rw [hkept.type, hkept.amount, hkept.originalAmount]
    have hsame (hscaled : scaled o (origin.amount o) = scaled o origin.description.amount) :
        amountBy o o.round origin.description.type t (origin.amount o) origin.originalAmount =
          amountBy o o.round origin.description.type t origin.description.amount (origin.description.original.getD (-1)) := by
      rw [amountBy, amountBy, hscaled, horiginal, hfile]
    rw [Profile.edit_of_dumps hresub hdumps.1 hdumps.2]
    unfold Origin.CanBeReadFor
    split
    · rename_i hcopy
      refine ⟨fun hok => ⟨hgiven.symm.trans hok.amount, hok.interval⟩, fun ⟨heq, hinterval⟩ =>
        ⟨hgiven.trans heq, fun _ => hkept.orElse_original fun hnone => absurd hnone hcopy.2.2, ?_, hinterval⟩⟩
      intro _ hnot
      rw [hcopy.2.1] at hnot
      nomatch hnot
    · rename_i hcopy
      constructor
      · intro hok
        have hscaled : scaled o (origin.amount o) = scaled o origin.description.amount := by
          rw [← hkept.amount]
          by_cases hnot : origin.isCopy = false
          · exact hok.work hdumps.1 hnot hfile
          · have hnone : origin.recorded o = none := by
              by_contra hne
              exact hcopy ⟨hdumps.1, by simpa using hnot, hne⟩
            have hrecorded := hok.recorded hdumps.1
            simp only [hkept.recorded, hnone, Origin.original_of_recorded hnone, Option.getD_none] at hrecorded
            exact Option.some.inj hrecorded
        exact ⟨⟨hscaled, (hsame hscaled).symm.trans (hgiven.symm.trans hok.amount)⟩, hok.interval⟩
      · rintro ⟨⟨hscaled, heq⟩, hinterval⟩
        refine ⟨hgiven.trans ((hsame hscaled).trans heq), fun _ => hkept.orElse_original fun _ => hscaled, fun _ _ _ => ?_, hinterval⟩
        rw [← hscaled, ← hkept.amount]
  · rw [Profile.edit_of_noDumps hkept.described hresub hdumps]
    unfold Origin.CanBeReadFor
    by_cases hon : o.checkpointingOn = true
    · have horiginal : origin.originalAmount ≠ -1 := fun heq => hdumps ⟨hon, hkept.originalAmount.trans heq⟩
      have hsome := hkept.made horiginal
      have hrecorded : p.description.original = _ := hkept.recorded.trans (Origin.recorded_of_ne hsome)
      split
      · rename_i hcopy
        rw [amountBy_of_noDumps fun hbad => horiginal hbad.2, ← hkept.amount]
        refine ⟨fun hok => ⟨hok.amount, hok.interval⟩, fun ⟨heq, hinterval⟩ => ⟨heq, fun _ => hrecorded, ?_, hinterval⟩⟩
        intro _ hnot
        rw [hcopy.2.1] at hnot
        nomatch hnot
      · rename_i hcopy
        have hnot : origin.isCopy = false := by
          by_contra hne
          exact hcopy ⟨hon, by simpa using hne, hsome⟩
        have hno : ¬(o.checkpointingOn = true ∧ origin.description.original.getD (-1) = -1) :=
          fun hbad => horiginal (hkept.ofFile hnot hbad.2)
        have hneeded : neededInFile o origin.description t = _ := amountBy_of_noDumps hno
        rw [amountBy_of_noDumps hno, ← hkept.amount, hneeded]
        refine ⟨fun hok => ⟨⟨hok.amount.trans hneeded, rfl⟩, hok.interval⟩, fun ⟨⟨heq, _⟩, hinterval⟩ =>
          ⟨heq.trans hneeded.symm, fun _ => hrecorded, fun _ _ hbad => absurd ⟨hon, hbad⟩ hno, hinterval⟩⟩
    · have hno : ∀ {original : ℚ}, ¬(o.checkpointingOn = true ∧ original = -1) := fun hbad => hon hbad.1
      have hneeded : neededInFile o origin.description t = _ := amountBy_of_noDumps hno
      rw [if_neg fun hbad => hon hbad.1, amountBy_of_noDumps hno, ← hkept.amount, hneeded]
      exact ⟨fun hok => ⟨⟨hok.amount.trans hneeded, rfl⟩, hok.interval⟩, fun ⟨⟨heq, _⟩, hinterval⟩ =>
        ⟨heq.trans hneeded.symm, fun hbad => absurd hbad hon, fun hbad => absurd hbad hon, hinterval⟩⟩

/-- What a read does to a profile keeps what holds of it, if the profile could be read. -/
theorem ProfileKept.edit (hkept : ProfileKept o origin p) (hresub : d.isResubmission = false)
    (hok : JobOk o origin (p.edit o p.description.type d t) t) :
    ProfileKept o { origin with readFor := some t } (p.edit o p.description.type d t) := by
  by_cases hdumps : o.checkpointingOn = true ∧ p.originalAmount = -1
  · have hamount := hok.amount
    have hrecorded := hok.recorded hdumps.1
    rw [Profile.edit_of_dumps hresub hdumps.1 hdumps.2] at hamount hrecorded ⊢
    refine ⟨hkept.type, rfl, hamount, hrecorded.trans (Origin.recorded_read hdumps.1).symm, hkept.originalAmount, hkept.original,
      hkept.ofFile, fun _ hnone => ?_⟩
    rw [Origin.recorded_read hdumps.1] at hnone
    nomatch hnone
  · have hamount := hok.amount
    rw [Profile.edit_of_noDumps hkept.described hresub hdumps] at hamount ⊢
    have hrecorded : ({ origin with readFor := some t } : Origin).recorded o = origin.recorded o := by
      by_cases hon : o.checkpointingOn = true
      · have hsome := hkept.made fun heq => hdumps ⟨hon, hkept.originalAmount.trans heq⟩
        rw [Origin.recorded_read hon, Origin.recorded_of_ne hsome]
      · unfold Origin.recorded
        rw [if_neg fun hbad => hon hbad.1, if_neg fun hbad => hon hbad.1]
    refine ⟨hkept.type, rfl, hamount, hkept.recorded.trans hrecorded.symm, hkept.originalAmount, hkept.original, hkept.ofFile, ?_⟩
    exact fun hne => hrecorded ▸ hkept.made hne

/-! ## One event -/

/-- What reading a job gives. -/
theorem fromJson_ok {profiles : String → Option Profile} {result : Profile × LoadedJob} (h : fromJson o profiles d = .ok result) :
    ∃ p t, profiles d.profile = some p ∧ timesOf o p.description.type d = .ok t ∧
      result.2.description.profile = d.profile ∧ result.2.description.isResubmission = d.isResubmission ∧
      (p.description.type = .other → result.1 = p) ∧
      (p.description.type ≠ .other → result.2.times = t ∧ result.1 = p.edit o p.description.type d t) := by
  have hkept : ∀ t, (keptDescription o d t).profile = d.profile ∧ (keptDescription o d t).isResubmission = d.isResubmission := by
    intro t
    unfold keptDescription
    split <;> exact ⟨rfl, rfl⟩
  unfold fromJson at h
  split at h
  · nomatch h
  · rename_i p hp
    obtain ⟨t, ht, rfl⟩ := map_eq_ok.1 h
    refine ⟨p, t, hp, ht, ?_⟩
    cases htype : p.description.type with
    | delay => exact ⟨(hkept t).1, (hkept t).2, nofun, fun _ => ⟨rfl, rfl⟩⟩
    | parallelHomogeneous => exact ⟨(hkept t).1, (hkept t).2, nofun, fun _ => ⟨rfl, rfl⟩⟩
    | other => exact ⟨rfl, rfl, fun _ => rfl, fun hbad => absurd rfl hbad⟩

/-- A job can be read if its profile is there and its times can be computed. -/
theorem fromJson_success {profiles : String → Option Profile} (hp : profiles d.profile = some p)
    (ht : timesOf o p.description.type d = .ok t) : ∃ result, fromJson o profiles d = .ok result := by
  unfold fromJson
  simp only [hp, ht]
  exact ⟨_, rfl⟩

/-- A resubmission leaves its profile as it is. -/
theorem Profile.edit_of_resubmission {type : ProfileType} (hresub : d.isResubmission = true) : p.edit o type d t = p := by
  rw [Profile.edit, if_pos hresub]

/-- What holds in every state where jobs have been read once. -/
structure LoadedOnce (o : LoadOptions) (s : Loading) : Prop where
  kept : ∀ name p, s.workload.profiles name = some p → ∃ origin, s.origins name = some origin ∧ ProfileKept o origin p
  present : ∀ name origin, s.origins name = some origin → s.workload.profiles name ≠ none
  known : ∀ v id job, s.workload.jobs v id = some job → s.workload.profiles job.description.profile ≠ none
  ok : ProfilesOk o s

/-- A job is read into a vector, where jobs were. -/
theorem mem_jobs_update {jobs : JobVector → String → Option LoadedJob} {v : JobVector} {job' : LoadedJob} {slot : Option LoadedJob}
    (h : Function.update jobs target (Function.update (jobs target) newId slot) v id = some job') :
    (v = target ∧ id = newId) ∧ slot = some job' ∨ (v ≠ target ∨ id ≠ newId) ∧ jobs v id = some job' := by
  by_cases hv : v = target
  · subst hv
    rw [Function.update_self] at h
    by_cases hid : id = newId
    · subst hid
      rw [Function.update_self] at h
      exact .inl ⟨⟨rfl, rfl⟩, h⟩
    · rw [Function.update_of_ne hid] at h
      exact .inr ⟨.inr hid, h⟩
  · rw [Function.update_of_ne hv] at h
    exact .inr ⟨.inl hv, h⟩

theorem jobs_update_of_ne {jobs : JobVector → String → Option LoadedJob} {v : JobVector} {slot : Option LoadedJob}
    (h : v ≠ target ∨ id ≠ newId) : Function.update jobs target (Function.update (jobs target) newId slot) v id = jobs v id := by
  by_cases hv : v = target
  · subst hv
    rw [Function.update_self, Function.update_of_ne (h.resolve_left fun hne => hne rfl)]
  · rw [Function.update_of_ne hv]

theorem jobs_update_self {jobs : JobVector → String → Option LoadedJob} {slot : Option LoadedJob} :
    Function.update jobs target (Function.update (jobs target) newId slot) target newId = slot := by
  rw [Function.update_self, Function.update_self]

/-- Where the profiles are from, after a job has been read. -/
theorem originsRead_eq (horigin : s.origins d.profile = some origin) (ht : timesOf o origin.description.type d = .ok t) :
    s.originsRead o d = Function.update s.origins d.profile (some (if d.isResubmission ∨ origin.description.type = .other then origin
      else { origin with readFor := some t })) := by
  unfold Loading.originsRead
  simp only [horigin, ht]
  split
  · rw [← horigin, Function.update_eq_self]
  · rfl

/-- What a job needs does not depend on what its profile was changed for. -/
theorem JobOk.readFor {times : Option CheckpointTimes} (h : JobOk o origin p t) : JobOk o { origin with readFor := times } p t :=
  ⟨h.amount, h.recorded, h.work, h.interval⟩

theorem JobOk.of_readFor {times : Option CheckpointTimes} (h : JobOk o { origin with readFor := times } p t) : JobOk o origin p t :=
  ⟨h.amount, h.recorded, h.work, h.interval⟩

/-- A job is right for a profile that another one has just been read for, and that had what it needs before. -/
theorem JobOk.share {t' : CheckpointTimes} (h : JobOk o origin p' t) (hold : JobOk o origin p t')
    (hsame : neededInFile o origin.description t = p.amount) : JobOk o origin p' t' where
  amount := by rw [h.amount, hsame, hold.amount]
  recorded := h.recorded
  work := h.work
  interval := hold.interval

theorem LoadedOnce.read (h : LoadedOnce o s) (hc : ReadOnce o s d) (hx : s.workload.read o target d = .ok w') :
    LoadedOnce o { workload := w', origins := s.originsRead o d } := by
  obtain ⟨result, hread, rfl⟩ := map_eq_ok.1 hx
  obtain ⟨p, t, hp, ht, hprofile, hresub, hother, hedit⟩ := fromJson_ok hread
  obtain ⟨origin, horigin, hkept⟩ := h.kept _ _ hp
  rw [hkept.type] at ht hother hedit
  rw [originsRead_eq horigin ht]
  -- the profile is left as it is, or is right for the job that has been read
  have hcases : result.1 = p ∧ (d.isResubmission = true ∨ origin.description.type = .other) ∨
      d.isResubmission = false ∧ origin.description.type ≠ .other ∧ result.2.times = t ∧ JobOk o origin result.1 t ∧
        ProfileKept o { origin with readFor := some t } result.1 := by
    by_cases htype : origin.description.type = .other
    · exact .inl ⟨hother htype, .inr htype⟩
    · obtain ⟨htimes, heq⟩ := hedit htype
      cases hres : d.isResubmission with
      | true => exact .inl ⟨by rw [heq, Profile.edit_of_resubmission hres], .inl rfl⟩
      | false =>
        rw [← hkept.type] at heq
        have hok := (jobOk_edit_iff (t := t) hkept hres).2 (hc hres origin t horigin htype ht).1
        exact .inr ⟨rfl, htype, htimes, heq ▸ hok, heq ▸ hkept.edit hres hok⟩
  generalize hafter : (if d.isResubmission ∨ origin.description.type = .other then origin
      else { origin with readFor := some t }) = origin'
  have hkept' : ProfileKept o origin' result.1 := by
    rcases hcases with ⟨heq, hleft⟩ | ⟨hres, htype, -, -, hkept'⟩
    · rw [← hafter, if_pos hleft, heq]
      exact hkept
    · rw [← hafter, if_neg (by simp [hres, htype])]
      exact hkept'
  refine ⟨fun name q hq => ?_, fun name origin₁ horigin₁ => ?_, fun v id job hjob => ?_,
    fun v id job hjob hnot q origin₁ hq horigin₁ htype => ?_⟩
  · dsimp only at hq ⊢
    by_cases hname : name = d.profile
    · subst hname
      rw [Function.update_self] at hq ⊢
      obtain rfl := Option.some.inj hq
      exact ⟨origin', rfl, hkept'⟩
    · rw [Function.update_of_ne hname] at hq ⊢
      exact h.kept name q hq
  · dsimp only at horigin₁ ⊢
    by_cases hname : name = d.profile
    · rw [hname, Function.update_self]
      nofun
    · rw [Function.update_of_ne hname] at horigin₁ ⊢
      exact h.present name origin₁ horigin₁
  · dsimp only
    have hold : s.workload.profiles job.description.profile ≠ none := by
      rcases mem_jobs_update hjob with ⟨-, hnew⟩ | ⟨-, hold⟩
      · obtain rfl := Option.some.inj hnew
        rw [hprofile, hp]
        nofun
      · exact h.known v id job hold
    by_cases hname : job.description.profile = d.profile
    · rw [hname, Function.update_self]
      nofun
    · rwa [Function.update_of_ne hname]
  · dsimp only at hq horigin₁
    by_cases hname : job.description.profile = d.profile
    · rw [hname, Function.update_self] at hq horigin₁
      obtain rfl := Option.some.inj hq
      obtain rfl := Option.some.inj horigin₁
      rcases hcases with ⟨heq, hleft⟩ | ⟨hres, htype', htimes, hok, -⟩
      · rw [if_pos hleft] at hafter
        subst hafter
        rw [heq] at htype ⊢
        rcases mem_jobs_update hjob with ⟨-, hnew⟩ | ⟨-, hold⟩
        · obtain rfl := Option.some.inj hnew
          rw [hresub] at hnot
          rcases hleft with hleft | hleft
          · rw [hleft] at hnot
            nomatch hnot
          · exact absurd (hkept.type.trans hleft) htype
        · exact h.ok v id job hold hnot p origin (hname ▸ hp) (hname ▸ horigin) htype
      · rw [if_neg (by simp [hres, htype'])] at hafter
        subst hafter
        refine JobOk.readFor ?_
        rcases mem_jobs_update hjob with ⟨-, hnew⟩ | ⟨-, hold⟩
        · obtain rfl := Option.some.inj hnew
          exact htimes ▸ hok
        · have hshared := (hc hres origin t horigin htype' ht).2 ⟨v, id, job, hold, hnot, hname⟩
          exact hok.share (h.ok v id job hold hnot p origin (hname ▸ hp) (hname ▸ horigin) (hkept.type ▸ htype'))
            (hshared.trans hkept.amount.symm)
    · rw [Function.update_of_ne hname] at hq horigin₁
      rcases mem_jobs_update hjob with ⟨-, hnew⟩ | ⟨-, hold⟩
      · obtain rfl := Option.some.inj hnew
        exact absurd hprofile hname
      · exact h.ok v id job hold hnot q origin₁ hq horigin₁ htype

/-- A read of a job whose profile has been read before leaves it wrong for a job. -/
theorem LoadedOnce.read_breaks (h : LoadedOnce o s) (target : JobVector) (hc : ¬ReadOnce o s d)
    (hrest : (∃ v id job, s.workload.jobs v id = some job ∧ job.description.isResubmission = false ∧
        job.description.profile = d.profile) →
      ∃ v id job, (v ≠ target ∨ id ≠ d.id) ∧ s.workload.jobs v id = some job ∧ job.description.isResubmission = false ∧
        job.description.profile = d.profile) :
    ∃ w', s.workload.read o target d = .ok w' ∧ ¬ProfilesOk o { workload := w', origins := s.originsRead o d } := by
  unfold ReadOnce at hc
  push Not at hc
  obtain ⟨hres, origin', t, horigin', htype, ht, hbreaks⟩ := hc
  obtain ⟨p, hp⟩ := Option.ne_none_iff_exists'.1 (h.present _ _ horigin')
  obtain ⟨origin, horigin, hkept⟩ := h.kept _ _ hp
  obtain rfl : origin = origin' := Option.some.inj (horigin ▸ horigin')
  obtain ⟨result, hread⟩ := fromJson_success hp (hkept.type ▸ ht)
  refine ⟨_, map_eq_ok.2 ⟨result, hread, rfl⟩, fun hok => ?_⟩
  obtain ⟨p₁, t₁, hp₁, ht₁, hprofile, hresub, -, hedit⟩ := fromJson_ok hread
  obtain rfl : p = p₁ := Option.some.inj (hp ▸ hp₁)
  obtain rfl : t = t₁ := Except.ok.inj (ht ▸ hkept.type ▸ ht₁)
  obtain ⟨htimes, heq⟩ := hedit (hkept.type ▸ htype)
  have htype' : result.1.description.type ≠ .other := by
    rw [← hkept.type] at htype
    by_cases hdumps : o.checkpointingOn = true ∧ p.originalAmount = -1
    · rw [heq, Profile.edit_of_dumps hres hdumps.1 hdumps.2]
      exact htype
    · rw [heq, Profile.edit_of_noDumps hkept.described hres hdumps]
      exact htype
  have hafter : ∀ v id job, Function.update s.workload.jobs target
      (Function.update (s.workload.jobs target) d.id (some result.2)) v id = some job → job.description.isResubmission = false →
        job.description.profile = d.profile → JobOk o origin result.1 job.times := by
    intro v id job hjob hnot hname
    refine JobOk.of_readFor (hok v id job hjob hnot result.1 { origin with readFor := some t } ?_ ?_ htype')
    · dsimp only
      rw [hname, Function.update_self]
    · dsimp only
      rw [originsRead_eq horigin ht, hname, Function.update_self, if_neg (by simp [hres, htype])]
  have hnew : JobOk o origin result.1 t := htimes ▸ hafter target d.id result.2 jobs_update_self (hresub ▸ hres) hprofile
  have honce := (jobOk_edit_iff hkept hres).1 (heq ▸ hnew)
  obtain ⟨hshared, hne⟩ := hbreaks honce
  obtain ⟨v, id, job, hslot, hjob, hnot, hname⟩ := hrest hshared
  refine hne ?_
  have hbefore := h.ok v id job hjob hnot p origin (hname ▸ hp) (hname ▸ horigin) (hkept.type ▸ htype)
  have hstill := hafter v id job ((jobs_update_of_ne hslot).trans hjob) hnot hname
  rw [← hnew.amount, hstill.amount, ← hbefore.amount, hkept.amount]

theorem LoadedOnce.setJob {v : JobVector} (h : LoadedOnce o s) (hjob : s.workload.jobs v id = some job) :
    LoadedOnce o { s with workload := { s.workload with
      jobs := Function.update s.workload.jobs target (Function.update (s.workload.jobs target) newId (some job)) } } := by
  refine ⟨h.kept, h.present, fun v' id' job' hjob' => ?_, fun v' id' job' hjob' => ?_⟩
  · rcases mem_jobs_update hjob' with ⟨-, hnew⟩ | ⟨-, hold⟩
    · obtain rfl := Option.some.inj hnew
      exact h.known v id job hjob
    · exact h.known v' id' job' hold
  · rcases mem_jobs_update hjob' with ⟨-, hnew⟩ | ⟨-, hold⟩
    · obtain rfl := Option.some.inj hnew
      exact h.ok v id job hjob
    · exact h.ok v' id' job' hold

theorem extend_ok (h : s.workload.extend id job newId = .ok w') : ∃ p, s.workload.profiles job.description.profile = some p ∧
    (Profile.fromJson newId p.description).toOption.isSome ∧ s.workload.jobs .jobs newId = none ∧
    s.workload.profiles newId = none ∧ w' = {
      profiles := Function.update s.workload.profiles newId (some (Profile.ofDescription p.description))
      jobs := Function.update (Function.update s.workload.jobs .newJobs (Function.update (s.workload.jobs .newJobs) id none)) .jobs
        (Function.update (s.workload.jobs .jobs) newId
          (some { job with description := { job.description with id := newId, profile := newId } })) } := by
  unfold LoadedWorkload.extend at h
  split at h
  · nomatch h
  · rename_i p hp
    split at h
    · nomatch h
    · rename_i p' hp'
      split at h
      · nomatch h
      · rename_i hjob
        split at h
        · nomatch h
        · rename_i hprofile
          have hdescription : p' = Profile.ofDescription p.description := by
            unfold Profile.fromJson at hp'
            split at hp'
            · nomatch hp'
            · exact (Except.ok.inj hp').symm
          subst hdescription
          refine ⟨p, hp, by rw [hp']; rfl, ?_, ?_, (Except.ok.inj h).symm⟩
          · simpa using hjob
          · simpa using hprofile

theorem extend_success (id : String) (hp : s.workload.profiles job.description.profile = some p)
    (hsome : (Profile.fromJson newId p.description).toOption.isSome) (hjob : s.workload.jobs .jobs newId = none)
    (hprofile : s.workload.profiles newId = none) : ∃ w', s.workload.extend id job newId = .ok w' := by
  unfold LoadedWorkload.extend
  simp only [hp, hjob, hprofile]
  cases hfrom : Profile.fromJson newId p.description with
  | error e =>
    rw [hfrom] at hsome
    nomatch hsome
  | ok p' => exact ⟨_, rfl⟩

/-- A profile that is made from the description of another. -/
theorem ProfileKept.copy (h : ProfileKept o origin p) : ProfileKept o (origin.copy o) (Profile.ofDescription p.description) where
  type := h.type
  described := rfl
  amount := h.described.trans h.amount
  recorded := h.recorded
  originalAmount := congrArg (Option.getD · (-1)) h.recorded
  original := by
    intro hnone
    change (origin.recorded o).getD (-1) = -1 at hnone
    change origin.description.original.getD (-1) = -1
    by_cases hrecorded : origin.recorded o = none
    · rw [Origin.original_of_recorded hrecorded]
      rfl
    · rw [Origin.recorded_of_ne hrecorded, Option.getD_some] at hnone
      cases horigin : origin.description.original with
      | none => rfl
      | some v => simpa [horigin] using hnone
  ofFile := nofun
  made := by
    intro hne hnone
    change origin.recorded o = none at hnone
    change (origin.recorded o).getD (-1) ≠ -1 at hne
    rw [hnone] at hne
    exact hne rfl

/-- A job needs of a profile what the one that it is a copy of was last changed for. -/
theorem jobOk_copy_iff (hkept : ProfileKept o origin p) :
    JobOk o (origin.copy o) (Profile.ofDescription p.description) t ↔
      neededInFile o origin.description t = origin.amount o ∧ (o.checkpointingOn = true → (origin.recorded o).isSome ∧
        (origin.description.original.getD (-1) = -1 → t.checkpointInterval ≠ 0)) := by
  have hamount : (Profile.ofDescription p.description).amount = origin.amount o := hkept.described.trans hkept.amount
  constructor
  · intro hok
    refine ⟨hok.amount.symm.trans hamount, fun hon => ⟨?_, hok.interval hon⟩⟩
    have hrecorded : p.description.original = _ := hok.recorded hon
    rw [← hkept.recorded, hrecorded]
    rfl
  · rintro ⟨heq, hrest⟩
    refine ⟨hamount.trans heq.symm, fun hon => ?_, nofun, fun hon => (hrest hon).2⟩
    have hsome : origin.recorded o ≠ none := Option.isSome_iff_ne_none.1 (hrest hon).1
    exact hkept.recorded.trans (Origin.recorded_of_ne hsome)

/-- The jobs after a copy has been made. -/
theorem mem_jobs_extend {jobs : JobVector → String → Option LoadedJob} {v : JobVector} {id' : String} {job' : LoadedJob}
    {slot : Option LoadedJob}
    (h : Function.update (Function.update jobs .newJobs (Function.update (jobs .newJobs) id none)) .jobs
      (Function.update (jobs .jobs) newId slot) v id' = some job') : slot = some job' ∨ jobs v id' = some job' := by
  cases v with
  | jobs =>
    rw [Function.update_self] at h
    by_cases hid : id' = newId
    · subst hid
      rw [Function.update_self] at h
      exact .inl h
    · rw [Function.update_of_ne hid] at h
      exact .inr h
  | oldJobs => exact .inr h
  | newJobs =>
    rw [Function.update_of_ne (by decide), Function.update_self] at h
    by_cases hid : id' = id
    · subst hid
      rw [Function.update_self] at h
      nomatch h
    · rw [Function.update_of_ne hid] at h
      exact .inr h

theorem LoadedOnce.extend (h : LoadedOnce o s) (hjob : s.workload.jobs .newJobs id = some job)
    (hc : LoadsOnce o s (.extend id newId)) (hx : s.workload.extend id job newId = .ok w') :
    LoadedOnce o { workload := w', origins := s.originsAfter o (.extend id newId) } := by
  obtain ⟨p, hp, hsome, hfreshJob, hfresh, rfl⟩ := extend_ok hx
  obtain ⟨origin, horigin, hkept⟩ := h.kept _ _ hp
  have horigins : s.originsAfter o (.extend id newId) = Function.update s.origins newId (some (origin.copy o)) := by
    unfold Loading.originsAfter
    simp only [hjob, horigin, Option.map_some]
  rw [horigins]
  have hstays : ∀ v' id' job', s.workload.jobs v' id' = some job' → job'.description.profile ≠ newId :=
    fun v' id' job' hjob' heq => h.known v' id' job' hjob' (heq ▸ hfresh)
  refine ⟨fun name q hq => ?_, fun name origin' horigin' => ?_, fun v' id' job' hjob' => ?_,
    fun v' id' job' hjob' hnot q origin' hq horigin' htype => ?_⟩
  · dsimp only at hq ⊢
    by_cases hname : name = newId
    · subst hname
      rw [Function.update_self] at hq ⊢
      obtain rfl := Option.some.inj hq
      exact ⟨_, rfl, hkept.copy⟩
    · rw [Function.update_of_ne hname] at hq ⊢
      exact h.kept name q hq
  · dsimp only at horigin' ⊢
    by_cases hname : name = newId
    · rw [hname, Function.update_self]
      nofun
    · rw [Function.update_of_ne hname] at horigin' ⊢
      exact h.present name origin' horigin'
  · dsimp only
    rcases mem_jobs_extend hjob' with hnew | hold
    · obtain rfl := Option.some.inj hnew
      rw [Function.update_self]
      nofun
    · rw [Function.update_of_ne (hstays v' id' job' hold)]
      exact h.known v' id' job' hold
  · dsimp only at hq horigin'
    rcases mem_jobs_extend hjob' with hnew | hold
    · obtain rfl := Option.some.inj hnew
      dsimp only at hnot hq horigin'
      rw [Function.update_self] at hq horigin'
      obtain rfl := Option.some.inj hq
      obtain rfl := Option.some.inj horigin'
      refine (jobOk_copy_iff hkept).2 ?_
      cases hres : job.description.isResubmission with
      | true => exact hc job p origin hjob hres hnot hp horigin (hkept.type ▸ htype) hsome hfreshJob hfresh
      | false =>
        have hok := h.ok .newJobs id job hjob hres p origin hp horigin htype
        refine ⟨hok.amount.symm.trans hkept.amount, fun hon => ⟨?_, hok.interval hon⟩⟩
        rw [← hkept.recorded, hok.recorded hon]
        rfl
    · rw [Function.update_of_ne (hstays v' id' job' hold)] at hq horigin'
      exact h.ok v' id' job' hold hnot q origin' hq horigin' htype

theorem LoadedOnce.step {event : LoadEvent} (h : LoadedOnce o s) (hc : LoadsOnce o s event) (hx : s.step o event = .ok s') :
    LoadedOnce o s' := by
  obtain ⟨w', hw, rfl⟩ := map_eq_ok.1 hx
  cases event with
  | load d =>
    simp only [LoadedWorkload.step] at hw
    split at hw
    · nomatch hw
    · rename_i hfree
      exact h.read (hc (by simpa using hfree)) hw
  | readAgain id source target ne =>
    simp only [LoadedWorkload.step] at hw
    split at hw
    · nomatch hw
    · rename_i job hjob
      split at hw
      · rename_i hpurpose
        cases hw
        have hsame : s.originsAfter o (.readAgain id source target ne) = s.origins := by
          simp only [Loading.originsAfter, hjob, hpurpose, if_true]
        rwa [hsame]
      · rename_i hpurpose
        have hread : s.originsAfter o (.readAgain id source target ne) = s.originsRead o job.description := by
          simp only [Loading.originsAfter, hjob, hpurpose, if_false]
        rw [hread]
        exact h.read (hc job hjob hpurpose) hw
  | setJob id source =>
    simp only [LoadedWorkload.step] at hw
    split at hw
    · nomatch hw
    · rename_i job hjob
      cases hw
      exact h.setJob hjob
  | extend id newId =>
    simp only [LoadedWorkload.step] at hw
    split at hw
    · nomatch hw
    · rename_i job hjob
      exact h.extend hjob hc hw

/-- A step that does not meet the condition goes through, and leaves a profile that is wrong for a job. -/
theorem LoadedOnce.breaks {event : LoadEvent} (h : LoadedOnce o s) (hc : ¬LoadsOnce o s event) :
    ∃ s', s.step o event = .ok s' ∧ ¬ProfilesOk o s' := by
  cases event with
  | load d =>
    simp only [LoadsOnce, Classical.not_imp] at hc
    obtain ⟨hfree, hc⟩ := hc
    obtain ⟨w', hw, hbad⟩ := h.read_breaks .jobs hc fun ⟨v, id, job, hjob, hnot, hname⟩ => by
      refine ⟨v, id, job, ?_, hjob, hnot, hname⟩
      by_contra hne
      push Not at hne
      obtain ⟨rfl, rfl⟩ := hne
      rw [hfree] at hjob
      nomatch hjob
    refine ⟨_, map_eq_ok.2 ⟨w', ?_, rfl⟩, hbad⟩
    simp only [LoadedWorkload.step, hfree, Option.isSome_none]
    exact hw
  | readAgain id source target ne =>
    simp only [LoadsOnce] at hc
    push Not at hc
    obtain ⟨job, hjob, hpurpose, hc⟩ := hc
    have hnot : job.description.isResubmission = false := by
      by_contra hres
      exact hc fun hbad => absurd hbad hres
    have hread : s.originsAfter o (.readAgain id source target ne) = s.originsRead o job.description := by
      simp only [Loading.originsAfter, hjob, hpurpose, if_false]
    obtain ⟨w', hw, hbad⟩ := h.read_breaks target hc fun _ => ⟨source, id, job, .inl ne, hjob, hnot, rfl⟩
    refine ⟨_, map_eq_ok.2 ⟨w', ?_, rfl⟩, hread ▸ hbad⟩
    simp only [LoadedWorkload.step, hjob, hpurpose, if_false]
    exact hw
  | setJob id source => exact absurd trivial hc
  | extend id newId =>
    simp only [LoadsOnce, Classical.not_forall] at hc
    obtain ⟨job, p, origin, hjob, hres, hnot, hp, horigin, htype, hsome, hfreshJob, hfresh, hright⟩ := hc
    obtain ⟨origin', horigin', hkept⟩ := h.kept _ _ hp
    obtain rfl : origin = origin' := Option.some.inj (horigin ▸ horigin')
    obtain ⟨w', hw⟩ := extend_success id hp hsome hfreshJob hfresh
    refine ⟨_, map_eq_ok.2 ⟨w', by simp only [LoadedWorkload.step, hjob]; exact hw, rfl⟩, fun hok => hright ?_⟩
    obtain ⟨p₁, hp₁, -, -, -, rfl⟩ := extend_ok hw
    obtain rfl : p = p₁ := Option.some.inj (hp ▸ hp₁)
    refine (jobOk_copy_iff hkept).1 (hok .jobs newId { job with description := { job.description with id := newId, profile := newId } }
      ?_ hnot (Profile.ofDescription p.description) (origin.copy o) ?_ ?_ (hkept.type ▸ htype))
    · dsimp only
      rw [Function.update_self, Function.update_self]
    · exact Function.update_self _ _ _
    · unfold Loading.originsAfter
      simp only [hjob, horigin, Option.map_some, Function.update_self]

theorem LoadedOnce.new (o : LoadOptions) (file : String → Option ProfileDescription) : LoadedOnce o (Loading.new file) where
  kept := by
    intro name p hp
    obtain ⟨d, hd, rfl⟩ := Option.map_eq_some_iff.1 hp
    have hrecorded : ({ description := d } : Origin).recorded o = d.original := by
      unfold Origin.recorded
      rw [if_neg fun hbad => by simp at hbad]
      cases d.original <;> rfl
    refine ⟨{ description := d }, by simp [Loading.new, hd], rfl, rfl, rfl, hrecorded.symm, rfl, id, fun _ => id,
      fun hne hnone => hne ?_⟩
    rw [hrecorded] at hnone
    dsimp only
    rw [hnone]
    rfl
  present := by
    intro name origin horigin
    obtain ⟨d, hd, rfl⟩ := Option.map_eq_some_iff.1 horigin
    simp [Loading.new, hd]
  known := by simp [Loading.new]
  ok := by simp [ProfilesOk, Loading.new]

private def twoSecondsFile : String → Option ProfileDescription :=
  fun name => if name = "p" then some { type := .delay, amount := 2 } else none

end ScheduleTest
