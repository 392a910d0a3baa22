import ScheduleTest.Resubmission
import Mathlib.Tactic

/-!
# The two paths of a resubmission

`handle_resubmission` computes the same thing for a `DELAY` profile and for a `PARALLEL_HOMOGENEOUS` profile of as much work. They
part where the second path puts back the original amount and walltime, which the first never does, and where it converts once more
the work that earlier restarts have noted. Both read a record that not every job has.
-/

namespace ScheduleTest

/-- A description of a delay, in instructions. -/
def ProfileDescription.inInstructions (speed : ℚ) (p : ProfileDescription) : ProfileDescription where
  type := .parallelHomogeneous
  amount := speed * p.amount
  real := p.real.map (speed * ·)
  original := p.original.map (speed * ·)

/-- Metadata with the work in another unit. -/
def Metadata.inUnit (unit : ℚ) (m : Metadata) : Metadata := { m with workProgress := m.workProgress.map (unit * ·) }

/-- The work that a job has noted. -/
def SubmittedJob.notedWork (job : SubmittedJob) : Option ℚ := job.metadata.bind (·.workProgress)

/-- A job that was submitted with a delay, and one that was submitted with as many instructions, their work noted in units of which
one is so many of the other. -/
structure PathsAgree (speed unit : ℚ) (job job' : SubmittedJob) : Prop where
  amount : job'.profile.amount = speed * job.profile.amount
  walltime : job'.walltime = job.walltime
  workProgress : job'.notedWork = job.notedWork.map (unit * ·)
  numDumps : job'.metadata.bind (·.numDumps) = job.metadata.bind (·.numDumps)

/-- The original amount of the profile, if it has one, is the amount it has. -/
def KeepsAmount (speed : ℚ) (job : SubmittedJob) : Prop :=
  ∀ original ∈ job.profile.original, speed * original ≠ -1 → original = job.profile.amount

/-- The original walltime of the job, if it has one, is the walltime it has. -/
def KeepsWalltime (job : SubmittedJob) : Prop :=
  ∀ original ∈ job.originalWalltime, original ≠ -1 → ∀ walltime ∈ job.walltime, walltime = original

/-- A second is one instruction; or no work has been noted by an earlier restart, and none is noted now, or it is compared in the
unit of each. -/
def KeepsWork (speed unit : ℚ) (job : SubmittedJob) (completes : Prop) : Prop :=
  speed = 1 ∨
    ¬ (job.hasCheckpointed = true ∧ job.notedWork.isSome) ∧ (unit = speed ∨ ¬ completes ∨ job.notedWork.isSome)

/-- What the two paths do alike: nothing is done with a job killed before its start, where checkpointing is on; else the record that
is read is there, what the second path puts back is what there is, or the walltime is reduced now, and no work has been noted that
would be converted again. -/
def PathsPartNot (o : ResubmissionOptions) (unit : ℚ) (job : SubmittedJob) (progress : ℚ) : Prop :=
  if o.checkpointingOn then 0 < progress → ∃ runtime ∈ job.runtime, KeepsAmount o.hostSpeed job ∧
    (KeepsWalltime job ∨ job.CompletesCheckpoint o runtime progress ∧ 0 < job.jobWalltime o ∧ o.subtractProgressFromWalltime) ∧
    KeepsWork o.hostSpeed unit job (job.CompletesCheckpoint o runtime progress)
  else KeepsAmount o.hostSpeed job ∧ KeepsWalltime job

/-- A job that is described in both ways is killed and submitted again. -/
def handleBoth (o : ResubmissionOptions) (jobs : SubmittedJob × SubmittedJob) (progress : ℚ) :
    Except ResubmissionAbort (SubmittedJob × SubmittedJob) := do
  let first ← jobs.1.handleResubmission o progress
  let second ← jobs.2.handleResubmission o progress
  .ok (first, second)

/-- Both paths count the same checkpoints in doubles, and what they make of that number is as exact as it is meant. -/
def ComputesExactly (o : ResubmissionOptions) (jobs : SubmittedJob × SubmittedJob) (progress : ℚ) : Prop :=
  o.checkpointingOn → 0 < progress → ∀ runtime ∈ jobs.1.runtime,
    let n := (jobs.1.numCheckpointsCompleted o runtime progress).toNat
    (jobs.2.numCheckpointsCompleted o runtime progress).toNat = n ∧ jobs.1.afterDelay o n = jobs.1.afterDelay o.exact n ∧
      jobs.2.afterParallelHomogeneous o n = jobs.2.afterParallelHomogeneous o.exact n

namespace SubmittedJob

variable (o : ResubmissionOptions)

/-- A job that Batsim has read, its profile described as a delay. -/
def readAsDelay (job : SubmittedJob) (l : LoadOptions) (d : JobDescription) (t : CheckpointTimes) (p : ProfileDescription) :
    SubmittedJob :=
  { ofLoaded o ((Profile.ofDescription p).editDelay l d t) t job.walltime job.runtime with
    originalWalltime := job.originalWalltime
    metadata := job.metadata }

/-- The same job, its profile described in instructions, and the work in its metadata in another unit. -/
def readAsParallelHomogeneous (job : SubmittedJob) (l : LoadOptions) (d : JobDescription) (t : CheckpointTimes) (unit : ℚ)
    (p : ProfileDescription) : SubmittedJob :=
  { ofLoaded o ((Profile.ofDescription (p.inInstructions l.speed)).editParallelHomogeneous l d t) t job.walltime job.runtime with
    originalWalltime := job.originalWalltime
    metadata := job.metadata.map (Metadata.inUnit unit) }

end SubmittedJob

namespace ResubmissionPathsAux

open SubmittedJob Execution

variable {o : ResubmissionOptions} {speed unit x : ℚ} {job job' : SubmittedJob} {n : ℤ}

/-- What is noted for the first time is converted once. -/
theorem converted_once {saved : ℚ} (hunit : unit = 1 ∨ unit = speed) (hsaved : 0 < saved) :
    (speed = 1 ∨ unit = speed → saved * speed = unit * saved) ∧ (saved * speed = unit * saved → speed = 1 ∨ unit = speed) := by
  rw [mul_comm unit, mul_right_inj' hsaved.ne']
  constructor
  · rintro (rfl | heq)
    · exact (hunit.elim id id).symm
    · exact heq.symm
  · exact fun heq => Or.inr heq.symm

/-- What was noted before is converted once more. -/
theorem converted_again {work saved : ℚ} (hspeed : 0 < speed) (hunit : unit = 1 ∨ unit = speed) (hwork : 0 < work) (hsaved : 0 ≤ saved) :
    (speed = 1 → (unit * work + saved) * speed = unit * (work + saved)) ∧
      ((unit * work + saved) * speed = unit * (work + saved) → speed = 1) := by
  constructor
  · rintro rfl
    obtain rfl : unit = 1 := hunit.elim id id
    ring
  · intro heq
    obtain rfl | rfl := hunit
    · have hsum : (0 : ℚ) < work + saved := by linarith
      rw [one_mul, one_mul, mul_eq_left₀ hsum.ne'] at heq
      exact heq
    · have hmul : unit * (unit * work) = unit * work := by linarith
      rw [mul_right_inj' hspeed.ne'] at hmul
      exact (mul_eq_right₀ hwork.ne').1 hmul

/-- Two jobs that have the same work to do, described in the two ways. -/
structure Corresponds (speed unit : ℚ) (job job' : SubmittedJob) : Prop where
  type : job.profile.type = .delay
  type' : job'.profile.type = .parallelHomogeneous
  amount : job'.profile.amount = speed * job.profile.amount
  original : job'.profile.original = job.profile.original.map (speed * ·)
  times : job'.times = job.times
  walltime : job'.walltime = job.walltime
  originalWalltime : job'.originalWalltime = job.originalWalltime
  runtime : job'.runtime = job.runtime
  metadata : job'.metadata = job.metadata.map (Metadata.inUnit unit)
  work_pos : ∀ work ∈ job.notedWork, 0 < work

namespace Corresponds

variable (h : Corresponds speed unit job job')

include h

theorem hasCheckpointed : job'.hasCheckpointed = job.hasCheckpointed := by
  rw [SubmittedJob.hasCheckpointed, SubmittedJob.hasCheckpointed, h.metadata]
  cases job.metadata <;> rfl

theorem notedWork : job'.notedWork = job.notedWork.map (unit * ·) := by
  rw [SubmittedJob.notedWork, SubmittedJob.notedWork, h.metadata]
  cases job.metadata <;> rfl

theorem numDumps : job'.metadata.bind (·.numDumps) = job.metadata.bind (·.numDumps) := by
  rw [h.metadata]
  cases job.metadata <;> rfl

theorem agree : PathsAgree speed unit job job' := ⟨h.amount, h.walltime, h.notedWork, h.numDumps⟩

theorem period : job'.period o = job.period o := by
  rw [SubmittedJob.period, SubmittedJob.period, h.times]

theorem delayAfter (n : ℤ) (delay : ℚ) : job'.delayAfter o n delay = job.delayAfter o n delay := by
  rw [SubmittedJob.delayAfter, SubmittedJob.delayAfter, SubmittedJob.savedTime, SubmittedJob.savedTime, h.hasCheckpointed, h.period,
    h.times]

theorem jobWalltime : job'.jobWalltime o = job.jobWalltime o := by
  rw [SubmittedJob.jobWalltime, SubmittedJob.jobWalltime, h.walltime]

/-- The original amount is the amount where it is kept. -/
theorem originalAmount_eq (hspeed : speed ≠ 0) : job'.originalAmount = speed * job.profile.amount ↔ KeepsAmount speed job := by
  rw [originalAmount, KeepsAmount, h.original, h.amount]
  cases job.profile.original with
  | none => simp
  | some original =>
    simp only [Option.map_some, Option.getD_some, Option.mem_def, Option.some.injEq, forall_eq']
    split
    · rename_i hne
      rw [mul_right_inj' hspeed]
      exact ⟨fun heq _ => heq, fun himp => himp hne⟩
    · rename_i heq
      exact iff_of_true rfl fun hne => absurd hne heq

theorem walltimeBefore_eq : job'.walltimeBefore = job.walltime ↔ KeepsWalltime job := by
  rw [walltimeBefore, KeepsWalltime, h.originalWalltime, h.walltime]
  cases job.originalWalltime with
  | none => simp
  | some original =>
    cases job.walltime with
    | none => simp
    | some walltime =>
      simp only [Option.getD_some, Option.map_some, Option.mem_def, Option.some.injEq, forall_eq']
      split
      · rename_i hne
        rw [Option.some.injEq]
        exact ⟨fun heq _ => heq.symm, fun himp => (himp hne).symm⟩
      · rename_i heq
        exact iff_of_true rfl fun hne => absurd hne heq

/-- A walltime that is reduced does not depend on what it was before. -/
theorem reducedWalltime_eq (n : ℤ) : job'.reducedWalltime o n job'.walltimeBefore = job.reducedWalltime o n job.walltime ↔
    KeepsWalltime job ∨ 0 < n ∧ 0 < job.jobWalltime o ∧ o.subtractProgressFromWalltime := by
  rw [reducedWalltime, reducedWalltime, h.jobWalltime, h.period, h.times]
  split
  · rename_i hreduced
    refine iff_of_true ?_ (Or.inr hreduced)
    rw [walltimeBefore, h.walltime]
    split
    · rw [Option.map_map]
      rfl
    · rfl
  · rename_i hnot
    rw [h.walltimeBefore_eq]
    exact ⟨Or.inl, fun hor => hor.resolve_right hnot⟩

/-- Both paths note the same checkpoints, and the same work where it is kept. -/
theorem noteCheckpoints_eq (hspeed : 0 < speed) (hunit : unit = 1 ∨ unit = speed) (hc : 0 < job.times.checkpointInterval) (n : ℤ) :
    (KeepsWork speed unit job (0 < n) →
        job'.noteCheckpoints o.exact (· * speed) n = (job.noteCheckpoints o.exact id n).map (Metadata.inUnit unit)) ∧
      ((job'.noteCheckpoints o.exact (· * speed) n).bind (·.workProgress) =
          ((job.noteCheckpoints o.exact id n).bind (·.workProgress)).map (unit * ·) → KeepsWork speed unit job (0 < n)) := by
  have hwork := h.work_pos
  have hsaved : 0 < n → 0 < (n : ℚ) * job.times.checkpointInterval := fun hn => mul_pos (by exact_mod_cast hn) hc
  unfold KeepsWork
  unfold SubmittedJob.notedWork at hwork ⊢
  rw [noteCheckpoints, noteCheckpoints, h.hasCheckpointed, h.times, h.metadata]
  simp only [ResubmissionOptions.exact, id]
  generalize (n : ℚ) * job.times.checkpointInterval = saved at hsaved
  by_cases hchecked : job.hasCheckpointed = true
  · cases hm : job.metadata with
    | none => simp [SubmittedJob.hasCheckpointed, hm] at hchecked
    | some m =>
      cases hw : m.workProgress with
      | none =>
        by_cases hn : 0 < n
        · have honce := converted_once hunit (hsaved hn)
          simpa [hchecked, hw, hn, Metadata.inUnit] using honce
        · simp [hchecked, hw, hn, Metadata.inUnit]
      | some work =>
        have hpos : 0 < work := hwork work (by rw [hm]; exact hw)
        by_cases hn : 0 < n
        · have hagain := converted_again hspeed hunit hpos (hsaved hn).le
          simpa [hchecked, hw, hn, Metadata.inUnit] using hagain
        · have hagain := converted_again hspeed hunit hpos le_rfl
          simpa [hchecked, hw, hn, Metadata.inUnit] using hagain
  · by_cases hn : 0 < n
    · have honce := converted_once hunit (hsaved hn)
      cases hm : job.metadata with
      | none => simpa [hchecked, hn, Metadata.inUnit] using honce
      | some m =>
        cases hw : m.workProgress with
        | none => simpa [hchecked, hw, hn, Metadata.inUnit] using honce
        | some work => simp [hchecked, hw, hn, Metadata.inUnit]
    · simp [hchecked, hn]

/-- Checkpoints only add to the work that is noted. -/
theorem noteCheckpoints_work_pos (hc : 0 < job.times.checkpointInterval) (n : ℤ) :
    ∀ work ∈ (job.noteCheckpoints o.exact id n).bind (·.workProgress), 0 < work := by
  intro work hmem
  have hwork := h.work_pos
  have hsaved : 0 < n → 0 < (n : ℚ) * job.times.checkpointInterval := fun hn => mul_pos (by exact_mod_cast hn) hc
  unfold SubmittedJob.notedWork at hwork
  unfold SubmittedJob.noteCheckpoints at hmem
  simp only [ResubmissionOptions.exact, id] at hmem
  cases hm : job.metadata with
  | none =>
    by_cases hn : 0 < n
    · simp [SubmittedJob.hasCheckpointed, hm, hn] at hmem
      exact hmem ▸ hsaved hn
    · simp [SubmittedJob.hasCheckpointed, hm, hn] at hmem
  | some m =>
    rw [hm] at hwork hmem
    cases hw : m.workProgress with
    | none =>
      by_cases hn : 0 < n
      · have hnoted : work = (n : ℚ) * job.times.checkpointInterval := by
          split at hmem
          · simpa [hw, hn] using hmem.symm
          · simpa [hw, hn] using hmem.symm
        exact hnoted ▸ hsaved hn
      · by_cases hchecked : job.hasCheckpointed = true
        · simp [hchecked, hw, hn] at hmem
        · simp [hchecked, hw, hn] at hmem
    | some before =>
      have hpos : 0 < before := hwork before hw
      by_cases hchecked : job.hasCheckpointed = true
      · simp only [hchecked, if_true, Option.map_some, Option.bind_some, hw] at hmem
        obtain rfl := Option.some.inj hmem
        split_ifs with hn
        · exact add_pos hpos (hsaved hn)
        · exact hpos
      · by_cases hn : 0 < n
        · simp [hchecked, hw, hn] at hmem
          exact hmem ▸ hpos
        · simp [hchecked, hw, hn] at hmem
          exact hmem ▸ hpos

/-- The amount that is submitted is the same where the original amount is kept. -/
theorem amount_eq (hspeed : speed ≠ 0) (n : ℤ) :
    (if 0 < n then job'.delayAfter o.exact n (job'.originalAmount / speed) * speed else job'.originalAmount) =
      speed * (if 0 < n then job.delayAfter o.exact n job.profile.amount else job.profile.amount) ↔ KeepsAmount speed job := by
  rw [← h.originalAmount_eq hspeed, h.delayAfter]
  split
  · simp only [SubmittedJob.delayAfter, ResubmissionOptions.exact, id]
    constructor
    · intro heq
      rw [mul_comm] at heq
      have hcancel := mul_left_cancel₀ hspeed heq
      have hdiv : job'.originalAmount / speed = job.profile.amount := by linarith
      rw [div_eq_iff hspeed] at hdiv
      rw [hdiv, mul_comm]
    · intro heq
      rw [heq, mul_div_cancel_left₀ _ hspeed, mul_comm]
  · exact Iff.rfl

end Corresponds

/-- What both paths make of some checkpoints corresponds where the paths do not part. -/
theorem Corresponds.after (hspeed : 0 < o.hostSpeed) (hunit : unit = 1 ∨ unit = o.hostSpeed) (hc : 0 < job.times.checkpointInterval)
    (h : Corresponds o.hostSpeed unit job job') (hamount : KeepsAmount o.hostSpeed job)
    (hwalltime : KeepsWalltime job ∨ 0 < n ∧ 0 < job.jobWalltime o ∧ o.subtractProgressFromWalltime)
    (hwork : KeepsWork o.hostSpeed unit job (0 < n)) :
    Corresponds o.hostSpeed unit (job.afterDelay o.exact n) (job'.afterParallelHomogeneous o.exact n) :=
  ⟨h.type, h.type', (h.amount_eq hspeed.ne' n).2 hamount, h.original, h.times, (h.reducedWalltime_eq (o := o.exact) n).2 hwalltime,
    h.originalWalltime, h.runtime, (h.noteCheckpoints_eq hspeed hunit hc n).1 hwork, h.noteCheckpoints_work_pos hc n⟩

/-- They agree only there. -/
theorem Corresponds.of_agree (hspeed : 0 < o.hostSpeed) (hunit : unit = 1 ∨ unit = o.hostSpeed) (hc : 0 < job.times.checkpointInterval)
    (h : Corresponds o.hostSpeed unit job job')
    (hagree : PathsAgree o.hostSpeed unit (job.afterDelay o.exact n) (job'.afterParallelHomogeneous o.exact n)) :
    KeepsAmount o.hostSpeed job ∧ (KeepsWalltime job ∨ 0 < n ∧ 0 < job.jobWalltime o ∧ o.subtractProgressFromWalltime) ∧
      KeepsWork o.hostSpeed unit job (0 < n) :=
  ⟨(h.amount_eq hspeed.ne' n).1 hagree.amount, (h.reducedWalltime_eq (o := o.exact) n).1 hagree.walltime,
    (h.noteCheckpoints_eq hspeed hunit hc n).2 hagree.workProgress⟩

/-- A number of checkpoints that is negative is like none. -/
theorem noteCheckpoints_toNat (inUnit : ℚ → ℚ) : job.noteCheckpoints o inUnit n.toNat = job.noteCheckpoints o inUnit n := by
  by_cases hn : 0 < n
  · rw [Int.toNat_of_nonneg hn.le]
  · have hzero : n.toNat = 0 := Int.toNat_eq_zero.2 (not_lt.1 hn)
    simp only [SubmittedJob.noteCheckpoints, hzero, hn, Nat.cast_zero, lt_irrefl, if_false]

theorem reducedWalltime_toNat (walltime : Option ℚ) : job.reducedWalltime o n.toNat walltime = job.reducedWalltime o n walltime := by
  by_cases hn : 0 < n
  · rw [Int.toNat_of_nonneg hn.le]
  · have hzero : n.toNat = 0 := Int.toNat_eq_zero.2 (not_lt.1 hn)
    simp only [SubmittedJob.reducedWalltime, hzero, hn, Nat.cast_zero, lt_irrefl, false_and, if_false]

theorem afterDelay_toNat : job.afterDelay o n.toNat = job.afterDelay o n := by
  rw [afterDelay, afterDelay, noteCheckpoints_toNat, reducedWalltime_toNat]
  by_cases hn : 0 < n
  · rw [Int.toNat_of_nonneg hn.le]
  · have hzero : n.toNat = 0 := Int.toNat_eq_zero.2 (not_lt.1 hn)
    simp only [hzero, hn, Nat.cast_zero, lt_irrefl, if_false]

theorem afterParallelHomogeneous_toNat : job.afterParallelHomogeneous o n.toNat = job.afterParallelHomogeneous o n := by
  rw [afterParallelHomogeneous, afterParallelHomogeneous, noteCheckpoints_toNat, reducedWalltime_toNat]
  by_cases hn : 0 < n
  · rw [Int.toNat_of_nonneg hn.le]
  · have hzero : n.toNat = 0 := Int.toNat_eq_zero.2 (not_lt.1 hn)
    simp only [hzero, hn, Nat.cast_zero, lt_irrefl, if_false]

theorem handleBoth_eq_ok {jobs next : SubmittedJob × SubmittedJob} : handleBoth o jobs x = .ok next ↔
    jobs.1.handleResubmission o x = .ok next.1 ∧ jobs.2.handleResubmission o x = .ok next.2 := by
  obtain ⟨first, second⟩ := next
  unfold handleBoth
  simp only [bind_eq_ok, Except.ok.injEq, Prod.mk.injEq]
  constructor
  · rintro ⟨_, hfirst, _, hsecond, rfl, rfl⟩
    exact ⟨hfirst, hsecond⟩
  · rintro ⟨hfirst, hsecond⟩
    exact ⟨first, hfirst, second, hsecond, rfl, rfl⟩

/-- A kill of both that is acted on: the record is read, and the checkpoints of the run are counted. -/
theorem Corresponds.handleBoth_acts (h : Corresponds speed unit job job') (hon : o.checkpointingOn = true) (hx : 0 < x)
    (hcomputes : ComputesExactly o (job, job') x) {next : SubmittedJob × SubmittedJob} :
    handleBoth o (job, job') x = .ok next ↔ ∃ runtime ∈ job.runtime,
      (job.afterDelay o.exact (job.numCheckpointsCompleted o runtime x).toNat,
        job'.afterParallelHomogeneous o.exact (job.numCheckpointsCompleted o runtime x).toNat) = next := by
  have hboth : ∀ runtime ∈ job.runtime,
      job.afterDelay o (job.numCheckpointsCompleted o runtime x) =
          job.afterDelay o.exact (job.numCheckpointsCompleted o runtime x).toNat ∧
        job'.afterParallelHomogeneous o (job'.numCheckpointsCompleted o runtime x) =
          job'.afterParallelHomogeneous o.exact (job.numCheckpointsCompleted o runtime x).toNat := by
    intro runtime hruntime
    obtain ⟨hcount, hfirst, hsecond⟩ := hcomputes hon hx runtime hruntime
    rw [← afterDelay_toNat, hfirst, ← afterParallelHomogeneous_toNat, hcount, hsecond]
    exact ⟨rfl, rfl⟩
  rw [handleBoth_eq_ok, handleResubmission_delay h.type, handleResubmission_parallelHomogeneous h.type', if_pos ⟨hon, hx⟩, if_pos hon,
    if_pos hx, h.runtime]
  constructor
  · rintro ⟨⟨runtime, hruntime, hfirst⟩, runtime', hruntime', hsecond⟩
    obtain rfl : runtime = runtime' := Option.mem_unique hruntime hruntime'
    obtain ⟨hfirst', hsecond'⟩ := hboth runtime hruntime
    exact ⟨runtime, hruntime, by rw [← hfirst', ← hsecond', hfirst, hsecond]⟩
  · rintro ⟨runtime, hruntime, rfl⟩
    obtain ⟨hfirst', hsecond'⟩ := hboth runtime hruntime
    exact ⟨⟨runtime, hruntime, hfirst'⟩, runtime, hruntime, hsecond'⟩

/-- A kill of both that is not acted on, or that only puts back what there was before. -/
theorem Corresponds.handleBoth_rests (h : Corresponds speed unit job job') (hrests : ¬(o.checkpointingOn = true ∧ 0 < x))
    {next : SubmittedJob × SubmittedJob} : handleBoth o (job, job') x = .ok next ↔
      (job, if o.checkpointingOn = true then job' else
        { job' with walltime := job'.walltimeBefore, profile := { job'.profile with amount := job'.originalAmount } }) = next := by
  rw [handleBoth_eq_ok, handleResubmission_delay h.type, handleResubmission_parallelHomogeneous h.type', if_neg hrests]
  obtain ⟨first, second⟩ := next
  by_cases hon : o.checkpointingOn = true
  · rw [if_pos hon, if_pos hon, if_neg fun hx => hrests ⟨hon, hx⟩, Prod.mk.injEq]
  · rw [if_neg hon, if_neg hon, Prod.mk.injEq]

/-- One kill: the jobs that are submitted again have the same work to do where the paths do not part. -/
theorem Corresponds.step (hspeed : 0 < o.hostSpeed) (hunit : unit = 1 ∨ unit = o.hostSpeed)
    (hc : o.checkpointingOn = true → 0 < job.times.checkpointInterval) (h : Corresponds o.hostSpeed unit job job')
    (hcomputes : ComputesExactly o (job, job') x) (hpart : PathsPartNot o unit job x) :
    ∃ next, handleBoth o (job, job') x = .ok next ∧ Corresponds o.hostSpeed unit next.1 next.2 ∧ next.1.times = job.times := by
  rw [PathsPartNot] at hpart
  by_cases hacts : o.checkpointingOn = true ∧ 0 < x
  · rw [if_pos hacts.1] at hpart
    obtain ⟨runtime, hruntime, hamount, hwalltime, hwork⟩ := hpart hacts.2
    have hcount : job.CompletesCheckpoint o runtime x ↔ 0 < ((job.numCheckpointsCompleted o runtime x).toNat : ℤ) := by
      rw [completesCheckpoint_iff]
      omega
    rw [hcount] at hwalltime hwork
    exact ⟨_, (h.handleBoth_acts hacts.1 hacts.2 hcomputes).2 ⟨runtime, hruntime, rfl⟩,
      h.after hspeed hunit (hc hacts.1) hamount hwalltime hwork, rfl⟩
  · refine ⟨_, (h.handleBoth_rests hacts).2 rfl, ?_, rfl⟩
    by_cases hon : o.checkpointingOn = true
    · rw [if_pos hon]
      exact h
    · rw [if_neg hon] at hpart ⊢
      exact ⟨h.type, h.type', (h.originalAmount_eq hspeed.ne').2 hpart.1, h.original, h.times, h.walltimeBefore_eq.2 hpart.2,
        h.originalWalltime, h.runtime, h.metadata, h.work_pos⟩

/-- One kill: the jobs that are submitted again agree only where the paths do not part. -/
theorem Corresponds.partNot_of_agree (hspeed : 0 < o.hostSpeed) (hunit : unit = 1 ∨ unit = o.hostSpeed)
    (hc : o.checkpointingOn = true → 0 < job.times.checkpointInterval) (h : Corresponds o.hostSpeed unit job job')
    (hcomputes : ComputesExactly o (job, job') x) {next : SubmittedJob × SubmittedJob} (hnext : handleBoth o (job, job') x = .ok next)
    (hagree : PathsAgree o.hostSpeed unit next.1 next.2) : PathsPartNot o unit job x := by
  rw [PathsPartNot]
  by_cases hon : o.checkpointingOn = true
  · rw [if_pos hon]
    intro hx
    obtain ⟨runtime, hruntime, rfl⟩ := (h.handleBoth_acts hon hx hcomputes).1 hnext
    have hcount : job.CompletesCheckpoint o runtime x ↔ 0 < ((job.numCheckpointsCompleted o runtime x).toNat : ℤ) := by
      rw [completesCheckpoint_iff]
      omega
    refine ⟨runtime, hruntime, ?_⟩
    rw [hcount]
    exact h.of_agree hspeed hunit (hc hon) hagree
  · obtain rfl := (h.handleBoth_rests fun hacts => hon hacts.1).1 hnext
    rw [if_neg hon] at hagree ⊢
    exact ⟨(h.originalAmount_eq hspeed.ne').1 hagree.amount, h.walltimeBefore_eq.1 hagree.walltime⟩

/-- The performance factor and the dumps make of a description in instructions what they make of the delay. -/
theorem edit_inInstructions (l : LoadOptions) (d : JobDescription) (t : CheckpointTimes) (p : ProfileDescription)
    (hspeed : l.speed ≠ 0) (horiginal : ∀ original ∈ p.original, original ≠ -1 ∧ l.speed * original ≠ -1) :
    let q := ((Profile.ofDescription p).editDelay l.exact d t).description
    let q' := ((Profile.ofDescription (p.inInstructions l.speed)).editParallelHomogeneous l.exact d t).description
    q.type = p.type ∧ q'.type = .parallelHomogeneous ∧ q'.amount = l.speed * q.amount ∧
      q'.original = q.original.map (l.speed * ·) := by
  have hscale : ∀ x : ℚ, scaled l.exact (l.speed * x) = l.speed * scaled l.exact x := fun x => by
    unfold scaled
    split
    · exact mul_left_comm _ _ _
    · rfl
  have htime : ∀ x : ℚ, timeOf l.exact .parallelHomogeneous (l.speed * x) = x := fun x => mul_div_cancel_left₀ _ hspeed
  have hamount : ∀ x : ℚ, amountOf l.exact .parallelHomogeneous x = l.speed * x := fun x => mul_comm _ _
  have htime' : ∀ x : ℚ, timeOf l.exact .delay x = x := fun _ => rfl
  have hamount' : ∀ x : ℚ, amountOf l.exact .delay x = x := fun _ => rfl
  unfold Profile.editDelay Profile.editParallelHomogeneous Profile.edit
  split_ifs with hd hl
  · exact ⟨rfl, rfl, rfl, rfl⟩
  · -- with the dumps, unless there is an original amount
    cases hp : p.original with
    | none =>
      unfold Profile.scale
      split_ifs with hpf
      · simp [Profile.addDumps, Profile.ofDescription, ProfileDescription.inInstructions, hp, hscale, htime, hamount, htime', hamount']
      · simp [Profile.addDumps, Profile.ofDescription, ProfileDescription.inInstructions, hp, htime, hamount, htime', hamount']
    | some original =>
      obtain ⟨hne, hne'⟩ := horiginal original hp
      unfold Profile.scale
      split_ifs with hpf
      · simp [Profile.addDumps, Profile.ofDescription, ProfileDescription.inInstructions, hp, hne, hne', hscale]
      · simp [Profile.addDumps, Profile.ofDescription, ProfileDescription.inInstructions, hp, hne, hne']
  · unfold Profile.scale
    split_ifs with hpf
    · exact ⟨rfl, rfl, hscale _, rfl⟩
    · exact ⟨rfl, rfl, rfl, rfl⟩

/-- The job as it is read from one description and from the other. -/
theorem corresponds_read (l : LoadOptions) (d : JobDescription) (t : CheckpointTimes) (p : ProfileDescription) (job : SubmittedJob)
    (hspeed : l.speed ≠ 0) (htype : p.type = .delay)
    (horiginal : ∀ original ∈ p.original, original ≠ -1 ∧ l.speed * original ≠ -1) (hwork : ∀ work ∈ job.notedWork, 0 < work) :
    Corresponds l.speed unit (job.readAsDelay o.exact l.exact d t p) (job.readAsParallelHomogeneous o.exact l.exact d t unit p) := by
  obtain ⟨htype', htype'', hamount, horiginal'⟩ := edit_inInstructions l d t p hspeed horiginal
  refine ⟨htype'.trans htype, htype'', hamount, ?_, rfl, rfl, rfl, rfl, rfl, hwork⟩
  simp only [readAsDelay, readAsParallelHomogeneous, ofLoaded]
  exact (congrArg (Option.map o.exact.told) horiginal').trans (by simp [ResubmissionOptions.exact])

end ResubmissionPathsAux

namespace ResubmissionPathsWitness

/-- Ten seconds, on hosts where two instructions take one. -/
def delay : ProfileDescription := { type := .delay, amount := 10 }

/-- The options of batsched. -/
def options : ResubmissionOptions := { hostSpeed := 2 }

/-- Those of Batsim. -/
def loadOptions : LoadOptions := { checkpointingOn := true, speed := 2 }

/-- The job in the file. -/
def description : JobDescription := { id := "w!1", profile := "p" }

/-- A checkpoint every three seconds, with or without time to write it. -/
def times (dump : ℚ) : CheckpointTimes := { checkpointInterval := 3, dumpTime := dump, readTime := 2 }

/-- The job, that had not run before the simulation was started from a checkpoint. -/
def job : SubmittedJob where
  profile := delay
  times := times 1
  runtime := some 0

end ResubmissionPathsWitness

end ScheduleTest
