import ScheduleTest.Resubmission
import Mathlib.Tactic

/-!
# The slack of a walltime

How much longer than its delay the walltime of a job is. When the walltime is cut by the work that the checkpoints have saved, the
slack is to stay. It does where a job goes on from its first checkpoint, for there the time to read is added on both sides. A job
that has checkpointed before has the time to read in its delay and in its walltime already, and its walltime gets it once more. And
the walltime that is cut is that of the job, which the delay of the resource manager has been added to. None of this comes to pass
for a job without the record that is read.
-/

namespace ScheduleTest

namespace SubmittedJob

variable (o : ResubmissionOptions)

/-- The walltime of a job less its delay, if it has a walltime. -/
def slack (job : SubmittedJob) : Option ℚ := job.walltime.map (· - job.profile.amount)

/-- What a kill does not change the slack of: a job without a walltime, or with a positive one where nothing is added to it, neither
the delay of the resource manager nor the time to read once more. A walltime that is not positive is not cut, so the delay must not
change either: the time that is saved is the time to read. -/
def CutsAlike (job : SubmittedJob) (runtime progress : ℚ) : Prop :=
  ∀ walltime ∈ job.walltime,
    if 0 < walltime + o.rjmsDelay then o.rjmsDelay + (if job.hasCheckpointed then job.times.readTime else 0) = 0
    else ⌊job.periods o runtime progress⌋ * (job.times.checkpointInterval + job.times.dumpTime) =
      if job.hasCheckpointed then 0 else job.times.readTime

/-- A kill that keeps the slack: the record that is read is there, and no checkpoint is completed, or delay and walltime are cut
alike. -/
def KeepsSlack (job : SubmittedJob) (progress : ℚ) : Prop :=
  o.checkpointingOn → 0 < progress →
    ∃ runtime ∈ job.runtime, job.CompletesCheckpoint o runtime progress → job.CutsAlike o runtime progress

/-- What a kill cuts from delay and walltime, by the checkpoints of the run, is cut as exactly as it is meant, and arrives so. -/
def CutsExactly (job : SubmittedJob) (progress : ℚ) : Prop :=
  o.checkpointingOn → 0 < progress → ∀ runtime ∈ job.runtime, job.CompletesCheckpoint o runtime progress →
    let n := job.numCheckpointsCompleted o runtime progress
    o.told (job.delayAfter o n job.profile.amount) = job.delayAfter o.exact n job.profile.amount ∧
      job.reducedWalltime o n job.walltime = job.reducedWalltime o.exact n job.walltime

end SubmittedJob

namespace WalltimeSlackAux

open SubmittedJob Execution

variable {o : ResubmissionOptions} {job next : SubmittedJob} {runtime progress : ℚ}

/-- What the checkpoints of a run make of the slack: nothing, if there are none. -/
theorem slack_afterDelay_of_none (h : ¬ job.CompletesCheckpoint o runtime progress) :
    (job.afterDelay o (job.numCheckpointsCompleted o runtime progress)).slack = job.slack := by
  have hn : ¬ 0 < job.numCheckpointsCompleted o runtime progress := fun hn => h (completesCheckpoint_iff.2 hn)
  unfold slack afterDelay reducedWalltime
  dsimp only
  rw [if_neg hn, if_neg fun hcut => hn hcut.1]

/-- The delay after some checkpoints, if there is no rounding. -/
theorem delayAfter_exact (n : ℤ) (delay : ℚ) : job.delayAfter o.exact n delay =
    delay - n * (job.times.checkpointInterval + job.times.dumpTime) + (if job.hasCheckpointed then 0 else job.times.readTime) := by
  unfold delayAfter savedTime period
  simp only [ResubmissionOptions.exact, id]
  split <;> ring

/-- A run that completes a checkpoint keeps the slack exactly when delay and walltime are cut alike. -/
theorem slack_afterDelay_iff (hsubtract : o.subtractProgressFromWalltime = true) (hcompletes : job.CompletesCheckpoint o runtime progress)
    (hdelay : o.told (job.delayAfter o (job.numCheckpointsCompleted o runtime progress) job.profile.amount) =
      job.delayAfter o.exact (job.numCheckpointsCompleted o runtime progress) job.profile.amount)
    (hwalltime : job.reducedWalltime o (job.numCheckpointsCompleted o runtime progress) job.walltime =
      job.reducedWalltime o.exact (job.numCheckpointsCompleted o runtime progress) job.walltime) :
    (job.afterDelay o (job.numCheckpointsCompleted o runtime progress)).slack = job.slack ↔ job.CutsAlike o runtime progress := by
  have hn := completesCheckpoint_iff.1 hcompletes
  unfold slack afterDelay CutsAlike
  dsimp only
  rw [if_pos hn, hdelay, hwalltime, delayAfter_exact]
  unfold numCheckpointsCompleted at hn ⊢
  generalize ⌊job.periods o runtime progress⌋ = n at hn
  unfold reducedWalltime period jobWalltime
  simp only [ResubmissionOptions.exact, id, hn, hsubtract, true_and, and_true]
  cases hw : job.walltime with
  | none => simp
  | some walltime =>
    simp only [Option.getD_some, Option.mem_some_iff, forall_eq']
    by_cases hpositive : 0 < walltime + o.rjmsDelay
    · rw [if_pos hpositive, if_pos hpositive]
      simp only [Option.map_some, Option.some.injEq]
      split <;> constructor <;> intro heq <;> linarith
    · rw [if_neg hpositive, if_neg hpositive]
      simp only [Option.map_some, Option.some.injEq]
      split <;> constructor <;> intro heq <;> linarith

/-- One kill that keeps the slack goes through, and the job is a delay with the same slack. -/
theorem kept_of_keepsSlack (htype : job.profile.type = .delay) (hsubtract : o.subtractProgressFromWalltime = true)
    (hexact : job.CutsExactly o progress) (hkeeps : job.KeepsSlack o progress) :
    ∃ next, job.handleResubmission o progress = .ok next ∧ next.profile.type = .delay ∧ next.slack = job.slack := by
  by_cases hacts : o.checkpointingOn = true ∧ 0 < progress
  · obtain ⟨runtime, hruntime, halike⟩ := hkeeps hacts.1 hacts.2
    have hnext : job.handleResubmission o progress = .ok (job.afterDelay o (job.numCheckpointsCompleted o runtime progress)) := by
      rw [handleResubmission_delay htype, if_pos hacts]
      exact ⟨runtime, hruntime, rfl⟩
    refine ⟨_, hnext, htype, ?_⟩
    by_cases hcompletes : job.CompletesCheckpoint o runtime progress
    · obtain ⟨hdelay, hwalltime⟩ := hexact hacts.1 hacts.2 runtime hruntime hcompletes
      exact (slack_afterDelay_iff hsubtract hcompletes hdelay hwalltime).2 (halike hcompletes)
    · exact slack_afterDelay_of_none hcompletes
  · refine ⟨job, ?_, htype, rfl⟩
    rw [handleResubmission_delay htype, if_neg hacts]

/-- A kill that goes through and keeps the slack is one of those. -/
theorem keepsSlack_of_kept (htype : job.profile.type = .delay) (hsubtract : o.subtractProgressFromWalltime = true)
    (hexact : job.CutsExactly o progress) (hnext : job.handleResubmission o progress = .ok next) (hslack : next.slack = job.slack) :
    job.KeepsSlack o progress := by
  intro hon hpos
  have hread := (handleResubmission_delay htype).1 hnext
  rw [if_pos ⟨hon, hpos⟩] at hread
  obtain ⟨runtime, hruntime, rfl⟩ := hread
  refine ⟨runtime, hruntime, fun hcompletes => ?_⟩
  obtain ⟨hdelay, hwalltime⟩ := hexact hon hpos runtime hruntime hcompletes
  exact (slack_afterDelay_iff hsubtract hcompletes hdelay hwalltime).1 hslack

end WalltimeSlackAux

namespace WalltimeSlackWitness

def options : ResubmissionOptions where
  subtractProgressFromWalltime := true

/-- Ten seconds of work with a checkpoint of one second every three, which takes some time to read, in a simulation that was started
from a checkpoint before the job ran. -/
def job (readTime : ℚ) : SubmittedJob where
  profile := { type := .delay, amount := 13 }
  times := { checkpointInterval := 3, dumpTime := 1, readTime := readTime }
  walltime := some 20
  runtime := some 0

/-- The job after its first checkpoint, if it takes no time to read. -/
def next : SubmittedJob := { job 0 with
  profile := { type := .delay, amount := 9 }
  walltime := some 16
  metadata := some { checkpointed := some true, numDumps := some 1, workProgress := some 3 } }

theorem handleResubmission_job : (job 0).handleResubmission options (1 / 2) = .ok next := by
  have h : ((job 0).handleResubmission options (1 / 2)).toOption = some next := by decide +kernel
  cases hjob : (job 0).handleResubmission options (1 / 2) with
  | error reason =>
    rw [hjob] at h
    nomatch h
  | ok last =>
    rw [hjob] at h
    exact congrArg Except.ok (Option.some.inj h)

end WalltimeSlackWitness

end ScheduleTest
