import ScheduleTest.Resubmission
import Mathlib.Tactic

/-!
# Work is conserved when a job is submitted again

What a checkpointed job has to do (`CheckpointedWork`), as it is meant: after some checkpoints it has the work left that they have
not saved, the dumps still to come, and the time to read the last of them. `handle_resubmission` keeps a `DELAY` profile at that
through any sequence of kills (`WorkConserved`), where it can: it reads a record that there is only for the jobs of a simulation that
was started from a checkpoint, and there is nothing to read before a checkpoint has been made.
-/

namespace ScheduleTest

/-- Some work, done in intervals with a checkpoint between two of them, which takes a dump. To go on from a checkpoint it is read. -/
structure CheckpointedWork where
  work : ℚ
  interval : ℚ
  dump : ℚ
  read : ℚ
  work_pos : 0 < work
  interval_pos : 0 < interval
  dump_nonneg : 0 ≤ dump
  read_nonneg : 0 ≤ read

namespace CheckpointedWork

variable (w : CheckpointedWork) {K : ℕ} {x : ℚ}

/-- The checkpoints to be made: between two intervals, and none at the end. -/
def dumps : ℕ := ⌈w.work / w.interval⌉₊ - 1

/-- The time before a run goes on with the work, after some checkpoints. -/
def start (K : ℕ) : ℚ := if K = 0 then 0 else w.read

/-- How long a run takes to the end, after some checkpoints: the work not saved, the dumps still needed and the time to read. -/
def remaining (K : ℕ) : ℚ := (w.work - K * w.interval) + (w.dumps - K) * w.dump + w.start K

/-- The checkpoints completed in a run that is killed after some time. -/
def completedIn (K : ℕ) (elapsed : ℚ) : ℕ :=
  Nat.findGreatest (fun k => w.start K + k * (w.interval + w.dump) ≤ elapsed) (w.dumps - K)

/-- The checkpoints completed in runs that are killed when some part of each is done. -/
def completedAfter (progresses : List ℚ) : ℕ := progresses.foldl (fun K x => K + w.completedIn K (x * w.remaining K)) 0

theorem completedAfter_append (progresses : List ℚ) (x : ℚ) : w.completedAfter (progresses ++ [x]) =
    w.completedAfter progresses + w.completedIn (w.completedAfter progresses) (x * w.remaining (w.completedAfter progresses)) := by
  simp only [completedAfter, List.foldl_append, List.foldl_cons, List.foldl_nil]

/-- The metadata that say so. -/
def noted (K : ℕ) : Metadata :=
  if K = 0 then {} else { checkpointed := some true, numDumps := some K, workProgress := some (K * w.interval) }

theorem dumps_lt : w.dumps * w.interval < w.work := by
  have hpos : 0 < w.work / w.interval := div_pos w.work_pos w.interval_pos
  rw [← lt_div_iff₀ w.interval_pos]
  have hceil : 0 < ⌈w.work / w.interval⌉₊ := Nat.ceil_pos.2 hpos
  exact Nat.lt_ceil.1 (Nat.sub_lt hceil one_pos)

theorem le_dumps : w.work ≤ (w.dumps + 1) * w.interval := by
  rw [← div_le_iff₀ w.interval_pos]
  have h := Nat.le_ceil (w.work / w.interval)
  have hle : ⌈w.work / w.interval⌉₊ ≤ w.dumps + 1 := by
    rw [dumps]
    omega
  exact h.trans (by exact_mod_cast hle)

theorem period_pos : 0 < w.interval + w.dump := add_pos_of_pos_of_nonneg w.interval_pos w.dump_nonneg

theorem start_nonneg (K : ℕ) : 0 ≤ w.start K := by
  rw [start]
  split
  · exact le_rfl
  · exact w.read_nonneg

/-- There is always something left to do. -/
theorem remaining_pos (hK : K ≤ w.dumps) : 0 < w.remaining K := by
  have hcast : (K : ℚ) ≤ w.dumps := by exact_mod_cast hK
  have hwork : (K : ℚ) * w.interval ≤ w.dumps * w.interval := mul_le_mul_of_nonneg_right hcast w.interval_pos.le
  have hdump : 0 ≤ ((w.dumps : ℚ) - K) * w.dump := mul_nonneg (sub_nonneg.2 hcast) w.dump_nonneg
  have hstart := w.start_nonneg K
  have hlt := w.dumps_lt
  rw [remaining]
  linarith

/-- A run that is killed before its end has not completed more checkpoints than were to come. -/
theorem floor_lt (hK : K ≤ w.dumps) (hx : x < 1) :
    ⌊(x * w.remaining K - w.start K) / (w.interval + w.dump)⌋ ≤ (w.dumps - K : ℕ) := by
  have hcast : (K : ℚ) ≤ w.dumps := by exact_mod_cast hK
  have hless : x * w.remaining K < w.remaining K := by
    have := mul_lt_mul_of_pos_right hx (w.remaining_pos hK)
    rwa [one_mul] at this
  rw [← Int.lt_add_one_iff, Int.floor_lt, div_lt_iff₀ w.period_pos]
  push_cast [Nat.cast_sub hK]
  have hbound : w.remaining K - w.start K ≤ ((w.dumps : ℚ) - K + 1) * (w.interval + w.dump) := by
    have h1 := w.le_dumps
    have h2 := w.dump_nonneg
    rw [remaining]
    nlinarith only [h1, h2]
  linarith

/-- The checkpoints completed are what the quotient of the times says, unless the run was killed before it had read. -/
theorem completedIn_eq (hK : K ≤ w.dumps) (hx : x < 1) :
    (w.completedIn K (x * w.remaining K) : ℤ) =
      max 0 ⌊(x * w.remaining K - w.start K) / (w.interval + w.dump)⌋ := by
  have hlt := w.floor_lt hK hx
  have hiff : ∀ k : ℕ, w.start K + k * (w.interval + w.dump) ≤ x * w.remaining K ↔
      (k : ℤ) ≤ ⌊(x * w.remaining K - w.start K) / (w.interval + w.dump)⌋ := by
    intro k
    rw [Int.le_floor, le_div_iff₀ w.period_pos, le_sub_iff_add_le', Int.cast_natCast]
  generalize ⌊(x * w.remaining K - w.start K) / (w.interval + w.dump)⌋ = n at hlt hiff
  have hfind : w.completedIn K (x * w.remaining K) = n.toNat := by
    rw [completedIn, Nat.findGreatest_eq_iff]
    refine ⟨by omega, fun hne => (hiff _).2 (by omega), fun k hk _ hle => ?_⟩
    have := (hiff k).1 hle
    omega
  rw [hfind]
  omega

theorem completedIn_le (K : ℕ) (elapsed : ℚ) : w.completedIn K elapsed ≤ w.dumps - K := Nat.findGreatest_le _

theorem completedAfter_singleton (x : ℚ) : w.completedAfter [x] = w.completedIn 0 (x * w.remaining 0) := Nat.zero_add _

/-- The checkpoints completed never get less. -/
theorem completedAfter_mono {before after : List ℚ} (h : before <+: after) : w.completedAfter before ≤ w.completedAfter after := by
  obtain ⟨rest, rfl⟩ := h
  induction rest using List.reverseRecOn with
  | nil => simp
  | append_singleton rest x ih =>
    rw [← List.append_assoc, completedAfter_append]
    exact ih.trans (Nat.le_add_right _ _)

/-- There are never more checkpoints than were to be made. -/
theorem completedAfter_le (progresses : List ℚ) : w.completedAfter progresses ≤ w.dumps := by
  induction progresses using List.reverseRecOn with
  | nil => exact Nat.zero_le _
  | append_singleton progresses x ih =>
    rw [completedAfter_append]
    have hle := w.completedIn_le (w.completedAfter progresses) (x * w.remaining (w.completedAfter progresses))
    omega

/-- The first run completes a checkpoint if it lasts as long as an interval and a dump. -/
theorem completedIn_pos_iff (hx : x < 1) : 0 < w.completedIn 0 (x * w.remaining 0) ↔ w.interval + w.dump ≤ x * w.remaining 0 := by
  have heq := w.completedIn_eq (Nat.zero_le _) hx
  have hone : 1 ≤ ⌊(x * w.remaining 0 - w.start 0) / (w.interval + w.dump)⌋ ↔ w.interval + w.dump ≤ x * w.remaining 0 := by
    rw [Int.le_floor, Int.cast_one, le_div_iff₀ w.period_pos, one_mul, start, if_pos rfl, sub_zero]
  rw [← hone]
  omega

/-- Some time that the job is said to have run before completes no checkpoint of a run: each that is in the run with it is in the run
without it. -/
def CompletesNone (K : ℕ) (x runtime : ℚ) : Prop :=
  ∀ k : ℕ, 0 < k → (w.start K + k * (w.interval + w.dump) ≤ x * w.remaining K + runtime ↔
    w.start K + k * (w.interval + w.dump) ≤ x * w.remaining K)

/-- The checkpoints counted in a run, with the time before it. -/
def counted (K : ℕ) (x runtime : ℚ) : ℕ := ⌊(x * w.remaining K + runtime - w.start K) / (w.interval + w.dump)⌋.toNat

theorem completesNone_iff {runtime : ℚ} (hK : K ≤ w.dumps) (hx : x < 1) :
    w.CompletesNone K x runtime ↔ w.counted K x runtime = w.completedIn K (x * w.remaining K) := by
  have heq := w.completedIn_eq hK hx
  have hiff : ∀ (time : ℚ) (k : ℕ), w.start K + k * (w.interval + w.dump) ≤ time ↔
      (k : ℤ) ≤ ⌊(time - w.start K) / (w.interval + w.dump)⌋ := by
    intro time k
    rw [Int.le_floor, le_div_iff₀ w.period_pos, le_sub_iff_add_le', Int.cast_natCast]
  unfold CompletesNone counted
  simp only [hiff]
  generalize ⌊(x * w.remaining K - w.start K) / (w.interval + w.dump)⌋ = n at heq
  generalize ⌊(x * w.remaining K + runtime - w.start K) / (w.interval + w.dump)⌋ = m
  constructor
  · intro hall
    have h1 := hall m.toNat
    have h2 := hall n.toNat
    omega
  · intro hsame k hk
    omega

/-- The dumps that a job is given time for when it is read are those that it needs. -/
theorem nbCheckpoints_eq :
    (if 0 < ⌊w.work / w.interval⌋ then nbCheckpoints w.interval w.work (w.work / w.interval) else 0) = w.dumps := by
  have h1 := w.dumps_lt
  have h2 := w.le_dumps
  have hc := w.interval_pos
  have hfloor := Int.floor_le (w.work / w.interval)
  have hfloor' := Int.lt_floor_add_one (w.work / w.interval)
  rw [le_div_iff₀ hc] at hfloor
  rw [div_lt_iff₀ hc] at hfloor'
  rw [nbCheckpoints]
  generalize ⌊w.work / w.interval⌋ = f at hfloor hfloor'
  have cancel : ∀ {a b : ℤ}, (a : ℚ) * w.interval < b * w.interval → a < b := fun h => by
    exact_mod_cast lt_of_mul_lt_mul_right h hc.le
  have h1' : ((w.dumps : ℤ) : ℚ) * w.interval < (f + 1 : ℤ) * w.interval := by push_cast; linarith
  have hle := cancel h1'
  split_ifs with hpos heq
  · -- the work is a whole number of intervals
    have h3 : ((w.dumps : ℤ) : ℚ) * w.interval < (f : ℤ) * w.interval := by push_cast; linarith
    have h4 : ((f - 1 : ℤ) : ℚ) * w.interval < ((w.dumps : ℤ) + 1 : ℤ) * w.interval := by push_cast; nlinarith only [h2, heq, hc]
    have h3' := cancel h3
    have h4' := cancel h4
    omega
  · have h3 : ((f : ℤ) : ℚ) * w.interval < ((w.dumps : ℤ) + 1 : ℤ) * w.interval := by
      push_cast
      exact lt_of_lt_of_le (lt_of_le_of_ne hfloor heq) h2
    have h3' := cancel h3
    omega
  · omega

end CheckpointedWork

/-- A job as it should be after some checkpoints: the delay it is submitted with is the work not saved, the dumps still to come and the
time to read, and its metadata tell how much of the work is saved. -/
structure WorkConserved (w : CheckpointedWork) (K : ℕ) (job : SubmittedJob) : Prop where
  delay : job.profile.amount = (w.work - K * w.interval) + (w.dumps - K) * w.dump + w.read
  positive : 0 < job.profile.amount
  workProgress : (job.metadata.bind (·.workProgress)).getD 0 = K * w.interval
  numDumps : (job.metadata.bind (·.numDumps)).getD 0 = K
  bounded : K ≤ w.dumps

/-- A job is as it should be after every kill, and a run that completes no checkpoint changes nothing. -/
def ConservesWork (o : ResubmissionOptions) (w : CheckpointedWork) (job : SubmittedJob) (progresses : List ℚ) : Prop :=
  ∀ before x, before ++ [x] <+: progresses → ∃ last next,
    job.resubmitted o before = .ok last ∧ last.handleResubmission o x = .ok next ∧
      WorkConserved w (w.completedAfter (before ++ [x])) next ∧ w.completedAfter before ≤ w.completedAfter (before ++ [x]) ∧
      (w.completedAfter (before ++ [x]) = w.completedAfter before → next = last)

/-- A record is there to be read at every kill of a run in which something was done, and what it says completes no checkpoint. -/
def ReadsRecord (w : CheckpointedWork) (runtime : Option ℚ) (progresses : List ℚ) : Prop :=
  ∀ before x, before ++ [x] <+: progresses → 0 < x → ∃ time ∈ runtime, w.CompletesNone (w.completedAfter before) x time

namespace ResubmissionAux

open SubmittedJob Execution

variable {w : CheckpointedWork} {K : ℕ} {job : SubmittedJob} {o : ResubmissionOptions} {x time : ℚ} {runtime : Option ℚ}
  {progresses : List ℚ}

/-- One more kill. -/
theorem resubmitted_append {last : SubmittedJob} (h : job.resubmitted o progresses = .ok last) :
    job.resubmitted o (progresses ++ [x]) = last.handleResubmission o x := by
  rw [resubmitted, runFrom_append h, runFrom]
  cases last.handleResubmission o x <;> rfl

/-- A job on its way, after some checkpoints. -/
structure OnItsWay (w : CheckpointedWork) (runtime : Option ℚ) (K : ℕ) (job : SubmittedJob) : Prop where
  type : job.profile.type = .delay
  times : job.times = { checkpointInterval := w.interval, dumpTime := w.dump, readTime := w.read }
  runtime : job.runtime = runtime
  amount : job.profile.amount = w.remaining K
  metadata : job.metadata.getD {} = w.noted K

theorem OnItsWay.hasCheckpointed (h : OnItsWay w runtime K job) : job.hasCheckpointed = true ↔ K ≠ 0 := by
  have hview : job.hasCheckpointed = ((job.metadata.getD {}).checkpointed).getD false := by
    rw [SubmittedJob.hasCheckpointed]
    cases job.metadata <;> rfl
  rw [hview, h.metadata, CheckpointedWork.noted]
  split
  · simp_all
  · simp_all

theorem OnItsWay.period (h : OnItsWay w runtime K job) : job.period o.exact = w.interval + w.dump := by
  rw [SubmittedJob.period, h.times]
  rfl

/-- How many checkpoints a run has completed, as the code computes it. -/
theorem OnItsWay.completed (h : OnItsWay w runtime K job) (time x : ℚ) :
    (job.numCheckpointsCompleted o.exact time x).toNat = w.counted K x time := by
  have htime : job.progressTime o.exact time x = x * w.remaining K + time := by
    rw [progressTime, h.type, h.amount]
    rfl
  rw [numCheckpointsCompleted, periods, h.period, htime, h.times, CheckpointedWork.counted, CheckpointedWork.start]
  by_cases hK : K = 0
  · rw [if_neg fun hc => h.hasCheckpointed.1 hc hK, if_pos hK, sub_zero]
    rfl
  · rw [if_pos (h.hasCheckpointed.2 hK), if_neg hK]
    rfl

/-- The metadata after some more checkpoints, of which there is at least one. -/
theorem OnItsWay.noteCheckpoints (h : OnItsWay w runtime K job) {n : ℕ} (hn : 0 < n) :
    (job.noteCheckpoints o.exact id n).getD {} = w.noted (K + n) := by
  have hn' : (0 : ℤ) < n := by exact_mod_cast hn
  have hmeta := h.metadata
  rw [SubmittedJob.noteCheckpoints, h.times]
  rw [CheckpointedWork.noted] at hmeta ⊢
  rw [if_neg (by omega : ¬ K + n = 0)]
  by_cases hK : K = 0
  · rw [if_pos hK] at hmeta
    rw [if_neg fun hc => h.hasCheckpointed.1 hc hK, if_pos hn']
    simp [hmeta, hK, ResubmissionOptions.exact]
  · rw [if_neg hK] at hmeta
    rw [if_pos (h.hasCheckpointed.2 hK)]
    cases hm : job.metadata with
    | none =>
      rw [hm] at hmeta
      cases hmeta
    | some m =>
      rw [hm, Option.getD_some] at hmeta
      subst hmeta
      simp only [Option.map_some, Option.getD_some, if_pos hn', ResubmissionOptions.exact, id, Metadata.mk.injEq, Option.some.injEq,
        true_and]
      push_cast
      exact ⟨rfl, by ring⟩

/-- A run that completes no checkpoint leaves the metadata. -/
theorem OnItsWay.noteCheckpoints_none (h : OnItsWay w runtime K job) {n : ℤ} (hn : n ≤ 0) :
    job.noteCheckpoints o.exact id n = job.metadata := by
  have hn' : ¬ 0 < n := not_lt.2 hn
  rw [SubmittedJob.noteCheckpoints]
  by_cases hc : job.hasCheckpointed = true
  · have hK := h.hasCheckpointed.1 hc
    have hmeta := h.metadata
    rw [CheckpointedWork.noted, if_neg hK] at hmeta
    rw [if_pos hc]
    cases hm : job.metadata with
    | none => rfl
    | some m =>
      rw [hm, Option.getD_some] at hmeta
      subst hmeta
      simp [hn', ResubmissionOptions.exact]
  · rw [if_neg hc, if_neg hn']

/-- A job after some checkpoints of a run. -/
theorem OnItsWay.afterDelay (h : OnItsWay w runtime K job) {n : ℤ} :
    OnItsWay w runtime (K + n.toNat) (job.afterDelay o.exact n) ∧ (n.toNat = 0 → job.afterDelay o.exact n = job) := by
  rcases Nat.eq_zero_or_pos n.toNat with hzero | hpos
  · -- no checkpoint: nothing has changed
    have hn : n ≤ 0 := Int.toNat_eq_zero.1 hzero
    have hwalltime : job.reducedWalltime o.exact n job.walltime = job.walltime := if_neg fun hc => absurd hc.1 (not_lt.2 hn)
    have hsame : job.afterDelay o.exact n = job := by
      rw [SubmittedJob.afterDelay, h.noteCheckpoints_none hn, hwalltime, if_neg (not_lt.2 hn)]
    rw [hsame, hzero]
    exact ⟨h, fun _ => rfl⟩
  · obtain ⟨k, rfl⟩ := Int.eq_ofNat_of_zero_le (Int.lt_toNat.1 hpos).le
    rw [Int.toNat_natCast] at hpos ⊢
    have hn : (0 : ℤ) < k := by exact_mod_cast hpos
    refine ⟨⟨h.type, h.times, h.runtime, ?_, h.noteCheckpoints hpos⟩, fun hzero => by omega⟩
    show (if 0 < (k : ℤ) then job.profile.amount - job.savedTime o.exact k + job.times.readTime else _) = _
    rw [if_pos hn, savedTime, h.period, h.times, h.amount, CheckpointedWork.remaining, CheckpointedWork.remaining,
      CheckpointedWork.start, CheckpointedWork.start, if_neg (by omega : ¬ K + k = 0)]
    push_cast
    simp only [ResubmissionOptions.exact, id]
    by_cases hK : K = 0
    · rw [if_neg fun hc => h.hasCheckpointed.1 hc hK, if_pos hK, hK]
      push_cast
      ring
    · rw [if_pos (h.hasCheckpointed.2 hK), if_neg hK]
      ring

theorem OnItsWay.workProgress (h : OnItsWay w runtime K job) : (job.metadata.bind (·.workProgress)).getD 0 = K * w.interval := by
  have hview : job.metadata.bind (·.workProgress) = (job.metadata.getD {}).workProgress := by
    cases job.metadata <;> rfl
  rw [hview, h.metadata, CheckpointedWork.noted]
  split
  · rename_i hK
    simp [hK]
  · rfl

theorem OnItsWay.numDumps (h : OnItsWay w runtime K job) : (job.metadata.bind (·.numDumps)).getD 0 = K := by
  have hview : job.metadata.bind (·.numDumps) = (job.metadata.getD {}).numDumps := by
    cases job.metadata <;> rfl
  rw [hview, h.metadata, CheckpointedWork.noted]
  split
  · rename_i hK
    simp [hK]
  · rfl

/-- A job is as it should be where the time to read is the time it has for it. -/
theorem OnItsWay.conserved_iff (h : OnItsWay w runtime K job) (hK : K ≤ w.dumps) : WorkConserved w K job ↔ w.start K = w.read := by
  have hamount := h.amount
  rw [CheckpointedWork.remaining] at hamount
  constructor
  · intro hconserved
    have hdelay := hconserved.delay
    linarith
  · intro hread
    exact ⟨hread ▸ hamount, h.amount ▸ w.remaining_pos hK, h.workProgress, h.numDumps, hK⟩

/-- One kill, where a record is read that completes no checkpoint. -/
theorem OnItsWay.step (hon : o.checkpointingOn = true) (h : OnItsWay w runtime K job) (hK : K ≤ w.dumps) (hx : 0 ≤ x) (hx' : x < 1)
    (hrecord : 0 < x → ∃ time ∈ runtime, w.CompletesNone K x time) :
    ∃ next, job.handleResubmission o.exact x = .ok next ∧ OnItsWay w runtime (K + w.completedIn K (x * w.remaining K)) next ∧
      (w.completedIn K (x * w.remaining K) = 0 → next = job) := by
  simp only [handleResubmission_delay h.type]
  by_cases hpos : 0 < x
  · obtain ⟨time, htime, hnone⟩ := hrecord hpos
    rw [← (w.completesNone_iff hK hx').1 hnone, ← h.completed (o := o)]
    exact ⟨_, by rw [if_pos ⟨hon, hpos⟩]; exact ⟨time, h.runtime.symm ▸ htime, rfl⟩, h.afterDelay⟩
  · -- killed before anything was done
    obtain rfl : x = 0 := le_antisymm (not_lt.1 hpos) hx
    have hzero : w.completedIn K (0 * w.remaining K) = 0 := by
      have hfloor : ⌊(0 * w.remaining K - w.start K) / (w.interval + w.dump)⌋ ≤ 0 := by
        have hstart := w.start_nonneg K
        refine Int.floor_nonpos (div_nonpos_of_nonpos_of_nonneg (by linarith) w.period_pos.le)
      have heq := w.completedIn_eq hK hx'
      omega
    rw [hzero]
    exact ⟨job, by rw [if_neg fun h => hpos h.2], h, fun _ => rfl⟩

/-- What the metadata say after a kill tells whether the record that was read completes a checkpoint. -/
theorem OnItsWay.record_of_step (hon : o.checkpointingOn = true) (h : OnItsWay w runtime K job) (hK : K ≤ w.dumps) (hx' : x < 1)
    {next : SubmittedJob} (hnext : job.handleResubmission o.exact x = .ok next)
    (hwork : (next.metadata.bind (·.workProgress)).getD 0 = ((K + w.completedIn K (x * w.remaining K) : ℕ) : ℚ) * w.interval)
    (hpos : 0 < x) : ∃ time ∈ runtime, w.CompletesNone K x time := by
  rw [handleResubmission_delay h.type, if_pos (show o.exact.checkpointingOn = true ∧ 0 < x from ⟨hon, hpos⟩)] at hnext
  obtain ⟨time, hread, rfl⟩ := hnext
  refine ⟨time, h.runtime ▸ hread, (w.completesNone_iff hK hx').2 ?_⟩
  rw [h.afterDelay.1.workProgress, h.completed, mul_left_inj' w.interval_pos.ne'] at hwork
  have hsame : K + w.counted K x time = K + w.completedIn K (x * w.remaining K) := by exact_mod_cast hwork
  omega

/-- Any kills, one after the other. -/
theorem OnItsWay.run (hon : o.checkpointingOn = true) (h : OnItsWay w runtime 0 job) (hprogress : ∀ x ∈ progresses, 0 ≤ x ∧ x < 1)
    (hrecord : ReadsRecord w runtime progresses) :
    ∃ last, job.resubmitted o.exact progresses = .ok last ∧ OnItsWay w runtime (w.completedAfter progresses) last := by
  induction progresses using List.reverseRecOn with
  | nil => exact ⟨job, rfl, h⟩
  | append_singleton progresses x ih =>
    obtain ⟨last, hlast, hway⟩ := ih (fun y hy => hprogress y (List.mem_append_left _ hy))
      fun before y hbegins => hrecord before y (hbegins.trans (List.prefix_append _ _))
    obtain ⟨hx, hx'⟩ := hprogress x (List.mem_append_right _ List.mem_cons_self)
    obtain ⟨next, hnext, hafter, -⟩ :=
      hway.step hon (w.completedAfter_le _) hx hx' (hrecord progresses x List.prefix_rfl)
    rw [resubmitted_append hlast, w.completedAfter_append]
    exact ⟨next, hnext, hafter⟩

/-- The records that are read complete no checkpoint where the metadata are right after every kill. -/
theorem OnItsWay.readsRecord (hon : o.checkpointingOn = true) (h : OnItsWay w runtime 0 job)
    (hprogress : ∀ x ∈ progresses, 0 ≤ x ∧ x < 1) (hconserves : ConservesWork o.exact w job progresses) :
    ReadsRecord w runtime progresses := by
  induction progresses using List.reverseRecOn with
  | nil =>
    intro before x hbegins
    simp at hbegins
  | append_singleton progresses y ih =>
    have hbefore : ReadsRecord w runtime progresses := ih (fun z hz => hprogress z (List.mem_append_left _ hz))
      fun before z hbegins => hconserves before z (hbegins.trans (List.prefix_append _ _))
    obtain ⟨last, hlast, hway⟩ := h.run hon (fun z hz => hprogress z (List.mem_append_left _ hz)) hbefore
    intro before x hbegins hpos
    rcases List.prefix_concat_iff.1 hbegins with heq | hbegins
    · obtain ⟨rfl, hx⟩ := List.append_inj' heq rfl
      obtain rfl : x = y := by simpa using hx
      obtain ⟨last', next, hlast', hnext, hwork, -⟩ := hconserves before x List.prefix_rfl
      obtain rfl : last = last' := Except.ok.inj (hlast ▸ hlast')
      have hprogressWork := hwork.workProgress
      rw [w.completedAfter_append] at hprogressWork
      exact hway.record_of_step hon (w.completedAfter_le _) (hprogress x (List.mem_append_right _ List.mem_cons_self)).2 hnext
        hprogressWork hpos
    · exact hbefore before x hbegins hpos

/-- A job as it is read: its delay has been extended by the dumps. -/
theorem onItsWay_loaded {l : LoadOptions} {d : JobDescription} {p : Profile} {t : CheckpointTimes} (walltime runtime : Option ℚ)
    (hl : l.checkpointingOn = true) (hd : d.isResubmission = false) (htype : p.description.type = .delay)
    (horiginal : p.originalAmount = -1) (hwork : w.work = (p.scale l.exact).amount)
    (ht : t = { checkpointInterval := w.interval, dumpTime := w.dump, readTime := w.read }) :
    OnItsWay w runtime 0 (ofLoaded o.exact (p.editDelay l.exact d t) t walltime runtime) := by
  have hscale : (p.scale l.exact).originalAmount = -1 ∧ (p.scale l.exact).description.type = .delay := by
    rw [Profile.scale]
    split
    · exact ⟨horiginal, htype⟩
    · exact ⟨horiginal, htype⟩
  have hedit : p.editDelay l.exact d t = (p.scale l.exact).addDumps l.exact .delay t := by
    rw [Profile.editDelay, Profile.edit, if_neg (by simp [hd])]
    exact if_pos hl
  have hadd : ((p.scale l.exact).addDumps l.exact .delay t).description = { (p.scale l.exact).description with
      amount := withDumps l.exact t (p.scale l.exact).amount ((p.scale l.exact).amount / t.checkpointInterval)
      original := (p.scale l.exact).description.original <|> some (p.scale l.exact).amount } := by
    rw [Profile.addDumps, if_pos hscale.1]
    rfl
  rw [hedit]
  refine ⟨?_, ht ▸ rfl, rfl, ?_, ?_⟩
  · rw [ofLoaded, hadd]
    exact hscale.2
  · have hdumps := w.nbCheckpoints_eq
    rw [ofLoaded, hadd]
    show withDumps l.exact t (p.scale l.exact).amount ((p.scale l.exact).amount / t.checkpointInterval) = _
    rw [← hwork, withDumps, ht, CheckpointedWork.remaining, CheckpointedWork.start, if_pos rfl]
    dsimp only
    split
    · rename_i hfloor
      rw [if_pos hfloor] at hdumps
      rw [hdumps]
      show ((w.dumps : ℤ) : ℚ) * w.dump + w.work = _
      push_cast
      ring
    · rename_i hfloor
      rw [if_neg hfloor] at hdumps
      have hzero : w.dumps = 0 := by omega
      rw [hzero]
      push_cast
      ring
  · rw [CheckpointedWork.noted, if_pos rfl]
    rfl

end ResubmissionAux

namespace ResubmissionWitness

/-- Ten seconds of work with a checkpoint every three, which takes a second to write and two to read. -/
def work : CheckpointedWork where
  work := 10
  interval := 3
  dump := 1
  read := 2
  work_pos := by norm_num
  interval_pos := by norm_num
  dump_nonneg := by norm_num
  read_nonneg := by norm_num

/-- The profile in the file. -/
def profile : Profile := Profile.ofDescription { type := .delay, amount := 10 }

/-- The times of the job. -/
def times : CheckpointTimes := { checkpointInterval := 3, dumpTime := 1, readTime := 2 }

/-- Checkpointing is on. -/
def loadOptions : LoadOptions := { checkpointingOn := true }

/-- The job in the file. -/
def description : JobDescription :=
  { id := "w!1", profile := "p", checkpointInterval := some 3, dumptime := some 1, readtime := some 2 }

end ResubmissionWitness

end ScheduleTest
