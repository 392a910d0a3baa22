import ScheduleTest.TaskExecution
import ScheduleTest.Lib.Double
import Mathlib.Tactic

/-!
# The walltime of a job that executes delays

Without a walltime, a profile of delays sleeps for some delays and ends with some return code (`Outcome`). With a walltime it
sleeps for the same delays, up to the one that does not fit into what remains (`Outcome.within`). This holds of one delay, and is
kept when tasks are executed one after the other, however what remains is rounded. Where nothing is rounded, the walltime is what
is spent if the delays take as long (`within_of_exact`).
-/

namespace ScheduleTest

namespace TaskExecution

/-- What something sleeps for when nothing stops it, one delay after the other, and what it returns. -/
structure Outcome where
  delays : List ℚ
  code : ℤ
  deriving DecidableEq

/-- Some delays one after the other, up to the one that reaches the walltime. -/
def sleepAll (round : ℚ → ℚ) : List ℚ → ExecutionClock → ℤ × ExecutionClock
  | [], clock => (0, clock)
  | delay :: delays, clock =>
    let result := doDelayTask round delay clock
    if result.1 = -1 then result else sleepAll round delays result.2

/-- The walltime less some of the first delays is a double, as long as any of it remains. -/
def ExactWithin (round : ℚ → ℚ) (walltime : ℚ) (delays : List ℚ) : Prop :=
  ∀ first, first <+: delays → first.sum < walltime → round (walltime - first.sum) = walltime - first.sum

section

variable {round : ℚ → ℚ} {delays : List ℚ} {clock : ExecutionClock}

theorem doDelayTask_code (round : ℚ → ℚ) (delay : ℚ) (clock : ExecutionClock) :
    (doDelayTask round delay clock).1 = 0 ∨ (doDelayTask round delay clock).1 = -1 := by
  unfold doDelayTask
  split
  · exact .inl rfl
  · exact .inr rfl

/-- Delays are slept one part after the other. -/
theorem sleepAll_append (delays delays' : List ℚ) (clock : ExecutionClock) :
    sleepAll round (delays ++ delays') clock =
      if (sleepAll round delays clock).1 = -1 then sleepAll round delays clock
      else sleepAll round delays' (sleepAll round delays clock).2 := by
  induction delays generalizing clock with
  | nil => simp [sleepAll]
  | cons delay delays ih =>
    rw [List.cons_append, sleepAll, sleepAll]
    by_cases hover : (doDelayTask round delay clock).1 = -1
    · simp [hover]
    · simp [hover, ih]

theorem ExactWithin.tail {walltime delay : ℚ} (h : ExactWithin round walltime (delay :: delays)) :
    ExactWithin round (walltime - delay) delays := by
  intro first hfirst hsum
  have hrest := h (delay :: first) ((List.prefix_cons_inj delay).2 hfirst)
  rw [List.sum_cons, ← sub_sub] at hrest
  exact hrest (by linarith)

/-- Where nothing is rounded, the walltime is reached if the delays take as long. -/
theorem sleepAll_of_exact (hnonneg : ∀ delay ∈ delays, 0 ≤ delay) (hclock : 0 < clock.remainingTime)
    (hexact : ExactWithin round clock.remainingTime delays) :
    sleepAll round delays clock =
      if clock.remainingTime ≤ delays.sum then (-1, { slept := clock.slept + clock.remainingTime, remainingTime := 0 })
      else (0, { slept := clock.slept + delays.sum, remainingTime := clock.remainingTime - delays.sum }) := by
  induction delays generalizing clock with
  | nil => simp [sleepAll, not_le.2 hclock]
  | cons delay delays ih =>
    have hwalltime : ¬clock.remainingTime < 0 := not_lt.2 hclock.le
    have hnonneg' : ∀ delay ∈ delays, 0 ≤ delay := fun delay hdelay => hnonneg delay (List.mem_cons_of_mem _ hdelay)
    rw [sleepAll, List.sum_cons]
    by_cases hover : clock.remainingTime ≤ delay
    · have htotal : clock.remainingTime ≤ delay + delays.sum :=
        hover.trans (le_add_of_nonneg_right (List.sum_nonneg hnonneg'))
      simp [doDelayTask, hwalltime, not_lt.2 hover, htotal]
    · -- the delay is slept whole, and what remains is not rounded
      have hfits : delay < clock.remainingTime := not_le.1 hover
      have hround : round (clock.remainingTime - delay) = clock.remainingTime - delay := by
        have hfirst := hexact [delay] (List.prefix_append [delay] delays)
        rw [List.sum_singleton] at hfirst
        exact hfirst hfits
      have htask : doDelayTask round delay clock =
          (0, { slept := clock.slept + delay, remainingTime := clock.remainingTime - delay }) := by
        simp [doDelayTask, hfits, hclock, hround]
      rw [htask, if_neg (by simp), ih hnonneg' (sub_pos.2 hfits) hexact.tail]
      simp only [sub_le_iff_le_add', add_assoc, sub_sub, add_sub_cancel]

end

namespace Outcome

/-- How long it takes when nothing stops it. -/
def time (o : Outcome) : ℚ := o.delays.sum

/-- One thing, and then another one if the first returns 0. -/
def andThen (o o' : Outcome) : Outcome := if o.code ≠ 0 then o else ⟨o.delays ++ o'.delays, o'.code⟩

/-- Things one after the other, up to the first that does not return 0. -/
def all (l : List Outcome) : Outcome := l.foldr andThen ⟨[], 0⟩

/-- The same, where what has been reached in the end returns something else than 0. -/
def returning (o : Outcome) (code : ℤ) : Outcome := if o.code ≠ 0 then o else ⟨o.delays, code⟩

/-- What it returns, and the clock after it, if it is stopped when the walltime is reached. -/
def within (round : ℚ → ℚ) (o : Outcome) (clock : ExecutionClock) : ℤ × ExecutionClock :=
  let result := sleepAll round o.delays clock
  if result.1 = -1 then result else (o.code, result.2)

variable {round : ℚ → ℚ} {o o' : Outcome} {clock : ExecutionClock}

/-- The delays of an outcome are not negative. -/
def Nonneg (o : Outcome) : Prop := ∀ delay ∈ o.delays, 0 ≤ delay

theorem andThen_nonneg (h : o.Nonneg) (h' : o'.Nonneg) : (o.andThen o').Nonneg := by
  unfold andThen
  split
  · exact h
  · intro delay hdelay
    rcases List.mem_append.1 hdelay with hdelay | hdelay
    · exact h delay hdelay
    · exact h' delay hdelay

theorem all_nonneg {l : List Outcome} (h : ∀ o ∈ l, o.Nonneg) : (all l).Nonneg := by
  induction l with
  | nil => exact fun delay hdelay => absurd hdelay List.not_mem_nil
  | cons o l ih => exact andThen_nonneg (h o List.mem_cons_self) (ih fun o ho => h o (List.mem_cons_of_mem _ ho))

/-- The walltime is reached by two things if it is by the first, or else by the second in what remains. -/
theorem within_andThen :
    (if (o.within round clock).1 ≠ 0 then o.within round clock else o'.within round (o.within round clock).2) =
      (o.andThen o').within round clock := by
  unfold within
  dsimp only
  by_cases hover : (sleepAll round o.delays clock).1 = -1
  · rw [if_pos hover, if_pos (by rw [hover]; exact neg_ne_zero.2 one_ne_zero)]
    by_cases hcode : o.code = 0
    · rw [andThen, if_neg (not_not.2 hcode), sleepAll_append, if_pos hover, if_pos hover]
    · rw [andThen, if_pos hcode, if_pos hover]
  · rw [if_neg hover]
    by_cases hcode : o.code = 0
    · rw [if_neg (not_not.2 hcode), andThen, if_neg (not_not.2 hcode), sleepAll_append, if_neg hover]
    · rw [if_pos hcode, andThen, if_pos hcode, if_neg hover]

theorem within_returning (code : ℤ) :
    (if (o.within round clock).1 ≠ 0 then o.within round clock else (code, (o.within round clock).2)) =
      (o.returning code).within round clock := by
  unfold within returning
  by_cases hover : (sleepAll round o.delays clock).1 = -1
  · by_cases hcode : o.code = 0 <;> simp [hover, hcode]
  · by_cases hcode : o.code = 0 <;> simp [hover, hcode]

/-- Where nothing is rounded, the walltime is what is spent if the delays take as long. -/
theorem within_of_exact (hnonneg : o.Nonneg) (hclock : 0 < clock.remainingTime)
    (hexact : ExactWithin round clock.remainingTime o.delays) :
    o.within round clock =
      if clock.remainingTime ≤ o.time then (-1, { slept := clock.slept + clock.remainingTime, remainingTime := 0 })
      else (o.code, { slept := clock.slept + o.time, remainingTime := clock.remainingTime - o.time }) := by
  unfold within time
  rw [sleepAll_of_exact hnonneg hclock hexact]
  by_cases hover : clock.remainingTime ≤ o.delays.sum
  · simp [hover]
  · simp [hover]

/-- What does not return anything else than 0 takes the sum of the times. -/
theorem all_of_code_zero {l : List Outcome} (h : ∀ o ∈ l, o.code = 0) :
    (all l).time = (l.map time).sum ∧ (all l).code = 0 := by
  induction l with
  | nil => exact ⟨rfl, rfl⟩
  | cons o l ih =>
    have htail := ih fun o ho => h o (List.mem_cons_of_mem _ ho)
    have hall : all (o :: l) = ⟨o.delays ++ (all l).delays, (all l).code⟩ := if_neg (not_not.2 (h o List.mem_cons_self))
    rw [hall]
    refine ⟨?_, htail.2⟩
    rw [List.map_cons, List.sum_cons, ← htail.1]
    exact List.sum_append

end Outcome

/-! ## What a profile of delays does -/

/-- A profile that is built by nesting and repeating sequences of delays. The tasks of a sequence are counted by an
`unsigned int`. -/
inductive OfDelays : TaskProfile → Prop
  | delay {name : String} {delay : ℚ} (hdelay : 0 ≤ delay) : OfDelays (.delay name delay)
  | sequence {name : String} {repeats : ℕ} {sequence : List TaskProfile} (hcount : repeats * sequence.length ≤ UInt32.size)
      (h : ∀ profile ∈ sequence, OfDelays profile) : OfDelays (.sequence name repeats sequence)

mutual

/-- The names of the profiles in a profile. -/
def namesIn : TaskProfile → List String
  | .sequence name _ sequence => name :: namesInAll sequence
  | profile => [profile.name]

def namesInAll : List TaskProfile → List String
  | [] => []
  | profile :: profiles => namesIn profile ++ namesInAll profiles

end

mutual

/-- The sum of all delays with their repetitions. -/
def totalDelay : TaskProfile → ℚ
  | .delay _ delay => delay
  | .sequence _ repeats sequence => repeats * totalDelays sequence
  | _ => 0

def totalDelays : List TaskProfile → ℚ
  | [] => 0
  | profile :: profiles => totalDelay profile + totalDelays profiles

end

section

variable (returnCode : String → ℤ)

mutual

/-- What a profile of delays does without a walltime. -/
def outcome : TaskProfile → Outcome
  | .delay name delay => ⟨[delay], returnCode name⟩
  | .sequence name repeats sequence => (Outcome.all (List.replicate repeats (outcomes sequence)).flatten).returning (returnCode name)
  | _ => ⟨[], 0⟩

def outcomes : List TaskProfile → List Outcome
  | [] => []
  | profile :: profiles => outcome profile :: outcomes profiles

end

theorem outcomes_eq_map (profiles : List TaskProfile) : outcomes returnCode profiles = profiles.map (outcome returnCode) := by
  induction profiles with
  | nil => rw [outcomes, List.map_nil]
  | cons profile profiles ih => rw [outcomes, ih, List.map_cons]

theorem totalDelays_eq_sum (profiles : List TaskProfile) : totalDelays profiles = (profiles.map totalDelay).sum := by
  induction profiles with
  | nil => rw [totalDelays, List.map_nil, List.sum_nil]
  | cons profile profiles ih => rw [totalDelays, ih, List.map_cons, List.sum_cons]

theorem mem_namesInAll {profiles : List TaskProfile} {name : String} :
    name ∈ namesInAll profiles ↔ ∃ profile ∈ profiles, name ∈ namesIn profile := by
  induction profiles with
  | nil => simp [namesInAll]
  | cons profile profiles ih => simp [namesInAll, ih]

variable {returnCode} {profile : TaskProfile}

/-- What is in the repetitions of a sequence is in the sequence. -/
theorem mem_repeated {α : Type*} {repeats : ℕ} {l : List α} {x : α} (h : x ∈ (List.replicate repeats l).flatten) : x ∈ l := by
  obtain ⟨l', hl', hx⟩ := List.mem_flatten.1 h
  rwa [List.eq_of_mem_replicate hl'] at hx

theorem outcome_nonneg (h : OfDelays profile) : (outcome returnCode profile).Nonneg := by
  induction h with
  | delay hdelay =>
    rw [outcome]
    intro delay hmem
    rwa [List.mem_singleton.1 hmem]
  | @sequence name repeats sequence hcount h ih =>
    have hall : ∀ o ∈ (List.replicate repeats (outcomes returnCode sequence)).flatten, o.Nonneg := by
      intro o ho
      rw [outcomes_eq_map] at ho
      obtain ⟨profile, hprofile, rfl⟩ := List.mem_map.1 (mem_repeated ho)
      exact ih profile hprofile
    have hdelays := Outcome.all_nonneg hall
    rw [outcome, Outcome.returning]
    split <;> exact hdelays

/-- Without return codes, a profile takes the sum of its delays. -/
theorem outcome_of_code_zero (h : OfDelays profile) (hcodes : ∀ name ∈ namesIn profile, returnCode name = 0) :
    (outcome returnCode profile).time = totalDelay profile ∧ (outcome returnCode profile).code = 0 := by
  induction h with
  | @delay name delay hdelay =>
    have hcode : returnCode name = 0 := hcodes name (by simp [namesIn, TaskProfile.name])
    rw [outcome, totalDelay, hcode]
    exact ⟨List.sum_singleton, rfl⟩
  | @sequence name repeats sequence hcount h ih =>
    rw [namesIn] at hcodes
    have hcode : returnCode name = 0 := hcodes name List.mem_cons_self
    have hparts : ∀ profile ∈ sequence,
        (outcome returnCode profile).time = totalDelay profile ∧ (outcome returnCode profile).code = 0 :=
      fun profile hprofile => ih profile hprofile fun name hname =>
        hcodes name (List.mem_cons_of_mem _ (mem_namesInAll.2 ⟨profile, hprofile, hname⟩))
    have hzero : ∀ o ∈ (List.replicate repeats (outcomes returnCode sequence)).flatten, o.code = 0 := by
      intro o ho
      rw [outcomes_eq_map] at ho
      obtain ⟨profile, hprofile, rfl⟩ := List.mem_map.1 (mem_repeated ho)
      exact (hparts profile hprofile).2
    have htimes : (outcomes returnCode sequence).map Outcome.time = sequence.map totalDelay := by
      rw [outcomes_eq_map, List.map_map]
      exact List.map_congr_left fun profile hprofile => (hparts profile hprofile).1
    have hsum : ((List.replicate repeats (outcomes returnCode sequence)).flatten.map Outcome.time).sum =
        repeats * totalDelays sequence := by
      rw [List.map_flatten, List.map_replicate, htimes, List.sum_flatten, List.map_replicate, List.sum_replicate, nsmul_eq_mul,
        totalDelays_eq_sum]
    obtain ⟨htime, hall⟩ := Outcome.all_of_code_zero hzero
    rw [outcome, totalDelay, Outcome.returning, if_neg (not_not.2 hall), ← hsum, ← htime]
    exact ⟨rfl, hcode⟩

end

/-! ## The loops over a sequence -/

/-- The two loops take the tasks in their order. -/
theorem taskIndices_eq_range (repeats size : ℕ) : taskIndices repeats size = List.range (repeats * size) := by
  induction repeats with
  | zero => simp [taskIndices]
  | succ repeats ih =>
    have hsplit : taskIndices (repeats + 1) size = taskIndices repeats size ++ (List.range size).map (repeats * size + ·) := by
      simp [taskIndices, List.range_succ, List.flatMap_append]
    rw [hsplit, ih, Nat.succ_mul, List.range_add]

/-- A task that does what an outcome says within the walltime. -/
def Performs (round : ℚ → ℚ) (run : TaskRun) (o : Outcome) : Prop := ∀ clock : ExecutionClock, run clock = some (o.within round clock)

/-- The tasks from some index on, one after the other. -/
theorem runSubTasks_range {round : ℚ → ℚ} {runs : List TaskRun} {outcomes : List Outcome}
    (hruns : List.Forall₂ (Performs round) runs outcomes) (done : List TaskRun)
    (hcount : done.length + runs.length ≤ UInt32.size) (clock : ExecutionClock) :
    runSubTasks (done ++ runs) (List.range' done.length runs.length) clock = some ((Outcome.all outcomes).within round clock) := by
  induction hruns generalizing done clock with
  | nil => simp [runSubTasks, Outcome.all, Outcome.within, sleepAll]
  | @cons run o runs outcomes hrun htail ih =>
    rw [List.length_cons] at hcount
    have hindex : done.length % UInt32.size = done.length := Nat.mod_eq_of_lt (by omega)
    rw [List.length_cons, List.range'_succ, runSubTasks, hindex, List.getElem?_append_right (Nat.le_refl _), Nat.sub_self,
      List.getElem?_cons_zero]
    change ((run clock).bind fun result => _) = some ((o.andThen (Outcome.all outcomes)).within round clock)
    rw [hrun clock, Option.bind_some, ← Outcome.within_andThen]
    split
    · rfl
    · have hrest := ih (done ++ [run]) (by rw [List.length_append, List.length_singleton]; omega) (o.within round clock).2
      rwa [List.append_assoc, List.singleton_append, List.length_append, List.length_singleton] at hrest

theorem forall₂_repeated {α β : Type*} {R : α → β → Prop} {l : List α} {l' : List β} (h : List.Forall₂ R l l') (repeats : ℕ) :
    List.Forall₂ R (List.replicate repeats l).flatten (List.replicate repeats l').flatten := by
  induction repeats with
  | zero => exact .nil
  | succ repeats ih =>
    rw [List.replicate_succ, List.replicate_succ, List.flatten_cons, List.flatten_cons]
    exact List.rel_append h ih

section

variable (round : ℚ → ℚ) (executeOther : TaskProfile → TaskRun) (returnCode : String → ℤ)

theorem executeAll_eq_map (tasks : List BatTask) :
    executeAll round executeOther returnCode tasks = tasks.map (executeTask round executeOther returnCode) := by
  induction tasks with
  | nil => rw [executeAll, List.map_nil]
  | cons task tasks ih => rw [executeAll, ih, List.map_cons]

theorem initializeAll_eq_map (profiles : List TaskProfile) :
    initializeAll profiles = profiles.map initializeSequentialTasks := by
  induction profiles with
  | nil => rw [initializeAll, List.map_nil]
  | cons profile profiles ih => rw [initializeAll, ih, List.map_cons]

/-- A profile of delays is executed within the walltime. -/
theorem performs_executeTask {profile : TaskProfile} (h : OfDelays profile) :
    Performs round (executeTask round executeOther returnCode (initializeSequentialTasks profile)) (outcome returnCode profile) := by
  induction h with
  | @delay name delay hdelay =>
    intro clock
    have htask : initializeSequentialTasks (.delay name delay) = { profile := .delay name delay } := by
      rw [initializeSequentialTasks]
      intro _ _ _ h
      cases h
    rw [htask, executeTask, outcome]
    unfold Outcome.within sleepAll
    rcases doDelayTask_code round delay clock with hcode | hcode <;> simp [sleepAll, hcode]
  | @sequence name repeats sequence hcount h ih =>
    intro clock
    have hperforms : List.Forall₂ (Performs round)
        (sequence.map fun profile => executeTask round executeOther returnCode (initializeSequentialTasks profile))
        (outcomes returnCode sequence) := by
      rw [outcomes_eq_map, List.forall₂_map_left_iff, List.forall₂_map_right_iff]
      exact List.forall₂_same.2 fun profile hprofile => ih profile hprofile
    have hrepeated := forall₂_repeated hperforms repeats
    have hlength : (List.replicate repeats (sequence.map fun profile => executeTask round executeOther returnCode
        (initializeSequentialTasks profile))).flatten.length = repeats * sequence.length := by
      simp
    have hrun := runSubTasks_range hrepeated [] (by rw [List.length_nil, hlength]; omega) clock
    have hruns : executeAll round executeOther returnCode (List.replicate repeats (initializeAll sequence)).flatten =
        (List.replicate repeats (sequence.map fun profile => executeTask round executeOther returnCode
          (initializeSequentialTasks profile))).flatten := by
      rw [executeAll_eq_map, initializeAll_eq_map, List.map_flatten, List.map_replicate, List.map_map]
      rfl
    rw [List.nil_append, List.length_nil, hlength, ← List.range_eq_range', ← taskIndices_eq_range] at hrun
    rw [initializeSequentialTasks, executeTask, hruns]
    dsimp only
    rw [hrun, Option.map_some, outcome, Outcome.within_returning]

end

/-! ## The walltime -/

/-- A job that executes delays sleeps for one after the other, what remains of the walltime being rounded after each, up to the one
that does not fit or to the first profile with a return code. Where the walltime less the first delays is always a double, it
spends the walltime and overruns it, or else the time of its outcome. Where no profile has a return code that is the sum of the
delays. -/
theorem execution_respects_walltime (round : ℚ → ℚ) (executeOther : TaskProfile → TaskRun) (returnCode : String → ℤ)
    (profile : TaskProfile) (hdelays : OfDelays profile) (walltime : ℚ) (hwalltime : 0 < walltime) :
    executeJob round executeOther returnCode profile walltime =
      some ((outcome returnCode profile).within round { slept := 0, remainingTime := walltime }) ∧
    (ExactWithin round walltime (outcome returnCode profile).delays →
      executeJob round executeOther returnCode profile walltime = some
        (if walltime ≤ (outcome returnCode profile).time then (-1, { slept := walltime, remainingTime := 0 })
        else ((outcome returnCode profile).code, {
          slept := (outcome returnCode profile).time
          remainingTime := walltime - (outcome returnCode profile).time }))) ∧
    ((∀ name ∈ namesIn profile, returnCode name = 0) →
      (outcome returnCode profile).time = totalDelay profile ∧ (outcome returnCode profile).code = 0) := by
  have hrun : executeJob round executeOther returnCode profile walltime = _ :=
    performs_executeTask round executeOther returnCode hdelays { slept := 0, remainingTime := walltime }
  refine ⟨hrun, fun hexact => ?_, outcome_of_code_zero hdelays⟩
  rw [hrun, Outcome.within_of_exact (outcome_nonneg hdelays) hwalltime hexact, zero_add, zero_add]

/-- Two delays that are repeated: the walltime is reached at the very end. -/
theorem execution_respects_walltime_witness :
    executeJob id (fun _ _ => none) (fun _ => 0) (.sequence "s" 2 [.delay "a" 1, .delay "b" 2]) 6 = some (-1, ⟨6, 0⟩) := by
  have h := execution_respects_walltime id (fun _ _ => none) (fun _ => 0) (.sequence "s" 2 [.delay "a" 1, .delay "b" 2])
    (.sequence (by decide) fun profile hprofile => by
      rcases List.mem_pair.1 hprofile with rfl | rfl
      · exact .delay (by norm_num)
      · exact .delay (by norm_num)) 6 (by norm_num)
  rw [h.2.1 fun _ _ _ => rfl, (h.2.2 fun _ _ => rfl).1]
  norm_num [totalDelay, totalDelays]

/-- The first of two delays has a return code, and the second is not executed. Five delays of 0.3 s, which is less than 0.3 as a
double, take less than 1.5 s; what remains of a walltime of 1.5 s is rounded down, and the last one is cut. -/
theorem execution_respects_walltime_false :
    (¬∀ (returnCode : String → ℤ) (profile : TaskProfile), OfDelays profile → ∀ walltime : ℚ, 0 < walltime →
      ∃ code clock, executeJob Double.nearest (fun _ _ => none) returnCode profile walltime = some (code, clock) ∧
        clock.slept = min walltime (totalDelay profile)) ∧
    ¬∀ profile : TaskProfile, OfDelays profile → ∀ walltime : ℚ, 0 < walltime →
      ∃ code clock, executeJob Double.nearest (fun _ _ => none) (fun _ => 0) profile walltime = some (code, clock) ∧
        (code = -1 ↔ walltime ≤ totalDelay profile) := by
  constructor
  · intro h
    obtain ⟨code, clock, hrun, hspent⟩ := h (fun name => if name = "a" then 1 else 0)
      (.sequence "s" 1 [.delay "a" 1, .delay "b" 2])
      (.sequence (by decide) fun profile hprofile => by
        rcases List.mem_pair.1 hprofile with rfl | rfl
        · exact .delay (by norm_num)
        · exact .delay (by norm_num)) 10 (by norm_num)
    have hcode : executeJob Double.nearest (fun _ _ => none) (fun name => if name = "a" then 1 else 0)
        (.sequence "s" 1 [.delay "a" 1, .delay "b" 2]) 10 = some (1, ⟨1, 9⟩) := by
      decide +kernel
    rw [hcode] at hrun
    obtain ⟨rfl, rfl⟩ := Prod.ext_iff.1 (Option.some.inj hrun)
    norm_num [totalDelay, totalDelays] at hspent
  · intro h
    obtain ⟨code, clock, hrun, hover⟩ := h (.sequence "s" 5 [.delay "a" (Double.nearest (3 / 10))])
      (.sequence (by decide) fun profile hprofile => by
        rw [List.mem_singleton.1 hprofile]
        exact .delay (by decide +kernel)) (3 / 2) (by norm_num)
    have hcode : (executeJob Double.nearest (fun _ _ => none) (fun _ => 0)
        (.sequence "s" 5 [.delay "a" (Double.nearest (3 / 10))]) (3 / 2)).map Prod.fst = some (-1) := by
      decide +kernel
    have htotal : totalDelay (.sequence "s" 5 [.delay "a" (Double.nearest (3 / 10))]) < 3 / 2 := by decide +kernel
    rw [hrun] at hcode
    exact absurd (hover.1 (Option.some.inj hcode)) (not_le.2 htotal)

end TaskExecution

end ScheduleTest
