import ScheduleTest.Platform

/-!
# All jobs can be executed to the end

A scheduler that neither aborts nor forgets a job, and lets no job wait when nothing runs, can always be brought to the end of its
jobs: the ends of all jobs that run are reported, it decides, and so on, and each time fewer jobs are left.
-/

namespace ScheduleTest

open Execution

variable {σ ε α : Type}

/-- What a scheduler needs for this, with an invariant of its runs and what holds when it has just decided. Of the jobs that can be
executed, `left` counts those that have not been. -/
structure Drains (run : σ × Platform → ε → Except α (σ × Platform)) (I Quiet : σ × Platform → Prop) (left : σ → ℕ)
    (completed : String → ε) (decided : ℚ → ε) : Prop where
  complete : ∀ s p job rest, I (s, p) → p.running = job :: rest → ∃ s',
    run (s, p) (completed job.id) = .ok (s', { p with running := rest, reported := p.reported ++ [job] }) ∧
      I (s', { p with running := rest, reported := p.reported ++ [job] }) ∧ left s' = left s
  decide : ∀ t, I t → ∃ t', run t (decided t.2.now) = .ok t' ∧ I t' ∧ Quiet t' ∧ t'.2.submitted = t.2.submitted ∧
    left t'.1 + t'.2.running.length = left t.1 + t.2.running.length
  stranded : ∀ t, I t → Quiet t → t.2.running = [] → left t.1 = 0

namespace Drains

variable {run : σ × Platform → ε → Except α (σ × Platform)} {I Quiet : σ × Platform → Prop} {left : σ → ℕ}
  {completed : String → ε} {decided : ℚ → ε} {s : σ} {p : Platform} {t : σ × Platform}

/-- The ends of all jobs that run are reported. -/
theorem report_all (h : Drains run I Quiet left completed decided) (ht : I (s, p)) :
    ∃ s', runFrom run (s, p) (p.running.map fun job => completed job.id) =
        .ok (s', { p with running := [], reported := p.reported ++ p.running }) ∧
      I (s', { p with running := [], reported := p.reported ++ p.running }) ∧ left s' = left s := by
  obtain ⟨now, submitted, running, reported, ended, executed, rejected, killed⟩ := p
  induction running generalizing s reported with
  | nil =>
    dsimp only [List.map_nil]
    rw [List.append_nil]
    exact ⟨s, rfl, ht, rfl⟩
  | cons job running ih =>
    obtain ⟨s₁, hfirst, hkept, hleft⟩ := h.complete s _ job running ht rfl
    obtain ⟨s', hs', hkept', hleft'⟩ := ih (reported ++ [job]) hkept
    simp only [List.append_assoc, List.singleton_append] at hs' hkept'
    refine ⟨s', ?_, hkept', hleft'.trans hleft⟩
    rw [List.map_cons, runFrom_cons_ok hfirst]
    exact hs'

/-- What leads to the end: only ends are reported, and decisions made. -/
def NoSubmission (completed : String → ε) (decided : ℚ → ε) (event : ε) : Prop :=
  (∃ id, event = completed id) ∨ ∃ date, event = decided date

/-- When the jobs that run have ended, fewer jobs are left. -/
theorem exists_fewer (h : Drains run I Quiet left completed decided) (ht : I t) (hquiet : Quiet t)
    (hleft : left t.1 + t.2.running.length ≠ 0) :
    ∃ events t', runFrom run t events = .ok t' ∧ (∀ event ∈ events, NoSubmission completed decided event) ∧
      (I t' ∧ Quiet t' ∧ t'.2.submitted = t.2.submitted) ∧
      left t'.1 + t'.2.running.length < left t.1 + t.2.running.length := by
  obtain ⟨s, p⟩ := t
  have hsome : p.running ≠ [] := fun hnone => hleft (by simp [hnone, h.stranded _ ht hquiet hnone])
  obtain ⟨s₁, hs₁, hkept₁, hleft₁⟩ := h.report_all ht
  obtain ⟨t₂, ht₂, hkept₂, hquiet₂, hsubmitted, hcount⟩ := h.decide _ hkept₁
  have hrun : runFrom run (s, p) ((p.running.map fun job => completed job.id) ++ [decided p.now]) = .ok t₂ := by
    rw [runFrom_append hs₁, runFrom_cons_ok ht₂]
    rfl
  refine ⟨_, t₂, hrun, ?_, ⟨hkept₂, hquiet₂, hsubmitted⟩, ?_⟩
  · intro event hevent
    rcases List.mem_append.1 hevent with hevent | hevent
    · obtain ⟨job, -, rfl⟩ := List.mem_map.1 hevent
      exact .inl ⟨job.id, rfl⟩
    · exact .inr ⟨p.now, List.mem_singleton.1 hevent⟩
  · have hpos := List.length_pos_iff.2 hsome
    dsimp only at hcount ⊢
    rw [hleft₁, List.length_nil] at hcount
    omega

/-- From every state of the invariant a run of such events leads to the end of all jobs. -/
theorem exists_drained (h : Drains run I Quiet left completed decided) (ht : I t) :
    ∃ events t', runFrom run t events = .ok t' ∧ (∀ event ∈ events, NoSubmission completed decided event) ∧ I t' ∧ Quiet t' ∧
      t'.2.submitted = t.2.submitted ∧ t'.2.running = [] ∧ left t'.1 = 0 := by
  obtain ⟨t₁, ht₁, hkept, hquiet, hsubmitted, -⟩ := h.decide t ht
  have hstep : ∀ t₂, (I t₂ ∧ Quiet t₂ ∧ t₂.2.submitted = t₁.2.submitted) → left t₂.1 + t₂.2.running.length ≠ 0 →
      ∃ events t₃, runFrom run t₂ events = .ok t₃ ∧ (∀ event ∈ events, NoSubmission completed decided event) ∧
        (I t₃ ∧ Quiet t₃ ∧ t₃.2.submitted = t₁.2.submitted) ∧
        left t₃.1 + t₃.2.running.length < left t₂.1 + t₂.2.running.length := by
    rintro t₂ ⟨hkept₂, hquiet₂, hsame⟩ hleft
    obtain ⟨events, t₃, ht₃, hkind, ⟨hkept₃, hquiet₃, hsame₃⟩, hfewer⟩ := h.exists_fewer hkept₂ hquiet₂ hleft
    exact ⟨events, t₃, ht₃, hkind, ⟨hkept₃, hquiet₃, hsame₃.trans hsame⟩, hfewer⟩
  obtain ⟨events, t', ht', hkind, ⟨hkept', hquiet', hsame⟩, hdone⟩ := exists_run_of_decreasing hstep ⟨hkept, hquiet, rfl⟩
  refine ⟨decided t.2.now :: events, t', by rw [runFrom_cons_ok ht₁, ht'], ?_, hkept', hquiet', hsame.trans hsubmitted,
    List.eq_nil_of_length_eq_zero (by omega), by omega⟩
  intro event hevent
  rcases List.mem_cons.1 hevent with rfl | hevent
  · exact .inr ⟨t.2.now, rfl⟩
  · exact hkind event hevent

end Drains

end ScheduleTest
