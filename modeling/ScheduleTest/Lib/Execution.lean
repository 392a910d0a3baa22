import Mathlib.Data.List.Forall2

/-!
# Executions of a step function that can abort

A program takes inputs one after the other, each changing its state or aborting with an error. `runFrom` runs a list of inputs
and stops at the first abort. The rules below carry a property of the state over a whole run: an invariant that every step
keeps (`runFrom_invariant`), the same where the steps meet a condition on the state they start from (`AllSteps`), and what is
known of the error a run aborts with (`runFrom_error`). A prefix of a run is a run, so a property of the last state of every
run is a property of every state reached.
-/

namespace Execution

universe v

variable {σ α ε : Type*}

/-- The state after a list of inputs, or the error of the first step that aborts. -/
def runFrom (step : σ → α → Except ε σ) : σ → List α → Except ε σ
  | s, [] => .ok s
  | s, a :: as => match step s a with
    | .ok s' => runFrom step s' as
    | .error e => .error e

/-- Every step of the run from `s` starts in a state where its input meets `C`. -/
def AllSteps (step : σ → α → Except ε σ) (C : σ → α → Prop) : σ → List α → Prop
  | _, [] => True
  | s, a :: as => C s a ∧ ∀ s', step s a = .ok s' → AllSteps step C s' as

/-- Every state that the run from `s` reaches has the property, the first and the last included. -/
def Always (step : σ → α → Except ε σ) (P : σ → Prop) : σ → List α → Prop
  | s, [] => P s
  | s, a :: as => P s ∧ ∀ s', step s a = .ok s' → Always step P s' as

/-- The run from `s` goes through, and every state that it reaches has the property. -/
def GoesThrough (step : σ → α → Except ε σ) (P : σ → Prop) : σ → List α → Prop
  | s, [] => P s
  | s, a :: as => P s ∧ ∃ s', step s a = .ok s' ∧ GoesThrough step P s' as

/-- The error of a result, if it is one. -/
def abortOf : Except ε σ → Option ε
  | .ok _ => none
  | .error e => some e

theorem abortOf_eq_some {r : Except ε σ} {e : ε} : abortOf r = some e ↔ r = .error e := by
  cases r <;> simp [abortOf]

/-- What is seen of a success. -/
theorem toOption_map_eq_some {β : Type*} {r : Except ε σ} {f : σ → β} {b : β} :
    r.toOption.map f = some b ↔ ∃ s, r = .ok s ∧ f s = b := by
  cases r <;> simp [Except.toOption]

theorem toOption_bind_eq_some {β : Type*} {r : Except ε σ} {f : σ → Option β} {b : β} :
    r.toOption.bind f = some b ↔ ∃ s, r = .ok s ∧ f s = some b := by
  cases r <;> simp [Except.toOption]

/-- A result that is mapped to a success is one. -/
theorem map_eq_ok {β : Type*} {r : Except ε σ} {f : σ → β} {b : β} : r.map f = .ok b ↔ ∃ s, r = .ok s ∧ f s = b := by
  cases r <;> simp [Except.map]

/-- A result that is mapped to an error is that error. -/
theorem map_eq_error {β : Type*} {r : Except ε σ} {f : σ → β} {e : ε} : r.map f = .error e ↔ r = .error e := by
  cases r <;> simp [Except.map]

/-- Two computations one after the other go well if both do. -/
theorem bind_eq_ok {β γ : Type v} {x : Except ε β} {f : β → Except ε γ} {c : γ} :
    x >>= f = .ok c ↔ ∃ b, x = .ok b ∧ f b = .ok c := by
  cases x with
  | error e => exact ⟨fun h => (nomatch h), fun ⟨_, hb, _⟩ => nomatch hb⟩
  | ok b => exact ⟨fun h => ⟨b, rfl, h⟩, fun ⟨_, hb, h⟩ => Except.ok.inj hb ▸ h⟩

/-- Or one of them fails, the first or the one after it. -/
theorem bind_eq_error {β γ : Type v} {x : Except ε β} {f : β → Except ε γ} {e : ε} :
    x >>= f = .error e ↔ x = .error e ∨ ∃ b, x = .ok b ∧ f b = .error e := by
  cases x with
  | error e' =>
    refine ⟨fun h => .inl (congrArg Except.error (Except.error.inj h)), fun h => ?_⟩
    rcases h with h | ⟨_, hb, _⟩
    · exact congrArg Except.error (Except.error.inj h)
    · cases hb
  | ok b =>
    refine ⟨fun h => .inr ⟨b, rfl, h⟩, fun h => ?_⟩
    rcases h with h | ⟨_, hb, h⟩
    · cases h
    · exact Except.ok.inj hb ▸ h

/-- A loop over a list goes well if it does for every element. -/
theorem mapM_eq_ok {β : Type*} {f : α → Except ε β} {l : List α} {bs : List β} :
    l.mapM f = .ok bs ↔ List.Forall₂ (fun a b => f a = .ok b) l bs := by
  induction l generalizing bs with
  | nil =>
    rw [List.mapM_nil, List.forall₂_nil_left_iff]
    exact ⟨fun h => (Except.ok.inj h).symm, fun h => congrArg Except.ok h.symm⟩
  | cons a l ih =>
    rw [List.mapM_cons, List.forall₂_cons_left_iff]
    cases ha : f a with
    | error e =>
      constructor
      · intro h
        cases h
      · rintro ⟨b, bs', hb, -⟩
        cases hb
    | ok b =>
      cases hl : l.mapM f with
      | error e =>
        constructor
        · intro h
          cases h
        · rintro ⟨b', bs', -, hbs, -⟩
          have hrest := ih.2 hbs
          rw [hl] at hrest
          cases hrest
      | ok bs' =>
        constructor
        · intro h
          exact ⟨b, bs', rfl, ih.1 hl, (Except.ok.inj h).symm⟩
        · rintro ⟨b', bs'', hb, hbs, rfl⟩
          obtain rfl := Except.ok.inj hb
          obtain rfl := Except.ok.inj (hl.symm.trans (ih.2 hbs))
          rfl

/-- The error of a loop is that of one of the elements. -/
theorem error_of_mapM {β : Type*} {f : α → Except ε β} {l : List α} {e : ε} (h : l.mapM f = .error e) : ∃ a ∈ l, f a = .error e := by
  induction l with
  | nil => cases h
  | cons a l ih =>
    rw [List.mapM_cons] at h
    cases ha : f a with
    | error e' =>
      rw [ha] at h
      obtain rfl := Except.error.inj h
      exact ⟨a, List.mem_cons_self, ha⟩
    | ok b =>
      rw [ha] at h
      cases hl : l.mapM f with
      | error e' =>
        rw [hl] at h
        obtain rfl := Except.error.inj h
        obtain ⟨a', ha', hf⟩ := ih hl
        exact ⟨a', List.mem_cons_of_mem _ ha', hf⟩
      | ok bs =>
        rw [hl] at h
        cases h

/-- What is known of a result: the value has a property, or the error has another one. -/
def Yields {β : Type*} (P : β → Prop) (E : ε → Prop) : Except ε β → Prop
  | .ok b => P b
  | .error e => E e

namespace Yields

variable {β γ : Type*} {P : β → Prop} {Q : γ → Prop} {E : ε → Prop} {r : Except ε β}

theorem of_ok {b : β} (h : Yields P E r) (hr : r = .ok b) : P b := by
  rwa [hr] at h

theorem of_error {e : ε} (h : Yields P E r) (hr : r = .error e) : E e := by
  rwa [hr] at h

theorem intro (hok : ∀ b, r = .ok b → P b) (herror : ∀ e, r = .error e → E e) : Yields P E r := by
  cases r with
  | ok b => exact hok b rfl
  | error e => exact herror e rfl

theorem imp {P' : β → Prop} {E' : ε → Prop} (h : Yields P E r) (hP : ∀ b, P b → P' b) (hE : ∀ e, E e → E' e) : Yields P' E' r := by
  cases r with
  | ok b => exact hP b h
  | error e => exact hE e h

/-- What is known of a value is known of its image. -/
theorem map {f : β → γ} (h : Yields P E r) (hf : ∀ b, r = .ok b → P b → Q (f b)) : Yields Q E (r.map f) := by
  cases r with
  | ok b => exact hf b rfl h
  | error e => exact h

/-- An invariant that every step keeps, whose aborts are known, holds at the end of a run, and the abort of the run is known. -/
theorem runFrom {step : σ → α → Except ε σ} {I : σ → Prop} {s : σ} {as : List α} (hs : I s)
    (hstep : ∀ s, ∀ a ∈ as, I s → Yields I E (step s a)) : Yields I E (Execution.runFrom step s as) := by
  induction as generalizing s with
  | nil => exact hs
  | cons a as ih =>
    have hfirst := hstep s a List.mem_cons_self hs
    rw [Execution.runFrom]
    cases hx : step s a with
    | ok s' => exact ih (hfirst.of_ok hx) fun s b hb => hstep s b (List.mem_cons_of_mem _ hb)
    | error e => exact hfirst.of_error hx

end Yields

section

variable {step : σ → α → Except ε σ} {I : σ → Prop} {C : σ → α → Prop}

@[simp] theorem runFrom_nil (s : σ) : runFrom step s [] = .ok s := rfl

/-- A run that goes through a first step is the run from the state after it. -/
theorem runFrom_cons_ok {s s' : σ} {a : α} (h : step s a = .ok s') (as : List α) :
    runFrom step s (a :: as) = runFrom step s' as := by
  rw [runFrom, h]

/-- A run that goes through takes its first step. -/
theorem of_runFrom_cons {s t : σ} {a : α} {as : List α} (h : runFrom step s (a :: as) = .ok t) :
    ∃ s', step s a = .ok s' ∧ runFrom step s' as = .ok t := by
  rw [runFrom] at h
  split at h
  · rename_i s' hs
    exact ⟨s', hs, h⟩
  · nomatch h

/-- A run of two parts is the second part run from where the first ends. -/
theorem runFrom_append {s t : σ} {as bs : List α} (h : runFrom step s as = .ok t) :
    runFrom step s (as ++ bs) = runFrom step t bs := by
  induction as generalizing s with
  | nil => rw [List.nil_append, Except.ok.inj h]
  | cons a as ih =>
    obtain ⟨s', hs, ht⟩ := of_runFrom_cons h
    rw [List.cons_append, runFrom_cons_ok hs]
    exact ih ht

/-- A run of two parts that goes through goes through the first. -/
theorem of_runFrom_append {s t : σ} {as bs : List α} (h : runFrom step s (as ++ bs) = .ok t) :
    ∃ s', runFrom step s as = .ok s' ∧ runFrom step s' bs = .ok t := by
  induction as generalizing s with
  | nil => exact ⟨s, rfl, h⟩
  | cons a as ih =>
    obtain ⟨s', hs, hrest⟩ := of_runFrom_cons h
    obtain ⟨s'', hfirst, hsecond⟩ := ih hrest
    exact ⟨s'', by rw [runFrom_cons_ok hs, hfirst], hsecond⟩

/-- Each input of a run that goes well is taken by a step. -/
theorem step_of_mem {s t : σ} {a : α} {as : List α} (h : runFrom step s as = .ok t) (ha : a ∈ as) :
    ∃ s₁ s₂, step s₁ a = .ok s₂ := by
  induction as generalizing s with
  | nil => cases ha
  | cons b as ih =>
    obtain ⟨s', hstep, hrest⟩ := of_runFrom_cons h
    rcases List.mem_cons.1 ha with rfl | ha
    · exact ⟨s, s', hstep⟩
    · exact ih hrest ha

/-- An invariant that the steps meeting a condition keep holds at the end of every run of such steps. -/
theorem runFrom_invariant (hstep : ∀ s a s', I s → C s a → step s a = .ok s' → I s') {s t : σ} {as : List α}
    (hs : I s) (hc : AllSteps step C s as) (ht : runFrom step s as = .ok t) : I t := by
  induction as generalizing s with
  | nil => exact Except.ok.inj ht ▸ hs
  | cons a as ih =>
    obtain ⟨s', h1, h2⟩ := of_runFrom_cons ht
    exact ih (hstep s a s' hs hc.1 h1) (hc.2 s' h1) h2

/-- An invariant of the state and of the inputs still to come, kept by every step, holds at the end of a run of no more inputs. -/
theorem runFrom_rest {R : σ → List α → Prop} (hstep : ∀ s a as s', R s (a :: as) → step s a = .ok s' → R s' as)
    {s t : σ} {as : List α} (hs : R s as) (ht : runFrom step s as = .ok t) : R t [] := by
  induction as generalizing s with
  | nil => exact Except.ok.inj ht ▸ hs
  | cons a as ih =>
    obtain ⟨s', h1, h2⟩ := of_runFrom_cons ht
    exact ih (hstep s a as s' hs h1) h2

/-- What is seen of a run is a run of a specification, where each step is seen as one of its steps. -/
theorem runFrom_refines {τ : Type*} {view : σ → τ} {spec : τ → α → Option τ}
    (hview : ∀ s a, I s → C s a → (step s a).toOption.map view = spec (view s) a)
    (hstep : ∀ s a s', I s → C s a → step s a = .ok s' → I s') {s : σ} {as : List α} (hs : I s) (hc : AllSteps step C s as) :
    (runFrom step s as).toOption.map view = as.foldlM spec (view s) := by
  induction as generalizing s with
  | nil => rfl
  | cons a as ih =>
    rw [runFrom, List.foldlM_cons, ← hview s a hs hc.1]
    cases hfirst : step s a with
    | error e => rfl
    | ok s' => exact ih (hstep s a s' hs hc.1 hfirst) (hc.2 s' hfirst)

/-- Two systems whose steps are the same in the states of an invariant have the same runs. -/
theorem runFrom_congr {step' : σ → α → Except ε σ} (hsame : ∀ s a, I s → step s a = step' s a)
    (hstep : ∀ s a s', I s → step' s a = .ok s' → I s') {s : σ} (hs : I s) (as : List α) : runFrom step s as = runFrom step' s as := by
  induction as generalizing s with
  | nil => rfl
  | cons a as ih =>
    rw [runFrom, runFrom, hsame s a hs]
    cases hfirst : step' s a with
    | error e => rfl
    | ok s' => exact ih (hstep s a s' hs hfirst)

/-- Where some run always leads from a state of an invariant to one of a smaller measure, a run leads to the measure zero. All runs
consist of steps of a kind. -/
theorem exists_run_of_decreasing {K : α → Prop} {measure : σ → ℕ} (hstep : ∀ s, I s → measure s ≠ 0 →
      ∃ as s', runFrom step s as = .ok s' ∧ (∀ a ∈ as, K a) ∧ I s' ∧ measure s' < measure s) {s : σ} (hs : I s) :
    ∃ as s', runFrom step s as = .ok s' ∧ (∀ a ∈ as, K a) ∧ I s' ∧ measure s' = 0 := by
  induction hm : measure s using Nat.strongRecOn generalizing s with
  | _ m ih =>
    by_cases hzero : measure s = 0
    · exact ⟨[], s, rfl, nofun, hs, hzero⟩
    · obtain ⟨as, s', hrun, hkind, hs', hlt⟩ := hstep s hs hzero
      obtain ⟨bs, t, hrest, hkind', ht, hdone⟩ := ih _ (hm ▸ hlt) hs' rfl
      refine ⟨as ++ bs, t, by rw [runFrom_append hrun, hrest], fun a ha => ?_, ht, hdone⟩
      exact (List.mem_append.1 ha).elim (hkind a) (hkind' a)

/-- What a step aborts with in a state of the invariant is what a run aborts with. -/
theorem runFrom_error {P : ε → Prop} (hstep : ∀ s a s', I s → C s a → step s a = .ok s' → I s')
    (herr : ∀ s a e, I s → C s a → step s a = .error e → P e) {s : σ} {as : List α} {e : ε}
    (hs : I s) (hc : AllSteps step C s as) (he : runFrom step s as = .error e) : P e := by
  induction as generalizing s with
  | nil => nomatch he
  | cons a as ih =>
    rw [runFrom] at he
    split at he
    · rename_i s' h1
      exact ih (hstep s a s' hs hc.1 h1) (hc.2 s' h1) he
    · rename_i e' h1
      exact herr s a e hs hc.1 (by rw [h1, Except.error.inj he])

/-- A property that holds wherever the invariant does holds in every state of a run of steps that keep the invariant. -/
theorem always_of_invariant {P : σ → Prop} (hstep : ∀ s a s', I s → C s a → step s a = .ok s' → I s')
    (hP : ∀ s, I s → P s) {s : σ} {as : List α} (hs : I s) (hc : AllSteps step C s as) : Always step P s as := by
  induction as generalizing s with
  | nil => exact hP s hs
  | cons a as ih => exact ⟨hP s hs, fun s' h => ih (hstep s a s' hs hc.1 h) (hc.2 s' h)⟩

/-- Where the condition on the steps keeps an invariant and implies another condition in its states, the steps of a run meet
the other one. -/
theorem allSteps_of_invariant {D : σ → α → Prop} (hstep : ∀ s a s', I s → C s a → step s a = .ok s' → I s')
    (hD : ∀ s a, I s → C s a → D s a) {s : σ} {as : List α} (hs : I s) (hc : AllSteps step C s as) : AllSteps step D s as := by
  induction as generalizing s with
  | nil => trivial
  | cons a as ih => exact ⟨hD s a hs hc.1, fun s' h => ih (hstep s a s' hs hc.1 h) (hc.2 s' h)⟩

/-- Where a step that breaks the condition goes through and breaks the property at once, the property holds in every state of
a run exactly when every step of the run meets the condition. `K` are the inputs the runs are made of. -/
theorem always_iff_allSteps {P : σ → Prop} {K : α → Prop}
    (hstep : ∀ s a s', I s → K a → C s a → step s a = .ok s' → I s')
    (hbreak : ∀ s a, I s → K a → ¬ C s a → ∃ s', step s a = .ok s' ∧ ¬ P s')
    (hP : ∀ s, I s → P s) {s : σ} {as : List α} (hs : I s) (hok : ∀ a ∈ as, K a) :
    Always step P s as ↔ AllSteps step C s as := by
  induction as generalizing s with
  | nil => exact ⟨fun _ => trivial, fun _ => hP s hs⟩
  | cons a as ih =>
    have hrest : ∀ b ∈ as, K b := fun b hb => hok b (List.mem_cons_of_mem _ hb)
    have ha := hok a List.mem_cons_self
    constructor
    · rintro ⟨_, hnext⟩
      have hcond : C s a := by
        by_contra hnot
        obtain ⟨s', h1, h2⟩ := hbreak s a hs ha hnot
        have hs' := hnext s' h1
        cases as with
        | nil => exact h2 hs'
        | cons b bs => exact h2 hs'.1
      exact ⟨hcond, fun s' h => (ih (hstep s a s' hs ha hcond h) hrest).1 (hnext s' h)⟩
    · rintro ⟨hcond, hnext⟩
      exact ⟨hP s hs, fun s' h => (ih (hstep s a s' hs ha hcond h) hrest).2 (hnext s' h)⟩

/-- Where a step that meets the condition goes through, and one that does not aborts or breaks the property, a run goes through with
the property in every state exactly when its steps meet the condition. What else is known of the steps may be used. -/
theorem goesThrough_iff_allSteps {P : σ → Prop} {D : σ → α → Prop} (hstep : ∀ s a, I s → D s a → C s a → ∃ s', step s a = .ok s' ∧ I s')
    (hbreak : ∀ s a s', I s → D s a → ¬ C s a → step s a = .ok s' → ¬ P s') (hP : ∀ s, I s → P s) {s : σ} {as : List α} (hs : I s)
    (hd : AllSteps step D s as) : GoesThrough step P s as ↔ AllSteps step C s as := by
  induction as generalizing s with
  | nil => exact ⟨fun _ => trivial, fun _ => hP s hs⟩
  | cons a as ih =>
    constructor
    · rintro ⟨-, s', hnext, hrest⟩
      have hcond : C s a := by
        by_contra hc
        refine hbreak s a s' hs hd.1 hc hnext ?_
        cases as with
        | nil => exact hrest
        | cons b as => exact hrest.1
      obtain ⟨s₁, h1, hi⟩ := hstep s a hs hd.1 hcond
      obtain rfl : s₁ = s' := Except.ok.inj (h1 ▸ hnext)
      refine ⟨hcond, fun s₂ h2 => ?_⟩
      obtain rfl : s₁ = s₂ := Except.ok.inj (h1 ▸ h2)
      exact (ih hi (hd.2 s₁ h1)).1 hrest
    · rintro ⟨hcond, hrest⟩
      obtain ⟨s', h1, hi⟩ := hstep s a hs hd.1 hcond
      exact ⟨hP s hs, s', h1, (ih hi (hd.2 s' h1)).2 (hrest s' h1)⟩

/-- Where a step that breaks the condition breaks the property, a run that goes through and has the property in every state
takes only steps that meet the condition. -/
theorem allSteps_of_always {P : σ → Prop} (hstep : ∀ s a s', I s → C s a → step s a = .ok s' → I s')
    (hbreak : ∀ s a s', I s → ¬ C s a → step s a = .ok s' → ¬ P s') {s t : σ} {as : List α} (hs : I s)
    (ht : runFrom step s as = .ok t) (h : Always step P s as) : AllSteps step C s as := by
  induction as generalizing s with
  | nil => trivial
  | cons a as ih =>
    obtain ⟨s', h1, h2⟩ := of_runFrom_cons ht
    have hcond : C s a := by
      by_contra hnot
      have hs' := h.2 s' h1
      cases as with
      | nil => exact hbreak s a s' hs hnot h1 hs'
      | cons b bs => exact hbreak s a s' hs hnot h1 hs'.1
    refine ⟨hcond, fun s'' h3 => ?_⟩
    obtain rfl : s' = s'' := Except.ok.inj (h1.symm.trans h3)
    exact ih (hstep s a s' hs hcond h1) h2 (h.2 s' h1)

/-- Where two conditions are the same for the steps that go through, and the second keeps an invariant, they are the same for the runs
that go through. -/
theorem allSteps_iff_of_ok {D : σ → α → Prop} (hiff : ∀ s a s', I s → step s a = .ok s' → (C s a ↔ D s a))
    (hstep : ∀ s a s', I s → D s a → step s a = .ok s' → I s') {s t : σ} {as : List α} (hs : I s)
    (ht : runFrom step s as = .ok t) : AllSteps step C s as ↔ AllSteps step D s as := by
  induction as generalizing s with
  | nil => exact Iff.rfl
  | cons a as ih =>
    obtain ⟨s', h1, h2⟩ := of_runFrom_cons ht
    have hfirst := hiff s a s' hs h1
    constructor
    · rintro ⟨hC, hrest⟩
      refine ⟨hfirst.1 hC, fun s'' h3 => ?_⟩
      obtain rfl := Except.ok.inj (h1.symm.trans h3)
      exact (ih (hstep s a s' hs (hfirst.1 hC) h1) h2).1 (hrest s' h1)
    · rintro ⟨hD, hrest⟩
      refine ⟨hfirst.2 hD, fun s'' h3 => ?_⟩
      obtain rfl := Except.ok.inj (h1.symm.trans h3)
      exact (ih (hstep s a s' hs hD h1) h2).2 (hrest s' h1)

/-- Where a step that breaks the condition aborts with a certain error, a run that does not abort with it takes only steps that meet
the condition. -/
theorem allSteps_of_no_abort {P : ε → Prop} (hstep : ∀ s a s', I s → C s a → step s a = .ok s' → I s')
    (hbreak : ∀ s a, I s → ¬ C s a → ∃ e, step s a = .error e ∧ P e) {s : σ} {as : List α} (hs : I s)
    (h : ∀ e, runFrom step s as = .error e → ¬ P e) : AllSteps step C s as := by
  induction as generalizing s with
  | nil => trivial
  | cons a as ih =>
    have hcond : C s a := by
      by_contra hnot
      obtain ⟨e, he, hP⟩ := hbreak s a hs hnot
      exact h e (by rw [runFrom, he]) hP
    refine ⟨hcond, fun s' h1 => ih (hstep s a s' hs hcond h1) fun e he => h e ?_⟩
    rw [runFrom_cons_ok h1, he]

/-- A property of every state reached is a property of the last one. -/
theorem Always.last {P : σ → Prop} {s t : σ} {as : List α} (h : Always step P s as) (ht : runFrom step s as = .ok t) :
    P t := by
  induction as generalizing s with
  | nil => exact Except.ok.inj ht ▸ h
  | cons a as ih =>
    obtain ⟨s', h1, h2⟩ := of_runFrom_cons ht
    exact ih (h.2 s' h1) h2

/-- A condition on inputs alone is met by every step when it is met by every input. -/
theorem allSteps_of_forall {C : α → Prop} {s : σ} {as : List α} (h : ∀ a ∈ as, C a) :
    AllSteps step (fun _ a => C a) s as := by
  induction as generalizing s with
  | nil => trivial
  | cons a as ih =>
    exact ⟨h a List.mem_cons_self, fun s' _ => ih fun b hb => h b (List.mem_cons_of_mem _ hb)⟩

/-- Steps that meet a condition meet a weaker one. -/
theorem AllSteps.imp {C' : σ → α → Prop} (himp : ∀ s a, C s a → C' s a) {s : σ} {as : List α}
    (h : AllSteps step C s as) : AllSteps step C' s as := by
  induction as generalizing s with
  | nil => trivial
  | cons a as ih => exact ⟨himp s a h.1, fun s' hs => ih (h.2 s' hs)⟩

/-- Steps that meet two conditions meet both. -/
theorem AllSteps.and {C' : σ → α → Prop} {s : σ} {as : List α} (h : AllSteps step C s as)
    (h' : AllSteps step C' s as) : AllSteps step (fun s a => C s a ∧ C' s a) s as := by
  induction as generalizing s with
  | nil => trivial
  | cons a as ih => exact ⟨⟨h.1, h'.1⟩, fun s' hs => ih (h.2 s' hs) (h'.2 s' hs)⟩

/-- The steps of the first part of a run meet the condition if those of the whole run do. -/
theorem AllSteps.left {s : σ} {as bs : List α} (h : AllSteps step C s (as ++ bs)) : AllSteps step C s as := by
  induction as generalizing s with
  | nil => trivial
  | cons a as ih => exact ⟨h.1, fun s' hs => ih (h.2 s' hs)⟩

/-- So do those of the second part, from where the first ends. -/
theorem AllSteps.right {s t : σ} {as bs : List α} (h : AllSteps step C s (as ++ bs)) (ht : runFrom step s as = .ok t) :
    AllSteps step C t bs := by
  induction as generalizing s with
  | nil => exact Except.ok.inj ht ▸ h
  | cons a as ih =>
    obtain ⟨s', h1, h2⟩ := of_runFrom_cons ht
    exact ih (h.2 s' h1) h2

/-- Whether every step of a run meets a condition can be computed by running it. -/
instance decidableAllSteps {C : σ → α → Prop} [∀ s a, Decidable (C s a)] (s : σ) :
    (as : List α) → Decidable (AllSteps step C s as)
  | [] => isTrue trivial
  | a :: as =>
    match h : step s a with
    | .ok s' =>
      have := decidableAllSteps (C := C) s' as
      decidable_of_iff (C s a ∧ AllSteps step C s' as)
        ⟨fun hc => ⟨hc.1, fun _ ht => Except.ok.inj (h.symm.trans ht) ▸ hc.2⟩, fun hc => ⟨hc.1, hc.2 s' h⟩⟩
    | .error _ => decidable_of_iff (C s a) ⟨fun hc => ⟨hc, fun _ ht => nomatch h.symm.trans ht⟩, fun hc => hc.1⟩

end

end Execution
