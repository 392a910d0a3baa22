import Mathlib.Order.Lattice
import Mathlib.Data.List.Basic

/-!
# Timelines

A timeline is a list of stretches of time, each from a start up to a stop, and each starting where the one before it stops. What
it shows at a moment is the stretch the moment lies in. All stretches but the first take some time; the first may be empty, or
even stop before it starts, and then no moment lies in it.

A timeline may be written in several ways: a stretch may be cut in two, and neighbours that show the same may be merged. Neither
changes what is shown at the moments from the start of the timeline on.
-/

namespace Timeline

variable {τ σ γ : Type*} [LinearOrder τ] (start stop : σ → τ)

/-- The stretches follow each other from one moment to another, and each takes some time. -/
def Tiling : τ → τ → List σ → Prop
  | b, e, [] => b = e
  | b, e, a :: l => start a = b ∧ start a < stop a ∧ Tiling (stop a) e l

/-- A timeline up to a moment. -/
def Chained (e : τ) : List σ → Prop
  | [] => False
  | a :: l => Tiling start stop (stop a) e l

/-- Whether a moment lies in a stretch. -/
def Within (a : σ) (x : τ) : Prop := start a ≤ x ∧ x < stop a

instance (a : σ) (x : τ) : Decidable (Within start stop a x) := inferInstanceAs (Decidable (_ ∧ _))

/-- The stretch that a moment lies in. -/
def lookup (l : List σ) (x : τ) : Option σ := l.find? (fun a => Within start stop a x)

variable {start stop} {b e x : τ} {a m : σ} {l l' r r' : List σ}

/-! ## Tilings -/

theorem tiling_append : Tiling start stop b e (l ++ l') ↔ ∃ c, Tiling start stop b c l ∧ Tiling start stop c e l' := by
  induction l generalizing b with
  | nil => simp [Tiling]
  | cons a l ih =>
    simp only [List.cons_append, Tiling, ih]
    constructor
    · rintro ⟨h1, h2, c, h3, h4⟩
      exact ⟨c, ⟨h1, h2, h3⟩, h4⟩
    · rintro ⟨c, ⟨h1, h2, h3⟩, h4⟩
      exact ⟨h1, h2, c, h3, h4⟩

theorem Tiling.le (h : Tiling start stop b e l) : b ≤ e := by
  induction l generalizing b with
  | nil => exact le_of_eq h
  | cons a l ih => exact h.1 ▸ h.2.1.le.trans (ih h.2.2)

/-- A stretch of a tiling lies between its ends. -/
theorem Tiling.bounds (h : Tiling start stop b e l) (ha : a ∈ l) : b ≤ start a ∧ start a < stop a ∧ stop a ≤ e := by
  induction l generalizing b with
  | nil => nomatch ha
  | cons a' l ih =>
    obtain ⟨h1, h2, h3⟩ := h
    rcases List.mem_cons.1 ha with rfl | ha
    · exact ⟨h1.ge, h2, h3.le⟩
    · obtain ⟨g1, g2, g3⟩ := ih h3 ha
      exact ⟨(h1 ▸ h2.le).trans g1, g2, g3⟩

/-- The stretches of a tiling that start before a moment tile the time up to that moment at least. -/
theorem Tiling.exists_initial {y : τ} (h : Tiling start stop b e l) (hy : y ≤ e) :
    ∃ mid rest c, l = mid ++ rest ∧ Tiling start stop b c mid ∧ y ≤ c ∧ ∀ u ∈ mid, start u < y := by
  induction l generalizing b with
  | nil => exact ⟨[], [], b, rfl, rfl, hy.trans (ge_of_eq h), nofun⟩
  | cons a l ih =>
    rcases le_or_gt y b with hle | hlt
    · exact ⟨[], a :: l, b, rfl, rfl, hle, nofun⟩
    · obtain ⟨h1, h2, h3⟩ := h
      obtain ⟨mid, rest, c, hl, hmid, hc, hbefore⟩ := ih h3
      refine ⟨a :: mid, rest, c, by rw [hl, List.cons_append], ⟨h1, h2, hmid⟩, hc, fun u hu => ?_⟩
      rcases List.mem_cons.1 hu with rfl | hu
      · exact h1 ▸ hlt
      · exact hbefore u hu

/-- Stretches with the same times tile the same. -/
theorem Tiling.congr (h : Tiling start stop b e l) (hstart : l'.map start = l.map start) (hstop : l'.map stop = l.map stop) :
    Tiling start stop b e l' := by
  induction l generalizing b l' with
  | nil => rwa [List.map_eq_nil_iff.1 hstart]
  | cons a l ih =>
    cases l' with
    | nil => nomatch hstart
    | cons a' l' =>
      obtain ⟨h1, h2, h3⟩ := h
      obtain ⟨g1, g2⟩ := List.cons.inj hstart
      obtain ⟨g3, g4⟩ := List.cons.inj hstop
      exact ⟨g1.trans h1, by rwa [g1, g3], g3 ▸ ih h3 g2 g4⟩

/-- In a tiling the stretches that start before a moment come first. -/
theorem Tiling.mem_takeWhile {y : τ} (h : Tiling start stop b e l) :
    a ∈ l.takeWhile (fun c => decide (start c < y)) ↔ a ∈ l ∧ start a < y := by
  induction l generalizing b with
  | nil => simp
  | cons c l ih =>
    obtain ⟨h1, h2, h3⟩ := h
    by_cases hc : start c < y
    · have htake : (c :: l).takeWhile (fun c => decide (start c < y)) = c :: l.takeWhile (fun c => decide (start c < y)) :=
        List.takeWhile_cons_of_pos (by simpa using hc)
      rw [htake, List.mem_cons, List.mem_cons, ih h3]
      constructor
      · rintro (rfl | ⟨ha, hlt⟩)
        · exact ⟨Or.inl rfl, hc⟩
        · exact ⟨Or.inr ha, hlt⟩
      · rintro ⟨rfl | ha, hlt⟩
        · exact Or.inl rfl
        · exact Or.inr ⟨ha, hlt⟩
    · rw [List.takeWhile_cons_of_neg (by simpa using hc)]
      refine iff_of_false List.not_mem_nil ?_
      rintro ⟨ha, hlt⟩
      rcases List.mem_cons.1 ha with rfl | ha
      · exact hc hlt
      · exact hc ((h2.le.trans (h3.bounds ha).1).trans_lt hlt)

/-! ## Chains -/

/-- A chain with a stretch in it: the stretch is the first, or takes some time and starts where those before it stop. -/
theorem chained_append_cons : Chained start stop e (l ++ a :: r) ↔
    Tiling start stop (stop a) e r ∧ (l ≠ [] → start a < stop a ∧ Chained start stop (start a) l) := by
  cases l with
  | nil => simp [Chained]
  | cons a' l =>
    simp only [List.cons_append, Chained, tiling_append, Tiling]
    constructor
    · rintro ⟨c, h1, rfl, h2, h3⟩
      exact ⟨h3, fun _ => ⟨h2, h1⟩⟩
    · rintro ⟨h3, h⟩
      obtain ⟨h2, h1⟩ := h (List.cons_ne_nil _ _)
      exact ⟨start a, h1, rfl, h2, h3⟩

theorem Chained.ne_nil (h : Chained start stop e l) : l ≠ [] := by
  rintro rfl
  exact h

/-- What comes before a stretch stops before it starts, and what comes after it starts after it stops. -/
theorem Chained.order (h : Chained start stop e (l ++ a :: r)) :
    (∀ c ∈ l, stop c ≤ start a) ∧ (∀ c ∈ r, stop a ≤ start c) := by
  obtain ⟨hr, hl⟩ := chained_append_cons.1 h
  refine ⟨fun c hc => ?_, fun c hc => (hr.bounds hc).1⟩
  obtain ⟨_, hchain⟩ := hl (List.ne_nil_of_mem hc)
  cases l with
  | nil => nomatch hc
  | cons a' l =>
    rcases List.mem_cons.1 hc with rfl | hc
    · exact Tiling.le hchain
    · exact (Tiling.bounds hchain hc).2.2

/-- The parts of a stretch that is cut form a chain with the others. -/
theorem Chained.cut {a₁ a₂ : σ} (h : Chained start stop e (l ++ a :: r)) (h1 : start a₁ = start a) (h2 : stop a₁ = start a₂)
    (h3 : stop a₂ = stop a) (hpos₁ : start a₁ < stop a₁) (hpos₂ : start a₂ < stop a₂) :
    Chained start stop e (l ++ a₁ :: a₂ :: r) := by
  obtain ⟨hr, hl⟩ := chained_append_cons.1 h
  refine chained_append_cons.2 ⟨⟨h2.symm, hpos₂, h3 ▸ hr⟩, fun hne => ⟨hpos₁, ?_⟩⟩
  rw [h1]
  exact (hl hne).2

/-- Neighbours that are merged form a chain with the others. -/
theorem Chained.merge {c : σ} (h : Chained start stop e (l ++ a :: c :: r)) (h1 : start m = start a) (h2 : stop m = stop c) :
    Chained start stop e (l ++ m :: r) := by
  obtain ⟨⟨hc, hpos, hr⟩, hl⟩ := chained_append_cons.1 h
  refine chained_append_cons.2 ⟨h2 ▸ hr, fun hne => ?_⟩
  obtain ⟨ha, hchain⟩ := hl hne
  rw [h1, h2]
  exact ⟨ha.trans (hc ▸ hpos), hchain⟩

/-- Stretches with the same times form the same chains. -/
theorem Chained.congr (h : Chained start stop e l) (hstart : l'.map start = l.map start) (hstop : l'.map stop = l.map stop) :
    Chained start stop e l' := by
  cases l with
  | nil => exact h.elim
  | cons a l =>
    cases l' with
    | nil => nomatch hstart
    | cons a' l' =>
      obtain ⟨_, g2⟩ := List.cons.inj hstart
      obtain ⟨g3, g4⟩ := List.cons.inj hstop
      rw [Chained, g3]
      exact Tiling.congr h g2 g4

/-- A chain with a stretch of stretches in it, which follow each other up to some moment. -/
theorem Chained.block {m : List σ} (h : Chained start stop e (l ++ (a :: m ++ r))) :
    ∃ c, Chained start stop c (a :: m) ∧ Tiling start stop c e r ∧
      (l ≠ [] → Chained start stop (start a) l ∧ Tiling start stop (start a) c (a :: m)) := by
  obtain ⟨hmr, hl⟩ := chained_append_cons.1 (show Chained start stop e (l ++ a :: (m ++ r)) from h)
  obtain ⟨c, hm, hr⟩ := tiling_append.1 hmr
  exact ⟨c, hm, hr, fun hne => ⟨(hl hne).2, rfl, (hl hne).1, hm⟩⟩

/-- A chain ends where its last stretch stops. -/
theorem Chained.eq_stop (h : Chained start stop e (l ++ [a])) : e = stop a := (chained_append_cons.1 h).1.symm

/-- Where the first stretch of a chain is not inverted, every stretch lies between its ends. -/
theorem Chained.bounds (h : Chained start stop e (a :: l)) (hup : start a ≤ stop a) {c : σ} (hc : c ∈ a :: l) :
    start a ≤ start c ∧ start c ≤ stop c ∧ stop c ≤ e := by
  rcases List.mem_cons.1 hc with rfl | hc
  · exact ⟨le_rfl, hup, Tiling.le h⟩
  · obtain ⟨h1, h2, h3⟩ := Tiling.bounds h hc
    exact ⟨hup.trans h1, h2.le, h3⟩

/-- Where the first stretch of a chain is not inverted, of two stretches the earlier starts no later. -/
theorem Chained.start_le {c : σ} (h : Chained start stop e (l ++ a :: r)) (hup : ∀ first ∈ (l ++ a :: r).head?, start first ≤ stop first)
    (heq : l ++ a :: r = l' ++ c :: r') (hlength : l.length ≤ l'.length) : start a ≤ start c := by
  obtain ⟨m, hl'⟩ : ∃ m, l' = l ++ m := by
    rcases List.append_eq_append_iff.1 heq with ⟨m, hm, _⟩ | ⟨m, hm, _⟩
    · exact ⟨m, hm⟩
    · have hm' : m = [] := by
        rw [hm, List.length_append] at hlength
        exact List.length_eq_zero_iff.1 (by omega)
      exact ⟨[], by rw [hm, hm']; simp⟩
  rw [hl', List.append_assoc, List.append_cancel_left_eq] at heq
  cases m with
  | nil => exact ((List.cons.inj heq).1 ▸ le_rfl)
  | cons a' m =>
    obtain ⟨rfl, hr⟩ := List.cons.inj heq
    have hc : c ∈ r := by rw [hr]; simp
    refine le_trans ?_ (h.order.2 c hc)
    cases l with
    | nil => exact hup a rfl
    | cons b l => exact ((chained_append_cons.1 h).2 (List.cons_ne_nil _ _)).1.le

/-- The first stretch may start at another time. -/
theorem Chained.restart {a' : σ} (h : Chained start stop e (a :: l)) (hstop : stop a' = stop a) :
    Chained start stop e (a' :: l) := by
  rw [Chained, hstop]
  exact h

/-! ## Lookup -/

theorem lookup_append (l l' : List σ) (x : τ) :
    lookup start stop (l ++ l') x = (lookup start stop l x).or (lookup start stop l' x) := List.find?_append

theorem lookup_cons (a : σ) (l : List σ) (x : τ) :
    lookup start stop (a :: l) x = if Within start stop a x then some a else lookup start stop l x := by
  by_cases h : Within start stop a x <;> simp [lookup, h]

theorem mem_of_lookup (h : lookup start stop l x = some a) : a ∈ l ∧ Within start stop a x := by
  refine ⟨List.mem_of_find?_eq_some h, ?_⟩
  simpa using List.find?_some h

theorem lookup_eq_none : lookup start stop l x = none ↔ ∀ a ∈ l, ¬ Within start stop a x := by
  simp [lookup]

/-- What is seen at a moment depends only on the dates of the stretches and on what is seen in each. -/
theorem lookup_congr {f : σ → γ} (h : l'.map (fun a => (start a, stop a, f a)) = l.map (fun a => (start a, stop a, f a)))
    (x : τ) : (lookup start stop l' x).map f = (lookup start stop l x).map f := by
  induction l generalizing l' with
  | nil =>
    rw [List.map_eq_nil_iff.1 h]
  | cons a l ih =>
    obtain ⟨a', t, rfl, ha, ht⟩ := List.map_eq_cons_iff.1 h
    obtain ⟨hstart, hrest⟩ := Prod.mk.inj ha
    obtain ⟨hstop, hf⟩ := Prod.mk.inj hrest
    have hin : Within start stop a' x ↔ Within start stop a x := by
      rw [Within, Within, hstart, hstop]
    rw [lookup_cons, lookup_cons]
    by_cases hw : Within start stop a x
    · rw [if_pos hw, if_pos (hin.2 hw), Option.map_some, Option.map_some, hf]
    · rw [if_neg hw, if_neg fun h => hw (hin.1 h)]
      exact ih ht

/-- In a chain a moment lies in one stretch at most. -/
theorem Chained.lookup_eq_some (h : Chained start stop e l) :
    lookup start stop l x = some a ↔ a ∈ l ∧ Within start stop a x := by
  refine ⟨mem_of_lookup, ?_⟩
  rintro ⟨ha, hin⟩
  obtain ⟨l₁, l₂, rfl⟩ := List.append_of_mem ha
  have hbefore : lookup start stop l₁ x = none := lookup_eq_none.2 fun c hc hcin =>
    absurd (hcin.2.trans_le (h.order.1 c hc)) (not_lt.2 hin.1)
  rw [lookup_append, hbefore, lookup_cons, if_pos hin, Option.none_or]

/-- From the start of a chain on up to its end, every moment lies in a stretch of it. -/
theorem Chained.lookup_isSome (h : Chained start stop e (a :: l)) (hle : start a ≤ x) (hlt : x < e) :
    ∃ c, lookup start stop (a :: l) x = some c := by
  have tiling : ∀ {b : τ} {l : List σ}, Tiling start stop b e l → b ≤ x → ∃ c, lookup start stop l x = some c := by
    intro b l ht hb
    induction l generalizing b with
    | nil => exact absurd hlt (not_lt.2 (ht ▸ hb))
    | cons c l ih =>
      rw [lookup_cons]
      by_cases hin : Within start stop c x
      · exact ⟨c, if_pos hin⟩
      · rw [if_neg hin]
        exact ih ht.2.2 (not_lt.1 fun hx => hin ⟨ht.1 ▸ hb, hx⟩)
  rw [lookup_cons]
  by_cases hin : Within start stop a x
  · exact ⟨a, if_pos hin⟩
  · rw [if_neg hin]
    exact tiling h (not_lt.1 fun hx => hin ⟨hle, hx⟩)

/-- A change of the stretches that keeps their times shows the changed stretches. -/
theorem lookup_map {f : σ → σ} (hf : ∀ a ∈ l, start (f a) = start a ∧ stop (f a) = stop a) :
    lookup start stop (l.map f) x = (lookup start stop l x).map f := by
  induction l with
  | nil => rfl
  | cons a l ih =>
    obtain ⟨h1, h2⟩ := hf a List.mem_cons_self
    have hin : Within start stop (f a) x ↔ Within start stop a x := by rw [Within, Within, h1, h2]
    rw [List.map_cons, lookup_cons, lookup_cons, ih fun c hc => hf c (List.mem_cons_of_mem _ hc)]
    by_cases h : Within start stop a x
    · rw [if_pos h, if_pos (hin.2 h), Option.map_some]
    · rw [if_neg h, if_neg fun h' => h (hin.1 h')]

/-- The moments from the start of a chain on that lie in a stretch of stretches are those from where it starts up to where it
stops. -/
theorem Chained.lookup_block {c : τ} {m : List σ} (h : Chained start stop e (l ++ (a :: m ++ r)))
    (hm : Chained start stop c (a :: m)) (hx : ∀ first ∈ (l ++ (a :: m ++ r)).head?, start first ≤ x) :
    (start a ≤ x ∧ x < c → lookup start stop l x = none ∧ ∃ d, lookup start stop (a :: m) x = some d) ∧
      (¬ (start a ≤ x ∧ x < c) → lookup start stop (a :: m) x = none) := by
  obtain ⟨c', hm', hr, hl⟩ := h.block
  have hc : c' = c := by
    obtain ⟨m', last, hlast⟩ := List.eq_nil_or_concat (a :: m) |>.resolve_left (List.cons_ne_nil _ _)
    rw [hlast, List.concat_eq_append] at hm hm'
    exact hm'.eq_stop.trans hm.eq_stop.symm
  subst hc
  refine ⟨fun hin => ⟨lookup_eq_none.2 fun b hb hbx => ?_, hm.lookup_isSome hin.1 hin.2⟩,
    fun hout => lookup_eq_none.2 fun d hd hdx => hout ⟨?_, ?_⟩⟩
  · have hstop := (h.order (l := l) (r := m ++ r)).1 b hb
    exact absurd (hbx.2.trans_le hstop) (not_lt.2 hin.1)
  · cases l with
    | nil => exact hx a rfl
    | cons a' l => exact ((hl (List.cons_ne_nil _ _)).2.bounds hd).1.trans hdx.1
  · rcases List.mem_cons.1 hd with rfl | hd
    · exact hdx.2.trans_le (Tiling.le hm)
    · exact hdx.2.trans_le (Tiling.bounds hm hd).2.2

/-- A change of a stretch of stretches that keeps their times changes what is shown from where it starts up to where it stops, and
nothing else. -/
theorem Chained.lookup_change {c : τ} {m : List σ} {g : σ → σ} (hg : ∀ a, start (g a) = start a ∧ stop (g a) = stop a)
    (h : Chained start stop e (l ++ (a :: m ++ r))) (hm : Chained start stop c (a :: m))
    (hx : ∀ first ∈ (l ++ (a :: m ++ r)).head?, start first ≤ x) :
    lookup start stop (l ++ ((a :: m).map g ++ r)) x =
      (lookup start stop (l ++ (a :: m ++ r)) x).map (fun d => if start a ≤ x ∧ x < c then g d else d) := by
  obtain ⟨hin, hout⟩ := h.lookup_block hm hx
  rw [lookup_append, lookup_append, lookup_append l, lookup_append (a :: m), lookup_map fun d _ => hg d]
  by_cases hrange : start a ≤ x ∧ x < c
  · obtain ⟨hl, d, hd⟩ := hin hrange
    simp [hl, hd, hrange]
  · rw [hout hrange]
    simp [hrange]

/-! ## What is shown -/

variable {f : σ → γ}

/-- A cut does not change what is shown, if the parts show what the stretch showed. -/
theorem lookup_cut {a₁ a₂ : σ} (h1 : start a₁ = start a) (h2 : stop a₁ = start a₂) (h3 : stop a₂ = stop a)
    (hle₁ : start a₁ ≤ stop a₁) (hle₂ : start a₂ ≤ stop a₂) (hf₁ : f a₁ = f a) (hf₂ : f a₂ = f a) :
    (lookup start stop (l ++ a₁ :: a₂ :: r) x).map f = (lookup start stop (l ++ a :: r) x).map f := by
  have hin : Within start stop a x ↔ Within start stop a₁ x ∨ Within start stop a₂ x := by
    simp only [Within, ← h1, ← h3, ← h2]
    constructor
    · rintro ⟨hb, he⟩
      rcases lt_or_ge x (stop a₁) with hlt | hge
      · exact Or.inl ⟨hb, hlt⟩
      · exact Or.inr ⟨hge, he⟩
    · rintro (⟨hb, he⟩ | ⟨hb, he⟩)
      · exact ⟨hb, he.trans_le (h2 ▸ hle₂)⟩
      · exact ⟨hle₁.trans hb, he⟩
  simp only [lookup_append, lookup_cons]
  cases lookup start stop l x with
  | some c => rfl
  | none =>
    simp only [Option.none_or]
    by_cases h₁ : Within start stop a₁ x
    · rw [if_pos h₁, if_pos (hin.2 (Or.inl h₁)), Option.map_some, Option.map_some, hf₁]
    · by_cases h₂ : Within start stop a₂ x
      · rw [if_neg h₁, if_pos h₂, if_pos (hin.2 (Or.inr h₂)), Option.map_some, Option.map_some, hf₂]
      · rw [if_neg h₁, if_neg h₂, if_neg fun h => (hin.1 h).elim h₁ h₂]

/-- A merge of neighbours that show the same does not change what is shown from the start of the chain on. -/
theorem Chained.lookup_merge {c : σ} (h : Chained start stop e (l ++ a :: c :: r)) (h1 : start m = start a)
    (h2 : stop m = stop c) (hfa : f a = f m) (hfc : f c = f m) (hx : ∀ first ∈ (l ++ a :: c :: r).head?, start first ≤ x) :
    (lookup start stop (l ++ m :: r) x).map f = (lookup start stop (l ++ a :: c :: r) x).map f := by
  obtain ⟨⟨hac, hpos, _⟩, hl⟩ := chained_append_cons.1 h
  -- the first of the two takes some time, or the moment is past its start
  have hcase : start a ≤ start c ∨ start a ≤ x := by
    cases l with
    | nil => exact Or.inr (hx a rfl)
    | cons a' l => exact Or.inl (hac ▸ (hl (List.cons_ne_nil _ _)).1.le)
  have hin : Within start stop m x ↔ Within start stop a x ∨ Within start stop c x := by
    simp only [Within, h1, h2, hac]
    constructor
    · rintro ⟨hb, he⟩
      rcases lt_or_ge x (stop a) with hlt | hge
      · exact Or.inl ⟨hb, hlt⟩
      · exact Or.inr ⟨hge, he⟩
    · rintro (⟨hb, he⟩ | ⟨hb, he⟩)
      · exact ⟨hb, he.trans (hac ▸ hpos)⟩
      · exact ⟨hcase.elim (fun hle => hle.trans (hac ▸ hb)) id, he⟩
  simp only [lookup_append, lookup_cons]
  cases lookup start stop l x with
  | some c => rfl
  | none =>
    simp only [Option.none_or]
    by_cases h₁ : Within start stop a x
    · rw [if_pos h₁, if_pos (hin.2 (Or.inl h₁)), Option.map_some, Option.map_some, hfa]
    · by_cases h₂ : Within start stop c x
      · rw [if_neg h₁, if_pos h₂, if_pos (hin.2 (Or.inr h₂)), Option.map_some, Option.map_some, hfc]
      · rw [if_neg h₁, if_neg h₂, if_neg fun h => (hin.1 h).elim h₁ h₂]

end Timeline
