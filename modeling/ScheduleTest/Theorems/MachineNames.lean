import ScheduleTest.MachineNames
import Mathlib.Data.List.Lex
import Mathlib.Data.Prod.Lex
import Mathlib.Tactic

/-!
# The laws of the order of the machines

A string is a sequence of symbols: characters, and numbers where the digits are. The comparator compares these sequences
lexicographically, unless it cuts the difference of two numbers to an `int`. The comparator of the machines is not strict.
-/

namespace ScheduleTest

namespace MachineNames

/-- The symbols of a string. A number stands among the characters at the place of its digits. -/
def symbols : List Int8 → List (ℤ ×ₗ ℤ)
  | [] => []
  | c :: p =>
    if isdigit c then toLex (48, (strtol (c :: p)).1) :: symbols (strtol (c :: p)).2
    else toLex (c.toInt, 0) :: symbols p
  termination_by s => s.length
  decreasing_by
  · exact length_strtol (by assumption) p
  · exact Nat.lt_succ_self _

/-- The numbers of two strings are no `LONG_MAX`, and the difference of two of them is an `int`. -/
def Narrow (a b : List Int8) : Prop :=
  ∀ m n, toLex (48, m) ∈ symbols a → toLex (48, n) ∈ symbols b → m ≠ longMax ∧ n ≠ longMax ∧ |m - n| < 2 ^ 31

variable {a b c : List Int8}

theorem symbols_digit {d : Int8} {p : List Int8} (h : isdigit d = true) :
    symbols (d :: p) = toLex (48, (strtol (d :: p)).1) :: symbols (strtol (d :: p)).2 := by
  rw [symbols, if_pos h]

theorem symbols_char {d : Int8} {p : List Int8} (h : ¬isdigit d = true) : symbols (d :: p) = toLex (d.toInt, 0) :: symbols p := by
  rw [symbols, if_neg h]

theorem isdigit_iff {d : Int8} : isdigit d = true ↔ 48 ≤ d.toInt ∧ d.toInt ≤ 57 := by
  simp [isdigit]

/-- The number of digits is not negative. -/
theorem numberOf_nonneg {digits : List Int8} (h : ∀ d ∈ digits, isdigit d = true) : 0 ≤ numberOf digits := by
  have hfold : ∀ (digits : List Int8), (∀ d ∈ digits, isdigit d = true) → ∀ n : ℤ, 0 ≤ n →
      0 ≤ digits.foldl (fun n c => 10 * n + (c.toInt - 48)) n := by
    intro digits
    induction digits with
    | nil => exact fun _ n hn => hn
    | cons d digits ih =>
      intro h n hn
      have hd := isdigit_iff.1 (h d List.mem_cons_self)
      refine ih (fun d hd => h d (List.mem_cons_of_mem _ hd)) _ ?_
      dsimp only
      omega
  exact hfold digits h 0 le_rfl

theorem strtol_nonneg (s : List Int8) : 0 ≤ (strtol s).1 :=
  le_min (numberOf_nonneg fun _ hd => List.all_eq_true.1 List.all_takeWhile _ hd) (by decide)

theorem Narrow.symm (h : Narrow a b) : Narrow b a := by
  intro m n hm hn
  obtain ⟨hn', hm', hdiff⟩ := h n m hn hm
  exact ⟨hm', hn', by rwa [abs_sub_comm]⟩

/-- What is behind the first symbols. -/
theorem Narrow.tail {x y : ℤ ×ₗ ℤ} {a' b' : List Int8} (h : Narrow a b) (ha : symbols a = x :: symbols a')
    (hb : symbols b = y :: symbols b') : Narrow a' b' := by
  intro m n hm hn
  exact h m n (ha ▸ List.mem_cons_of_mem _ hm) (hb ▸ List.mem_cons_of_mem _ hn)

theorem toInt32_eq {z : ℤ} (h : |z| < 2 ^ 31) : toInt32 z = z := by
  obtain ⟨hlow, hhigh⟩ := abs_lt.1 h
  exact Int.bmod_eq_of_le (by omega) (by omega)

theorem toInt_ne {d e : Int8} (h : d ≠ e) : d.toInt ≠ e.toInt := fun heq => h (Int8.toInt_inj.1 heq)

/-- A result and the order of the symbols. -/
def Agrees (r : ℤ) (a b : List Int8) : Prop := (r < 0 ↔ symbols a < symbols b) ∧ (0 < r ↔ symbols b < symbols a)

/-- The first symbols decide if they differ. -/
theorem agrees_of_head {x y : ℤ ×ₗ ℤ} {a' b' : List Int8} {r : ℤ} (ha : symbols a = x :: symbols a') (hb : symbols b = y :: symbols b')
    (hxy : r < 0 ↔ x < y) (hyx : 0 < r ↔ y < x) (hne : x ≠ y) : Agrees r a b := by
  unfold Agrees
  rw [ha, hb, List.cons_lt_cons_iff, List.cons_lt_cons_iff]
  simp [hxy, hyx, hne, hne.symm]

/-- First symbols that are the same do not count. -/
theorem agrees_of_tail {x : ℤ ×ₗ ℤ} {a' b' : List Int8} {r : ℤ} (ha : symbols a = x :: symbols a') (hb : symbols b = x :: symbols b')
    (h : Agrees r a' b') : Agrees r a b := by
  unfold Agrees
  rw [ha, hb, List.cons_lt_cons_self, List.cons_lt_cons_self]
  exact h

/-- Two digits are compared by the numbers that they begin. -/
theorem comparator_digits {c1 c2 : Int8} {p1 p2 : List Int8} (h1 : isdigit c1 = true) (h2 : isdigit c2 = true) :
    stringNumericComparator (c1 :: p1) (c2 :: p2) =
      if (strtol (c1 :: p1)).1 = longMax then none
      else if (strtol (c1 :: p1)).1 ≠ (strtol (c2 :: p2)).1 then some (toInt32 ((strtol (c1 :: p1)).1 - (strtol (c2 :: p2)).1))
      else stringNumericComparator (strtol (c1 :: p1)).2 (strtol (c2 :: p2)).2 := by
  have hmin : ∀ s : List Int8, (strtol s).1 ≠ longMin := fun s heq => by
    have hpos := strtol_nonneg s
    rw [heq] at hpos
    exact absurd hpos (by decide)
  rw [stringNumericComparator, dif_pos ⟨h1, h2⟩]
  simp only [hmin, false_or]
  split <;> rfl

theorem comparator_chars {c1 c2 : Int8} {p1 p2 : List Int8} (h : ¬(isdigit c1 = true ∧ isdigit c2 = true)) :
    stringNumericComparator (c1 :: p1) (c2 :: p2) =
      if c1 ≠ c2 then some (c1.toInt - c2.toInt) else stringNumericComparator p1 p2 := by
  rw [stringNumericComparator, dif_neg h]

/-- First symbols with different codes decide. -/
theorem agrees_of_code {i j m n r : ℤ} {a' b' : List Int8} (ha : symbols a = toLex (i, m) :: symbols a')
    (hb : symbols b = toLex (j, n) :: symbols b') (hlt : r < 0 ↔ i < j) (hgt : 0 < r ↔ j < i) (hne : i ≠ j) : Agrees r a b := by
  refine agrees_of_head ha hb ?_ ?_ ?_
  · simp [Prod.Lex.toLex_lt_toLex, hlt, hne]
  · simp [Prod.Lex.toLex_lt_toLex, hgt, hne.symm]
  · simp [hne]

/-- Characters that are not both digits and differ come in the order of their codes, whatever numbers they begin. -/
theorem head_agrees {c1 c2 : Int8} {p1 p2 : List Int8} (h : ¬(isdigit c1 = true ∧ isdigit c2 = true)) (hne : c1 ≠ c2) :
    Agrees (c1.toInt - c2.toInt) (c1 :: p1) (c2 :: p2) := by
  have hcodes := toInt_ne hne
  have h1iff := isdigit_iff (d := c1)
  have h2iff := isdigit_iff (d := c2)
  by_cases h1 : isdigit c1 = true
  · have h2 : ¬isdigit c2 = true := fun h2 => h ⟨h1, h2⟩
    rw [eq_true h1, true_iff] at h1iff
    rw [eq_false h2, false_iff] at h2iff
    exact agrees_of_code (symbols_digit h1) (symbols_char h2) (by omega) (by omega) (by omega)
  · rw [eq_false h1, false_iff] at h1iff
    by_cases h2 : isdigit c2 = true
    · rw [eq_true h2, true_iff] at h2iff
      exact agrees_of_code (symbols_char h1) (symbols_digit h2) (by omega) (by omega) (by omega)
    · exact agrees_of_code (symbols_char h1) (symbols_char h2) (by omega) (by omega) hcodes

/-- Where nothing is cut off, strings are compared by their symbols. -/
theorem comparator_agrees (h : Narrow a b) : ∃ r, stringNumericComparator a b = some r ∧ Agrees r a b := by
  induction hlength : a.length using Nat.strong_induction_on generalizing a b with
  | _ n ih =>
    cases a with
    | nil =>
      cases b with
      | nil => exact ⟨0, by rw [stringNumericComparator], by simp [Agrees]⟩
      | cons c2 p2 =>
        refine ⟨-1, by rw [stringNumericComparator], ?_⟩
        by_cases h2 : isdigit c2 = true
        · simp [Agrees, symbols_digit h2, symbols]
        · simp [Agrees, symbols_char h2, symbols]
    | cons c1 p1 =>
      cases b with
      | nil =>
        refine ⟨1, by rw [stringNumericComparator], ?_⟩
        by_cases h1 : isdigit c1 = true
        · simp [Agrees, symbols_digit h1, symbols]
        · simp [Agrees, symbols_char h1, symbols]
      | cons c2 p2 =>
        by_cases hdigits : isdigit c1 = true ∧ isdigit c2 = true
        · obtain ⟨h1, h2⟩ := hdigits
          have hs1 := symbols_digit (p := p1) h1
          have hs2 := symbols_digit (p := p2) h2
          obtain ⟨hmax, -, hdiff⟩ := h (strtol (c1 :: p1)).1 (strtol (c2 :: p2)).1 (hs1 ▸ List.mem_cons_self) (hs2 ▸ List.mem_cons_self)
          rw [comparator_digits h1 h2, if_neg hmax]
          by_cases heq : (strtol (c1 :: p1)).1 = (strtol (c2 :: p2)).1
          · rw [if_neg (not_not.2 heq)]
            obtain ⟨r, hr, hagrees⟩ := ih _ (hlength ▸ length_strtol h1 p1) (h.tail hs1 hs2) rfl
            exact ⟨r, hr, agrees_of_tail hs1 (heq ▸ hs2) hagrees⟩
          · rw [if_pos heq, toInt32_eq hdiff]
            refine ⟨_, rfl, agrees_of_head hs1 hs2 ?_ ?_ ?_⟩
            · simp only [Prod.Lex.toLex_lt_toLex, lt_self_iff_false, true_and, false_or]
              exact sub_neg
            · simp only [Prod.Lex.toLex_lt_toLex, lt_self_iff_false, true_and, false_or]
              exact sub_pos
            · simpa using heq
        · rw [comparator_chars hdigits]
          by_cases heq : c1 = c2
          · subst heq
            have h1 : ¬isdigit c1 = true := fun h1 => hdigits ⟨h1, h1⟩
            have hs1 := symbols_char (p := p1) h1
            have hs2 := symbols_char (p := p2) h1
            obtain ⟨r, hr, hagrees⟩ := ih p1.length (hlength ▸ Nat.lt_succ_self _) (h.tail hs1 hs2) rfl
            rw [if_neg (not_not.2 rfl)]
            exact ⟨r, hr, agrees_of_tail hs1 hs2 hagrees⟩
          · rw [if_pos heq]
            exact ⟨_, rfl, head_agrees hdigits heq⟩

/-! ## The laws -/

/-- The laws of a total preorder, for three strings. -/
structure PreorderLaws (a b c : List Int8) : Prop where
  opposite : ∃ x y, stringNumericComparator a b = some x ∧ stringNumericComparator b a = some y ∧ x.sign = -y.sign
  trans : ∀ x y, stringNumericComparator a b = some x → stringNumericComparator b c = some y → x ≤ 0 → y ≤ 0 →
    ∃ z, stringNumericComparator a c = some z ∧ z ≤ 0
  equal_trans : stringNumericComparator a b = some 0 → stringNumericComparator b c = some 0 → stringNumericComparator a c = some 0

/-- The laws of a strict order, for three machines with these names. -/
structure StrictLaws (a b c : List Int8) : Prop where
  irrefl : machineComparatorName a a = some false
  asymm : machineComparatorName a b = some true → machineComparatorName b a = some false
  trans : machineComparatorName a b = some true → machineComparatorName b c = some true → machineComparatorName a c = some true

/-- Strings are equal to themselves, unless a number is too large. -/
theorem comparator_self (a : List Int8) : stringNumericComparator a a = none ∨ stringNumericComparator a a = some 0 := by
  induction hlength : a.length using Nat.strong_induction_on generalizing a with
  | _ n ih =>
    cases a with
    | nil => exact .inr (by rw [stringNumericComparator])
    | cons d p =>
      by_cases hd : isdigit d = true
      · rw [comparator_digits hd hd, if_neg (not_not.2 rfl)]
        split
        · exact .inl rfl
        · exact ih _ (hlength ▸ length_strtol hd p) _ rfl
      · rw [comparator_chars fun h => hd h.1, if_neg (not_not.2 rfl)]
        exact ih p.length (hlength ▸ Nat.lt_succ_self _) p rfl

theorem strcmp_self (a : List Int8) : strcmp a a = 0 := by
  induction a with
  | nil => rfl
  | cons d a ih =>
    rw [strcmp, if_neg (not_not.2 rfl)]
    split
    · rfl
    · exact ih

/-- No machine is not before itself. -/
theorem machineComparatorName_self (a : List Int8) : machineComparatorName a a ≠ some false := by
  unfold machineComparatorName
  rcases comparator_self a with h | h
  · simp [h]
  · simp [h, strcmp_self]

theorem Agrees.eq_zero_iff {r : ℤ} (h : Agrees r a b) : r = 0 ↔ symbols a = symbols b := by
  constructor
  · intro hr
    refine le_antisymm (not_lt.1 fun hlt => ?_) (not_lt.1 fun hlt => ?_)
    · exact absurd (h.2.2 hlt) (by omega)
    · exact absurd (h.1.2 hlt) (by omega)
  · intro heq
    refine le_antisymm (not_lt.1 fun hr => ?_) (not_lt.1 fun hr => ?_)
    · exact absurd (h.2.1 hr) (by rw [heq]; exact lt_irrefl _)
    · exact absurd (h.1.1 hr) (by rw [heq]; exact lt_irrefl _)

theorem Agrees.nonpos_iff {r : ℤ} (h : Agrees r a b) : r ≤ 0 ↔ symbols a ≤ symbols b := by
  rw [← not_lt, h.2, not_lt]

/-- Where nothing is cut off, the comparator is a total preorder. -/
theorem preorderLaws_of_narrow (hab : Narrow a b) (hbc : Narrow b c) (hac : Narrow a c) : PreorderLaws a b c := by
  obtain ⟨x, hx, hxs⟩ := comparator_agrees hab
  obtain ⟨y, hy, hys⟩ := comparator_agrees hbc
  obtain ⟨z, hz, hzs⟩ := comparator_agrees hac
  obtain ⟨x', hx', hxs'⟩ := comparator_agrees hab.symm
  constructor
  · refine ⟨x, x', hx, hx', ?_⟩
    rcases lt_trichotomy (symbols a) (symbols b) with hlt | heq | hgt
    · rw [Int.sign_eq_neg_one_of_neg (hxs.1.2 hlt), Int.sign_eq_one_of_pos (hxs'.2.2 hlt)]
    · rw [hxs.eq_zero_iff.2 heq, hxs'.eq_zero_iff.2 heq.symm]
      rfl
    · rw [Int.sign_eq_one_of_pos (hxs.2.2 hgt), Int.sign_eq_neg_one_of_neg (hxs'.1.2 hgt)]
      rfl
  · intro x₁ y₁ hx₁ hy₁ hle hle'
    obtain rfl := Option.some.inj (hx.symm.trans hx₁)
    obtain rfl := Option.some.inj (hy.symm.trans hy₁)
    exact ⟨z, hz, hzs.nonpos_iff.2 ((hxs.nonpos_iff.1 hle).trans (hys.nonpos_iff.1 hle'))⟩
  · intro hx₁ hy₁
    obtain rfl := Option.some.inj (hx.symm.trans hx₁)
    obtain rfl := Option.some.inj (hy.symm.trans hy₁)
    rw [hz, hzs.eq_zero_iff.2 ((hxs.eq_zero_iff.1 rfl).trans (hys.eq_zero_iff.1 rfl))]

/-- The comparator of the machines is no strict order on any machines. That of strings has the laws of a total preorder where no
number is `LONG_MAX` and no difference of numbers is cut off. -/
theorem machine_order (a b c : List Int8) :
    ¬(PreorderLaws a b c ∧ StrictLaws a b c) ∧ (Narrow a b ∧ Narrow b c ∧ Narrow a c → PreorderLaws a b c) :=
  ⟨fun h => machineComparatorName_self a h.2.irrefl, fun h => preorderLaws_of_narrow h.1 h.2.1 h.2.2⟩

/-- A text of ASCII characters. -/
def ascii (text : String) : List Int8 := text.toList.map fun c => Int8.ofNat c.toNat

/-- `2147483648` and `0` are each less than the other, and `m` is before itself. -/
theorem machine_order_false :
    ¬PreorderLaws (ascii "2147483648") (ascii "0") (ascii "0") ∧ ¬StrictLaws (ascii "m") (ascii "m") (ascii "m") := by
  constructor
  · intro h
    obtain ⟨x, y, hx, hy, hsign⟩ := h.opposite
    have hfirst : stringNumericComparator (ascii "2147483648") (ascii "0") = some (-2147483648) := by decide +kernel
    have hsecond : stringNumericComparator (ascii "0") (ascii "2147483648") = some (-2147483648) := by decide +kernel
    obtain rfl := Option.some.inj (hfirst.symm.trans hx)
    obtain rfl := Option.some.inj (hsecond.symm.trans hy)
    exact absurd hsign (by decide)
  · intro h
    exact absurd h.irrefl (by decide +kernel)

end MachineNames

end ScheduleTest
