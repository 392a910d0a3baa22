import Mathlib.Data.Nat.Digits.Defs
import Mathlib.Tactic

/-!
# Texts with marks and numbers

Positions in a text, substrings and numbers as the standard library of C++ has them. A position is a size of 64 bits, so differences
wrap around. A number is read up to the first character that is not a digit.
-/

namespace Text

/-- `std::string::find` of a character: its first position. -/
def find (c : Char) (s : List Char) : Option ℕ := s.findIdx? (· = c)

/-- `std::string::substr`, from a position in the text. -/
def substr (s : List Char) (pos len : ℕ) : List Char := (s.drop pos).take len

/-- The difference of two sizes of 64 bits. -/
def sizeSub (a b : ℕ) : ℕ := (((a : ℤ) - b) % 2 ^ 64).toNat

/-- The values of an `int` of 32 bits. -/
def IsInt (z : ℤ) : Prop := -2 ^ 31 ≤ z ∧ z < 2 ^ 31

instance : DecidablePred IsInt := fun z => inferInstanceAs (Decidable (-2 ^ 31 ≤ z ∧ z < 2 ^ 31))

/-- The value of an `int`, where there is no overflow. -/
def toInt? (z : ℤ) : Option ℤ := if IsInt z then some z else none

/-- `std::isspace`. -/
def isSpace (c : Char) : Bool := c.toNat = 32 || (9 ≤ c.toNat && c.toNat ≤ 13)

/-- A number without its sign: the digits in front, of which there is at least one. -/
def readDigits (s : List Char) : Option ℕ :=
  let digits := s.takeWhile Char.isDigit
  if digits = [] then none else some (Nat.ofDigitChars 10 digits 0)

/-- `std::stoi`: the number behind spaces and a sign. A text without one and a number that is no `int` are exceptions. -/
def stoi (s : List Char) : Option ℤ :=
  let s := s.dropWhile isSpace
  if s.head? = some '-' then (readDigits s.tail).bind fun n => toInt? (-n)
  else (readDigits (if s.head? = some '+' then s.tail else s)).bind fun n => toInt? n

/-- The nearest natural number, the even one of two. -/
def roundEven (x : ℚ) : ℕ :=
  let below := ⌊x⌋.toNat
  if x - below < 1 / 2 ∨ (x - below = 1 / 2 ∧ below % 2 = 0) then below else below + 1

/-- `std::printf` of a number with so many digits behind the point. -/
def printFixed (n : ℕ) (x : ℚ) : List Char :=
  let scaled := roundEven (|x| * 10 ^ n)
  let digits := Nat.toDigits 10 (scaled % 10 ^ n)
  (if x < 0 then ['-'] else []) ++ Nat.toDigits 10 (scaled / 10 ^ n) ++
    '.' :: (List.replicate (n - digits.length) '0' ++ digits)

/-- The number that is printed with so many digits behind the point. -/
def fixedValue (n : ℕ) (x : ℚ) : ℚ := (if x < 0 then -1 else 1) * (roundEven (|x| * 10 ^ n) / 10 ^ n)

/-- The exponent behind an `e`, if there are digits. -/
def exponentOf (s : List Char) : ℤ :=
  if s.head? = some 'e' ∨ s.head? = some 'E' then
    let signed := s.tail
    let unsigned := if signed.head? = some '-' ∨ signed.head? = some '+' then signed.tail else signed
    let exponent : ℤ := Nat.ofDigitChars 10 (unsigned.takeWhile Char.isDigit) 0
    if signed.head? = some '-' then -exponent else exponent
  else 0

/-- `std::stod` of a decimal number: the number behind spaces and a sign. A text without one is an exception. -/
def stod (s : List Char) : Option ℚ :=
  let s := s.dropWhile isSpace
  let unsigned := if s.head? = some '-' ∨ s.head? = some '+' then s.tail else s
  let whole := unsigned.takeWhile Char.isDigit
  let rest := unsigned.dropWhile Char.isDigit
  let hasPoint := rest.head? = some '.'
  let fraction := if hasPoint then rest.tail.takeWhile Char.isDigit else []
  let exponent := exponentOf (if hasPoint then rest.tail.dropWhile Char.isDigit else rest)
  let value : ℚ := Nat.ofDigitChars 10 (whole ++ fraction) 0 * (10 : ℚ) ^ (exponent - (fraction.length : ℤ))
  if whole ++ fraction = [] then none else some (if s.head? = some '-' then -value else value)

variable {c : Char} {s before after : List Char}

/-! ### Positions -/

theorem find_eq_none (h : c ∉ s) : find c s = none := by
  unfold find
  rw [List.findIdx?_eq_none_iff]
  intro x hx
  rw [decide_eq_false_iff_not]
  rintro rfl
  exact h hx

/-- A mark is found where it is first. -/
theorem find_mark (h : c ∉ before) : find c (before ++ c :: after) = some before.length := by
  have hnone : before.findIdx? (· = c) = none := find_eq_none h
  unfold find
  rw [List.findIdx?_append, hnone]
  simp [List.findIdx?_cons]

/-- The text behind a mark. -/
theorem drop_mark : (before ++ c :: after).drop (before.length + 1) = after := by
  rw [List.append_cons, List.drop_left' (by simp)]

theorem substr_mark (len : ℕ) : substr (before ++ c :: after) (before.length + 1) len = after.take len := by
  unfold substr
  rw [drop_mark]

/-- The length between a position and one behind it, taken the wrong way round, is all that is left, and more. -/
theorem le_sizeSub {a d : ℕ} (hpos : 0 < d) (hd : d ≤ 2 ^ 63) : d ≤ sizeSub a (a + d) := by
  unfold sizeSub
  have hdiff : (a : ℤ) - (a + d : ℕ) = -d := by
    push_cast
    ring
  rw [hdiff]
  omega

/-! ### Numbers -/

theorem toInt?_eq_some {z : ℤ} (h : IsInt z) : toInt? z = some z := if_pos h

/-- The digits of a number. -/
theorem takeWhile_digits (n : ℕ) (hrest : ∀ c ∈ after.head?, c.isDigit = false) :
    (Nat.toDigits 10 n ++ after).takeWhile Char.isDigit = Nat.toDigits 10 n := by
  have hall : ∀ c ∈ Nat.toDigits 10 n, c.isDigit = true := fun c hc =>
    Nat.isDigit_of_mem_toDigits (by decide) (by decide) hc
  rw [List.takeWhile_append_of_pos hall]
  cases after with
  | nil => simp
  | cons x rest =>
    have hx := hrest x rfl
    rw [List.takeWhile_cons_of_neg (by rw [hx]; exact Bool.false_ne_true), List.append_nil]

/-- Digits are read back. -/
theorem readDigits_toDigits (n : ℕ) (hrest : ∀ c ∈ after.head?, c.isDigit = false) :
    readDigits (Nat.toDigits 10 n ++ after) = some n := by
  unfold readDigits
  rw [takeWhile_digits n hrest]
  dsimp only
  rw [if_neg Nat.toDigits_ne_nil, Nat.ofDigitChars_ten_toDigits]

/-- What is printed for a number. -/
theorem toList_toString (z : ℤ) :
    (toString z).toList = if 0 ≤ z then Nat.toDigits 10 z.natAbs else '-' :: Nat.toDigits 10 z.natAbs := by
  cases z with
  | ofNat n =>
    rw [if_pos (by simp)]
    exact Nat.toList_repr
  | negSucc n =>
    rw [if_neg (by omega)]
    change ("-" ++ Nat.repr (n + 1)).toList = _
    rw [String.toList_append, Nat.toList_repr]
    rfl

theorem isSpace_of_isDigit {c : Char} (hc : c.isDigit = true) : isSpace c = false := by
  simp only [Char.isDigit, Bool.and_eq_true, decide_eq_true_eq, ge_iff_le, UInt32.le_iff_toNat_le] at hc
  have hlow : 48 ≤ c.toNat := hc.1
  simp only [isSpace, Bool.or_eq_false_iff, Bool.and_eq_false_iff, decide_eq_false_iff_not]
  omega

/-- A number that is printed is read back, whatever follows it, if that is no digit. -/
theorem stoi_toString {z : ℤ} (hz : IsInt z) (hrest : ∀ c ∈ after.head?, c.isDigit = false) :
    stoi ((toString z).toList ++ after) = some z := by
  have hread := readDigits_toDigits z.natAbs hrest
  rw [toList_toString]
  unfold stoi
  split
  · rename_i hpos
    -- the first digit is neither a space nor a sign
    cases hd : Nat.toDigits 10 z.natAbs with
    | nil => exact absurd hd Nat.toDigits_ne_nil
    | cons d ds =>
      have hfirst : d.isDigit = true :=
        Nat.isDigit_of_mem_toDigits (b := 10) (by decide) (by decide) (hd ▸ List.mem_cons_self)
      rw [hd] at hread
      have hdrop : (d :: ds ++ after).dropWhile isSpace = d :: ds ++ after :=
        List.dropWhile_cons_of_neg (by rw [isSpace_of_isDigit hfirst]; exact Bool.false_ne_true)
      dsimp only
      rw [hdrop, List.cons_append, List.head?_cons, if_neg, if_neg, ← List.cons_append, hread, Option.bind_some]
      · have hcast : ((z.natAbs : ℕ) : ℤ) = z := Int.natAbs_of_nonneg hpos
        rw [hcast, toInt?_eq_some hz]
      · rintro heq
        rw [Option.some.inj heq] at hfirst
        exact absurd hfirst (by decide)
      · rintro heq
        rw [Option.some.inj heq] at hfirst
        exact absurd hfirst (by decide)
  · rename_i hneg
    have hdrop : ('-' :: Nat.toDigits 10 z.natAbs ++ after).dropWhile isSpace = '-' :: Nat.toDigits 10 z.natAbs ++ after :=
      List.dropWhile_cons_of_neg (by decide)
    dsimp only
    rw [hdrop, List.cons_append, List.head?_cons, if_pos rfl, List.tail_cons, hread, Option.bind_some]
    have hcast : -((z.natAbs : ℕ) : ℤ) = z := by omega
    rw [hcast, toInt?_eq_some hz]

/-- What is printed for an `int` is no longer than eleven characters, and it is not empty. -/
theorem length_toString {z : ℤ} (hz : IsInt z) : 0 < (toString z).toList.length ∧ (toString z).toList.length ≤ 11 := by
  have hbound : z.natAbs < 10 ^ 10 := by
    obtain ⟨hlow, hhigh⟩ := hz
    omega
  have hdigits := Nat.toDigits_length 10 z.natAbs 10 (by decide) hbound
  rw [toList_toString]
  split
  · exact ⟨Nat.length_toDigits_pos, by omega⟩
  · rw [List.length_cons]
    exact ⟨by omega, by omega⟩

/-- No character of a printed number is a mark. -/
theorem not_mem_toString {z : ℤ} (hc : c.isDigit = false) (hminus : c ≠ '-') : c ∉ (toString z).toList := by
  have hdigits : c ∉ Nat.toDigits 10 z.natAbs := by
    intro hmem
    have hdigit := Nat.isDigit_of_mem_toDigits (b := 10) (by decide) (by decide) hmem
    rw [hc] at hdigit
    cases hdigit
  rw [toList_toString]
  split
  · exact hdigits
  · rw [List.mem_cons]
    exact not_or.2 ⟨hminus, hdigits⟩

/-- A number behind a mark is read back from the text between the mark and its end, where the length is taken the wrong way round. -/
theorem stoi_substr {z : ℤ} (hz : IsInt z) (hrest : ∀ c ∈ after.head?, c.isDigit = false) :
    stoi (substr (before ++ c :: ((toString z).toList ++ after)) (before.length + 1)
      (sizeSub (before.length + 1) (before.length + 1 + (toString z).toList.length))) = some z := by
  obtain ⟨hpos, hle⟩ := length_toString hz
  have hlen := le_sizeSub (a := before.length + 1) hpos (by omega)
  rw [substr_mark, List.take_append, List.take_of_length_le hlen]
  refine stoi_toString hz fun x hx => hrest x ?_
  rw [List.head?_take] at hx
  split at hx
  · cases hx
  · exact hx

/-- The characters of a printed number. -/
theorem mem_printFixed {n : ℕ} {x : ℚ} (h : c ∈ printFixed n x) : c.isDigit = true ∨ c = '-' ∨ c = '.' := by
  have hdigits : ∀ m, c ∈ Nat.toDigits 10 m → c.isDigit = true := fun m hmem =>
    Nat.isDigit_of_mem_toDigits (by decide) (by decide) hmem
  unfold printFixed at h
  dsimp only at h
  rw [List.mem_append, List.mem_append, List.mem_cons, List.mem_append] at h
  rcases h with (hsign | hwhole) | rfl | hzero | hfraction
  · split at hsign
    · exact .inr (.inl (List.mem_singleton.1 hsign))
    · cases hsign
  · exact .inl (hdigits _ hwhole)
  · exact .inr (.inr rfl)
  · rw [List.eq_of_mem_replicate hzero]
    exact .inl (by decide)
  · exact .inl (hdigits _ hfraction)

/-- A text that begins with a digit, or with a sign and a digit, is the text of a number. -/
theorem stod_digit {d : Char} (hd : d.isDigit = true) (minus : Bool) (rest : List Char) :
    ∃ value, stod ((if minus then ['-'] else []) ++ d :: rest) = some value := by
  have hdigits : (d :: rest).takeWhile Char.isDigit ≠ [] := by
    rw [List.takeWhile_cons_of_pos hd]
    exact List.cons_ne_nil _ _
  have hspace : ((if minus then ['-'] else []) ++ d :: rest).dropWhile isSpace = (if minus then ['-'] else []) ++ d :: rest := by
    cases minus with
    | true => exact List.dropWhile_cons_of_neg (by decide)
    | false => exact List.dropWhile_cons_of_neg (by rw [isSpace_of_isDigit hd]; exact Bool.false_ne_true)
  have hunsigned : (if ((if minus then ['-'] else []) ++ d :: rest).head? = some '-' ∨
      ((if minus then ['-'] else []) ++ d :: rest).head? = some '+' then ((if minus then ['-'] else []) ++ d :: rest).tail
      else (if minus then ['-'] else []) ++ d :: rest) = d :: rest := by
    cases minus with
    | true => exact if_pos (.inl rfl)
    | false =>
      refine if_neg ?_
      rintro (heq | heq) <;>
      · rw [Option.some.inj heq] at hd
        exact absurd hd (by decide)
  unfold stod
  dsimp only
  rw [hspace, hunsigned, if_neg fun hnil => hdigits (List.append_eq_nil_iff.1 hnil).1]
  exact ⟨_, rfl⟩

/-- A printed number is the text of a number. -/
theorem stod_printFixed (n : ℕ) (x : ℚ) : ∃ value, stod (printFixed n x) = some value := by
  unfold printFixed
  dsimp only
  generalize roundEven (|x| * 10 ^ n) = scaled
  obtain ⟨d, digits, hd⟩ := List.exists_cons_of_ne_nil (Nat.toDigits_ne_nil (b := 10) (n := scaled / 10 ^ n))
  have hdigit : d.isDigit = true :=
    Nat.isDigit_of_mem_toDigits (b := 10) (n := scaled / 10 ^ n) (by decide) (by decide) (hd ▸ List.mem_cons_self)
  rw [hd, List.append_assoc, List.cons_append]
  have hvalue := stod_digit hdigit (decide (x < 0)) (digits ++ '.' :: (List.replicate
    (n - (Nat.toDigits 10 (scaled % 10 ^ n)).length) '0' ++ Nat.toDigits 10 (scaled % 10 ^ n)))
  simpa only [decide_eq_true_eq] using hvalue

/-- A natural number is the nearest to itself. -/
theorem roundEven_natCast (m : ℕ) : roundEven m = m := by
  unfold roundEven
  dsimp only
  rw [Int.floor_natCast, Int.toNat_natCast, sub_self]
  exact if_pos (.inl (by norm_num))

/-- A natural number is printed exactly. -/
theorem fixedValue_natCast (n m : ℕ) : fixedValue n m = m := by
  have hscaled : |(m : ℚ)| * 10 ^ n = ((m * 10 ^ n : ℕ) : ℚ) := by
    rw [Nat.abs_cast]
    push_cast
    rfl
  unfold fixedValue
  rw [if_neg (not_lt.2 (Nat.cast_nonneg m)), hscaled, roundEven_natCast, one_mul]
  push_cast
  exact mul_div_cancel_right₀ _ (by positivity)

end Text
