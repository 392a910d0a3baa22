import ScheduleTest.Lib.Json
import ScheduleTest.Lib.Text
import Mathlib.Tactic

/-!
# JSON texts

A reader of JSON texts, and rules about what it reads. A text reads as a value (`JsonValue.Reads`) if the reader takes just this
text for the value, whatever follows it that does not go on with a number: so do strings without quotes and backslashes, numbers
that are printed, and arrays and objects of texts that read as values.
-/

namespace JsonValue

/-- White space between the parts of a text. -/
def isSpace (c : Char) : Bool := c = ' ' || c = '\n' || c = '\r' || c = '\t'

def skipSpace (s : List Char) : List Char := s.dropWhile isSpace

/-! ### Strings -/

def hexDigit? (c : Char) : Option ℕ :=
  if c.isDigit then some (c.toNat - 48)
  else if 97 ≤ c.toNat ∧ c.toNat ≤ 102 then some (c.toNat - 87)
  else if 65 ≤ c.toNat ∧ c.toNat ≤ 70 then some (c.toNat - 55)
  else none

/-- The number of four hexadecimal digits. -/
def codeUnit? (a b c d : Char) : Option ℕ :=
  (hexDigit? a).bind fun a => (hexDigit? b).bind fun b => (hexDigit? c).bind fun c => (hexDigit? d).map fun d =>
    ((a * 16 + b) * 16 + c) * 16 + d

/-- The character that is written by a backslash and a mark. -/
def escape? (mark : Char) : Option Char :=
  if mark = '"' ∨ mark = '\\' ∨ mark = '/' then some mark
  else if mark = 'b' then some (Char.ofNat 8)
  else if mark = 'f' then some (Char.ofNat 12)
  else if mark = 'n' then some '\n'
  else if mark = 'r' then some '\r'
  else if mark = 't' then some '\t'
  else none

/-- The characters and the code units of a string up to its closing quote, and what follows that. -/
def readUnits : List Char → Option (List (Char ⊕ ℕ) × List Char)
  | [] => none
  | c :: rest =>
    if c = '"' then some ([], rest)
    else if c = '\\' then
      match rest with
      | 'u' :: a :: b :: d :: e :: rest =>
        (codeUnit? a b d e).bind fun unit => (readUnits rest).map fun r => (.inr unit :: r.1, r.2)
      | mark :: rest => (escape? mark).bind fun c => (readUnits rest).map fun r => (.inl c :: r.1, r.2)
      | [] => none
    else if c.toNat < 32 then none
    else (readUnits rest).map fun r => (.inl c :: r.1, r.2)

/-- Two code units may stand for one character. -/
def joinUnits : List (Char ⊕ ℕ) → Option (List Char)
  | [] => some []
  | .inl c :: rest => (joinUnits rest).map (c :: ·)
  | .inr high :: .inr low :: rest =>
    if high < 0xD800 ∨ 0xE000 ≤ high then (joinUnits (.inr low :: rest)).map (Char.ofNat high :: ·)
    else if high < 0xDC00 ∧ 0xDC00 ≤ low ∧ low < 0xE000 then
      (joinUnits rest).map (Char.ofNat (0x10000 + (high - 0xD800) * 0x400 + (low - 0xDC00)) :: ·)
    else none
  | .inr unit :: rest =>
    if unit < 0xD800 ∨ 0xE000 ≤ unit then (joinUnits rest).map (Char.ofNat unit :: ·) else none

/-- A string, behind its first quote. -/
def readString (s : List Char) : Option (String × List Char) :=
  (readUnits s).bind fun r => (joinUnits r.1).map fun text => (String.ofList text, r.2)

/-! ### Numbers and words -/

/-- The digits behind a point, of which there is at least one if there is a point. -/
def readFraction (s : List Char) : Option (List Char × List Char) :=
  if s.head? = some '.' then
    let digits := s.tail.takeWhile Char.isDigit
    if digits = [] then none else some (digits, s.tail.dropWhile Char.isDigit)
  else some ([], s)

/-- An exponent follows. -/
def HasExponent (s : List Char) : Prop := s.head? = some 'e' ∨ s.head? = some 'E'

instance : DecidablePred HasExponent := fun s => inferInstanceAs (Decidable (s.head? = some 'e' ∨ s.head? = some 'E'))

/-- The exponent behind an `e`. -/
def readExponent (s : List Char) : Option (ℤ × List Char) :=
  if HasExponent s then
    let signed := s.tail
    let unsigned := if signed.head? = some '-' ∨ signed.head? = some '+' then signed.tail else signed
    let digits := unsigned.takeWhile Char.isDigit
    let exponent : ℤ := Nat.ofDigitChars 10 digits 0
    if digits = [] then none
    else some (if signed.head? = some '-' then -exponent else exponent, unsigned.dropWhile Char.isDigit)
  else some (0, s)

/-- The number of some digits at a power of ten. It is that of an integer if there are no other parts. -/
def numberOf (minus plain : Bool) (digits : List Char) (scale : ℤ) : JsonValue :=
  let z : ℤ := (if minus then -1 else 1) * Nat.ofDigitChars 10 digits 0
  if plain then ofInt z else double (z * (10 : ℚ) ^ scale)

/-- A number: no zeros in front, a fraction and an exponent. -/
def readNumber (s : List Char) : Option (JsonValue × List Char) :=
  let unsigned := if s.head? = some '-' then s.tail else s
  let whole := unsigned.takeWhile Char.isDigit
  if whole = [] ∨ (whole.head? = some '0' ∧ whole.tail ≠ []) then none
  else (readFraction (unsigned.dropWhile Char.isDigit)).bind fun fraction => (readExponent fraction.2).map fun exponent =>
    (numberOf (s.head? = some '-') (fraction.1 = [] ∧ ¬HasExponent fraction.2) (whole ++ fraction.1)
      (exponent.1 - (fraction.1.length : ℤ)), exponent.2)

/-- A value that is no string, array or object. -/
def readScalar (s : List Char) : Option (JsonValue × List Char) :=
  if "null".toList.isPrefixOf s then some (null, s.drop 4)
  else if "true".toList.isPrefixOf s then some (bool true, s.drop 4)
  else if "false".toList.isPrefixOf s then some (bool false, s.drop 5)
  else readNumber s

/-! ### Values -/

mutual

/-- A value, and what follows it. There is fuel for every level of nesting and every element. -/
def readValue : ℕ → List Char → Option (JsonValue × List Char)
  | 0, _ => none
  | fuel + 1, s =>
    match skipSpace s with
    | [] => none
    | c :: rest =>
      if c = '"' then (readString rest).map fun r => (string r.1, r.2)
      else if c = '[' then
        if (skipSpace rest).head? = some ']' then some (array [], (skipSpace rest).tail)
        else (readElements fuel rest).map fun r => (array r.1, r.2)
      else if c = '\x7b' then
        if (skipSpace rest).head? = some '\x7d' then some (object [], (skipSpace rest).tail)
        else (readMembers fuel rest).map fun r => (object r.1, r.2)
      else readScalar (c :: rest)

/-- The elements of an array that is not empty, and what follows it. -/
def readElements : ℕ → List Char → Option (List JsonValue × List Char)
  | 0, _ => none
  | fuel + 1, s => (readValue fuel s).bind fun v =>
    if (skipSpace v.2).head? = some ',' then (readElements fuel (skipSpace v.2).tail).map fun r => (v.1 :: r.1, r.2)
    else if (skipSpace v.2).head? = some ']' then some ([v.1], (skipSpace v.2).tail)
    else none

/-- The members of an object that is not empty, and what follows it. -/
def readMembers : ℕ → List Char → Option (List (String × JsonValue) × List Char)
  | 0, _ => none
  | fuel + 1, s =>
    if (skipSpace s).head? = some '"' then (readString (skipSpace s).tail).bind fun key =>
      if (skipSpace key.2).head? = some ':' then (readValue fuel (skipSpace key.2).tail).bind fun v =>
        if (skipSpace v.2).head? = some ',' then
          (readMembers fuel (skipSpace v.2).tail).map fun r => ((key.1, v.1) :: r.1, r.2)
        else if (skipSpace v.2).head? = some '\x7d' then some ([(key.1, v.1)], (skipSpace v.2).tail)
        else none
      else none
    else none

end

/-- The value of a JSON text. -/
def parse (text : String) : Option JsonValue :=
  (readValue (text.toList.length + 1) text.toList).bind fun r => if skipSpace r.2 = [] then some r.1 else none

/-! ### What is read -/

/-- A text that stands for itself in a string. -/
def Plain (text : List Char) : Prop := ∀ c ∈ text, c ≠ '"' ∧ c ≠ '\\' ∧ 32 ≤ c.toNat

instance : DecidablePred Plain := List.decidableBAll fun c => c ≠ '"' ∧ c ≠ '\\' ∧ 32 ≤ c.toNat

/-- A number that stands in front is at its end. -/
def Ends (rest : List Char) : Prop := ∀ c ∈ rest.head?, c.isDigit = false ∧ c ≠ '.' ∧ c ≠ 'e' ∧ c ≠ 'E'

/-- A text of spaces. -/
def Spaces (text : List Char) : Prop := ∀ c ∈ text, isSpace c = true

instance : DecidablePred Spaces := List.decidableBAll fun c => isSpace c = true

/-- A text that reads as a value, whatever follows it. It needs no more fuel than its length. -/
def Reads (text : List Char) (value : JsonValue) : Prop :=
  ∀ fuel rest, text.length ≤ fuel → Ends rest → readValue fuel (text ++ rest) = some (value, rest)

variable {text rest spaces : List Char} {value : JsonValue} {texts : List (List Char)} {values : List JsonValue}

theorem ends_nil : Ends [] := fun _ hc => by cases hc

theorem spaces_nil : Spaces [] := fun _ hc => absurd hc List.not_mem_nil

theorem spaces_singleton : Spaces [' '] := by decide

theorem ends_cons {c : Char} (h : c.isDigit = false ∧ c ≠ '.' ∧ c ≠ 'e' ∧ c ≠ 'E') : Ends (c :: rest) := by
  intro x hx
  rwa [← Option.some.inj hx]

/-- Spaces end a number. -/
theorem ends_spaces (hspaces : Spaces spaces) (h : Ends rest) : Ends (spaces ++ rest) := by
  cases spaces with
  | nil => exact h
  | cons c spaces =>
    have hc := hspaces c List.mem_cons_self
    simp only [isSpace, Bool.or_eq_true, decide_eq_true_eq] at hc
    refine ends_cons ?_
    rcases hc with ((rfl | rfl) | rfl) | rfl <;> decide

theorem readUnits_plain (h : Plain text) (rest : List Char) :
    readUnits (text ++ '"' :: rest) = some (text.map .inl, rest) := by
  induction text with
  | nil =>
    rw [List.nil_append, readUnits.eq_def]
    exact if_pos rfl
  | cons c text ih =>
    obtain ⟨hquote, hslash, hprint⟩ := h c List.mem_cons_self
    have ih := ih fun c hc => h c (List.mem_cons_of_mem _ hc)
    rw [List.cons_append, readUnits.eq_def]
    dsimp only
    rw [if_neg hquote, if_neg hslash, if_neg (by omega), ih]
    rfl

theorem joinUnits_map_inl (text : List Char) : joinUnits (text.map .inl) = some text := by
  induction text with
  | nil => rfl
  | cons c text ih => rw [List.map_cons, joinUnits, ih, Option.map_some]

/-- A plain text is read back from between its quotes. -/
theorem readString_plain (h : Plain text) (rest : List Char) :
    readString (text ++ '"' :: rest) = some (String.ofList text, rest) := by
  unfold readString
  rw [readUnits_plain h, Option.bind_some, joinUnits_map_inl, Option.map_some]

theorem skipSpace_cons {c : Char} (h : isSpace c = false) (s : List Char) : skipSpace (c :: s) = c :: s :=
  List.dropWhile_cons_of_neg (by rw [h]; exact Bool.false_ne_true)

theorem skipSpace_spaces (h : Spaces spaces) (s : List Char) : skipSpace (spaces ++ s) = skipSpace s := by
  induction spaces with
  | nil => rfl
  | cons c spaces ih =>
    have ih := ih fun x hx => h x (List.mem_cons_of_mem _ hx)
    exact (List.dropWhile_cons_of_pos (h c List.mem_cons_self)).trans ih

/-- A value is read past spaces. -/
theorem readValue_spaces (h : Spaces spaces) (fuel : ℕ) (s : List Char) : readValue fuel (spaces ++ s) = readValue fuel s := by
  cases fuel with
  | zero => rfl
  | succ fuel => rw [readValue, readValue, skipSpace_spaces h]

/-- What is read as a number is one. -/
theorem of_readNumber {s : List Char} {r : JsonValue × List Char} (h : readNumber s = some r) :
    (∃ z, r.1 = .int z) ∨ ∃ x, r.1 = .double x := by
  unfold readNumber at h
  dsimp only at h
  generalize (if s.head? = some '-' then s.tail else s) = unsigned at h
  split at h
  · cases h
  · obtain ⟨fraction, -, h⟩ := Option.bind_eq_some_iff.1 h
    obtain ⟨exponent, -, rfl⟩ := Option.map_eq_some_iff.1 h
    unfold numberOf ofInt
    generalize (if decide (s.head? = some '-') = true then (-1 : ℤ) else 1) * _ = z
    dsimp only
    split
    · split
      · exact .inl ⟨_, rfl⟩
      · exact .inr ⟨_, rfl⟩
    · exact .inr ⟨_, rfl⟩

/-- No value begins with a bracket that closes. -/
theorem readScalar_bracket (rest : List Char) : readScalar (']' :: rest) = none := by
  have hdigits : (']' :: rest).takeWhile Char.isDigit = [] := List.takeWhile_cons_of_neg (by decide)
  have hnumber : readNumber (']' :: rest) = none := by simp [readNumber, hdigits]
  unfold readScalar
  rw [hnumber]
  simp

theorem head?_of_readValue {fuel : ℕ} {s : List Char} {r : JsonValue × List Char} (h : readValue fuel s = some r) :
    (skipSpace s).head? ≠ some ']' := by
  intro hhead
  obtain ⟨rest, hs⟩ := List.head?_eq_some_iff.1 hhead
  cases fuel with
  | zero => cases h
  | succ fuel =>
    rw [readValue, hs] at h
    dsimp only at h
    rw [if_neg (by decide), if_neg (by decide), if_neg (by decide), readScalar_bracket] at h
    cases h

/-! ### Numbers that are printed -/

/-- The first digit of a number is no zero, unless the number is. -/
theorem head?_toDigits (n : ℕ) : (Nat.toDigits 10 n).head? = some '0' → (Nat.toDigits 10 n).tail = [] := by
  induction n using Nat.strong_induction_on with
  | _ n ih =>
    by_cases hn : n < 10
    · rw [Nat.toDigits_of_lt_base hn]
      exact fun _ => rfl
    · have hdigits := Nat.toDigits_of_base_le (b := 10) (by decide) (not_lt.1 hn)
      have ih := ih (n / 10) (by omega)
      cases hfront : Nat.toDigits 10 (n / 10) with
      | nil => exact absurd hfront Nat.toDigits_ne_nil
      | cons c digits =>
        rw [hfront] at hdigits ih
        rw [hdigits]
        intro hzero
        -- the quotient is then zero, but it is not
        obtain rfl : digits = [] := ih hzero
        obtain rfl : c = '0' := Option.some.inj hzero
        have hvalue := Nat.ofDigitChars_ten_toDigits (n := n / 10)
        rw [hfront] at hvalue
        have hquotient : n / 10 = 0 := by rw [← hvalue]; rfl
        omega

/-- Digits in front are taken, and no more. -/
theorem span_digits {digits : List Char} (hdigits : ∀ c ∈ digits, c.isDigit = true)
    (hrest : ∀ c ∈ rest.head?, c.isDigit = false) :
    (digits ++ rest).takeWhile Char.isDigit = digits ∧ (digits ++ rest).dropWhile Char.isDigit = rest := by
  rw [List.takeWhile_append_of_pos hdigits, List.dropWhile_append_of_pos hdigits]
  cases rest with
  | nil => exact ⟨List.append_nil _, rfl⟩
  | cons c rest =>
    have hc : ¬c.isDigit = true := by rw [hrest c rfl]; exact Bool.false_ne_true
    rw [List.takeWhile_cons_of_neg hc, List.dropWhile_cons_of_neg hc]
    exact ⟨List.append_nil _, rfl⟩

/-- The text of a fraction. -/
def fractionText (fraction : Option (List Char)) : List Char := fraction.elim [] ('.' :: ·)

theorem readFraction_text {fraction : Option (List Char)}
    (hfraction : ∀ digits ∈ fraction, digits ≠ [] ∧ ∀ c ∈ digits, c.isDigit = true) (hrest : Ends rest) :
    readFraction (fractionText fraction ++ rest) = some (fraction.getD [], rest) := by
  unfold readFraction
  cases fraction with
  | none =>
    refine if_neg fun hpoint => ?_
    exact (hrest '.' hpoint).2.1 rfl
  | some digits =>
    obtain ⟨hne, hdigits⟩ := hfraction digits rfl
    obtain ⟨htake, hdrop⟩ := span_digits hdigits fun c hc => (hrest c hc).1
    change (if some '.' = some '.' then
      if (digits ++ rest).takeWhile Char.isDigit = [] then none
      else some ((digits ++ rest).takeWhile Char.isDigit, (digits ++ rest).dropWhile Char.isDigit) else _) = _
    rw [if_pos rfl, htake, hdrop, if_neg hne]
    rfl

/-- What ends a number is no exponent. -/
theorem not_hasExponent (hrest : Ends rest) : ¬HasExponent rest :=
  not_or.2 ⟨fun he => (hrest 'e' he).2.2.1 rfl, fun he => (hrest 'E' he).2.2.2 rfl⟩

theorem readExponent_ends (hrest : Ends rest) : readExponent rest = some (0, rest) := if_neg (not_hasExponent hrest)

/-- A number: digits without zeros in front, and maybe a fraction. -/
theorem readNumber_token (minus : Bool) {whole : List Char} {fraction : Option (List Char)} (hne : whole ≠ [])
    (hwhole : ∀ c ∈ whole, c.isDigit = true) (hzero : whole.head? = some '0' → whole.tail = [])
    (hfraction : ∀ digits ∈ fraction, digits ≠ [] ∧ ∀ c ∈ digits, c.isDigit = true) (hrest : Ends rest) :
    readNumber ((if minus then ['-'] else []) ++ (whole ++ (fractionText fraction ++ rest))) =
      some (numberOf minus (fraction.getD [] = []) (whole ++ fraction.getD []) (0 - ((fraction.getD []).length : ℤ)), rest) := by
  have hbehind : ∀ c ∈ (fractionText fraction ++ rest).head?, c.isDigit = false := by
    cases fraction with
    | none => exact fun c hc => (hrest c hc).1
    | some digits =>
      intro c hc
      rw [← Option.some.inj hc]
      decide
  obtain ⟨htake, hdrop⟩ := span_digits hwhole hbehind
  obtain ⟨d, digits, rfl⟩ := List.exists_cons_of_ne_nil hne
  have hd : d ≠ '-' := by
    rintro rfl
    exact absurd (hwhole '-' List.mem_cons_self) (by decide)
  -- the sign is taken off
  have hsign : decide (((if minus then ['-'] else []) ++ (d :: digits ++ (fractionText fraction ++ rest))).head? = some '-') =
      minus := by
    cases minus with
    | true => rfl
    | false => exact decide_eq_false fun h => hd (Option.some.inj h)
  have hunsigned : (if ((if minus then ['-'] else []) ++ (d :: digits ++ (fractionText fraction ++ rest))).head? = some '-' then
      ((if minus then ['-'] else []) ++ (d :: digits ++ (fractionText fraction ++ rest))).tail
      else (if minus then ['-'] else []) ++ (d :: digits ++ (fractionText fraction ++ rest))) =
      d :: digits ++ (fractionText fraction ++ rest) := by
    cases minus with
    | true => exact if_pos rfl
    | false => exact if_neg fun h => hd (Option.some.inj h)
  unfold readNumber
  dsimp only
  rw [hunsigned, htake, hdrop, if_neg, readFraction_text hfraction hrest, Option.bind_some, readExponent_ends hrest]
  · simp only [Option.map_some, hsign, not_hasExponent hrest, not_false_eq_true, and_true]
  · rintro (h | ⟨h, h'⟩)
    · cases h
    · exact h' (hzero h)

/-- The text of such a number reads as it. -/
theorem Reads.token (minus : Bool) {whole : List Char} {fraction : Option (List Char)} (hne : whole ≠ [])
    (hwhole : ∀ c ∈ whole, c.isDigit = true) (hzero : whole.head? = some '0' → whole.tail = [])
    (hfraction : ∀ digits ∈ fraction, digits ≠ [] ∧ ∀ c ∈ digits, c.isDigit = true) :
    Reads ((if minus then ['-'] else []) ++ (whole ++ fractionText fraction))
      (numberOf minus (fraction.getD [] = []) (whole ++ fraction.getD []) (0 - ((fraction.getD []).length : ℤ))) := by
  intro fuel rest hfuel hrest
  have hread := readNumber_token minus hne hwhole hzero hfraction hrest
  obtain ⟨d, digits, rfl⟩ := List.exists_cons_of_ne_nil hne
  have hdigit := hwhole d List.mem_cons_self
  -- the first character is a sign or a digit
  obtain ⟨c, tail, htext, hc⟩ : ∃ c tail,
      (if minus then ['-'] else []) ++ (d :: digits ++ (fractionText fraction ++ rest)) = c :: tail ∧
        (c = '-' ∨ c.isDigit = true) := by
    cases minus with
    | true => exact ⟨_, _, rfl, .inl rfl⟩
    | false => exact ⟨_, _, rfl, .inr hdigit⟩
  have hne' : ∀ x, x.isDigit = false → x ≠ '-' → c ≠ x := by
    rintro x hx hminus rfl
    rcases hc with rfl | hc
    · exact hminus rfl
    · rw [hx] at hc
      cases hc
  have hspace : isSpace c = false := by
    simp only [isSpace, Bool.or_eq_false_iff, decide_eq_false_iff_not]
    exact ⟨⟨⟨hne' _ (by decide) (by decide), hne' _ (by decide) (by decide)⟩, hne' _ (by decide) (by decide)⟩,
      hne' _ (by decide) (by decide)⟩
  cases fuel with
  | zero => simp at hfuel
  | succ fuel =>
    rw [List.append_assoc, List.append_assoc]
    rw [htext] at hread ⊢
    rw [readValue, skipSpace_cons hspace]
    dsimp only
    rw [if_neg (hne' _ (by decide) (by decide)), if_neg (hne' _ (by decide) (by decide)), if_neg (hne' _ (by decide) (by decide))]
    have hword : ∀ x word, x.isDigit = false → x ≠ '-' → ¬(x :: word).isPrefixOf (c :: tail) = true := by
      intro x word hx hminus hword
      rw [List.isPrefixOf_cons_cons, Bool.and_eq_true, beq_iff_eq] at hword
      exact hne' x hx hminus hword.1.symm
    have hnull := hword 'n' ['u', 'l', 'l'] (by decide) (by decide)
    have htrue := hword 't' ['r', 'u', 'e'] (by decide) (by decide)
    have hfalse := hword 'f' ['a', 'l', 's', 'e'] (by decide) (by decide)
    unfold readScalar
    exact ((if_neg hnull).trans ((if_neg htrue).trans (if_neg hfalse))).trans hread

theorem isWide_of_isInt {z : ℤ} (hz : Text.IsInt z) : IsWide z := by
  unfold Text.IsInt at hz
  unfold IsWide
  omega

namespace Reads

theorem digits_toDigits (n : ℕ) : ∀ c ∈ Nat.toDigits 10 n, c.isDigit = true := fun _ hc =>
  Nat.isDigit_of_mem_toDigits (by decide) (by decide) hc

/-- What is printed for an integer. -/
theorem integer (z : ℤ) : Reads (toString z).toList (.ofInt z) := by
  have hread := @token (decide (z < 0)) (Nat.toDigits 10 z.natAbs) none Nat.toDigits_ne_nil (digits_toDigits _)
    (head?_toDigits _) fun _ h => by cases h
  have hvalue : (if decide (z < 0) then -1 else 1) * (Nat.ofDigitChars 10 (Nat.toDigits 10 z.natAbs ++ []) 0 : ℤ) = z := by
    rw [List.append_nil, Nat.ofDigitChars_ten_toDigits]
    by_cases hz : z < 0
    · rw [if_pos (decide_eq_true hz)]
      omega
    · rw [if_neg (by simpa using hz)]
      omega
  have htext : (toString z).toList =
      (if decide (z < 0) then ['-'] else []) ++ (Nat.toDigits 10 z.natAbs ++ fractionText none) := by
    rw [Text.toList_toString]
    by_cases hz : z < 0
    · rw [if_neg (by omega), if_pos (decide_eq_true hz)]
      simp [fractionText]
    · rw [if_pos (by omega), if_neg (by simpa using hz)]
      simp [fractionText]
  have hnumber : numberOf (decide (z < 0)) (decide (([] : List Char) = [])) (Nat.toDigits 10 z.natAbs ++ [])
      (0 - (([] : List Char).length : ℤ)) = .ofInt z := by
    unfold numberOf
    rw [hvalue]
    exact if_pos (decide_eq_true rfl)
  rw [Option.getD_none, hnumber] at hread
  rw [htext]
  exact hread

/-- The digits of a quotient and a remainder, with zeros between them, are those of the number. -/
theorem ofDigitChars_fixed {n : ℕ} (hn : 0 < n) (scaled : ℕ) :
    Nat.ofDigitChars 10 (Nat.toDigits 10 (scaled / 10 ^ n) ++
      (List.replicate (n - (Nat.toDigits 10 (scaled % 10 ^ n)).length) '0' ++ Nat.toDigits 10 (scaled % 10 ^ n))) 0 = scaled := by
  have hlength : (Nat.toDigits 10 (scaled % 10 ^ n)).length ≤ n :=
    (Nat.length_toDigits_le_iff (by decide) hn).2 (Nat.mod_lt _ (by positivity))
  rw [Nat.ofDigitChars_append, Nat.ofDigitChars_append, Nat.ofDigitChars_ten_toDigits, Nat.ofDigitChars_replicate_zero,
    Nat.ofDigitChars_eq_ofDigitChars_zero, Nat.ofDigitChars_ten_toDigits, ← Nat.mul_assoc, ← Nat.pow_add]
  have hexponent : (Nat.toDigits 10 (scaled % 10 ^ n)).length + (n - (Nat.toDigits 10 (scaled % 10 ^ n)).length) = n := by omega
  rw [hexponent]
  exact Nat.div_add_mod scaled (10 ^ n)

/-- What is printed for a number with a fixed number of digits behind the point: the nearest number of that kind. -/
theorem fixed {n : ℕ} (hn : 0 < n) (x : ℚ) : Reads (Text.printFixed n x) (.double (Text.fixedValue n x)) := by
  unfold Text.printFixed Text.fixedValue
  dsimp only
  generalize Text.roundEven (|x| * 10 ^ n) = scaled
  have hlength : (Nat.toDigits 10 (scaled % 10 ^ n)).length ≤ n :=
    (Nat.length_toDigits_le_iff (by decide) hn).2 (Nat.mod_lt _ (by positivity))
  have hnumber := ofDigitChars_fixed hn scaled
  generalize hfraction : List.replicate (n - (Nat.toDigits 10 (scaled % 10 ^ n)).length) '0' ++
    Nat.toDigits 10 (scaled % 10 ^ n) = fraction at hnumber ⊢
  have hdigits : ∀ digits ∈ some fraction, digits ≠ [] ∧ ∀ c ∈ digits, c.isDigit = true := by
    intro digits heq
    obtain rfl := Option.some.inj heq
    rw [← hfraction]
    refine ⟨fun hnil => Nat.toDigits_ne_nil (List.append_eq_nil_iff.1 hnil).2, fun c hc => ?_⟩
    rcases List.mem_append.1 hc with hc | hc
    · rw [List.eq_of_mem_replicate hc]
      decide
    · exact digits_toDigits _ c hc
  have hfractionLength : fraction.length = n := by
    rw [← hfraction, List.length_append, List.length_replicate]
    omega
  have hread := token (decide (x < 0)) Nat.toDigits_ne_nil (digits_toDigits (scaled / 10 ^ n)) (head?_toDigits _) hdigits
  have hvalue : numberOf (decide (x < 0)) (decide (fraction = [])) (Nat.toDigits 10 (scaled / 10 ^ n) ++ fraction)
      (0 - (fraction.length : ℤ)) = .double ((if x < 0 then -1 else 1) * (scaled / 10 ^ n)) := by
    unfold numberOf
    dsimp only
    rw [hnumber, hfractionLength, if_neg fun h => (hdigits fraction rfl).1 (of_decide_eq_true h), zero_sub, zpow_neg, zpow_natCast,
      ← div_eq_mul_inv, Int.cast_mul, Int.cast_natCast, mul_div_assoc]
    by_cases hx : x < 0 <;> simp [hx]
  rw [Option.getD_some, hvalue] at hread
  have htext : (if x < 0 then ['-'] else []) ++ Nat.toDigits 10 (scaled / 10 ^ n) ++ '.' :: fraction =
      (if decide (x < 0) then ['-'] else []) ++ (Nat.toDigits 10 (scaled / 10 ^ n) ++ fractionText (some fraction)) := by
    simp only [decide_eq_true_eq, fractionText, Option.elim_some, List.append_assoc]
  rw [htext]
  exact hread

/-! ### Strings, arrays and objects -/

theorem string (h : Plain text) : Reads ('"' :: (text ++ ['"'])) (.string (String.ofList text)) := by
  intro fuel rest hfuel _
  cases fuel with
  | zero => simp at hfuel
  | succ fuel =>
    rw [readValue, List.cons_append, skipSpace_cons (by decide)]
    dsimp only
    rw [if_pos rfl, List.append_assoc, List.singleton_append, readString_plain h]
    rfl

theorem bool (b : Bool) : Reads (if b then "true" else "false").toList (.bool b) := by
  intro fuel rest hfuel _
  cases fuel with
  | zero =>
    have hpos : 0 < (if b then "true" else "false").toList.length := by cases b <;> decide
    omega
  | succ fuel =>
    cases b with
    | true =>
      change readValue (fuel + 1) ('t' :: 'r' :: 'u' :: 'e' :: rest) = _
      rw [readValue, skipSpace_cons (by decide)]
      dsimp only
      rw [if_neg (by decide), if_neg (by decide), if_neg (by decide)]
      simp [readScalar]
    | false =>
      change readValue (fuel + 1) ('f' :: 'a' :: 'l' :: 's' :: 'e' :: rest) = _
      rw [readValue, skipSpace_cons (by decide)]
      dsimp only
      rw [if_neg (by decide), if_neg (by decide), if_neg (by decide)]
      simp [readScalar]

/-- Spaces in front do not matter. -/
theorem after_spaces (hspaces : Spaces spaces) (h : Reads text value) : Reads (spaces ++ text) value := by
  intro fuel rest hfuel hrest
  rw [List.length_append] at hfuel
  rw [List.append_assoc, readValue_spaces hspaces, h fuel rest (by omega) hrest]

/-- An element of an array: a text that reads as a value, with spaces behind it. -/
def Element (text : List Char) (value : JsonValue) : Prop :=
  ∃ valueText after, text = valueText ++ after ∧ Spaces after ∧ Reads valueText value

theorem element (h : Reads text value) : Element text value := ⟨text, [], (List.append_nil _).symm, spaces_nil, h⟩

/-- The first element of an array is read, and the others if a comma follows. -/
theorem readElements_append (h : Element text value) {fuel : ℕ} (hfuel : text.length ≤ fuel) {after : List Char}
    (hafter : Ends after) : readElements (fuel + 1) (text ++ after) =
      if (skipSpace after).head? = some ',' then (readElements fuel (skipSpace after).tail).map fun r => (value :: r.1, r.2)
      else if (skipSpace after).head? = some ']' then some ([value], (skipSpace after).tail)
      else none := by
  obtain ⟨valueText, spaces, rfl, hspaces, hvalue⟩ := h
  rw [List.length_append] at hfuel
  rw [readElements, List.append_assoc, hvalue fuel _ (by omega) (ends_spaces hspaces hafter), Option.bind_some]
  dsimp only
  rw [skipSpace_spaces hspaces]

/-- An element that a comma follows. -/
theorem readElements_comma (h : Element text value) {fuel : ℕ} (hfuel : text.length ≤ fuel) (after : List Char) :
    readElements (fuel + 1) (text ++ ',' :: after) = (readElements fuel after).map fun r => (value :: r.1, r.2) := by
  rw [readElements_append h hfuel (ends_cons (by decide)), skipSpace_cons (by decide), List.head?_cons, if_pos rfl,
    List.tail_cons]

/-- Elements with a comma between two of them. -/
theorem elements (h : List.Forall₂ Element texts values) (hne : texts ≠ []) :
    ∀ fuel rest, ([','].intercalate texts).length + 1 ≤ fuel →
      readElements fuel ([','].intercalate texts ++ ']' :: rest) = some (values, rest) := by
  induction h with
  | nil => exact absurd rfl hne
  | @cons text value texts values hfirst hrest ih =>
    intro fuel rest hfuel
    cases fuel with
    | zero => omega
    | succ fuel =>
      cases texts with
      | nil =>
        cases hrest
        rw [List.intercalate_singleton] at hfuel ⊢
        rw [readElements_append hfirst (by omega) (ends_cons (by decide)), skipSpace_cons (by decide), List.head?_cons,
          if_neg (by decide), if_pos rfl, List.tail_cons]
      | cons text' texts =>
        rw [List.intercalate_cons_cons] at hfuel ⊢
        simp only [List.length_append, List.length_cons, List.length_nil] at hfuel
        have hnext := ih (List.cons_ne_nil _ _) fuel rest (by omega)
        rw [List.append_assoc, List.append_assoc, List.singleton_append, readElements_comma hfirst (by omega), hnext]
        rfl

/-- What an array begins with is no bracket that closes. -/
theorem head?_of_element (h : Element text value) {after : List Char} (hafter : Ends after) :
    (skipSpace (text ++ after)).head? ≠ some ']' := by
  obtain ⟨valueText, spaces, rfl, hspaces, hvalue⟩ := h
  rw [List.append_assoc]
  exact head?_of_readValue (hvalue valueText.length _ le_rfl (ends_spaces hspaces hafter))

/-- An array of elements, of which there may be none, with spaces behind the bracket that opens. -/
theorem spacedArray (hspaces : Spaces spaces) (h : List.Forall₂ Element texts values) :
    Reads ('[' :: (spaces ++ ([','].intercalate texts ++ [']']))) (.array values) := by
  intro fuel rest hfuel _
  simp only [List.length_cons, List.length_append, List.length_nil] at hfuel
  cases fuel with
  | zero => omega
  | succ fuel =>
    rw [List.cons_append, List.append_assoc, List.append_assoc, readValue, skipSpace_cons (by decide)]
    dsimp only
    rw [if_neg (by decide), if_pos rfl, skipSpace_spaces hspaces]
    cases h with
    | nil =>
      rw [List.intercalate_nil, List.nil_append, List.singleton_append, skipSpace_cons (by decide), List.head?_cons, if_pos rfl]
      rfl
    | @cons text value texts values hfirst hrest =>
      have helements := elements (.cons hfirst hrest) (List.cons_ne_nil _ _) fuel rest (by omega)
      have hhead : (skipSpace ([','].intercalate (text :: texts) ++ ([']'] ++ rest))).head? ≠ some ']' := by
        cases texts with
        | nil =>
          rw [List.intercalate_singleton]
          exact head?_of_element hfirst (ends_cons (by decide))
        | cons text' texts =>
          rw [List.intercalate_cons_cons, List.append_assoc, List.append_assoc]
          exact head?_of_element hfirst (ends_cons (by decide))
      have hskip : readElements fuel (spaces ++ ([','].intercalate (text :: texts) ++ ([']'] ++ rest))) =
          readElements fuel ([','].intercalate (text :: texts) ++ ([']'] ++ rest)) := by
        cases fuel with
        | zero => rfl
        | succ fuel => rw [readElements, readElements, readValue_spaces hspaces]
      rw [if_neg hhead, hskip, List.singleton_append, helements]
      rfl

/-- A space behind each comma is a space in front of each element but the first. -/
theorem intercalate_comma_space (text : List Char) (texts : List (List Char)) :
    [',', ' '].intercalate (text :: texts) = [','].intercalate (text :: texts.map (' ' :: ·)) := by
  induction texts generalizing text with
  | nil => rfl
  | cons text' texts ih =>
    rw [List.map_cons, List.intercalate_cons_cons, List.intercalate_cons_cons, ih text']
    cases texts with
    | nil => simp
    | cons text'' texts => simp [List.intercalate_cons_cons]

/-- An array of elements that read as values, with a comma and a space between two of them. -/
theorem array (h : List.Forall₂ Reads texts values) :
    Reads ('[' :: ([',', ' '].intercalate texts ++ [']'])) (.array values) := by
  cases h with
  | nil => exact spacedArray spaces_nil .nil
  | @cons text value texts values hfirst hrest =>
    rw [intercalate_comma_space]
    refine spacedArray spaces_nil (.cons (element hfirst) ?_)
    rw [List.forall₂_map_left_iff]
    exact hrest.imp fun _ _ h => element (after_spaces spaces_singleton h)

/-- A member of an object: a plain key and a text that reads as its value, with spaces around them and behind the key. -/
def Member (text : List Char) (member : String × JsonValue) : Prop :=
  ∃ before key behindKey valueText after,
    text = before ++ '"' :: (key ++ '"' :: (behindKey ++ ':' :: (valueText ++ after))) ∧ Spaces before ∧ Spaces behindKey ∧
      Spaces after ∧ Plain key ∧ member.1 = String.ofList key ∧ Reads valueText member.2

/-- Before its value a member is read in this way. -/
theorem readMembers_key {before key behindKey : List Char} (hbefore : Spaces before) (hkey : Plain key)
    (hbehind : Spaces behindKey) (fuel : ℕ) (behind : List Char) :
    readMembers (fuel + 1) (before ++ '"' :: (key ++ '"' :: (behindKey ++ ':' :: behind))) =
      (readValue fuel behind).bind fun v =>
        if (skipSpace v.2).head? = some ',' then
          (readMembers fuel (skipSpace v.2).tail).map fun r => ((String.ofList key, v.1) :: r.1, r.2)
        else if (skipSpace v.2).head? = some '\x7d' then some ([(String.ofList key, v.1)], (skipSpace v.2).tail)
        else none := by
  rw [readMembers, skipSpace_spaces hbefore, skipSpace_cons (by decide), List.head?_cons, if_pos rfl, List.tail_cons,
    readString_plain hkey, Option.bind_some]
  dsimp only
  rw [skipSpace_spaces hbehind, skipSpace_cons (by decide), List.head?_cons, if_pos rfl, List.tail_cons]

/-- The first member of an object is read, and the others if a comma follows. -/
theorem readMembers_append {member : String × JsonValue} (h : Member text member) {fuel : ℕ} (hfuel : text.length ≤ fuel)
    {after : List Char} (hafter : Ends after) : readMembers (fuel + 1) (text ++ after) =
      if (skipSpace after).head? = some ',' then (readMembers fuel (skipSpace after).tail).map fun r => (member :: r.1, r.2)
      else if (skipSpace after).head? = some '\x7d' then some ([member], (skipSpace after).tail)
      else none := by
  obtain ⟨before, key, behindKey, valueText, spaces, rfl, hbefore, hbehind, hspaces, hplain, hkey, hvalue⟩ := h
  obtain ⟨name, value⟩ := member
  obtain rfl : name = String.ofList key := hkey
  simp only [List.length_append, List.length_cons] at hfuel
  have hread := hvalue fuel (spaces ++ after) (by omega) (ends_spaces hspaces hafter)
  have htext : before ++ '"' :: (key ++ '"' :: (behindKey ++ ':' :: (valueText ++ spaces))) ++ after =
      before ++ '"' :: (key ++ '"' :: (behindKey ++ ':' :: (valueText ++ (spaces ++ after)))) := by simp
  rw [htext, readMembers_key hbefore hplain hbehind, hread, Option.bind_some]
  dsimp only
  rw [skipSpace_spaces hspaces]

/-- A member that a comma follows. -/
theorem readMembers_comma {member : String × JsonValue} (h : Member text member) {fuel : ℕ} (hfuel : text.length ≤ fuel)
    (after : List Char) : readMembers (fuel + 1) (text ++ ',' :: after) =
      (readMembers fuel after).map fun r => (member :: r.1, r.2) := by
  rw [readMembers_append h hfuel (ends_cons (by decide)), skipSpace_cons (by decide), List.head?_cons, if_pos rfl, List.tail_cons]

/-- Members with a comma between two of them. -/
theorem members {members : List (String × JsonValue)} (h : List.Forall₂ Member texts members) (hne : texts ≠ []) :
    ∀ fuel rest, ([','].intercalate texts).length + 1 ≤ fuel →
      readMembers fuel ([','].intercalate texts ++ '\x7d' :: rest) = some (members, rest) := by
  induction h with
  | nil => exact absurd rfl hne
  | @cons text member texts members hfirst hrest ih =>
    intro fuel rest hfuel
    cases fuel with
    | zero => omega
    | succ fuel =>
      cases texts with
      | nil =>
        cases hrest
        rw [List.intercalate_singleton] at hfuel ⊢
        rw [readMembers_append hfirst (by omega) (ends_cons (by decide)), skipSpace_cons (by decide), List.head?_cons,
          if_neg (by decide), if_pos rfl, List.tail_cons]
      | cons text' texts =>
        rw [List.intercalate_cons_cons] at hfuel ⊢
        simp only [List.length_append, List.length_cons, List.length_nil] at hfuel
        have hnext := ih (List.cons_ne_nil _ _) fuel rest (by omega)
        rw [List.append_assoc, List.append_assoc, List.singleton_append, readMembers_comma hfirst (by omega), hnext]
        rfl

/-- A member begins with a quote. -/
theorem quote_of_member {member : String × JsonValue} (h : Member text member) (after : List Char) :
    (skipSpace (text ++ after)).head? = some '"' := by
  obtain ⟨before, key, behindKey, valueText, spaces, rfl, hbefore, _⟩ := h
  rw [List.append_assoc, skipSpace_spaces hbefore, List.cons_append, skipSpace_cons (by decide), List.head?_cons]

/-- An object whose text goes on with a quote is read by its members. -/
theorem readValue_object {s : List Char} (hquote : (skipSpace s).head? = some '"') (fuel : ℕ) :
    readValue (fuel + 1) ('\x7b' :: s) = (readMembers fuel s).map fun r => (.object r.1, r.2) := by
  rw [readValue, skipSpace_cons (by decide)]
  dsimp only
  rw [if_neg (by decide), if_neg (by decide), if_pos rfl, hquote, if_neg (by decide)]

/-- An object of members, of which there is at least one. -/
theorem object {members : List (String × JsonValue)} (h : List.Forall₂ Member texts members) (hne : texts ≠ []) :
    Reads ('\x7b' :: ([','].intercalate texts ++ ['\x7d'])) (.object members) := by
  intro fuel rest hfuel _
  rw [List.length_cons, List.length_append, List.length_singleton] at hfuel
  cases fuel with
  | zero => omega
  | succ fuel =>
    have hmembers := Reads.members h hne fuel rest (by omega)
    have hquote : (skipSpace ([','].intercalate texts ++ '\x7d' :: rest)).head? = some '"' := by
      cases h with
      | nil => exact absurd rfl hne
      | @cons text member texts members hfirst hrest =>
        cases texts with
        | nil =>
          rw [List.intercalate_singleton]
          exact quote_of_member hfirst _
        | cons text' texts =>
          rw [List.intercalate_cons_cons, List.append_assoc, List.append_assoc]
          exact quote_of_member hfirst _
    rw [List.cons_append, List.append_assoc, List.singleton_append, readValue_object hquote, hmembers]
    rfl

end Reads

/-! ### What a text that was read begins with -/

/-- More fuel reads the same. -/
theorem read_succ (fuel : ℕ) :
    (∀ s r, readValue fuel s = some r → readValue (fuel + 1) s = some r) ∧
    (∀ s r, readElements fuel s = some r → readElements (fuel + 1) s = some r) ∧
    (∀ s r, readMembers fuel s = some r → readMembers (fuel + 1) s = some r) := by
  induction fuel with
  | zero =>
    refine ⟨?_, ?_, ?_⟩ <;>
    · intro s r h
      cases h
  | succ fuel ih =>
    obtain ⟨hvalue, helements, hmembers⟩ := ih
    refine ⟨fun s r h => ?_, fun s r h => ?_, fun s r h => ?_⟩
    · rw [readValue] at h ⊢
      cases hs : skipSpace s with
      | nil =>
        rw [hs] at h
        cases h
      | cons c rest =>
        rw [hs] at h
        dsimp only at h ⊢
        split at h
        · rw [if_pos ‹_›, h]
        · rw [if_neg ‹_›]
          split at h
          · rw [if_pos ‹_›]
            split at h
            · rw [if_pos ‹_›, h]
            · rw [if_neg ‹_›]
              obtain ⟨r', hr', rfl⟩ := Option.map_eq_some_iff.1 h
              rw [helements _ _ hr', Option.map_some]
          · rw [if_neg ‹_›]
            split at h
            · rw [if_pos ‹_›]
              split at h
              · rw [if_pos ‹_›, h]
              · rw [if_neg ‹_›]
                obtain ⟨r', hr', rfl⟩ := Option.map_eq_some_iff.1 h
                rw [hmembers _ _ hr', Option.map_some]
            · rw [if_neg ‹_›, h]
    · rw [readElements] at h ⊢
      obtain ⟨v, hv, h⟩ := Option.bind_eq_some_iff.1 h
      rw [hvalue _ _ hv, Option.bind_some]
      split at h
      · rw [if_pos ‹_›]
        obtain ⟨r', hr', rfl⟩ := Option.map_eq_some_iff.1 h
        rw [helements _ _ hr', Option.map_some]
      · rw [if_neg ‹_›, h]
    · rw [readMembers] at h ⊢
      split at h
      · rw [if_pos ‹_›]
        obtain ⟨key, hkey, h⟩ := Option.bind_eq_some_iff.1 h
        rw [hkey, Option.bind_some]
        split at h
        · rw [if_pos ‹_›]
          obtain ⟨v, hv, h⟩ := Option.bind_eq_some_iff.1 h
          rw [hvalue _ _ hv, Option.bind_some]
          split at h
          · rw [if_pos ‹_›]
            obtain ⟨r', hr', rfl⟩ := Option.map_eq_some_iff.1 h
            rw [hmembers _ _ hr', Option.map_some]
          · rw [if_neg ‹_›, h]
        · cases h
      · cases h

theorem readValue_mono {fuel : ℕ} {s : List Char} {r : JsonValue × List Char} (h : readValue fuel s = some r) (k : ℕ) :
    readValue (fuel + k) s = some r := by
  induction k with
  | zero => exact h
  | succ k ih => exact (read_succ _).1 _ _ ih

theorem readMembers_mono {fuel : ℕ} {s : List Char} {r : List (String × JsonValue) × List Char}
    (h : readMembers fuel s = some r) (k : ℕ) : readMembers (fuel + k) s = some r := by
  induction k with
  | zero => exact h
  | succ k ih => exact (read_succ _).2.2 _ _ ih

/-- An object that was read, whose text goes on with a quote. -/
theorem object_of_readValue {fuel : ℕ} {s : List Char} {r : JsonValue × List Char} (hquote : (skipSpace s).head? = some '"')
    (h : readValue fuel ('\x7b' :: s) = some r) :
    ∃ fuel' members, readMembers fuel' s = some (members, r.2) ∧ r.1 = .object members := by
  cases fuel with
  | zero => cases h
  | succ fuel =>
    rw [Reads.readValue_object hquote] at h
    obtain ⟨r', hr', rfl⟩ := Option.map_eq_some_iff.1 h
    exact ⟨fuel, r'.1, hr', rfl⟩

/-- Members that were read, the first of which reads as a member. -/
theorem cons_of_readMembers {fuel : ℕ} {text' : List Char} {member : String × JsonValue}
    {r : List (String × JsonValue) × List Char} (hmember : Reads.Member text member)
    (h : readMembers fuel ([','].intercalate (text :: text' :: texts) ++ rest) = some r) :
    ∃ fuel' members, readMembers fuel' ([','].intercalate (text' :: texts) ++ rest) = some (members, r.2) ∧
      r.1 = member :: members := by
  have hread := readMembers_mono h (text.length + 1)
  rw [← Nat.add_assoc, List.intercalate_cons_cons, List.append_assoc, List.append_assoc, List.singleton_append,
    Reads.readMembers_comma hmember (Nat.le_add_left _ _)] at hread
  obtain ⟨r', hr', rfl⟩ := Option.map_eq_some_iff.1 hread
  exact ⟨_, r'.1, hr', rfl⟩

/-- Members that were read, whose text begins with a key. -/
theorem value_of_readMembers {fuel : ℕ} {before key behindKey behind : List Char} {r : List (String × JsonValue) × List Char}
    (hbefore : Spaces before) (hkey : Plain key) (hbehind : Spaces behindKey)
    (h : readMembers fuel (before ++ '"' :: (key ++ '"' :: (behindKey ++ ':' :: behind))) = some r) :
    ∃ fuel' v members, readValue fuel' behind = some v ∧ r.1 = (String.ofList key, v.1) :: members := by
  cases fuel with
  | zero => cases h
  | succ fuel =>
    rw [Reads.readMembers_key hbefore hkey hbehind] at h
    obtain ⟨v, hv, h⟩ := Option.bind_eq_some_iff.1 h
    split at h
    · obtain ⟨r', -, rfl⟩ := Option.map_eq_some_iff.1 h
      exact ⟨fuel, v, r'.1, hv, rfl⟩
    · split at h
      · obtain rfl := Option.some.inj h
        exact ⟨fuel, v, [], hv, rfl⟩
      · cases h

/-- An array that was read, whose text goes on with something else than a bracket. -/
theorem array_of_readValue {fuel : ℕ} {behind : List Char} {r : JsonValue × List Char}
    (hne : (skipSpace behind).head? ≠ some ']') (h : readValue fuel ('[' :: behind) = some r) :
    ∃ fuel' v values, readValue fuel' behind = some v ∧ r.1 = .array (v.1 :: values) := by
  cases fuel with
  | zero => cases h
  | succ fuel =>
    rw [readValue, skipSpace_cons (by decide)] at h
    dsimp only at h
    rw [if_neg (by decide), if_pos rfl, if_neg hne] at h
    obtain ⟨r', hr', rfl⟩ := Option.map_eq_some_iff.1 h
    cases fuel with
    | zero => cases hr'
    | succ fuel =>
      rw [readElements] at hr'
      obtain ⟨v, hv, hr'⟩ := Option.bind_eq_some_iff.1 hr'
      split at hr'
      · obtain ⟨r'', -, rfl⟩ := Option.map_eq_some_iff.1 hr'
        exact ⟨fuel, v, r''.1, hv, rfl⟩
      · split at hr'
        · obtain rfl := Option.some.inj hr'
          exact ⟨fuel, v, [], hv, rfl⟩
        · cases hr'

/-- What comes behind the spaces is in the text, or what is not a space behind it. -/
theorem mem_of_skipSpace {c x : Char} (hc : isSpace c = false) (h : (skipSpace (text ++ c :: rest)).head? = some x) :
    x ∈ text ∨ x = c := by
  induction text with
  | nil =>
    rw [List.nil_append, skipSpace_cons hc, List.head?_cons] at h
    exact .inr (Option.some.inj h).symm
  | cons d text ih =>
    cases hd : isSpace d with
    | true =>
      have hskip : skipSpace (d :: text ++ c :: rest) = skipSpace (text ++ c :: rest) := List.dropWhile_cons_of_pos hd
      rw [hskip] at h
      exact (ih h).imp_left (List.mem_cons_of_mem _)
    | false =>
      rw [List.cons_append, skipSpace_cons hd, List.head?_cons] at h
      exact .inl (List.mem_cons.2 (.inl (Option.some.inj h).symm))

/-- A string that was read begins with a quote. -/
theorem quote_of_readValue {fuel : ℕ} {s : List Char} {text : String} {rest : List Char}
    (h : readValue fuel s = some (.string text, rest)) : (skipSpace s).head? = some '"' := by
  cases fuel with
  | zero => cases h
  | succ fuel =>
    rw [readValue] at h
    cases hs : skipSpace s with
    | nil =>
      rw [hs] at h
      cases h
    | cons c tail =>
      rw [hs] at h
      dsimp only at h
      split at h
      · rename_i hc
        rw [hc, List.head?_cons]
      · exfalso
        split at h
        · split at h
          · cases h
          · obtain ⟨r', -, hr'⟩ := Option.map_eq_some_iff.1 h
            cases hr'
        · split at h
          · split at h
            · cases h
            · obtain ⟨r', -, hr'⟩ := Option.map_eq_some_iff.1 h
              cases hr'
          · unfold readScalar at h
            split at h
            · cases h
            · split at h
              · cases h
              · split at h
                · cases h
                · rcases of_readNumber h with ⟨z, hz⟩ | ⟨x, hx⟩
                  · cases hz
                  · cases hx

/-- A text that reads as a value is a JSON text of it. -/
theorem parse_of_reads {text : String} {value : JsonValue} (h : Reads text.toList value) : parse text = some value := by
  have hread := h (text.toList.length + 1) [] (by omega) ends_nil
  unfold parse
  rw [List.append_nil] at hread
  rw [hread]
  rfl

/-- Two values, one right behind the other in an array, are no JSON text. -/
theorem parse_adjacent {first rest : List Char} {c : Char} {value : JsonValue} (h : Reads first value) (hspace : isSpace c = false)
    (hcomma : c ≠ ',') (hbracket : c ≠ ']') (hend : c.isDigit = false ∧ c ≠ '.' ∧ c ≠ 'e' ∧ c ≠ 'E') :
    parse (String.ofList ('[' :: (first ++ c :: rest))) = none := by
  unfold parse
  rw [String.toList_ofList]
  generalize hfuel : ('[' :: (first ++ c :: rest)).length + 1 = fuel
  rw [List.length_cons, List.length_append] at hfuel
  obtain ⟨fuel, rfl⟩ : ∃ k, fuel = k + 2 := ⟨first.length + (c :: rest).length, by omega⟩
  have hhead := head?_of_readValue (h fuel (c :: rest) (by omega) (ends_cons hend))
  have helements : readElements (fuel + 1) (first ++ c :: rest) = none := by
    rw [Reads.readElements_append h.element (by omega) (ends_cons hend), skipSpace_cons hspace, List.head?_cons,
      if_neg (by simpa using hcomma), if_neg (by simpa using hbracket)]
  rw [readValue, skipSpace_cons (by decide)]
  dsimp only
  rw [if_neg (by decide), if_pos rfl, if_neg hhead, helements]
  rfl

end JsonValue
