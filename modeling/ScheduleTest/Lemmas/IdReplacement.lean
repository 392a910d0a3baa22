import ScheduleTest.IdReplacement

/-!
# What the regular expression matches

In a text that was written without spaces the expression matches at the keys that are `id` or end with `"id` (`IdText`), and nowhere
else, and takes everything up to the next of five characters. So a member of such a key gets the replacement as its value
(`substitute_member`), and every other part of a value is left as it is.
-/

namespace ScheduleTest

open JsonValue

namespace IdReplacement

/-! ## The expression -/

theorem dropWhile_dropWhile {p q : Char → Bool} (h : ∀ c, p c = true → q c = true) (l : List Char) :
    (l.dropWhile p).dropWhile q = l.dropWhile q := by
  induction l with
  | nil => rfl
  | cons c l ih =>
    cases hp : p c with
    | false => rw [List.dropWhile_cons_of_neg (by rw [hp]; exact Bool.false_ne_true)]
    | true => rw [List.dropWhile_cons_of_pos hp, List.dropWhile_cons_of_pos (h c hp), ih]

theorem dropWhile_dropWhile_of_imp {p q : Char → Bool} (h : ∀ c, p c = true → q c = true) (l : List Char) :
    (l.dropWhile q).dropWhile p = l.dropWhile q := by
  induction l with
  | nil => rfl
  | cons c l ih =>
    cases hq : q c with
    | true => rw [List.dropWhile_cons_of_pos hq, ih]
    | false =>
      rw [List.dropWhile_cons_of_neg (by rw [hq]; exact Bool.false_ne_true), List.dropWhile_cons_of_neg]
      intro hp
      rw [h c hp] at hq
      cases hq

theorem isOther_of_isSpace (c : Char) (h : Text.isSpace c = true) : isOther c = true := by
  have hne : ∀ x : Char, Text.isSpace x = false → c ≠ x := by
    rintro x hx rfl
    rw [hx] at h
    cases h
  simp only [isOther, Bool.not_eq_true', Bool.or_eq_false_iff, decide_eq_false_iff_not]
  exact ⟨⟨⟨⟨hne _ (by decide), hne _ (by decide)⟩, hne _ (by decide)⟩, hne _ (by decide)⟩, hne _ (by decide)⟩

theorem isOther_of_quote (c : Char) (h : decide (c = '"') = true) : isOther c = true := by
  rw [of_decide_eq_true h]
  decide

/-- A key and everything up to the next character that is not among the others. -/
theorem behindMatch_key (s : List Char) : behindMatch ('"' :: 'i' :: 'd' :: '"' :: ':' :: s) = some (s.dropWhile isOther) := by
  have hprefix : ['"', 'i', 'd', '"'].isPrefixOf ('"' :: 'i' :: 'd' :: '"' :: ':' :: s) = true := rfl
  have hdrop : (('"' :: 'i' :: 'd' :: '"' :: ':' :: s).drop 4).dropWhile Text.isSpace = ':' :: s :=
    List.dropWhile_cons_of_neg (by decide)
  simp only [behindMatch, hprefix, if_true, hdrop, List.head?_cons, List.tail_cons]
  rw [dropWhile_dropWhile isOther_of_quote, dropWhile_dropWhile isOther_of_isSpace, dropWhile_dropWhile_of_imp isOther_of_quote,
    dropWhile_dropWhile_of_imp isOther_of_isSpace]

theorem behindMatch_eq_none {s : List Char} (h : ¬['"', 'i', 'd', '"'] <+: s) : behindMatch s = none :=
  if_neg fun hprefix => h (List.isPrefixOf_iff_prefix.1 hprefix)

theorem behindMatch_of_ne {c : Char} (hc : c ≠ '"') (s : List Char) : behindMatch (c :: s) = none :=
  behindMatch_eq_none fun h => hc (List.cons_prefix_cons.1 h).1.symm

/-- What follows a value or a key. -/
def Follows (s : List Char) : Prop := ∀ c ∈ s.head?, c = ',' ∨ c = ']' ∨ c = '\x7d' ∨ c = ':'

/-- Strings that are not keys are not matched. -/
theorem behindMatch_string {s : List Char} (hs : Follows s) (hcolon : s.head? ≠ some ':') :
    behindMatch ('"' :: 'i' :: 'd' :: '"' :: s) = none := by
  have hprefix : ['"', 'i', 'd', '"'].isPrefixOf ('"' :: 'i' :: 'd' :: '"' :: s) = true := rfl
  have hdrop : s.dropWhile Text.isSpace = s := by
    cases s with
    | nil => rfl
    | cons c s =>
      refine List.dropWhile_cons_of_neg ?_
      rcases hs c rfl with rfl | rfl | rfl | rfl
      all_goals decide
  simp only [behindMatch, hprefix, if_true]
  rw [List.drop_succ_cons, List.drop_succ_cons, List.drop_succ_cons, List.drop_succ_cons, List.drop_zero, hdrop, if_neg hcolon]

/-- In a string, the expression matches from a quote on only if `id` is all that follows. -/
theorem behindMatch_quote {text s : List Char} (hs : Follows s) (h : text ≠ ['i', 'd'] ∨ s.head? ≠ some ':') :
    behindMatch ('"' :: (stringBehind text ++ s)) = none := by
  by_cases hprefix : ['"', 'i', 'd', '"'] <+: '"' :: (stringBehind text ++ s)
  · obtain ⟨after, hafter⟩ := hprefix
    have hbehind : stringBehind text ++ s = 'i' :: 'd' :: '"' :: after := (List.cons.inj hafter).2.symm
    obtain ⟨text₁, rfl, h₁⟩ := cons_of_stringBehind hbehind (by decide) (by decide)
    obtain ⟨text₂, rfl, h₂⟩ := cons_of_stringBehind h₁ (by decide) (by decide)
    obtain ⟨rfl, -⟩ := eq_nil_of_quote h₂
    exact behindMatch_string hs (h.resolve_left fun hne => hne rfl)
  · exact behindMatch_eq_none hprefix

/-! ## Replacing -/

/-- The replacement of all matches, where what replaces a match depends on nothing but the match. -/
def substitute (out : List Char → List Char) : ℕ → List Char → List Char
  | _, [] => []
  | passed + 1, _ :: rest => substitute out passed rest
  | 0, c :: rest =>
    match behindMatch (c :: rest) with
    | some after =>
      let matched := (c :: rest).take (rest.length + 1 - after.length)
      out matched ++ substitute out (matched.length - 1) rest
    | none => c :: substitute out 0 rest

variable {out : List Char → List Char}

theorem replaceFrom_eq {format : List Char} (h : ∀ before matched after, expand before matched after 0 format = out matched)
    (passed : ℕ) (before s : List Char) : replaceFrom format passed before s = substitute out passed s := by
  induction s generalizing passed before with
  | nil => rw [replaceFrom, substitute]
  | cons c rest ih =>
    cases passed with
    | succ passed => rw [replaceFrom, substitute, ih]
    | zero =>
      rw [replaceFrom, substitute]
      cases behindMatch (c :: rest) with
      | none =>
        dsimp only
        rw [ih]
      | some after =>
        dsimp only
        rw [h, ih]

theorem substitute_passed (passed : ℕ) (s : List Char) : substitute out passed s = substitute out 0 (s.drop passed) := by
  induction s generalizing passed with
  | nil => rw [List.drop_nil, substitute, substitute]
  | cons c rest ih =>
    cases passed with
    | zero => rfl
    | succ passed => rw [substitute, List.drop_succ_cons, ih]

theorem substitute_cons {c : Char} {s : List Char} (h : behindMatch (c :: s) = none) :
    substitute out 0 (c :: s) = c :: substitute out 0 s := by
  rw [substitute, h]

theorem substitute_of_ne {c : Char} (hc : c ≠ '"') (s : List Char) : substitute out 0 (c :: s) = c :: substitute out 0 s :=
  substitute_cons (behindMatch_of_ne hc s)

theorem substitute_of_noQuote {text : List Char} (h : ∀ c ∈ text, c ≠ '"') (s : List Char) :
    substitute out 0 (text ++ s) = text ++ substitute out 0 s := by
  induction text with
  | nil => rfl
  | cons c text ih =>
    rw [List.forall_mem_cons] at h
    rw [List.cons_append, substitute_of_ne h.1, ih h.2, List.cons_append]

/-- A match is replaced, and the replacement goes on behind it. -/
theorem substitute_key (s : List Char) : substitute out 0 ('"' :: 'i' :: 'd' :: '"' :: ':' :: s) =
    out ('"' :: 'i' :: 'd' :: '"' :: ':' :: s.takeWhile isOther) ++ substitute out 0 (s.dropWhile isOther) := by
  have hsplit : s.takeWhile isOther ++ s.dropWhile isOther = s := List.takeWhile_append_dropWhile
  have hlength := congrArg List.length hsplit
  rw [List.length_append] at hlength
  have hparts : ∀ front back : List Char, front ++ back = s → s.take front.length = front ∧ s.drop front.length = back := by
    rintro front back rfl
    exact ⟨List.take_left, List.drop_left⟩
  obtain ⟨hfront, hback⟩ := hparts _ _ hsplit
  have hcount : ('i' :: 'd' :: '"' :: ':' :: s).length + 1 - (s.dropWhile isOther).length = (s.takeWhile isOther).length + 5 := by
    simp only [List.length_cons]
    omega
  have htake : ('"' :: 'i' :: 'd' :: '"' :: ':' :: s).take ((s.takeWhile isOther).length + 5) =
      '"' :: 'i' :: 'd' :: '"' :: ':' :: s.takeWhile isOther := by
    rw [List.take_succ_cons, List.take_succ_cons, List.take_succ_cons, List.take_succ_cons, List.take_succ_cons, hfront]
  rw [substitute, behindMatch_key]
  dsimp only
  rw [hcount, htake, substitute_passed]
  simp only [List.length_cons, Nat.add_sub_cancel, List.drop_succ_cons]
  rw [hback]

/-! ## Written values -/

theorem escape_control : ∀ n < 32, (escape (Char.ofNat n)).all (fun x => x ≠ '"' && isOther x) = true := by decide

/-- What is written for a character: it, a backslash, or characters that are neither quotes nor end a match. -/
theorem mem_escape {c x : Char} (hx : x ∈ escape c) : x = c ∨ x ≠ '"' ∧ isOther x = true := by
  by_cases hprint : 32 ≤ c.toNat
  · unfold escape at hx
    split_ifs at hx
    · rcases List.mem_pair.1 hx with rfl | rfl
      · exact .inr (by decide)
      · exact .inl rfl
    · exact .inl (List.mem_singleton.1 hx)
  · have hall := escape_control c.toNat (not_le.1 hprint)
    rw [Char.ofNat_toNat, List.all_eq_true] at hall
    have hone := hall x hx
    rw [Bool.and_eq_true, decide_eq_true_eq] at hone
    exact .inr hone

theorem ne_quote_of_mem_escape {c x : Char} (hc : c ≠ '"') (hx : x ∈ escape c) : x ≠ '"' :=
  (mem_escape hx).elim (fun h => h ▸ hc) fun h => h.1

/-- A text in which a match does not end. -/
def Whole (text : List Char) : Prop := ∀ c ∈ text, isOther c = true

instance : DecidablePred Whole := List.decidableBAll fun c => isOther c = true

theorem whole_stringBehind {text : List Char} (h : Whole text) : Whole (stringBehind text) := by
  intro x hx
  rcases List.mem_append.1 hx with hx | hx
  · obtain ⟨c, hc, hx⟩ := List.mem_flatMap.1 hx
    exact (mem_escape hx).elim (fun heq => heq ▸ h c hc) fun hother => hother.2
  · rw [List.mem_singleton.1 hx]
    decide

/-- The keys at which the expression matches. -/
def IdText (text : List Char) : Prop := text = ['i', 'd'] ∨ ['"', 'i', 'd'] <:+ text

instance : DecidablePred IdText := fun _ => inferInstanceAs (Decidable (_ ∨ _))

/-- A string that is not a key is left as it is. -/
theorem substitute_escape {text behind s : List Char} (hs : Follows s)
    (h : ∀ a b, text = a ++ '"' :: b → b ++ behind ≠ ['i', 'd'] ∨ s.head? ≠ some ':') :
    substitute out 0 (text.flatMap escape ++ (stringBehind behind ++ s)) =
      text.flatMap escape ++ substitute out 0 (stringBehind behind ++ s) := by
  induction text with
  | nil => rfl
  | cons c text ih =>
    have hrest := ih fun a b hab => h (c :: a) b (by rw [hab, List.cons_append])
    have hbehind : text.flatMap escape ++ (stringBehind behind ++ s) = stringBehind (text ++ behind) ++ s := by
      simp only [stringBehind, List.flatMap_append, List.append_assoc]
    rw [List.flatMap_cons, List.append_assoc, List.append_assoc, ← hrest]
    by_cases hquote : c = '"'
    · subst hquote
      have hnone : behindMatch ('"' :: (text.flatMap escape ++ (stringBehind behind ++ s))) = none := by
        rw [hbehind]
        exact behindMatch_quote hs (h [] text rfl)
      have hescape : escape '"' = ['\\', '"'] := rfl
      rw [hescape, List.cons_append, List.cons_append, List.nil_append, substitute_of_ne (by decide), substitute_cons hnone]
      rfl
    · exact substitute_of_noQuote (fun x hx => ne_quote_of_mem_escape hquote hx) _

/-- A string behind its first quote is left as it is, if it does not end like a key, or is none. -/
theorem substitute_stringBehind {text s : List Char} (hs : Follows s) (h : ¬IdText text ∨ s.head? ≠ some ':') :
    substitute out 0 (stringBehind text ++ s) = stringBehind text ++ substitute out 0 s := by
  have hclose : behindMatch ('"' :: s) = none := by
    refine behindMatch_eq_none fun hprefix => ?_
    cases s with
    | nil => exact absurd (List.cons_prefix_cons.1 hprefix).2 (by decide)
    | cons c s =>
      have hc := (List.cons_prefix_cons.1 (List.cons_prefix_cons.1 hprefix).2).1
      rcases hs c rfl with rfl | rfl | rfl | rfl
      all_goals exact absurd hc (by decide)
  have hends : ∀ a b, text = a ++ '"' :: b → b ++ [] ≠ ['i', 'd'] ∨ s.head? ≠ some ':' := by
    intro a b hab
    refine h.imp_left fun hno heq => hno (.inr ⟨a, ?_⟩)
    rw [List.append_nil] at heq
    rw [hab, heq]
  have hinner : substitute out 0 (text.flatMap escape ++ '"' :: s) = text.flatMap escape ++ substitute out 0 ('"' :: s) :=
    substitute_escape hs hends
  rw [stringBehind, List.append_assoc, List.singleton_append, hinner, substitute_cons hclose, List.append_assoc,
    List.singleton_append]

/-- A string that does not end like a key, or is none, is left as it is. -/
theorem substitute_string {text s : List Char} (hs : Follows s) (h : ¬IdText text ∨ s.head? ≠ some ':') :
    substitute out 0 ('"' :: (stringBehind text ++ s)) = '"' :: (stringBehind text ++ substitute out 0 s) := by
  have hopen : behindMatch ('"' :: (stringBehind text ++ s)) = none :=
    behindMatch_quote hs (h.imp_left fun hno heq => hno (.inl heq))
  rw [substitute_cons hopen, substitute_stringBehind hs h]

/-- A member of such a key: what replaces the match begins with the key, and its value. -/
theorem substitute_member {value : List Char → List Char} (hout : ∀ s, out ('"' :: 'i' :: 'd' :: '"' :: ':' :: s) =
      '"' :: 'i' :: 'd' :: '"' :: ':' :: value s) {key : List Char} (hkey : IdText key) (s : List Char) :
    substitute out 0 ('"' :: (stringBehind key ++ ':' :: s)) =
      '"' :: (stringBehind key ++ ':' :: (value (s.takeWhile isOther) ++ substitute out 0 (s.dropWhile isOther))) := by
  have hmatch := @substitute_key out s
  rw [hout] at hmatch
  rcases hkey with rfl | ⟨front, rfl⟩
  · exact hmatch
  · -- the match begins at the last quote in the key
    have hcolon : Follows (':' :: s) := fun c hc => .inr (.inr (.inr (Option.some.inj hc).symm))
    have hopen : behindMatch ('"' :: (stringBehind (front ++ ['"', 'i', 'd']) ++ ':' :: s)) = none := by
      refine behindMatch_quote hcolon (.inl fun heq => ?_)
      have hlength := congrArg List.length heq
      simp at hlength
    have hfront : ∀ a b, front = a ++ '"' :: b → b ++ ['"', 'i', 'd'] ≠ ['i', 'd'] ∨ (':' :: s).head? ≠ some ':' := by
      intro a b _
      refine .inl fun heq => ?_
      have hlength := congrArg List.length heq
      simp at hlength
    have hinner := @substitute_escape out _ _ _ hcolon hfront
    have hend : stringBehind ['"', 'i', 'd'] ++ ':' :: s = '\\' :: '"' :: 'i' :: 'd' :: '"' :: ':' :: s := rfl
    have hkey : ∀ rest, stringBehind (front ++ ['"', 'i', 'd']) ++ rest =
        front.flatMap escape ++ '\\' :: '"' :: 'i' :: 'd' :: '"' :: rest := by
      intro rest
      simp only [stringBehind, List.flatMap_append, List.append_assoc]
      rfl
    rw [hend, substitute_of_ne (by decide), hmatch] at hinner
    rw [substitute_cons hopen, hkey, hkey, hinner]
    rfl

/-! ## Values that keep their text -/

/-- The keys at which the expression matches have strings as values, at every depth, and these have a property. -/
def Kept (G : String → Prop) (value : JsonValue) : Prop :=
  ∀ members, Within (object members) value → ∀ member ∈ members, IdText member.1.toList → ∃ text, member.2 = string text ∧ G text

theorem Kept.imp {G G' : String → Prop} {value : JsonValue} (h : Kept G value) (himp : ∀ text, G text → G' text) :
    Kept G' value := by
  intro members hmembers member hmember hkey
  obtain ⟨text, htext, hG⟩ := h members hmembers member hmember hkey
  exact ⟨text, htext, himp text hG⟩

theorem kept_object_iff {G : String → Prop} {members : List (String × JsonValue)} : Kept G (object members) ↔
    ∀ member ∈ members, (IdText member.1.toList → ∃ text, member.2 = string text ∧ G text) ∧ Kept G member.2 := by
  constructor
  · exact fun h member hmember => ⟨h members .self member hmember, fun inner hinner => h inner (.member hmember hinner)⟩
  · intro h inner hinner
    cases hinner with
    | self => exact fun member hmember => (h member hmember).1
    | member hmember hwithin => exact (h _ hmember).2 inner hwithin

theorem kept_array_iff {G : String → Prop} {values : List JsonValue} : Kept G (array values) ↔ ∀ value ∈ values, Kept G value := by
  constructor
  · exact fun h value hvalue inner hinner => h inner (.element hvalue hinner)
  · intro h inner hinner
    cases hinner with
    | element hvalue hwithin => exact h _ hvalue inner hwithin

/-- What a double is printed as: digits, with signs, a point and an exponent, that read as the double. -/
structure PrintsNumber (print : ℚ → List Char) (x : ℚ) : Prop where
  reads : Reads (print x) (double x)
  chars : ∀ c ∈ print x, c.isDigit = true ∨ c = '-' ∨ c = '+' ∨ c = '.' ∨ c = 'e' ∨ c = 'E'

/-- The doubles of a value are printed. -/
def PrintsNumbers (print : ℚ → List Char) (value : JsonValue) : Prop := ∀ x, Within (double x) value → PrintsNumber print x

variable {print : ℚ → List Char}

/-- A value whose doubles are printed is read back. -/
theorem PrintsNumbers.reads_write {value : JsonValue} (h : PrintsNumbers print value) : Reads (write print value) value := by
  have hread : Reads (write print value) (value.mapDoubles id) := JsonValue.reads_write fun x hx => (h x hx).reads
  rwa [@mapDoubles_eq_self id value fun _ _ => rfl] at hread

theorem PrintsNumbers.parse_write {value : JsonValue} (h : PrintsNumbers print value) :
    parse (String.ofList (write print value)) = some value := by
  have hread : parse (String.ofList (write print value)) = some (value.mapDoubles id) :=
    JsonValue.parse_write fun x hx => (h x hx).reads
  rwa [@mapDoubles_eq_self id value fun _ _ => rfl] at hread

theorem PrintsNumbers.element {values : List JsonValue} (h : PrintsNumbers print (array values)) {value : JsonValue}
    (hvalue : value ∈ values) : PrintsNumbers print value := fun x hx => h x (.element hvalue hx)

theorem PrintsNumbers.member {members : List (String × JsonValue)} (h : PrintsNumbers print (object members))
    {member : String × JsonValue} (hmember : member ∈ members) : PrintsNumbers print member.2 :=
  fun x hx => h x (.member hmember hx)

theorem PrintsNumbers.tail {member : String × JsonValue} {members : List (String × JsonValue)}
    (h : PrintsNumbers print (object (member :: members))) : PrintsNumbers print (object members) := by
  intro x hx
  cases hx with
  | member hmember hwithin => exact h x (.member (List.mem_cons_of_mem _ hmember) hwithin)

theorem PrintsNumber.ne_of_mem {x : ℚ} (h : PrintsNumber print x) {d : Char} (hdigit : d.isDigit = false)
    (hd : d ∉ ['-', '+', '.', 'e', 'E']) : ∀ c ∈ print x, c ≠ d := by
  rintro c hc rfl
  rcases h.chars c hc with hc | rfl | rfl | rfl | rfl | rfl
  · rw [hdigit] at hc
    cases hc
  all_goals simp at hd

theorem PrintsNumber.whole {x : ℚ} (h : PrintsNumber print x) : Whole (print x) := by
  intro c hc
  have hne := fun d hdigit hd => h.ne_of_mem (d := d) hdigit hd c hc
  simp only [isOther, Bool.not_eq_true', Bool.or_eq_false_iff, decide_eq_false_iff_not]
  exact ⟨⟨⟨⟨hne _ (by decide) (by decide), hne _ (by decide) (by decide)⟩, hne _ (by decide) (by decide)⟩,
    hne _ (by decide) (by decide)⟩, hne _ (by decide) (by decide)⟩

/-- What an integer is written as. -/
theorem ne_of_mem_toString {z : ℤ} {d : Char} (hdigit : d.isDigit = false) (hd : d ≠ '-') : ∀ c ∈ (toString z).toList, c ≠ d := by
  rintro c hc rfl
  exact Text.not_mem_toString hdigit hd hc

theorem whole_toString (z : ℤ) : Whole (toString z).toList := by
  intro c hc
  have hne := fun d hdigit hd => ne_of_mem_toString (d := d) hdigit hd c hc
  simp only [isOther, Bool.not_eq_true', Bool.or_eq_false_iff, decide_eq_false_iff_not]
  exact ⟨⟨⟨⟨hne _ (by decide) (by decide), hne _ (by decide) (by decide)⟩, hne _ (by decide) (by decide)⟩,
    hne _ (by decide) (by decide)⟩, hne _ (by decide) (by decide)⟩

/-- What follows a value in a written text. -/
def Closes (s : List Char) : Prop := ∀ c ∈ s.head?, c = ',' ∨ c = ']' ∨ c = '\x7d'

theorem Closes.follows {s : List Char} (h : Closes s) : Follows s := fun c hc =>
  (h c hc).imp_right fun h => h.imp_right .inl

theorem Closes.head?_ne {s : List Char} (h : Closes s) : s.head? ≠ some ':' := fun hc => absurd (h ':' hc) (by decide)

theorem Closes.ends {s : List Char} (h : Closes s) : Ends s := by
  intro c hc
  rcases h c hc with rfl | rfl | rfl
  all_goals decide

theorem closes_substitute {s : List Char} (h : Closes s) : Closes (substitute out 0 s) := by
  cases s with
  | nil => exact h
  | cons c s =>
    have hc : c ≠ '"' := by
      rcases h c rfl with rfl | rfl | rfl
      all_goals decide
    rw [substitute_of_ne hc]
    exact fun x hx => h x hx

theorem closes_elementsBehind (values : List JsonValue) (s : List Char) : Closes (elementsBehind print values ++ s) := by
  cases values with
  | nil => exact fun c hc => .inr (.inl (Option.some.inj hc).symm)
  | cons value values => exact fun c hc => .inl (Option.some.inj hc).symm

theorem closes_membersBehind (members : List (String × JsonValue)) (s : List Char) : Closes (membersBehind print members ++ s) := by
  cases members with
  | nil => exact fun c hc => .inr (.inr (Option.some.inj hc).symm)
  | cons member members => exact fun c hc => .inl (Option.some.inj hc).symm

/-- A match that begins at a key ends with the value, if the value is a text in which it does not end. -/
theorem dropWhile_membersBehind {text : List Char} (h : Whole text) (members : List (String × JsonValue)) (s : List Char) :
    (text ++ (membersBehind print members ++ s)).dropWhile isOther = membersBehind print members ++ s := by
  rw [List.dropWhile_append_of_pos h]
  cases members with
  | nil => exact List.dropWhile_cons_of_neg (by decide)
  | cons member members => exact List.dropWhile_cons_of_neg (by decide)

/-- In the text of an object one member is replaced by another one. -/
def ReplacesMember (print : ℚ → List Char) (out : List Char → List Char) (member member' : String × JsonValue) : Prop :=
  ∀ members s, substitute out 0
    ('"' :: (stringBehind member.1.toList ++ ':' :: (write print member.2 ++ (membersBehind print members ++ s)))) =
    '"' :: (stringBehind member'.1.toList ++ ':' :: (write print member'.2 ++ substitute out 0 (membersBehind print members ++ s)))

theorem substitute_membersBehind {members members' : List (String × JsonValue)}
    (h : List.Forall₂ (ReplacesMember print out) members members') (s : List Char) :
    substitute out 0 (membersBehind print members ++ s) = membersBehind print members' ++ substitute out 0 s := by
  induction h with
  | nil => exact substitute_of_ne (by decide) s
  | @cons member member' members members' hone _ ih =>
    simp only [membersBehind, List.cons_append, List.append_assoc]
    rw [substitute_of_ne (by decide), hone members s, ih]

theorem substitute_object {members members' : List (String × JsonValue)}
    (h : List.Forall₂ (ReplacesMember print out) members members') (s : List Char) :
    substitute out 0 (write print (object members) ++ s) = write print (object members') ++ substitute out 0 s := by
  cases h with
  | nil =>
    simp only [write, List.cons_append, List.nil_append]
    rw [substitute_of_ne (by decide), substitute_of_ne (by decide)]
  | @cons member member' members members' hone hrest =>
    simp only [write, List.cons_append, List.append_assoc]
    rw [substitute_of_ne (by decide), hone members s, substitute_membersBehind hrest]

theorem substitute_elementsBehind {values : List JsonValue}
    (h : ∀ value ∈ values, ∀ s, Closes s → substitute out 0 (write print value ++ s) = write print value ++ substitute out 0 s)
    (s : List Char) :
    substitute out 0 (elementsBehind print values ++ s) = elementsBehind print values ++ substitute out 0 s := by
  induction values with
  | nil => exact substitute_of_ne (by decide) s
  | cons value values ih =>
    rw [List.forall_mem_cons] at h
    simp only [elementsBehind, List.cons_append, List.append_assoc]
    rw [substitute_of_ne (by decide), h.1 _ (closes_elementsBehind values s), ih h.2]

theorem substitute_array {values : List JsonValue}
    (h : ∀ value ∈ values, ∀ s, Closes s → substitute out 0 (write print value ++ s) = write print value ++ substitute out 0 s)
    (s : List Char) :
    substitute out 0 (write print (array values) ++ s) = write print (array values) ++ substitute out 0 s := by
  cases values with
  | nil =>
    simp only [write, List.cons_append, List.nil_append]
    rw [substitute_of_ne (by decide), substitute_of_ne (by decide)]
  | cons value values =>
    rw [List.forall_mem_cons] at h
    simp only [write, List.cons_append, List.append_assoc]
    rw [substitute_of_ne (by decide), h.1 _ (closes_elementsBehind values s), substitute_elementsBehind h.2]

theorem whole_writeString {text : String} (h : Whole text.toList) : Whole (write print (string text)) := by
  rw [write]
  exact List.forall_mem_cons.2 ⟨by decide, whole_stringBehind h⟩

end IdReplacement

end ScheduleTest
