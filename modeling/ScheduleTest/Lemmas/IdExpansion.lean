import ScheduleTest.Lemmas.IdReplacement

/-!
# The identifier as a format

The identifier is put between quotes, and `std::regex_replace` takes the whole for a format. There a `$` stands for something else
if one of a few characters follows it (`Refers`). An identifier that was made of a workload without a `$` has at most one: it stands
in front of the number of a checkpoint, which is the last part (`literal_or_checkpoint`).
-/

namespace ScheduleTest

open JsonValue

namespace IdReplacement

variable {before matched after : List Char}

/-! ## Formats -/

/-- A `$` in front of this character stands for something else. -/
def Refers (c : Char) : Prop := c = '$' ∨ c = '&' ∨ c.toNat = 96 ∨ c.toNat = 39 ∨ c.isDigit = true

/-- No `$` of the text stands for something else. -/
def Literal (text : List Char) : Prop := ∀ front c back, text = front ++ '$' :: c :: back → ¬Refers c

theorem literal_of_not_mem {text : List Char} (h : '$' ∉ text) : Literal text := by
  rintro front c back rfl
  exact absurd (List.mem_append_right _ List.mem_cons_self) h

theorem Literal.tail {c : Char} {text : List Char} (h : Literal (c :: text)) : Literal text := fun front x back heq =>
  h (c :: front) x back (by rw [heq, List.cons_append])

theorem Literal.append {front text : List Char} (hfront : '$' ∉ front) (h : Literal text) : Literal (front ++ text) := by
  induction front with
  | nil => exact h
  | cons x front ih =>
    rw [List.mem_cons, not_or] at hfront
    intro before c back heq
    cases before with
    | nil => exact absurd (List.cons.inj heq).1.symm hfront.1
    | cons y before => exact ih hfront.2 before c back (List.cons.inj heq).2

theorem reference_eq_none {c : Char} (h : ¬Refers c) (format : List Char) :
    reference before matched after (c :: format) = none := by
  simp only [Refers, not_or] at h
  rw [reference, if_neg h.1, if_neg h.2.1, if_neg h.2.2.1, if_neg h.2.2.2.1, if_neg h.2.2.2.2]

theorem expand_of_ne {c : Char} (hc : c ≠ '$') (format : List Char) :
    expand before matched after 0 (c :: format) = c :: expand before matched after 0 format := by
  rw [expand, if_neg hc]

theorem expand_append {text : List Char} (h : '$' ∉ text) (format : List Char) :
    expand before matched after 0 (text ++ format) = text ++ expand before matched after 0 format := by
  induction text with
  | nil => rfl
  | cons c text ih =>
    rw [List.mem_cons, not_or] at h
    rw [List.cons_append, expand_of_ne (Ne.symm h.1), ih h.2, List.cons_append]

theorem expand_passed (passed : ℕ) (format : List Char) :
    expand before matched after passed format = expand before matched after 0 (format.drop passed) := by
  induction format generalizing passed with
  | nil => rw [List.drop_nil, expand, expand]
  | cons c format ih =>
    cases passed with
    | zero => rfl
    | succ passed => rw [expand, List.drop_succ_cons, ih]

/-- A text in front of a quote stands for itself. -/
theorem expand_literal {text : List Char} (h : Literal text) :
    expand before matched after 0 (text ++ ['"']) = text ++ ['"'] := by
  induction text with
  | nil => exact expand_of_ne (by decide) []
  | cons c text ih =>
    by_cases hc : c = '$'
    · subst hc
      have hnone : reference before matched after (text ++ ['"']) = none := by
        cases text with
        | nil => exact reference_eq_none (by unfold Refers; decide) []
        | cons x text => exact reference_eq_none (h [] x text rfl) _
      rw [List.cons_append, expand, if_pos rfl, hnone]
      dsimp only
      rw [ih h.tail]
    · rw [List.cons_append, expand_of_ne hc, ih h.tail]

/-- A digit, and a second one if there is one, is the number of a group. -/
theorem reference_digit {d : Char} (hd : d.isDigit = true) (format : List Char) :
    reference before matched after (d :: format) =
      some (if Nat.ofDigitChars 10 (d :: (format.take 1).filter Char.isDigit) 0 = 0 then matched else [],
        (d :: (format.take 1).filter Char.isDigit).length) := by
  have hrange : 48 ≤ d.toNat ∧ d.toNat ≤ 57 := Char.isDigit_iff_toNat.1 hd
  have hne : ∀ x : Char, x.isDigit = false → d ≠ x := by
    rintro x hx rfl
    rw [hd] at hx
    cases hx
  rw [reference, if_neg (hne _ (by decide)), if_neg (hne _ (by decide)), if_neg (by omega), if_neg (by omega), if_pos hd]

/-- Of a number behind a `$`, the first two digits are taken for a group, or for the match. -/
theorem expand_number (n : ℕ) : expand before matched after 0 ('$' :: (Nat.toDigits 10 n ++ ['"'])) =
    (if n = 0 then matched else []) ++ ((Nat.toDigits 10 n).drop 2 ++ ['"']) := by
  have hdigits := Reads.digits_toDigits n
  have hvalue := Nat.ofDigitChars_ten_toDigits (n := n)
  have hhead := JsonValue.head?_toDigits n
  cases hn : Nat.toDigits 10 n with
  | nil => exact absurd hn Nat.toDigits_ne_nil
  | cons d digits =>
    rw [hn] at hdigits hvalue hhead
    rw [List.forall_mem_cons] at hdigits
    rw [expand, if_pos rfl, List.cons_append, reference_digit hdigits.1]
    dsimp only
    rw [expand_passed]
    cases digits with
    | nil =>
      have hgroup : (List.take 1 ([] ++ ['"'])).filter Char.isDigit = [] := rfl
      rw [hgroup, hvalue]
      exact congrArg _ (expand_of_ne (by decide) [])
    | cons e digits =>
      have hsecond := List.forall_mem_cons.1 hdigits.2
      have hgroup : (List.take 1 (e :: digits ++ ['"'])).filter Char.isDigit = [e] := List.filter_cons_of_pos hsecond.1
      have hplain : '$' ∉ digits := fun hmem => absurd (hsecond.2 _ hmem) (by decide)
      -- the first digit is no zero, so neither number is one
      have hd : d ≠ '0' := fun hzero => by cases hhead (by rw [hzero, List.head?_cons])
      have hrange : 48 ≤ d.toNat ∧ d.toNat ≤ 57 := Char.isDigit_iff_toNat.1 hdigits.1
      have hpos : d.toNat ≠ 48 := fun heq => hd (Char.toNat_inj.1 heq)
      have hn0 : n ≠ 0 := by
        rintro rfl
        cases hn
      have htwo : Nat.ofDigitChars 10 [d, e] 0 ≠ 0 := by
        have hfirst : '0'.toNat = 48 := rfl
        simp only [Nat.ofDigitChars_cons, Nat.ofDigitChars_nil, hfirst]
        omega
      rw [hgroup, if_neg htwo, if_neg hn0]
      simp only [List.length_cons, List.length_nil, Nat.zero_add, Nat.reduceAdd, List.drop_succ_cons, List.drop_zero,
        List.cons_append, List.nil_append]
      rw [expand_append hplain, expand_of_ne (by decide), expand]

/-! ## The identifier between quotes -/

theorem expand_replacement (id : String) : expand before matched after 0 (replacement id) =
    '"' :: 'i' :: 'd' :: '"' :: ':' :: '"' :: expand before matched after 0 (id.toList ++ ['"']) := by
  have hquoted : replacement id = ['"', 'i', 'd', '"', ':', '"'] ++ (id.toList ++ ['"']) := by
    rw [replacement, List.append_assoc]
  rw [hquoted, expand_append (by decide)]
  rfl

/-- An identifier that stands for itself is the value of the key. -/
theorem expand_replacement_literal {id : String} (hplain : Plain id.toList) (hliteral : Literal id.toList) (print : ℚ → List Char) :
    expand before matched after 0 (replacement id) = '"' :: 'i' :: 'd' :: '"' :: ':' :: write print (string id) := by
  rw [expand_replacement, expand_literal hliteral, write, stringBehind_plain hplain]

/-! ## The identifiers that are made -/

/-- A text that is written as it is, in which a match does not end, without a `$`. -/
structure Simple (text : List Char) : Prop where
  plain : Plain text
  whole : Whole text
  noDollar : '$' ∉ text

theorem Simple.append {front back : List Char} (hfront : Simple front) (hback : Simple back) : Simple (front ++ back) where
  plain := fun c hc => (List.mem_append.1 hc).elim (hfront.plain c) (hback.plain c)
  whole := fun c hc => (List.mem_append.1 hc).elim (hfront.whole c) (hback.whole c)
  noDollar := fun hc => (List.mem_append.1 hc).elim hfront.noDollar hback.noDollar

theorem simple_of_digits {text : List Char} (h : ∀ c ∈ text, c.isDigit = true ∨ c = '-') : Simple text where
  plain := by
    intro c hc
    rcases h c hc with hdigit | rfl
    · have hrange : 48 ≤ c.toNat ∧ c.toNat ≤ 57 := Char.isDigit_iff_toNat.1 hdigit
      refine ⟨?_, ?_, by omega⟩
      all_goals
        rintro rfl
        exact absurd hdigit (by decide)
    · decide
  whole := by
    intro c hc
    by_contra hother
    rcases h c hc with hdigit | rfl
    · simp only [isOther, Bool.not_eq_true, Bool.not_eq_false', Bool.or_eq_true, decide_eq_true_eq] at hother
      rcases hother with (((rfl | rfl) | rfl) | rfl) | rfl
      all_goals exact absurd hdigit (by decide)
    · exact hother (by decide)
  noDollar := by
    intro hc
    rcases h _ hc with hdigit | hminus
    · exact absurd hdigit (by decide)
    · exact absurd hminus (by decide)

theorem mem_toString {z : ℤ} {c : Char} (hc : c ∈ (toString z).toList) : c.isDigit = true ∨ c = '-' := by
  by_contra hnot
  rw [not_or] at hnot
  exact Text.not_mem_toString (Bool.eq_false_iff.2 hnot.1) hnot.2 hc

theorem simple_toString (z : ℤ) : Simple (toString z).toList := simple_of_digits fun _ => mem_toString

theorem toList_markedPart (mark : Char) (part : ℤ) :
    (markedPart (String.singleton mark) part).toList = if part = -1 then [] else mark :: (toString part).toList := by
  unfold markedPart
  by_cases hpart : part = -1
  · rw [if_neg (not_not.2 hpart), if_pos hpart]
    rfl
  · rw [if_pos hpart, if_neg hpart, String.toList_append, String.toList_singleton, List.singleton_append]

theorem simple_resubmit (resubmit : ℤ) : Simple (markedPart "#" resubmit).toList := by
  have htext : (markedPart "#" resubmit).toList = _ := toList_markedPart '#' resubmit
  rw [htext]
  split_ifs
  · exact ⟨by decide, by decide, by decide⟩
  · have hpound : Simple ['#'] := ⟨by decide, by decide, by decide⟩
    exact hpound.append (simple_toString resubmit)

/-- What stands behind the `!`. -/
def nameOf (p : IdParts) : List Char :=
  (toString p.jobNumber).toList ++ (markedPart "#" p.jobResubmit).toList ++ (markedPart "$" p.jobCheckpoint).toList

theorem not_mem_nameOf (p : IdParts) : '!' ∉ nameOf p := by
  have hnumber : ∀ z : ℤ, '!' ∉ (toString z).toList := fun z => Text.not_mem_toString (by decide) (by decide)
  have hmarked : ∀ (mark : Char) (z : ℤ), '!' ≠ mark → '!' ∉ (markedPart (String.singleton mark) z).toList := by
    intro mark z hmark
    rw [toList_markedPart]
    split_ifs
    · exact List.not_mem_nil
    · exact List.not_mem_cons_of_ne_of_not_mem hmark (hnumber z)
  simp only [nameOf, List.mem_append, not_or]
  exact ⟨⟨hnumber _, hmarked '#' _ (by decide)⟩, hmarked '$' _ (by decide)⟩

/-- The identifier that is made is a workload, a `!` and the numbers. -/
theorem exists_parts {workloadName : String} {nbCheckpoint : ℤ} {idValue : JsonValue} {id : String}
    (h : jobIdentifier workloadName nbCheckpoint idValue = some id) :
    ∃ (workload : List Char) (p : IdParts), id.toList = workload ++ '!' :: nameOf p := by
  obtain ⟨text, -, h⟩ := Option.bind_eq_some_iff.1 h
  obtain ⟨parts, hparts, h⟩ := Option.bind_eq_some_iff.1 h
  obtain ⟨read, -, rfl⟩ := Option.map_eq_some_iff.1 hparts
  dsimp only at h
  -- the checkpoint is the one that was asked for, or the one of the id
  let p : IdParts := { read with jobCheckpoint := if nbCheckpoint = -1 then read.jobCheckpoint else nbCheckpoint }
  have hcheckpoint : (if nbCheckpoint = -1 then markedPart "$" read.jobCheckpoint else "$" ++ toString nbCheckpoint) =
      markedPart "$" p.jobCheckpoint := by
    dsimp only [p]
    split_ifs with hnone
    · rfl
    · rw [markedPart, if_pos hnone]
  rw [hcheckpoint] at h
  have hname : ∀ front : String, (front ++ toString read.jobNumber ++ markedPart "#" read.jobResubmit ++
      markedPart "$" p.jobCheckpoint).toList = front.toList ++ nameOf p := by
    intro front
    simp only [String.toList_append, List.append_assoc, nameOf, p]
  generalize hfront : (if read.workload = "null" then "" else read.workload ++ "!") = front at h
  have hworkload : front = "" ∨ front = read.workload ++ "!" := by
    rw [← hfront]
    split_ifs
    · exact .inl rfl
    · exact .inr rfl
  split_ifs at h with hinfix hmark hmarks
  · cases h
    rcases hworkload with rfl | rfl
    · rw [hname, List.mem_append] at hmark
      rcases hmark with hmark | hmark
      · exact absurd hmark (by decide)
      · exact absurd hmark (not_mem_nameOf p)
    · refine ⟨read.workload.toList, p, ?_⟩
      rw [hname, String.toList_append, List.append_assoc]
      rfl
  · cases h
    rw [not_or, hname] at hmarks
    rcases hworkload with rfl | rfl
    · refine ⟨workloadName.toList, p, ?_⟩
      rw [String.toList_append, String.toList_append, hname, List.append_assoc]
      rfl
    · refine absurd (List.mem_append_left _ ?_) hmarks.2
      rw [String.toList_append]
      exact List.mem_append_right _ (by decide)

/-- Such an identifier stands for itself, or it ends with the number of a checkpoint. -/
theorem literal_or_checkpoint {id : String} {workload : List Char} {p : IdParts} (hid : id.toList = workload ++ '!' :: nameOf p)
    (hworkload : Simple workload) : (Plain id.toList ∧ Whole id.toList ∧ Literal id.toList) ∨
      ∃ base n, Simple base ∧ id.toList = base ++ '$' :: Nat.toDigits 10 n := by
  have hmark : Simple ['!'] := ⟨by decide, by decide, by decide⟩
  have hbase := (hworkload.append hmark).append ((simple_toString p.jobNumber).append (simple_resubmit p.jobResubmit))
  have htext : id.toList = workload ++ ['!'] ++ ((toString p.jobNumber).toList ++ (markedPart "#" p.jobResubmit).toList) ++
      (markedPart "$" p.jobCheckpoint).toList := by
    rw [hid, nameOf]
    simp only [List.append_assoc, List.cons_append, List.nil_append]
  have hcheckpoint : (markedPart "$" p.jobCheckpoint).toList = _ := toList_markedPart '$' p.jobCheckpoint
  rw [hcheckpoint] at htext
  generalize workload ++ ['!'] ++ ((toString p.jobNumber).toList ++ (markedPart "#" p.jobResubmit).toList) = base at hbase htext
  split_ifs at htext with hnone
  · rw [List.append_nil] at htext
    rw [htext]
    exact .inl ⟨hbase.plain, hbase.whole, literal_of_not_mem hbase.noDollar⟩
  · by_cases hneg : 0 ≤ p.jobCheckpoint
    · rw [Text.toList_toString, if_pos hneg] at htext
      exact .inr ⟨base, p.jobCheckpoint.natAbs, hbase, htext⟩
    · -- a sign is no reference
      have hnumber := simple_toString p.jobCheckpoint
      rw [htext]
      refine .inl ⟨List.forall_mem_append.2 ⟨hbase.plain, List.forall_mem_cons.2 ⟨by decide, hnumber.plain⟩⟩,
        List.forall_mem_append.2 ⟨hbase.whole, List.forall_mem_cons.2 ⟨by decide, hnumber.whole⟩⟩,
        Literal.append hbase.noDollar ?_⟩
      rintro front c back heq
      cases front with
      | nil =>
        rw [Text.toList_toString, if_neg hneg] at heq
        cases heq
        unfold Refers
        decide
      | cons x front =>
        refine absurd ?_ hnumber.noDollar
        rw [(List.cons.inj heq).2]
        exact List.mem_append_right _ List.mem_cons_self

end IdReplacement

end ScheduleTest
