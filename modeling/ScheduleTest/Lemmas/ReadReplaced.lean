import Mathlib.Data.List.TakeWhile
import ScheduleTest.Lemmas.IdReplacement

/-!
# What is read of a replaced text

A value whose matched keys already have the identifier as their value keeps its text (`substitute_write`). The other way round,
where a value is read from its replaced text, its matched keys had what is read of a replacement (`keptIfRead`), and where a
description is read up to its end with the identifier in it, so had all its keys but the `id` (`kept_others`).
-/

namespace ScheduleTest

open JsonValue

namespace IdReplacement

variable {print : ℚ → List Char} {out : List Char → List Char}

/-! ## A replacement that is a string -/

section

variable {id : String} (hout : ∀ s, out ('"' :: 'i' :: 'd' :: '"' :: ':' :: s) =
  '"' :: 'i' :: 'd' :: '"' :: ':' :: write print (string id))

include hout

/-- The value of a matched key becomes the identifier. -/
theorem replacesMember_of_idText {key : String} {value : JsonValue} (hkey : IdText key.toList)
    (hvalue : Whole (write print value)) : ReplacesMember print out (key, value) (key, string id) := by
  intro members s
  have hmember := @substitute_member out (fun _ => write print (string id)) hout key.toList hkey
    (write print value ++ (membersBehind print members ++ s))
  rw [hmember, dropWhile_membersBehind hvalue]

omit hout in
theorem replacesMember_self {key : String} {value : JsonValue} (hkey : ¬IdText key.toList)
    (hvalue : ∀ s, Closes s → substitute out 0 (write print value ++ s) = write print value ++ substitute out 0 s) :
    ReplacesMember print out (key, value) (key, value) := by
  intro members s
  have hcolon : Follows (':' :: (write print value ++ (membersBehind print members ++ s))) := fun c hc =>
    .inr (.inr (.inr (Option.some.inj hc).symm))
  dsimp only
  rw [substitute_string hcolon (.inl hkey), substitute_of_ne (by decide), hvalue _ (closes_membersBehind members s)]

/-- A member is kept, if it has the identifier as its value where its key is matched. -/
theorem replacesMember_kept {member : String × JsonValue}
    (hkey : IdText member.1.toList → ∃ text, member.2 = string text ∧ text = id ∧ Whole id.toList)
    (hvalue : ∀ s, Closes s → substitute out 0 (write print member.2 ++ s) = write print member.2 ++ substitute out 0 s) :
    ReplacesMember print out member member := by
  obtain ⟨key, value⟩ := member
  by_cases htext : IdText key.toList
  · obtain ⟨text, rfl, rfl, hwhole⟩ := hkey htext
    exact replacesMember_of_idText hout htext (whole_writeString hwhole)
  · exact replacesMember_self htext hvalue

/-- A value whose matched keys have the identifier as their value already keeps its text. -/
theorem substitute_write {value : JsonValue} (hkept : Kept (fun text => text = id ∧ Whole id.toList) value)
    (hprint : PrintsNumbers print value) {s : List Char} (hs : Closes s) :
    substitute out 0 (write print value ++ s) = write print value ++ substitute out 0 s := by
  induction value using value_induction generalizing s with
  | null => exact substitute_of_noQuote (by simp [write]) s
  | bool b =>
    cases b with
    | true => exact substitute_of_noQuote (by simp [write]) s
    | false => exact substitute_of_noQuote (by simp [write]) s
  | int z => exact substitute_of_noQuote (ne_of_mem_toString (by decide) (by decide)) s
  | double x => exact substitute_of_noQuote ((hprint x .self).ne_of_mem (by decide) (by decide)) s
  | string text =>
    simp only [write, List.cons_append]
    exact substitute_string hs.follows (.inr hs.head?_ne)
  | array values ih =>
    rw [kept_array_iff] at hkept
    exact substitute_array (fun v hv s hs => ih v hv (hkept v hv) (hprint.element hv) hs) s
  | object members ih =>
    rw [kept_object_iff] at hkept
    refine substitute_object (List.forall₂_same.2 fun member hmember => ?_) s
    obtain ⟨hkey, hinner⟩ := hkept member hmember
    exact replacesMember_kept hout hkey fun s hs => ih member hmember hinner (hprint.member hmember) hs

end

/-! ## What is read of a replaced text -/

/-- A replaced value that is followed by more members was read as a string of the kind, up to its end. -/
def ReadsReplaced (value : List Char → List Char) (G : String → Prop) : Prop :=
  ∀ s rest fuel v behind, readValue fuel (value s ++ rest) = some (v, behind) →
    (skipSpace behind).head? = some ',' ∨ (skipSpace behind).head? = some '\x7d' →
      (∃ text, v = string text ∧ G text) ∧ behind = rest

/-- Where a value is read from its replaced text, its matched keys have strings of the kind as their values. -/
def KeptIfRead (print : ℚ → List Char) (out : List Char → List Char) (G : String → Prop) (value : JsonValue) : Prop :=
  ∀ fuel s rest, Closes s → readValue fuel (substitute out 0 (write print value ++ s)) = some (value, rest) →
    Kept G value ∧ rest = substitute out 0 s

variable {G : String → Prop}

/-- A text that is left as it is has been read up to its end. -/
theorem rest_of_read {value : JsonValue} (hprint : PrintsNumbers print value) {fuel : ℕ} {s rest : List Char} (hs : Closes s)
    (hkeeps : substitute out 0 (write print value ++ s) = write print value ++ substitute out 0 s)
    (h : readValue fuel (substitute out 0 (write print value ++ s)) = some (value, rest)) : rest = substitute out 0 s := by
  rw [hkeeps] at h
  have hread := hprint.reads_write (write print value).length (substitute out 0 s) le_rfl (closes_substitute hs).ends
  exact congrArg (·.2) (readValue_unique h hread)

theorem kept_elements {value : JsonValue} {values : List JsonValue} (hvalue : KeptIfRead print out G value)
    (hvalues : ∀ v ∈ values, KeptIfRead print out G v) {fuel : ℕ} {s rest : List Char}
    (h : readElements fuel (substitute out 0 (write print value ++ (elementsBehind print values ++ s))) =
      some (value :: values, rest)) : (∀ v ∈ value :: values, Kept G v) ∧ rest = substitute out 0 s := by
  induction values generalizing value fuel with
  | nil =>
    obtain ⟨fuel', behind, hread, hnext⟩ := of_readElements h
    obtain ⟨hkept, rfl⟩ := hvalue fuel' _ behind (closes_elementsBehind [] s) hread
    have hbehind : substitute out 0 (elementsBehind print [] ++ s) = ']' :: substitute out 0 s := substitute_of_ne (by decide) s
    rw [hbehind, skipSpace_cons (by decide), List.head?_cons, List.tail_cons] at hnext
    rcases hnext with ⟨hcomma, -⟩ | ⟨-, -, hrest⟩
    · exact absurd hcomma (by decide)
    · exact ⟨List.forall_mem_singleton.2 hkept, hrest⟩
  | cons next values ih =>
    rw [List.forall_mem_cons] at hvalues
    obtain ⟨fuel', behind, hread, hnext⟩ := of_readElements h
    obtain ⟨hkept, rfl⟩ := hvalue fuel' _ behind (closes_elementsBehind _ s) hread
    have hbehind : substitute out 0 (elementsBehind print (next :: values) ++ s) =
        ',' :: substitute out 0 (write print next ++ (elementsBehind print values ++ s)) := by
      simp only [elementsBehind, List.cons_append, List.append_assoc]
      exact substitute_of_ne (by decide) _
    rw [hbehind, skipSpace_cons (by decide), List.head?_cons, List.tail_cons] at hnext
    rcases hnext with ⟨-, hmore⟩ | ⟨hbracket, -⟩
    · obtain ⟨hall, hrest⟩ := ih hvalues.1 hvalues.2 hmore
      exact ⟨List.forall_mem_cons.2 ⟨hkept, hall⟩, hrest⟩
    · exact absurd hbracket (by decide)

/-- The next member begins behind the comma. -/
theorem substitute_comma (key : String) (value : JsonValue) (members : List (String × JsonValue)) (s : List Char) :
    substitute out 0 (membersBehind print ((key, value) :: members) ++ s) = ',' :: substitute out 0
      ('"' :: (stringBehind key.toList ++ ':' :: (write print value ++ (membersBehind print members ++ s)))) := by
  simp only [membersBehind, List.cons_append, List.append_assoc]
  exact substitute_of_ne (by decide) _

section

variable {replaced : List Char → List Char} (hout : ∀ s, out ('"' :: 'i' :: 'd' :: '"' :: ':' :: s) =
  '"' :: 'i' :: 'd' :: '"' :: ':' :: replaced s) (hreplaced : ReadsReplaced replaced G)

include hout hreplaced

/-- The first member that is read from a replaced text. A matched key has a string of the kind, up to where the match ended. -/
theorem member_of_read {key key' : String} {v' : JsonValue} {members : List (String × JsonValue)} {fuel : ℕ} {s rest : List Char}
    (h : readMembers fuel (substitute out 0 ('"' :: (stringBehind key.toList ++ ':' :: s))) = some ((key', v') :: members, rest)) :
    key' = key ∧ ∃ fuel' behind,
      (IdText key.toList ∧ (∃ text, v' = string text ∧ G text) ∧ behind = substitute out 0 (s.dropWhile isOther) ∨
        ¬IdText key.toList ∧ readValue fuel' (substitute out 0 s) = some (v', behind)) ∧
      ReadsBehind fuel' behind members rest := by
  have hcolon : Follows (':' :: s) := fun c hc => .inr (.inr (.inr (Option.some.inj hc).symm))
  -- in both cases the key is read first
  have hkey : ∀ t, readMembers fuel ('"' :: (stringBehind key.toList ++ ':' :: t)) = some ((key', v') :: members, rest) →
      key' = key ∧ ∃ fuel' behind, readValue fuel' t = some (v', behind) ∧ ReadsBehind fuel' behind members rest := by
    intro t ht
    obtain ⟨-, fuel', behindKey, behind, hname, hcolon, hread, hnext⟩ := of_readMembers ht
    rw [skipSpace_cons (by decide), List.tail_cons, readString_stringBehind] at hname
    cases hname
    rw [skipSpace_cons (by decide), List.tail_cons] at hread
    exact ⟨rfl, fuel', behind, hread, hnext⟩
  by_cases htext : IdText key.toList
  · rw [substitute_member hout htext] at h
    obtain ⟨rfl, fuel', behind, hread, hnext⟩ := hkey _ h
    have hhead := hnext.imp And.left And.left
    obtain ⟨hG, hbehind⟩ := hreplaced _ _ fuel' v' behind hread hhead
    exact ⟨rfl, fuel', behind, .inl ⟨htext, hG, hbehind⟩, hnext⟩
  · rw [substitute_string hcolon (.inl htext), substitute_of_ne (by decide)] at h
    obtain ⟨rfl, fuel', behind, hread, hnext⟩ := hkey _ h
    exact ⟨rfl, fuel', behind, .inr ⟨htext, hread⟩, hnext⟩

variable (hG : ∀ text, G text → Whole text.toList)

include hG

/-- A member that was read as it is. -/
theorem kept_member {key : String} {value : JsonValue} (hself : KeptIfRead print out G value)
    {members members' : List (String × JsonValue)} {fuel : ℕ} {s rest : List Char}
    (h : readMembers fuel (substitute out 0
      ('"' :: (stringBehind key.toList ++ ':' :: (write print value ++ (membersBehind print members' ++ s))))) =
      some ((key, value) :: members, rest)) :
    ((IdText key.toList → ∃ text, value = string text ∧ G text) ∧ Kept G value) ∧
      ∃ fuel', ReadsBehind fuel' (substitute out 0 (membersBehind print members' ++ s)) members rest := by
  obtain ⟨-, fuel', behind, hread, hnext⟩ := member_of_read hout hreplaced h
  rcases hread with ⟨-, ⟨text, rfl, htext⟩, hbehind⟩ | ⟨hkey, hread⟩
  · rw [dropWhile_membersBehind (whole_writeString (hG text htext))] at hbehind
    subst hbehind
    refine ⟨⟨fun _ => ⟨text, rfl, htext⟩, fun inner hinner => ?_⟩, fuel', hnext⟩
    cases hinner
  · obtain ⟨hkept, rfl⟩ := hself fuel' _ behind (closes_membersBehind members' s) hread
    exact ⟨⟨fun htext => absurd htext hkey, hkept⟩, fuel', hnext⟩

theorem kept_members {key : String} {value : JsonValue} {members : List (String × JsonValue)}
    (hself : ∀ member ∈ (key, value) :: members, KeptIfRead print out G member.2) {fuel : ℕ} {s rest : List Char}
    (h : readMembers fuel (substitute out 0
      ('"' :: (stringBehind key.toList ++ ':' :: (write print value ++ (membersBehind print members ++ s))))) =
      some ((key, value) :: members, rest)) :
    Kept G (object ((key, value) :: members)) ∧ rest = substitute out 0 s := by
  induction members generalizing key value fuel with
  | nil =>
    obtain ⟨hmember, fuel', hnext⟩ := kept_member hout hreplaced hG (hself _ List.mem_cons_self) h
    rw [membersBehind, List.singleton_append, substitute_of_ne (by decide)] at hnext
    exact ⟨kept_object_iff.2 (List.forall_mem_singleton.2 hmember), hnext.of_brace.2⟩
  | cons next members ih =>
    obtain ⟨hmember, fuel', hnext⟩ := kept_member hout hreplaced hG (hself _ List.mem_cons_self) h
    obtain ⟨name, nextValue⟩ := next
    rw [substitute_comma] at hnext
    obtain ⟨hall, hrest⟩ := ih (fun member hmem => hself member (List.mem_cons_of_mem _ hmem)) hnext.of_comma
    rw [kept_object_iff] at hall ⊢
    exact ⟨List.forall_mem_cons.2 ⟨hmember, hall⟩, hrest⟩

/-- Where a value is read from its replaced text, its matched keys have strings of the kind as their values, at every depth. -/
theorem keptIfRead {value : JsonValue} (hprint : PrintsNumbers print value) : KeptIfRead print out G value := by
  induction value using value_induction with
  | null =>
    intro fuel s rest hs h
    exact ⟨fun inner hinner => (by cases hinner), rest_of_read hprint hs (substitute_of_noQuote (by simp [write]) s) h⟩
  | bool b =>
    intro fuel s rest hs h
    refine ⟨fun inner hinner => (by cases hinner), rest_of_read hprint hs ?_ h⟩
    cases b with
    | true => exact substitute_of_noQuote (by simp [write]) s
    | false => exact substitute_of_noQuote (by simp [write]) s
  | int z =>
    intro fuel s rest hs h
    exact ⟨fun inner hinner => (by cases hinner),
      rest_of_read hprint hs (substitute_of_noQuote (ne_of_mem_toString (by decide) (by decide)) s) h⟩
  | double x =>
    intro fuel s rest hs h
    exact ⟨fun inner hinner => (by cases hinner),
      rest_of_read hprint hs (substitute_of_noQuote ((hprint x .self).ne_of_mem (by decide) (by decide)) s) h⟩
  | string text =>
    intro fuel s rest hs h
    refine ⟨fun inner hinner => (by cases hinner), rest_of_read hprint hs ?_ h⟩
    simp only [write, List.cons_append]
    exact substitute_string hs.follows (.inr hs.head?_ne)
  | array values ih =>
    intro fuel s rest hs h
    have hself : ∀ v ∈ values, KeptIfRead print out G v := fun v hv => ih v hv (hprint.element hv)
    cases values with
    | nil =>
      refine ⟨kept_array_iff.2 fun _ hv => absurd hv List.not_mem_nil, rest_of_read hprint hs ?_ h⟩
      exact substitute_of_noQuote (by simp [write]) s
    | cons value values =>
      rw [List.forall_mem_cons] at hself
      simp only [write, List.cons_append, List.append_assoc] at h
      rw [substitute_of_ne (by decide)] at h
      obtain ⟨fuel', helements⟩ := elements_of_readValue h
      obtain ⟨hkept, hrest⟩ := kept_elements hself.1 hself.2 helements
      exact ⟨kept_array_iff.2 hkept, hrest⟩
  | object members ih =>
    intro fuel s rest hs h
    have hself : ∀ member ∈ members, KeptIfRead print out G member.2 := fun member hm => ih member hm (hprint.member hm)
    cases members with
    | nil =>
      refine ⟨kept_object_iff.2 fun _ hm => absurd hm List.not_mem_nil, rest_of_read hprint hs ?_ h⟩
      exact substitute_of_noQuote (by simp [write]) s
    | cons member members =>
      simp only [write, List.cons_append, List.append_assoc] at h
      rw [substitute_of_ne (by decide)] at h
      obtain ⟨fuel', hmembers⟩ := members_of_readValue h
      exact kept_members hout hreplaced hG hself hmembers

/-! ## The identifier itself -/

omit hout hreplaced hG

/-- A text in which a match ends, up to there. -/
theorem exists_end {text : List Char} (h : ¬Whole text) :
    ∃ front d back, text = front ++ d :: back ∧ Whole front ∧ isOther d = false := by
  induction text with
  | nil => exact absurd (fun _ hc => absurd hc List.not_mem_nil) h
  | cons c text ih =>
    cases hc : isOther c with
    | false => exact ⟨[], c, text, rfl, fun _ hx => absurd hx List.not_mem_nil, hc⟩
    | true =>
      obtain ⟨front, d, back, rfl, hfront, hd⟩ := ih fun htext => h (List.forall_mem_cons.2 ⟨hc, htext⟩)
      exact ⟨c :: front, d, back, rfl, List.forall_mem_cons.2 ⟨hc, hfront⟩, hd⟩

/-- What ends a match is written as it is. -/
theorem end_spec {d : Char} (hd : isOther d = false) : escape d = [d] ∧ d ≠ '"' ∧ isSpace d = false := by
  simp only [isOther, Bool.not_eq_false', Bool.or_eq_true, decide_eq_true_eq] at hd
  rcases hd with (((rfl | rfl) | rfl) | rfl) | rfl
  all_goals exact ⟨rfl, by decide, by decide⟩

/-- What is left of a string in which a match ends. -/
theorem dropWhile_string {front back : List Char} {d : Char} (hfront : Whole front) (hd : isOther d = false) (s : List Char) :
    ('"' :: (stringBehind (front ++ d :: back) ++ s)).dropWhile isOther = d :: (stringBehind back ++ s) := by
  have htext : '"' :: (stringBehind (front ++ d :: back) ++ s) =
      ('"' :: front.flatMap escape) ++ (d :: (stringBehind back ++ s)) := by
    simp only [stringBehind, List.flatMap_append, List.flatMap_cons, (end_spec hd).1, List.append_assoc, List.cons_append,
      List.nil_append]
  have hwhole : Whole ('"' :: front.flatMap escape) := by
    refine List.forall_mem_cons.2 ⟨by decide, fun x hx => ?_⟩
    exact whole_stringBehind hfront x (List.mem_append_left _ hx)
  rw [htext, List.dropWhile_append_of_pos hwhole, List.dropWhile_cons_of_neg (by rw [hd]; exact Bool.false_ne_true)]

include hout in
/-- A key is still there, whether it is matched or not. -/
theorem exists_key (key s : List Char) :
    ∃ s', substitute out 0 ('"' :: (stringBehind key ++ ':' :: s)) = '"' :: (stringBehind key ++ ':' :: s') := by
  by_cases hkey : IdText key
  · exact ⟨_, substitute_member hout hkey s⟩
  · have hcolon : Follows (':' :: s) := fun c hc => .inr (.inr (.inr (Option.some.inj hc).symm))
    rw [substitute_string hcolon (.inl hkey), substitute_of_ne (by decide)]
    exact ⟨_, rfl⟩

include hout in
/-- After a match that ended in a string, what is left of the string cannot be read up to the end. -/
theorem not_read_end {back : List Char} {d : Char} (hd : isOther d = false) {post : List (String × JsonValue)} {fuel : ℕ}
    {rest behind : List Char} (hbehind : behind = substitute out 0 (d :: (stringBehind back ++ (membersBehind print post ++ []))))
    (hnext : ReadsBehind fuel behind post rest) : skipSpace rest ≠ [] := by
  obtain ⟨-, hquote, hspace⟩ := end_spec hd
  have hcloses := @closes_membersBehind print post []
  rw [substitute_of_ne hquote, substitute_stringBehind hcloses.follows (.inr hcloses.head?_ne)] at hbehind
  rw [hbehind, ReadsBehind, skipSpace_cons hspace, List.tail_cons] at hnext
  rcases hnext with ⟨-, hread⟩ | ⟨-, -, hrest⟩
  · -- a comma: the next key is then what stands between the string and the key behind it
    exfalso
    cases post with
    | nil => exact ne_nil_of_readMembers hread rfl
    | cons member post =>
      obtain ⟨key, value⟩ := member
      obtain ⟨hhead, fuel', behindKey, -, hkey, hcolon, -⟩ := of_readMembers hread
      rw [skipSpace_stringBehind hhead, List.tail_cons] at hkey
      obtain ⟨s', hs'⟩ := exists_key hout key.toList (write print value ++ (membersBehind print post ++ []))
      rw [substitute_comma, hs'] at hkey
      have hplain : Plain [','] := by decide
      have hread := readString_plain hplain (stringBehind key.toList ++ ':' :: s')
      rw [List.singleton_append, hkey] at hread
      cases hread
      -- the key is a comma, and what is behind it begins with one
      have hnext : stringBehind (String.ofList [',']).toList ++ ':' :: s' = ',' :: '"' :: ':' :: s' := by
        rw [String.toList_ofList]
        rfl
      rw [hnext, skipSpace_cons (by decide), List.head?_cons] at hcolon
      exact absurd hcolon (by decide)
  · intro hnil
    have hall := List.dropWhile_eq_nil_iff.1 hnil
    have hquote : '"' ∈ stringBehind back ++ substitute out 0 (membersBehind print post ++ []) :=
      List.mem_append_left _ (List.mem_append_right _ List.mem_cons_self)
    exact absurd (hall '"' (hrest ▸ hquote)) (by decide)

theorem idText_id : IdText "id".toList := .inl (by decide)

/-- The text of an id, which is a number or a string, is taken to its end if the string is whole. -/
theorem whole_idValue {idValue : JsonValue} (hid : idText idValue ≠ none) (hprint : PrintsNumbers print idValue)
    (hwhole : ∀ text, idValue = string text → Whole text.toList) : Whole (write print idValue) := by
  cases idValue with
  | int z => exact whole_toString z.val
  | double x => exact (hprint x .self).whole
  | string text => exact whole_writeString (hwhole text rfl)
  | _ => exact absurd rfl hid

include hout hreplaced hG

/-- The identifier that is read is of the kind, the id was taken to its end, and the members behind it are kept. -/
theorem kept_id {idValue : JsonValue} {id : String} {post : List (String × JsonValue)} (hid : idText idValue ≠ none)
    (hprint : PrintsNumbers print (object (("id", idValue) :: post))) {fuel : ℕ} {rest : List Char} (hrest : skipSpace rest = [])
    (h : readMembers fuel (substitute out 0 (membersText print (("id", idValue) :: post))) =
      some (("id", string id) :: post, rest)) :
    (∀ text, idValue = string text → Whole text.toList) ∧ G id ∧ Kept G (object post) := by
  rw [membersText, ← List.append_nil (membersBehind print post)] at h
  obtain ⟨-, fuel', behind, hread, hnext⟩ := member_of_read hout hreplaced h
  rcases hread with ⟨-, ⟨text, htext, hGtext⟩, hbehind⟩ | ⟨hkey, -⟩
  case inr => exact absurd idText_id hkey
  cases htext
  have hwhole : ∀ text, idValue = string text → Whole text.toList := by
    rintro text rfl
    by_contra hnot
    obtain ⟨front, d, back, htext, hfront, hd⟩ := exists_end hnot
    rw [write, List.cons_append, htext, dropWhile_string hfront hd] at hbehind
    exact not_read_end hout hd hbehind hnext hrest
  refine ⟨hwhole, hGtext, ?_⟩
  rw [dropWhile_membersBehind (whole_idValue hid (hprint.member List.mem_cons_self) hwhole)] at hbehind
  cases post with
  | nil => exact kept_object_iff.2 fun _ hmember => absurd hmember List.not_mem_nil
  | cons member post =>
    obtain ⟨key, value⟩ := member
    rw [hbehind, substitute_comma] at hnext
    refine (kept_members hout hreplaced hG (fun member hmember => ?_) hnext.of_comma).1
    exact keptIfRead hout hreplaced hG (hprint.member (List.mem_cons_of_mem _ hmember))

/-- Where a description is read with the identifier in it, all matched keys but the first have strings of the kind. -/
theorem kept_others {idValue : JsonValue} {id : String} {pre post : List (String × JsonValue)} (hid : idText idValue ≠ none)
    (hprint : PrintsNumbers print (object (pre ++ ("id", idValue) :: post))) {fuel : ℕ} {rest : List Char}
    (hrest : skipSpace rest = [])
    (h : readMembers fuel (substitute out 0 (membersText print (pre ++ ("id", idValue) :: post))) =
      some (pre ++ ("id", string id) :: post, rest)) :
    (∀ text, idValue = string text → Whole text.toList) ∧ G id ∧ Kept G (object (pre ++ post)) := by
  induction pre generalizing fuel with
  | nil => exact kept_id hout hreplaced hG hid hprint hrest h
  | cons member pre ih =>
    obtain ⟨key, value⟩ := member
    rw [List.cons_append, membersText, ← List.append_nil (membersBehind print _)] at h
    have hself := keptIfRead hout hreplaced hG (hprint.member List.mem_cons_self)
    obtain ⟨hmember, fuel', hnext⟩ := kept_member hout hreplaced hG hself h
    rw [List.append_nil, membersBehind_eq (by simp), substitute_of_ne (by decide)] at hnext
    obtain ⟨hwhole, hGid, hothers⟩ := ih hprint.tail hnext.of_comma
    rw [kept_object_iff] at hothers
    exact ⟨hwhole, hGid, kept_object_iff.2 (List.forall_mem_cons.2 ⟨hmember, hothers⟩)⟩

end

end IdReplacement

end ScheduleTest
