import ScheduleTest.Lemmas.IdExpansion
import ScheduleTest.Lemmas.ReadReplaced

/-!
# Where the replaced identifier is all that changes

The stored description is the description with its additions in which only the id was replaced, if the expression finds no other key
that ends like `id` in it, at any depth, unless the identifier is its value already, and if the identifier and the id are texts that
survive the replacement (`IdReplaceable`). A job's description can have any members, so that is not always so: a nested id is
overwritten, an id with a comma in it is cut, and the number of a checkpoint is lost.
-/

namespace ScheduleTest

open JsonValue

namespace IdReplacement

/-- Where the id is all that is replaced in the members of a description. -/
structure IdReplaceable (id : String) (members : List (String × JsonValue)) : Prop where
  /-- The identifier is written without escapes. -/
  plain : Plain id.toList
  /-- No `$` of the identifier stands for something else. -/
  literal : Literal id.toList
  /-- None of the five characters that end a match is in the id. -/
  value : ∀ text, (object members).member? "id" = some (string text) → Whole text.toList
  /-- Any other key that is matched has the identifier as its value already. -/
  others : Kept (fun text => text = id ∧ Whole id.toList) (object (members.eraseP (·.1 = "id")))

/-- The text that is stored is read as the description with its additions, in which the identifier is the id. -/
def KeepsDescription (print : ℚ → List Char) (workloadName : String) (nbCheckpoint : ℤ) (a : DescriptionValues)
    (members : List (String × JsonValue)) (id : String) : Prop :=
  ∃ text, storedDescription print workloadName nbCheckpoint a members = some text ∧
    parse text = some (object (setMember "id" (string id) (withAdditions a members)))

/-! ## Members -/

variable {key name : String} {value : JsonValue} {members pre post : List (String × JsonValue)}

/-- A member that is found, among the others. -/
theorem exists_split (h : (object members).member? key = some value) :
    ∃ pre post, members = pre ++ (key, value) :: post ∧ ∀ member ∈ pre, member.1 ≠ key := by
  obtain ⟨member, hfind, rfl⟩ := Option.map_eq_some_iff.1 h
  obtain ⟨hkey, pre, post, rfl, hpre⟩ := List.find?_eq_some_iff_append.1 hfind
  obtain rfl := of_decide_eq_true hkey
  refine ⟨pre, post, rfl, fun member hmember heq => ?_⟩
  have hnot := hpre member hmember
  rw [decide_eq_true heq] at hnot
  cases hnot

theorem setMember_split (value' : JsonValue) (h : ∀ member ∈ pre, member.1 ≠ key) :
    setMember key value' (pre ++ (key, value) :: post) = pre ++ (key, value') :: post := by
  induction pre with
  | nil => exact if_pos rfl
  | cons member pre ih =>
    rw [List.forall_mem_cons] at h
    rw [List.cons_append, setMember, if_neg h.1, ih h.2, List.cons_append]

theorem eraseP_split (h : ∀ member ∈ pre, member.1 ≠ key) :
    (pre ++ (key, value) :: post).eraseP (·.1 = key) = pre ++ post := by
  have hhead : ((key, value) :: post).eraseP (·.1 = key) = post := List.eraseP_cons_of_pos (decide_eq_true rfl)
  rw [List.eraseP_append_right _ fun member hmember heq => h member hmember (of_decide_eq_true heq), hhead]

theorem member?_setMember (hne : key ≠ name) (value : JsonValue) (members : List (String × JsonValue)) :
    (object (setMember key value members)).member? name = (object members).member? name := by
  induction members with
  | nil => rfl
  | cons member members ih =>
    obtain ⟨key', value'⟩ := member
    rw [setMember]
    split_ifs with hkey
    · obtain rfl : key' = key := hkey
      rw [member?_cons, member?_cons, if_neg hne, if_neg hne]
    · rw [member?_cons, member?_cons, ih]

theorem member?_addMember (hne : key ≠ name) (value : JsonValue) (members : List (String × JsonValue)) :
    (object (addMember key value members)).member? name = (object members).member? name := by
  unfold addMember
  split_ifs
  · rfl
  · have hlast : List.find? (fun member : String × JsonValue => decide (member.1 = name)) [(key, value)] = none :=
      List.find?_cons_of_neg (by rw [decide_eq_true_iff]; exact hne)
    simp only [member?, List.find?_append, hlast, Option.or_none]

/-- The fields that are checked are not among those that are added. -/
theorem member?_withAdditions (a : DescriptionValues) (members : List (String × JsonValue))
    (h : name ∉ ["submission_times", "start", "checkpoint_interval", "readtime", "dumptime", "purpose"]) :
    (object (withAdditions a members)).member? name = (object members).member? name := by
  simp only [List.mem_cons, List.not_mem_nil, or_false, not_or] at h
  obtain ⟨htimes, hstart, hinterval, hread, hdump, hpurpose⟩ := h
  unfold withAdditions
  dsimp only
  split_ifs
  all_goals
    simp only [member?_addMember (Ne.symm htimes), member?_addMember (Ne.symm hstart), member?_addMember (Ne.symm hinterval),
      member?_addMember (Ne.symm hpurpose), member?_setMember (Ne.symm hstart), member?_setMember (Ne.symm hinterval),
      member?_setMember (Ne.symm hread), member?_setMember (Ne.symm hdump)]

/-- The description that is expected passes the checks of the stored one. -/
theorem isChecked_expected {idValue : JsonValue} {id : String} (a : DescriptionValues)
    (hid : (object members).member? "id" = some idValue) (hchecked : fieldsChecked (object members) = true) :
    isChecked (object (setMember "id" (string id) (withAdditions a members))) = true := by
  rw [← member?_withAdditions a members (by decide)] at hid
  obtain ⟨pre, post, hsplit, hpre⟩ := exists_split hid
  have hvalue : (object (setMember "id" (string id) (withAdditions a members))).member? "id" = some (string id) := by
    rw [hsplit, setMember_split _ hpre]
    have hnone : List.find? (fun member : String × JsonValue => decide (member.1 = "id")) pre = none :=
      List.find?_eq_none.2 fun member hmember heq => hpre member hmember (of_decide_eq_true heq)
    simp only [member?, List.find?_append, hnone, Option.none_or, List.find?_cons, decide_true, Option.map_some]
  have hfield : ∀ name, "id" ≠ name →
      name ∉ ["submission_times", "start", "checkpoint_interval", "readtime", "dumptime", "purpose"] →
      (object (setMember "id" (string id) (withAdditions a members))).member? name = (object members).member? name := by
    intro name hne hother
    rw [member?_setMember hne, member?_withAdditions a members hother]
  unfold isChecked
  rw [hvalue, Bool.and_eq_true]
  refine ⟨rfl, ?_⟩
  rw [← hchecked]
  unfold fieldsChecked
  rw [hfield "subtime" (by decide) (by decide), hfield "walltime" (by decide) (by decide), hfield "res" (by decide) (by decide),
    hfield "profile" (by decide) (by decide)]

/-! ## The text that is stored -/

variable {print : ℚ → List Char} {idValue : JsonValue} {id : String}

theorem idText_of_jobIdentifier {workloadName : String} {nbCheckpoint : ℤ}
    (h : jobIdentifier workloadName nbCheckpoint idValue = some id) : idText idValue ≠ none := by
  obtain ⟨text, htext, -⟩ := Option.bind_eq_some_iff.1 h
  rw [htext]
  exact Option.some_ne_none text

/-- The checks of the stored text are passed if it is read as it is expected. -/
theorem keepsDescription_iff {workloadName : String} {nbCheckpoint : ℤ} (a : DescriptionValues)
    (hid : (object members).member? "id" = some idValue) (hidentifier : jobIdentifier workloadName nbCheckpoint idValue = some id)
    (hchecked : fieldsChecked (object members) = true) : KeepsDescription print workloadName nbCheckpoint a members id ↔
      parse (replaceId print id (withAdditions a members)) =
        some (object (setMember "id" (string id) (withAdditions a members))) := by
  have hstored : storedDescription print workloadName nbCheckpoint a members =
      (parse (replaceId print id (withAdditions a members))).bind fun value =>
        if isChecked value then some (replaceId print id (withAdditions a members)) else none := by
    unfold storedDescription
    rw [hid, Option.bind_some, hidentifier, Option.bind_some]
  constructor
  · rintro ⟨text, htext, hparse⟩
    rw [hstored] at htext
    obtain ⟨value, -, hvalue⟩ := Option.bind_eq_some_iff.1 htext
    split_ifs at hvalue
    rw [Option.some.inj hvalue]
    exact hparse
  · intro hparse
    refine ⟨replaceId print id (withAdditions a members), ?_, hparse⟩
    rw [hstored, hparse, Option.bind_some, if_pos (isChecked_expected a hid hchecked)]

/-- The text is read as it is expected, if the identifier can be put in. -/
theorem parse_replaceId (h : IdReplaceable id members) (hid : (object members).member? "id" = some idValue)
    (htext : idText idValue ≠ none) (hprint : PrintsNumbers print (object members)) :
    parse (replaceId print id members) = some (object (setMember "id" (string id) members)) := by
  have hvalue : ∀ text, idValue = string text → Whole text.toList := fun text heq => h.value text (heq ▸ hid)
  have hothers := h.others
  obtain ⟨pre, post, rfl, hpre⟩ := exists_split hid
  rw [eraseP_split hpre, kept_object_iff, List.forall_mem_append] at hothers
  rw [setMember_split _ hpre]
  -- every match is replaced by the same text
  obtain ⟨out, hout⟩ : ∃ out : List Char → List Char, ∀ matched, out matched =
    '"' :: 'i' :: 'd' :: '"' :: ':' :: write print (string id) := ⟨_, fun _ => rfl⟩
  have hkept : ∀ member ∈ pre ++ ("id", idValue) :: post,
      ((IdText member.1.toList → ∃ text, member.2 = string text ∧ text = id ∧ Whole id.toList) ∧
        Kept (fun text => text = id ∧ Whole id.toList) member.2) → ReplacesMember print out member member :=
    fun member hmember hboth => replacesMember_kept (fun _ => hout _) hboth.1 fun s hs =>
      substitute_write (fun _ => hout _) hboth.2 (hprint.member hmember) hs
  have hmember : ReplacesMember print out ("id", idValue) ("id", string id) :=
    replacesMember_of_idText (fun _ => hout _) idText_id
      (whole_idValue htext (hprint.member (List.mem_append_right _ List.mem_cons_self)) hvalue)
  have hall : List.Forall₂ (ReplacesMember print out) (pre ++ ("id", idValue) :: post) (pre ++ ("id", string id) :: post) := by
    refine List.rel_append (List.forall₂_same.2 fun member hm => ?_) (.cons hmember (List.forall₂_same.2 fun member hm => ?_))
    · exact hkept member (List.mem_append_left _ hm) (hothers.1 member hm)
    · exact hkept member (List.mem_append_right _ (List.mem_cons_of_mem _ hm)) (hothers.2 member hm)
  have hwritten := substitute_object hall []
  rw [List.append_nil, substitute, List.append_nil] at hwritten
  have hexpand : ∀ before matched after, expand before matched after 0 (replacement id) = out matched := fun _ _ _ => by
    rw [hout, expand_replacement_literal h.plain h.literal print]
  rw [replaceId, replaceFrom_eq hexpand, hwritten]
  refine PrintsNumbers.parse_write fun x hx => hprint x ?_
  cases hx with
  | member hin hwithin =>
    rcases List.mem_append.1 hin with hin | hin
    · exact .member (List.mem_append_left _ hin) hwithin
    · rcases List.mem_cons.1 hin with heq | hin
      · cases heq
        cases hwithin
      · exact .member (List.mem_append_right _ (List.mem_cons_of_mem _ hin)) hwithin

/-! ## Identifiers that were made -/

/-- What replaces a match, and what is read of it. -/
structure Replaces (print : ℚ → List Char) (id : String) (out replaced : List Char → List Char) (G : String → Prop) : Prop where
  expands : ∀ before matched after, expand before matched after 0 (replacement id) = out matched
  key : ∀ s, out ('"' :: 'i' :: 'd' :: '"' :: ':' :: s) = '"' :: 'i' :: 'd' :: '"' :: ':' :: replaced s
  reads : ReadsReplaced replaced G
  whole : ∀ text, G text → Whole text.toList

/-- Where every match is replaced by the same string, that string is read. -/
theorem replaces_string {text : String} (hwhole : Whole text.toList) (hexpand : ∀ before matched after,
    expand before matched after 0 (replacement id) = '"' :: 'i' :: 'd' :: '"' :: ':' :: write print (string text)) :
    Replaces print id (fun _ => '"' :: 'i' :: 'd' :: '"' :: ':' :: write print (string text)) (fun _ => write print (string text))
      (fun read => read = text ∧ Whole text.toList) where
  expands := hexpand
  key := fun _ => rfl
  reads := by
    intro s rest fuel v behind hread _
    rw [write, List.cons_append] at hread
    obtain ⟨read, hstring, rfl⟩ := string_of_readValue hread
    rw [readString_stringBehind] at hstring
    cases hstring
    exact ⟨⟨text, rfl, rfl, hwhole⟩, rfl⟩
  whole := by
    rintro _ ⟨rfl, htext⟩
    exact htext

/-- Where the match itself is in the replacement, no string is read that ends with it. -/
theorem replaces_match {base : List Char} (hplain : Plain base) (hexpand : ∀ before matched after,
    expand before matched after 0 (replacement id) = '"' :: 'i' :: 'd' :: '"' :: ':' :: '"' :: (base ++ (matched ++ ['"']))) :
    Replaces print id (fun matched => '"' :: 'i' :: 'd' :: '"' :: ':' :: '"' :: (base ++ (matched ++ ['"'])))
      (fun s => '"' :: (base ++ ('"' :: 'i' :: 'd' :: '"' :: ':' :: s ++ ['"']))) (fun _ => False) where
  expands := hexpand
  key := fun _ => rfl
  reads := by
    intro s rest fuel v behind hread hnext
    rw [List.cons_append, List.append_assoc] at hread
    obtain ⟨text, hstring, -⟩ := string_of_readValue hread
    have hbase := readString_plain hplain ('i' :: 'd' :: '"' :: ':' :: s ++ ['"'] ++ rest)
    obtain rfl : 'i' :: 'd' :: '"' :: ':' :: s ++ ['"'] ++ rest = behind :=
      congrArg (·.2) (Option.some.inj (hbase.symm.trans hstring))
    -- the closing quote is the first one of the match
    simp only [List.cons_append] at hnext
    rw [skipSpace_cons (by decide), List.head?_cons] at hnext
    rcases hnext with hcomma | hbrace
    · exact absurd hcomma (by decide)
    · exact absurd hbrace (by decide)
  whole := fun _ h => h.elim

/-- What replaces a match, for the identifiers that are made of a simple workload. -/
theorem exists_replaces (print : ℚ → List Char) {workload : List Char} {p : IdParts}
    (hid : id.toList = workload ++ '!' :: nameOf p) (hworkload : Simple workload) : ∃ out replaced G,
      Replaces print id out replaced G ∧
        (G id → Plain id.toList ∧ Literal id.toList ∧ ∀ text, G text → text = id ∧ Whole id.toList) := by
  rcases literal_or_checkpoint hid hworkload with ⟨hplain, hwhole, hliteral⟩ | ⟨base, n, hbase, htext⟩
  · exact ⟨_, _, _, replaces_string hwhole fun _ _ _ => expand_replacement_literal hplain hliteral print,
      fun _ => ⟨hplain, hliteral, fun _ h => h⟩⟩
  · have hexpand : ∀ before matched after, expand before matched after 0 (replacement id) =
        '"' :: 'i' :: 'd' :: '"' :: ':' :: '"' :: (base ++ ((if n = 0 then matched else []) ++
          ((Nat.toDigits 10 n).drop 2 ++ ['"']))) := by
      intro before matched after
      rw [expand_replacement, htext, List.append_assoc, List.cons_append, expand_append hbase.noDollar, expand_number]
    by_cases hn : n = 0
    · subst hn
      exact ⟨_, _, _, replaces_match hbase.plain hexpand, False.elim⟩
    · -- the number is shorter by its first two digits and the `$`
      have hdigits : Simple ((Nat.toDigits 10 n).drop 2) :=
        simple_of_digits fun c hc => .inl (Reads.digits_toDigits n c (List.mem_of_mem_drop hc))
      have hshort := hbase.append hdigits
      refine ⟨_, _, _, @replaces_string print id (String.ofList (base ++ (Nat.toDigits 10 n).drop 2)) ?_ ?_, ?_⟩
      · rw [String.toList_ofList]
        exact hshort.whole
      · intro before matched after
        rw [hexpand, if_neg hn, write, String.toList_ofList, stringBehind_plain hshort.plain, List.nil_append, List.append_assoc]
      · rintro ⟨heq, -⟩
        have hlength := congrArg List.length htext
        rw [heq, String.toList_ofList] at hlength
        simp only [List.length_append, List.length_drop, List.length_cons] at hlength
        omega

/-- If the text is read as it is expected, the identifier can be put in. -/
theorem idReplaceable_of_parse {workload : List Char} {p : IdParts} (hidentifier : id.toList = workload ++ '!' :: nameOf p)
    (hworkload : Simple workload) (hid : (object members).member? "id" = some idValue) (htext : idText idValue ≠ none)
    (hprint : PrintsNumbers print (object members))
    (h : parse (replaceId print id members) = some (object (setMember "id" (string id) members))) : IdReplaceable id members := by
  obtain ⟨out, replaced, G, hreplaces, hG⟩ := exists_replaces print hidentifier hworkload
  obtain ⟨fuel, rest, hread, hrest⟩ := readValue_of_parse h
  obtain ⟨pre, post, rfl, hpre⟩ := exists_split hid
  rw [setMember_split _ hpre, replaceId, String.toList_ofList, replaceFrom_eq hreplaces.expands, write_object (by simp),
    substitute_of_ne (by decide)] at hread
  obtain ⟨fuel', hmembers⟩ : ∃ fuel', readMembers fuel'
      (substitute out 0 (membersText print (pre ++ ("id", idValue) :: post))) = some (pre ++ ("id", string id) :: post, rest) := by
    cases pre with
    | nil => exact members_of_readValue hread
    | cons member pre => exact members_of_readValue hread
  obtain ⟨hvalue, hGid, hothers⟩ := kept_others hreplaces.key hreplaces.reads hreplaces.whole htext hprint hrest hmembers
  obtain ⟨hplain, hliteral, hall⟩ := hG hGid
  refine ⟨hplain, hliteral, ?_, ?_⟩
  · intro text heq
    rw [hid] at heq
    exact hvalue text (Option.some.inj heq)
  · rw [eraseP_split hpre]
    exact hothers.imp hall

end IdReplacement

open IdReplacement

namespace IdReplacement

/-! ## Two descriptions -/

/-- Doubles are printed with a digit behind the point. -/
def printTenths (x : ℚ) : List Char := Text.printFixed 1 x

theorem printsNumber_whole (n : ℕ) : PrintsNumber printTenths n where
  reads := by
    have hread := Reads.fixed (by decide : 0 < 1) (n : ℚ)
    rwa [Text.fixedValue_natCast] at hread
  chars := fun _ hc => (Text.mem_printFixed hc).imp_right fun h => h.imp_right fun h => .inr (.inl h)

/-- A job that is submitted once, whose profile has no checkpoints. -/
def onceSubmitted : DescriptionValues where
  submissionTimes := [0]
  start := 0
  purpose := "job"
  timed := false
  checkpointingOn := false
  resubmitted := false
  checkpointInterval := 0
  dumpTime := 0
  readTime := 0

/-- A description with one more member. -/
def withExtra (value : JsonValue) : List (String × JsonValue) :=
  [("id", ofInt 5), ("subtime", ofInt 0), ("res", ofInt 1), ("profile", string "delay"), ("extra", value)]

theorem withAdditions_withExtra (value : JsonValue) : withAdditions onceSubmitted (withExtra value) =
    withExtra value ++ [("submission_times", array [double 0])] := rfl

theorem prints_withExtra {value : JsonValue} (h : PrintsNumbers printTenths value) :
    PrintsNumbers printTenths (object (withAdditions onceSubmitted (withExtra value))) := by
  intro x hx
  rw [withAdditions_withExtra] at hx
  simp only [withExtra, List.cons_append, List.nil_append] at hx
  cases hx with
  | member hin hwithin =>
    simp only [List.mem_cons, Prod.mk.injEq, List.not_mem_nil, or_false] at hin
    rcases hin with ⟨-, rfl⟩ | ⟨-, rfl⟩ | ⟨-, rfl⟩ | ⟨-, rfl⟩ | ⟨-, rfl⟩ | ⟨-, rfl⟩
    · cases hwithin
    · cases hwithin
    · cases hwithin
    · cases hwithin
    · exact h x hwithin
    · cases hwithin with
      | element hin hwithin =>
        cases List.mem_singleton.1 hin
        cases hwithin
        exact_mod_cast printsNumber_whole 0

/-- A member that is not matched, whose value keeps its text, leaves the id as the only one. -/
theorem replaceable_withExtra {value : JsonValue} (h : Kept (fun text => text = "w0!5" ∧ Whole "w0!5".toList) value) :
    IdReplaceable "w0!5" (withAdditions onceSubmitted (withExtra value)) where
  plain := by decide
  literal := literal_of_not_mem (by decide)
  value := by
    intro text hid
    rw [withAdditions_withExtra] at hid
    cases hid
  others := by
    have herase : (withAdditions onceSubmitted (withExtra value)).eraseP (·.1 = "id") = [("subtime", ofInt 0), ("res", ofInt 1),
        ("profile", string "delay"), ("extra", value), ("submission_times", array [double 0])] := rfl
    rw [herase, kept_object_iff]
    simp only [List.forall_mem_cons]
    refine ⟨⟨fun hkey => absurd hkey (by decide), fun _ hin => by cases hin⟩,
      ⟨fun hkey => absurd hkey (by decide), fun _ hin => by cases hin⟩,
      ⟨fun hkey => absurd hkey (by decide), fun _ hin => by cases hin⟩, ⟨fun hkey => absurd hkey (by decide), h⟩,
      ⟨fun hkey => absurd hkey (by decide), kept_array_iff.2 ?_⟩, fun _ hin => absurd hin List.not_mem_nil⟩
    exact List.forall_mem_singleton.2 fun _ hin => by cases hin

/-- The workload of the identifier, as any part in front of a `!`, is simple. -/
theorem simple_workload (workload name : List Char) (h : "w0!5".toList = workload ++ '!' :: name) : Simple workload := by
  have hall : Plain "w0!5".toList ∧ Whole "w0!5".toList ∧ '$' ∉ "w0!5".toList := by decide
  rw [h] at hall
  exact ⟨fun c hc => hall.1 c (List.mem_append_left _ hc), fun c hc => hall.2.1 c (List.mem_append_left _ hc),
    fun hc => hall.2.2 (List.mem_append_left _ hc)⟩

end IdReplacement

open IdReplacement

end ScheduleTest
