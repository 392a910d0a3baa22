import ScheduleTest.Lib.JsonText

/-!
# Writing JSON values

A value is written without spaces between its parts. How a double is printed is left open: what is printed has to read as a
double. What was written reads as the value with these doubles (`reads_write`), and a text that reads as a value is taken apart part
by part.
-/

namespace JsonValue

/-! ### Values and their parts -/

/-- A value is a part of another one, at any depth. -/
inductive Within (part : JsonValue) : JsonValue → Prop where
  | self : Within part part
  | element {values : List JsonValue} {value : JsonValue} : value ∈ values → Within part value → Within part (array values)
  | member {members : List (String × JsonValue)} {key : String} {value : JsonValue} :
    (key, value) ∈ members → Within part value → Within part (object members)

/-- Induction over a value: what holds of all elements or of all members holds of an array or of an object. -/
@[elab_as_elim] theorem value_induction {motive : JsonValue → Prop} (null : motive null) (bool : ∀ b, motive (bool b))
    (int : ∀ z, motive (int z)) (double : ∀ x, motive (double x)) (string : ∀ text, motive (string text))
    (array : ∀ values, (∀ value ∈ values, motive value) → motive (array values))
    (object : ∀ members, (∀ member ∈ members, motive member.2) → motive (object members)) (value : JsonValue) : motive value :=
  @JsonValue.rec motive (fun values => ∀ value ∈ values, motive value) (fun members => ∀ member ∈ members, motive member.2)
    (fun member => motive member.2) null bool int double string array object (fun _ h => absurd h List.not_mem_nil)
    (fun _ _ hvalue hvalues => List.forall_mem_cons.2 ⟨hvalue, hvalues⟩) (fun _ h => absurd h List.not_mem_nil)
    (fun _ _ hmember hmembers => List.forall_mem_cons.2 ⟨hmember, hmembers⟩) (fun _ _ h => h) value

/-! ### The writer -/

/-- A hexadecimal digit. -/
def hexDigit (n : ℕ) : Char := if n < 10 then Char.ofNat (48 + n) else Char.ofNat (55 + n)

/-- How a character is written in a string. -/
def escape (c : Char) : List Char :=
  if c = '"' ∨ c = '\\' then ['\\', c]
  else if 32 ≤ c.toNat then [c]
  else if c.toNat = 8 then ['\\', 'b']
  else if c.toNat = 9 then ['\\', 't']
  else if c.toNat = 10 then ['\\', 'n']
  else if c.toNat = 12 then ['\\', 'f']
  else if c.toNat = 13 then ['\\', 'r']
  else ['\\', 'u', '0', '0', hexDigit (c.toNat / 16), hexDigit (c.toNat % 16)]

/-- A string behind its first quote, with the other one. -/
def stringBehind (text : List Char) : List Char := text.flatMap escape ++ ['"']

variable (print : ℚ → List Char)

mutual

/-- The text of a value. -/
def write : JsonValue → List Char
  | null => ['n', 'u', 'l', 'l']
  | bool true => ['t', 'r', 'u', 'e']
  | bool false => ['f', 'a', 'l', 's', 'e']
  | int z => (toString z.val).toList
  | double x => print x
  | string text => '"' :: stringBehind text.toList
  | array [] => ['[', ']']
  | array (value :: values) => '[' :: (write value ++ elementsBehind values)
  | object [] => ['\x7b', '\x7d']
  | object ((key, value) :: members) =>
    '\x7b' :: '"' :: (stringBehind key.toList ++ ':' :: (write value ++ membersBehind members))

/-- What is written behind an element. -/
def elementsBehind : List JsonValue → List Char
  | [] => [']']
  | value :: values => ',' :: (write value ++ elementsBehind values)

/-- What is written behind a member. -/
def membersBehind : List (String × JsonValue) → List Char
  | [] => ['\x7d']
  | (key, value) :: members => ',' :: '"' :: (stringBehind key.toList ++ ':' :: (write value ++ membersBehind members))

end

example : write (Text.printFixed 1) (object [("a", array [ofInt 0, double 0, null]), ("b", string "x")]) =
    "\x7b\"a\":[0,0.0,null],\"b\":\"x\"\x7d".toList := by decide +kernel

/-! ### Strings are read back -/

/-- How a written character is read. -/
def unitOf (c : Char) : Char ⊕ ℕ := if c.toNat < 32 ∧ c.toNat ∉ [8, 9, 10, 12, 13] then .inr c.toNat else .inl c

theorem readUnits_escape (c : Char) (rest : List Char) :
    readUnits (escape c ++ rest) = (readUnits rest).map fun r => (unitOf c :: r.1, r.2) := by
  by_cases hprint : 32 ≤ c.toNat
  · have hunit : unitOf c = .inl c := if_neg fun h => absurd h.1 (not_lt.2 hprint)
    rw [hunit, escape]
    by_cases hmark : c = '"' ∨ c = '\\'
    · rw [if_pos hmark]
      rcases hmark with rfl | rfl
      all_goals rfl
    · rw [if_neg hmark, if_pos hprint, List.singleton_append, readUnits.eq_def]
      dsimp only
      rw [if_neg fun h => hmark (.inl h), if_neg fun h => hmark (.inr h), if_neg (not_lt.2 hprint)]
  · obtain ⟨n, rfl, hn⟩ : ∃ n, c = Char.ofNat n ∧ n < 32 := ⟨c.toNat, (Char.ofNat_toNat c).symm, not_le.1 hprint⟩
    interval_cases n
    all_goals rfl

theorem readUnits_stringBehind (text rest : List Char) :
    readUnits (stringBehind text ++ rest) = some (text.map unitOf, rest) := by
  induction text with
  | nil => exact @readUnits_plain [] (fun _ h => absurd h List.not_mem_nil) rest
  | cons c text ih =>
    have hcons : stringBehind (c :: text) ++ rest = escape c ++ (stringBehind text ++ rest) := by
      simp only [stringBehind, List.flatMap_cons, List.append_assoc]
    rw [hcons, readUnits_escape, ih, Option.map_some, List.map_cons]

theorem joinUnits_map_unitOf (text : List Char) : joinUnits (text.map unitOf) = some text := by
  induction text with
  | nil => rfl
  | cons c text ih =>
    rw [List.map_cons, unitOf]
    split_ifs with hcontrol
    · have hlow : c.toNat < 0xD800 := by omega
      have hchar : Char.ofNat c.toNat = c := Char.ofNat_toNat c
      have hnext : ∀ units, joinUnits (.inr c.toNat :: units) = (joinUnits units).map (c :: ·) := by
        intro units
        rcases units with _ | ⟨_ | _, _⟩ <;> simp only [joinUnits, hlow, true_or, if_true, hchar, Option.map_some]
      rw [hnext, ih, Option.map_some]
    · rw [joinUnits, ih, Option.map_some]

/-- A string that was written is read back. -/
theorem readString_stringBehind (text : String) (rest : List Char) :
    readString (stringBehind text.toList ++ rest) = some (text, rest) := by
  rw [readString, readUnits_stringBehind, Option.bind_some, joinUnits_map_unitOf, Option.map_some, String.ofList_toList]

/-- A plain text is written as it is. -/
theorem stringBehind_plain {text : List Char} (h : Plain text) : stringBehind text = text ++ ['"'] := by
  have hescape : text.flatMap escape = text := by
    induction text with
    | nil => rfl
    | cons c text ih =>
      unfold Plain at h
      rw [List.forall_mem_cons] at h
      obtain ⟨⟨hquote, hslash, hprint⟩, hrest⟩ := h
      rw [List.flatMap_cons, ih hrest, escape, if_neg (not_or.2 ⟨hquote, hslash⟩), if_pos hprint, List.singleton_append]
  rw [stringBehind, hescape]

/-! ### What a written string begins with -/

/-- A written character begins with a backslash, or is itself. -/
theorem escape_cons {c x : Char} {s s' : List Char} (h : escape c ++ s = x :: s') (hx : x ≠ '\\') : c = x ∧ x ≠ '"' ∧ s = s' := by
  unfold escape at h
  split_ifs at h with hmark
  case pos => exact absurd (List.cons.inj h).1.symm hx
  case pos =>
    obtain ⟨rfl, hs⟩ := List.cons.inj h
    exact ⟨rfl, fun hquote => hmark (.inl hquote), hs⟩
  all_goals exact absurd (List.cons.inj h).1.symm hx

/-- The closing quote is the only one that is not behind a backslash. -/
theorem eq_nil_of_quote {text s s' : List Char} (h : stringBehind text ++ s = '"' :: s') : text = [] ∧ s = s' := by
  cases text with
  | nil => exact ⟨rfl, (List.cons.inj h).2⟩
  | cons c text =>
    have hcons : escape c ++ (stringBehind text ++ s) = '"' :: s' := by
      rw [← h]
      simp only [stringBehind, List.flatMap_cons, List.append_assoc]
    exact absurd rfl (escape_cons hcons (by decide)).2.1

theorem cons_of_stringBehind {text s s' : List Char} {x : Char} (h : stringBehind text ++ s = x :: s') (hx : x ≠ '\\')
    (hquote : x ≠ '"') : ∃ text', text = x :: text' ∧ stringBehind text' ++ s = s' := by
  cases text with
  | nil => exact absurd (List.cons.inj h).1.symm hquote
  | cons c text =>
    have hcons : escape c ++ (stringBehind text ++ s) = x :: s' := by
      rw [← h]
      simp only [stringBehind, List.flatMap_cons, List.append_assoc]
    obtain ⟨rfl, -, hs⟩ := escape_cons hcons hx
    exact ⟨text, rfl, hs⟩

theorem escape_head (c : Char) : (∃ more, escape c = '\\' :: more) ∨ escape c = [c] ∧ c ≠ '"' := by
  unfold escape
  split_ifs with hmark
  case pos => exact .inl ⟨_, rfl⟩
  case pos => exact .inr ⟨rfl, fun hquote => hmark (.inl hquote)⟩
  all_goals exact .inl ⟨_, rfl⟩

/-- If the next quote in a written string is found past spaces, it is the closing one. -/
theorem skipSpace_stringBehind {text s : List Char} (h : (skipSpace (stringBehind text ++ s)).head? = some '"') :
    skipSpace (stringBehind text ++ s) = '"' :: s := by
  induction text with
  | nil => exact skipSpace_cons (by decide) s
  | cons c text ih =>
    have hcons : stringBehind (c :: text) ++ s = escape c ++ (stringBehind text ++ s) := by
      simp only [stringBehind, List.flatMap_cons, List.append_assoc]
    rw [hcons] at h ⊢
    rcases escape_head c with ⟨more, hescape⟩ | ⟨hescape, hquote⟩
    · rw [hescape, List.cons_append, skipSpace_cons (by decide), List.head?_cons] at h
      exact absurd h (by decide)
    · rw [hescape, List.singleton_append] at h ⊢
      cases hspace : isSpace c with
      | false =>
        rw [skipSpace_cons hspace, List.head?_cons] at h
        exact absurd (Option.some.inj h) hquote
      | true =>
        have hskip : skipSpace (c :: (stringBehind text ++ s)) = skipSpace (stringBehind text ++ s) :=
          List.dropWhile_cons_of_pos hspace
        rw [hskip] at h ⊢
        exact ih h

/-! ### Values are read back -/

variable {print} {f g : ℚ → ℚ}

theorem mapElements_eq (f : ℚ → ℚ) (values : List JsonValue) : mapElements f values = values.map (mapDoubles f) := by
  induction values with
  | nil => simp [mapElements]
  | cons value values ih => simp [mapElements, ih]

theorem mapMembers_eq (f : ℚ → ℚ) (members : List (String × JsonValue)) :
    mapMembers f members = members.map fun member => (member.1, mapDoubles f member.2) := by
  induction members with
  | nil => simp [mapMembers]
  | cons member members ih => simp [mapMembers, ih]

/-- A member of a value whose doubles are replaced. -/
theorem member?_mapDoubles (f : ℚ → ℚ) (key : String) (value : JsonValue) :
    (value.mapDoubles f).member? key = (value.member? key).map (mapDoubles f) := by
  cases value with
  | object members =>
    rw [mapDoubles, mapMembers_eq]
    induction members with
    | nil => rfl
    | cons member members ih =>
      rw [List.map_cons, member?_cons, member?_cons, apply_ite (Option.map (mapDoubles f)), ih, Option.map_some]
  | _ => rfl

/-- Replacing doubles by doubles at which nothing changes leaves a value as it is. -/
theorem mapDoubles_eq_self {value : JsonValue} (h : ∀ x, Within (double x) value → f x = x) : value.mapDoubles f = value := by
  induction value using value_induction with
  | double x => rw [mapDoubles, h x .self]
  | array values ih =>
    have hvalues : ∀ v ∈ values, mapDoubles f v = v := fun v hv => ih v hv fun x hx => h x (.element hv hx)
    rw [mapDoubles, mapElements_eq, List.map_congr_left hvalues, List.map_id']
  | object members ih =>
    have hmembers : ∀ member ∈ members, (member.1, mapDoubles f member.2) = member := fun member hmember =>
      Prod.ext rfl (ih member hmember fun x hx => h x (.member hmember hx))
    rw [mapDoubles, mapMembers_eq, List.map_congr_left hmembers, List.map_id']
  | _ => rfl

theorem mapDoubles_mapDoubles (value : JsonValue) : (value.mapDoubles g).mapDoubles f = value.mapDoubles (f ∘ g) := by
  induction value using value_induction with
  | double x => rfl
  | array values ih =>
    simp only [mapDoubles, mapElements_eq, List.map_map]
    exact congrArg array (List.map_congr_left ih)
  | object members ih =>
    simp only [mapDoubles, mapMembers_eq, List.map_map]
    exact congrArg object (List.map_congr_left fun member hmember => Prod.ext rfl (ih member hmember))
  | _ => rfl

/-- The doubles of a value are printed as texts that read as certain doubles. -/
def Printed (print : ℚ → List Char) (g : ℚ → ℚ) (value : JsonValue) : Prop :=
  ∀ x, Within (double x) value → Reads (print x) (double (g x))

theorem Printed.element {values : List JsonValue} (h : Printed print g (array values)) {value : JsonValue} (hvalue : value ∈ values) :
    Printed print g value := fun x hx => h x (.element hvalue hx)

theorem Printed.member {members : List (String × JsonValue)} (h : Printed print g (object members)) {member : String × JsonValue}
    (hmember : member ∈ members) : Printed print g member.2 := fun x hx => h x (.member hmember hx)

theorem readElements_write {value : JsonValue} {values : List JsonValue} (hvalue : Reads (write print value) (mapDoubles g value))
    (hvalues : ∀ v ∈ values, Reads (write print v) (mapDoubles g v)) (fuel : ℕ) (rest : List Char)
    (hfuel : (write print value ++ elementsBehind print values).length ≤ fuel) :
    readElements fuel (write print value ++ (elementsBehind print values ++ rest)) =
      some (mapElements g (value :: values), rest) := by
  induction values generalizing value fuel with
  | nil =>
    simp only [elementsBehind, List.length_append, List.length_singleton] at hfuel
    cases fuel with
    | zero => omega
    | succ fuel =>
      rw [elementsBehind, List.singleton_append, readElements, hvalue fuel _ (by omega) (ends_cons (by decide)), Option.bind_some]
      dsimp only
      rw [skipSpace_cons (by decide), List.head?_cons, if_neg (by decide), if_pos rfl, List.tail_cons]
      rfl
  | cons next values ih =>
    rw [List.forall_mem_cons] at hvalues
    simp only [elementsBehind, List.length_append, List.length_cons] at hfuel
    cases fuel with
    | zero => omega
    | succ fuel =>
      have hrest := ih hvalues.1 hvalues.2 fuel (by rw [List.length_append]; omega)
      rw [elementsBehind, List.cons_append, List.append_assoc, readElements, hvalue fuel _ (by omega) (ends_cons (by decide)),
        Option.bind_some]
      dsimp only
      rw [skipSpace_cons (by decide), List.head?_cons, if_pos rfl, List.tail_cons, hrest, Option.map_some]
      rfl

/-- A member whose value reads, and what stands behind it. -/
theorem readMembers_write_first {key : String} {value read : JsonValue} (hvalue : Reads (write print value) read) {fuel : ℕ}
    {behind : List Char} (hfuel : (write print value).length ≤ fuel) (hbehind : Ends behind) :
    readMembers (fuel + 1) ('"' :: (stringBehind key.toList ++ ':' :: (write print value ++ behind))) =
      if (skipSpace behind).head? = some ',' then
        (readMembers fuel (skipSpace behind).tail).map fun r => ((key, read) :: r.1, r.2)
      else if (skipSpace behind).head? = some '\x7d' then some ([(key, read)], (skipSpace behind).tail)
      else none := by
  rw [readMembers, skipSpace_cons (by decide), List.head?_cons, if_pos rfl, List.tail_cons, readString_stringBehind,
    Option.bind_some]
  dsimp only
  rw [skipSpace_cons (by decide), List.head?_cons, if_pos rfl, List.tail_cons, hvalue fuel _ hfuel hbehind, Option.bind_some]

theorem readMembers_write (key : String) {value : JsonValue} {members : List (String × JsonValue)}
    (hvalue : Reads (write print value) (mapDoubles g value)) (hmembers : ∀ m ∈ members, Reads (write print m.2) (mapDoubles g m.2))
    (fuel : ℕ) (rest : List Char) (hfuel : (write print value ++ membersBehind print members).length ≤ fuel) :
    readMembers fuel ('"' :: (stringBehind key.toList ++ ':' :: (write print value ++ (membersBehind print members ++ rest)))) =
      some (mapMembers g ((key, value) :: members), rest) := by
  induction members generalizing key value fuel with
  | nil =>
    simp only [membersBehind, List.length_append, List.length_singleton] at hfuel
    cases fuel with
    | zero => omega
    | succ fuel =>
      rw [membersBehind, List.singleton_append, readMembers_write_first hvalue (by omega) (ends_cons (by decide)),
        skipSpace_cons (by decide), List.head?_cons, if_neg (by decide), if_pos rfl, List.tail_cons]
      rfl
  | cons next members ih =>
    obtain ⟨name, nextValue⟩ := next
    rw [List.forall_mem_cons] at hmembers
    simp only [membersBehind, List.length_append, List.length_cons] at hfuel
    cases fuel with
    | zero => omega
    | succ fuel =>
      have hnext : Reads (write print nextValue) (mapDoubles g nextValue) := hmembers.1
      have hrest := ih name hnext hmembers.2 fuel (by rw [List.length_append]; omega)
      simp only [membersBehind, List.cons_append, List.append_assoc]
      rw [readMembers_write_first hvalue (by omega) (ends_cons (by decide)), skipSpace_cons (by decide), List.head?_cons,
        if_pos rfl, List.tail_cons, hrest, Option.map_some]
      rfl

/-- What was written reads as the value with the doubles that are read. -/
theorem reads_write {value : JsonValue} (h : Printed print g value) : Reads (write print value) (value.mapDoubles g) := by
  induction value using value_induction with
  | null =>
    intro fuel rest hfuel hrest
    cases fuel with
    | zero => cases hfuel
    | succ fuel =>
      rw [write, List.cons_append, readValue, skipSpace_cons (by decide)]
      dsimp only
      rw [if_neg (by decide), if_neg (by decide), if_neg (by decide)]
      simp [readScalar, mapDoubles]
  | bool b =>
    cases b with
    | true => exact Reads.bool true
    | false => exact Reads.bool false
  | int z =>
    have hread := Reads.integer z.val
    rwa [ofInt_of_isWide z.2] at hread
  | double x => exact h x .self
  | string text =>
    intro fuel rest hfuel hrest
    cases fuel with
    | zero => cases hfuel
    | succ fuel =>
      rw [write, List.cons_append, readValue, skipSpace_cons (by decide)]
      dsimp only
      rw [if_pos rfl, readString_stringBehind, Option.map_some]
      rfl
  | array values ih =>
    intro fuel rest hfuel hrest
    cases values with
    | nil =>
      cases fuel with
      | zero => cases hfuel
      | succ fuel => rfl
    | cons value values =>
      have hall : ∀ v ∈ value :: values, Reads (write print v) (mapDoubles g v) := fun v hv => ih v hv (h.element hv)
      rw [List.forall_mem_cons] at hall
      simp only [write, List.length_cons, List.length_append] at hfuel
      cases fuel with
      | zero => omega
      | succ fuel =>
        have helements := readElements_write hall.1 hall.2 fuel rest (by rw [List.length_append]; omega)
        have hhead : (skipSpace (write print value ++ (elementsBehind print values ++ rest))).head? ≠ some ']' :=
          head?_of_readValue (hall.1 fuel _ (by omega) (by cases values <;> exact ends_cons (by decide)))
        rw [write, List.cons_append, List.append_assoc, readValue, skipSpace_cons (by decide)]
        dsimp only
        rw [if_neg (by decide), if_pos rfl, if_neg hhead, helements, Option.map_some]
        rfl
  | object members ih =>
    intro fuel rest hfuel hrest
    cases members with
    | nil =>
      cases fuel with
      | zero => cases hfuel
      | succ fuel => rfl
    | cons member members =>
      obtain ⟨key, value⟩ := member
      have hall : ∀ m ∈ (key, value) :: members, Reads (write print m.2) (mapDoubles g m.2) := fun m hm => ih m hm (h.member hm)
      rw [List.forall_mem_cons] at hall
      simp only [write, List.length_cons, List.length_append] at hfuel
      cases fuel with
      | zero => omega
      | succ fuel =>
        have hvalue : Reads (write print value) (mapDoubles g value) := hall.1
        have hmembers := readMembers_write key hvalue hall.2 fuel rest (by rw [List.length_append]; omega)
        simp only [write, List.cons_append, List.append_assoc]
        rw [Reads.readValue_object (by rw [skipSpace_cons (by decide), List.head?_cons]), hmembers, Option.map_some]
        rfl

/-- What was written is read back. -/
theorem parse_write {value : JsonValue} (h : Printed print g value) :
    parse (String.ofList (write print value)) = some (value.mapDoubles g) := by
  have hread := reads_write h ((write print value).length + 1) [] (Nat.le_succ _) ends_nil
  rw [List.append_nil] at hread
  rw [parse, String.toList_ofList, hread, Option.bind_some]
  exact if_pos rfl

/-! ### Objects without their first brace -/

/-- The text of members, the first of which has no comma in front. -/
def membersText (print : ℚ → List Char) : List (String × JsonValue) → List Char
  | [] => []
  | member :: members => '"' :: (stringBehind member.1.toList ++ ':' :: (write print member.2 ++ membersBehind print members))

theorem membersBehind_eq {members : List (String × JsonValue)} (h : members ≠ []) :
    membersBehind print members = ',' :: membersText print members := by
  cases members with
  | nil => exact absurd rfl h
  | cons member members => rfl

theorem write_object {members : List (String × JsonValue)} (h : members ≠ []) :
    write print (object members) = '\x7b' :: membersText print members := by
  cases members with
  | nil => exact absurd rfl h
  | cons member members => rfl

/-! ### What was read is taken apart -/

variable {fuel : ℕ} {s rest : List Char} {value : JsonValue} {values : List JsonValue} {members : List (String × JsonValue)}

/-- There is one way to read a text. -/
theorem readValue_unique {fuel' : ℕ} {r r' : JsonValue × List Char} (h : readValue fuel s = some r)
    (h' : readValue fuel' s = some r') : r = r' := by
  have hmore := readValue_mono h fuel'
  rw [Nat.add_comm, readValue_mono h' fuel] at hmore
  exact (Option.some.inj hmore).symm

theorem string_of_readValue (h : readValue fuel ('"' :: s) = some (value, rest)) :
    ∃ text, readString s = some (text, rest) ∧ value = string text := by
  cases fuel with
  | zero => cases h
  | succ fuel =>
    rw [readValue, skipSpace_cons (by decide)] at h
    dsimp only at h
    rw [if_pos rfl] at h
    obtain ⟨r, hr, heq⟩ := Option.map_eq_some_iff.1 h
    cases heq
    exact ⟨r.1, hr, rfl⟩

theorem elements_of_readValue (h : readValue fuel ('[' :: s) = some (array (value :: values), rest)) :
    ∃ fuel', readElements fuel' s = some (value :: values, rest) := by
  cases fuel with
  | zero => cases h
  | succ fuel =>
    rw [readValue, skipSpace_cons (by decide)] at h
    dsimp only at h
    rw [if_neg (by decide), if_pos rfl] at h
    split_ifs at h
    · cases h
    · obtain ⟨⟨parts, behind⟩, hr, heq⟩ := Option.map_eq_some_iff.1 h
      cases heq
      exact ⟨fuel, hr⟩

theorem members_of_readValue {member : String × JsonValue}
    (h : readValue fuel ('\x7b' :: s) = some (object (member :: members), rest)) :
    ∃ fuel', readMembers fuel' s = some (member :: members, rest) := by
  cases fuel with
  | zero => cases h
  | succ fuel =>
    rw [readValue, skipSpace_cons (by decide)] at h
    dsimp only at h
    rw [if_neg (by decide), if_neg (by decide), if_pos rfl] at h
    split_ifs at h
    · cases h
    · obtain ⟨⟨parts, behind⟩, hr, heq⟩ := Option.map_eq_some_iff.1 h
      cases heq
      exact ⟨fuel, hr⟩

/-- The first element that was read, and what stands behind it. -/
theorem of_readElements (h : readElements fuel s = some (value :: values, rest)) :
    ∃ fuel' behind, readValue fuel' s = some (value, behind) ∧
      ((skipSpace behind).head? = some ',' ∧ readElements fuel' (skipSpace behind).tail = some (values, rest) ∨
        (skipSpace behind).head? = some ']' ∧ values = [] ∧ rest = (skipSpace behind).tail) := by
  cases fuel with
  | zero => cases h
  | succ fuel =>
    rw [readElements] at h
    obtain ⟨v, hv, h⟩ := Option.bind_eq_some_iff.1 h
    split_ifs at h with hcomma hbracket
    · obtain ⟨r, hr, heq⟩ := Option.map_eq_some_iff.1 h
      cases heq
      exact ⟨fuel, v.2, hv, .inl ⟨hcomma, hr⟩⟩
    · cases h
      exact ⟨fuel, v.2, hv, .inr ⟨hbracket, rfl, rfl⟩⟩

/-- What is read behind a member: the other members behind a comma, or none behind a brace. -/
def ReadsBehind (fuel : ℕ) (behind : List Char) (members : List (String × JsonValue)) (rest : List Char) : Prop :=
  (skipSpace behind).head? = some ',' ∧ readMembers fuel (skipSpace behind).tail = some (members, rest) ∨
    (skipSpace behind).head? = some '\x7d' ∧ members = [] ∧ rest = (skipSpace behind).tail

theorem ReadsBehind.of_comma (h : ReadsBehind fuel (',' :: s) members rest) : readMembers fuel s = some (members, rest) := by
  unfold ReadsBehind at h
  rw [skipSpace_cons (by decide), List.head?_cons, List.tail_cons] at h
  rcases h with ⟨-, h⟩ | ⟨hbrace, -⟩
  · exact h
  · exact absurd hbrace (by decide)

theorem ReadsBehind.of_brace (h : ReadsBehind fuel ('\x7d' :: s) members rest) : members = [] ∧ rest = s := by
  unfold ReadsBehind at h
  rw [skipSpace_cons (by decide), List.head?_cons, List.tail_cons] at h
  rcases h with ⟨hcomma, -⟩ | ⟨-, h⟩
  · exact absurd hcomma (by decide)
  · exact h

/-- The first member that was read, and what stands behind it. -/
theorem of_readMembers {key : String} (h : readMembers fuel s = some ((key, value) :: members, rest)) :
    (skipSpace s).head? = some '"' ∧ ∃ fuel' behindKey behind, readString (skipSpace s).tail = some (key, behindKey) ∧
      (skipSpace behindKey).head? = some ':' ∧ readValue fuel' (skipSpace behindKey).tail = some (value, behind) ∧
      ReadsBehind fuel' behind members rest := by
  cases fuel with
  | zero => cases h
  | succ fuel =>
    rw [readMembers] at h
    split_ifs at h with hquote
    refine ⟨hquote, ?_⟩
    obtain ⟨k, hk, h⟩ := Option.bind_eq_some_iff.1 h
    split_ifs at h with hcolon
    obtain ⟨v, hv, h⟩ := Option.bind_eq_some_iff.1 h
    split_ifs at h with hcomma hbrace
    · obtain ⟨r, hr, heq⟩ := Option.map_eq_some_iff.1 h
      cases heq
      exact ⟨fuel, k.2, v.2, hk, hcolon, hv, .inl ⟨hcomma, hr⟩⟩
    · cases h
      exact ⟨fuel, k.2, v.2, hk, hcolon, hv, .inr ⟨hbrace, rfl, rfl⟩⟩

theorem ne_nil_of_readMembers {r : List (String × JsonValue) × List Char} (h : readMembers fuel s = some r) : r.1 ≠ [] := by
  cases fuel with
  | zero => cases h
  | succ fuel =>
    rw [readMembers] at h
    split_ifs at h
    obtain ⟨k, -, h⟩ := Option.bind_eq_some_iff.1 h
    split_ifs at h
    obtain ⟨v, -, h⟩ := Option.bind_eq_some_iff.1 h
    split_ifs at h
    · obtain ⟨r, -, rfl⟩ := Option.map_eq_some_iff.1 h
      exact List.cons_ne_nil _ _
    · obtain rfl := Option.some.inj h
      exact List.cons_ne_nil _ _

theorem readValue_of_parse {text : String} (h : parse text = some value) :
    ∃ fuel rest, readValue fuel text.toList = some (value, rest) ∧ skipSpace rest = [] := by
  obtain ⟨r, hr, h⟩ := Option.bind_eq_some_iff.1 h
  split_ifs at h with hrest
  obtain rfl := Option.some.inj h
  exact ⟨_, r.2, hr, hrest⟩

end JsonValue
