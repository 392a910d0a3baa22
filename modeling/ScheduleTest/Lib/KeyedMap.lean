import Mathlib.Data.List.Sort
import Mathlib.Data.List.Nodup
import Mathlib.Order.Defs.LinearOrder

/-!
# Ordered maps whose keys are compared through a field

A `KeyedMap key β` holds pairs of a key and a value in strictly increasing order of `key`, as a tree map with a comparator
does. Two keys with the same field are the same entry. The order is a field of the structure, so the entries of a map are
never out of order and never hold a key twice, and two maps with the same pairs are equal (`KeyedMap.ext_mem`).
-/

/-- An ordered map from `α` to `β` whose keys are compared by `key`. -/
structure KeyedMap {α κ : Type*} [LinearOrder κ] (key : α → κ) (β : Type*) where
  entries : List (α × β)
  sorted : entries.Pairwise (fun p q => key p.1 < key q.1)

namespace KeyedMap

variable {α β κ : Type*} [LinearOrder κ] {key : α → κ}

/-- A map is its list of entries. -/
theorem ext_entries {m m' : KeyedMap key β} (h : m.entries = m'.entries) : m = m' := by
  cases m
  cases m'
  cases h
  rfl

instance [DecidableEq α] [DecidableEq β] : DecidableEq (KeyedMap key β) := fun m m' =>
  decidable_of_iff (m.entries = m'.entries) ⟨ext_entries, fun h => h ▸ rfl⟩

/-- The map without entries. -/
def empty : KeyedMap key β := ⟨[], List.Pairwise.nil⟩

/-- The entries after setting the value of a key: the first entry that is not below it is replaced or stays after it. -/
def insertEntry (key : α → κ) (a : α) (b : β) : List (α × β) → List (α × β)
  | [] => [(a, b)]
  | p :: l => if key a < key p.1 then (a, b) :: p :: l
      else if key p.1 < key a then p :: insertEntry key a b l
      else (p.1, b) :: l

/-- What `insertEntry` holds: old entries, and one of the key's field. -/
theorem of_mem_insertEntry {a : α} {b : β} {l : List (α × β)} {p : α × β} (hp : p ∈ insertEntry key a b l) :
    p ∈ l ∨ key p.1 = key a := by
  induction l with
  | nil =>
    rw [insertEntry, List.mem_singleton] at hp
    exact Or.inr (by rw [hp])
  | cons q l ih =>
    rw [insertEntry] at hp
    split at hp
    · rcases List.mem_cons.1 hp with rfl | hp
      · exact Or.inr rfl
      · exact Or.inl hp
    · split at hp
      · rcases List.mem_cons.1 hp with rfl | hp
        · exact Or.inl List.mem_cons_self
        · exact (ih hp).imp_left (List.mem_cons_of_mem _)
      · rename_i h1 h2
        rcases List.mem_cons.1 hp with rfl | hp
        · exact Or.inr (le_antisymm (not_lt.1 h1) (not_lt.1 h2))
        · exact Or.inl (List.mem_cons_of_mem _ hp)

/-- Setting a value keeps the entries in order. -/
theorem sorted_insertEntry {a : α} {b : β} {l : List (α × β)} (h : l.Pairwise (fun p q => key p.1 < key q.1)) :
    (insertEntry key a b l).Pairwise (fun p q => key p.1 < key q.1) := by
  induction h with
  | nil => exact List.pairwise_singleton _ _
  | @cons p l hp hl ih =>
    rw [insertEntry]
    split
    · rename_i h1
      refine List.pairwise_cons.2 ⟨?_, List.pairwise_cons.2 ⟨hp, hl⟩⟩
      intro q hq
      rcases List.mem_cons.1 hq with rfl | hq
      · exact h1
      · exact h1.trans (hp q hq)
    · split
      · rename_i h1 h2
        refine List.pairwise_cons.2 ⟨?_, ih⟩
        intro q hq
        rcases of_mem_insertEntry hq with hq | hq
        · exact hp q hq
        · exact hq ▸ h2
      · exact List.pairwise_cons.2 ⟨hp, hl⟩

/-- Set the value of a key; a key with the same field is kept and gets the new value. -/
def insert (m : KeyedMap key β) (a : α) (b : β) : KeyedMap key β :=
  ⟨insertEntry key a b m.entries, sorted_insertEntry m.sorted⟩

/-- Remove the entry of a key, if there is one. -/
def erase (m : KeyedMap key β) (a : α) : KeyedMap key β :=
  ⟨m.entries.filter (fun p => key p.1 ≠ key a), m.sorted.filter _⟩

/-- The entries that satisfy a predicate. -/
def filter (m : KeyedMap key β) (p : α × β → Bool) : KeyedMap key β := ⟨m.entries.filter p, m.sorted.filter _⟩

/-- Whether a key has an entry. -/
def contains (m : KeyedMap key β) (a : α) : Bool := m.entries.any (fun p => key p.1 = key a)

/-- The value of a key. -/
def find? (m : KeyedMap key β) (a : α) : Option β := (m.entries.find? (fun p => key p.1 = key a)).map (·.2)

/-- The keys, in order. -/
def keys (m : KeyedMap key β) : List α := m.entries.map (·.1)

@[simp] theorem entries_empty : (empty : KeyedMap key β).entries = [] := rfl

@[simp] theorem mem_erase {m : KeyedMap key β} {a : α} {p : α × β} :
    p ∈ (m.erase a).entries ↔ p ∈ m.entries ∧ key p.1 ≠ key a := by
  simp [erase]

theorem contains_iff {m : KeyedMap key β} {a : α} : m.contains a = true ↔ ∃ p ∈ m.entries, key p.1 = key a := by
  simp [contains]

theorem contains_eq_false_iff {m : KeyedMap key β} {a : α} : m.contains a = false ↔ ∀ p ∈ m.entries, key p.1 ≠ key a := by
  rw [← Bool.not_eq_true, contains_iff]
  push Not
  rfl

/-- No two entries have the same field. -/
theorem nodup_key (m : KeyedMap key β) : (m.entries.map (fun p => key p.1)).Nodup := by
  rw [List.Nodup, List.pairwise_map]
  exact m.sorted.imp fun h => h.ne

/-- A field names at most one entry. -/
theorem entry_unique {m : KeyedMap key β} {p q : α × β} (hp : p ∈ m.entries) (hq : q ∈ m.entries)
    (h : key p.1 = key q.1) : p = q :=
  List.inj_on_of_nodup_map m.nodup_key hp hq h

/-- No entry is repeated. -/
theorem nodup_entries (m : KeyedMap key β) : m.entries.Nodup :=
  List.Nodup.of_map _ m.nodup_key

/-- Maps that hold the same pairs are equal. -/
theorem ext_mem {m m' : KeyedMap key β} (h : ∀ p, p ∈ m.entries ↔ p ∈ m'.entries) : m = m' := by
  have hperm : m.entries.Perm m'.entries := (List.perm_ext_iff_of_nodup m.nodup_entries m'.nodup_entries).2 h
  refine ext_entries (hperm.eq_of_pairwise ?_ m.sorted m'.sorted)
  intro p q _ _ h1 h2
  exact absurd (h1.trans h2) (lt_irrefl _)

/-- The value found for a key is the value of an entry with its field. -/
theorem find?_eq_some {m : KeyedMap key β} {a : α} {b : β} :
    m.find? a = some b ↔ ∃ a', (a', b) ∈ m.entries ∧ key a' = key a := by
  constructor
  · intro h
    obtain ⟨p, hp, rfl⟩ := Option.map_eq_some_iff.1 h
    have hk := List.find?_some hp
    exact ⟨p.1, List.mem_of_find?_eq_some hp, by simpa using hk⟩
  · rintro ⟨a', ha', hk⟩
    have hsome : (m.entries.find? (fun p => key p.1 = key a)).isSome := by
      rw [List.find?_isSome]
      exact ⟨(a', b), ha', decide_eq_true hk⟩
    obtain ⟨q, hq⟩ := Option.isSome_iff_exists.1 hsome
    have hkq : key q.1 = key a := by simpa using List.find?_some hq
    have heq : q = (a', b) := entry_unique (List.mem_of_find?_eq_some hq) ha' (hkq.trans hk.symm)
    rw [find?, hq, heq, Option.map_some]

/-- Nothing is found for a key exactly when no entry has its field. -/
theorem find?_eq_none {m : KeyedMap key β} {a : α} : m.find? a = none ↔ ∀ p ∈ m.entries, key p.1 ≠ key a := by
  simp [find?]

/-- What is found after setting a value: it for its key, and the old value for the others. -/
theorem find?_insert (m : KeyedMap key β) (a a' : α) (b : β) :
    (m.insert a b).find? a' = if key a' = key a then some b else m.find? a' := by
  have hgen : ∀ l : List (α × β), ((insertEntry key a b l).find? (fun p => key p.1 = key a')).map (·.2) =
      if key a' = key a then some b else (l.find? (fun p => key p.1 = key a')).map (·.2) := by
    intro l
    induction l with
    | nil =>
      by_cases h : key a' = key a
      · simp [insertEntry, h]
      · simp [insertEntry, h, Ne.symm h]
    | cons q l ih =>
      rw [insertEntry]
      split
      · by_cases h : key a' = key a
        · simp [h]
        · simp [h, Ne.symm h]
      · split
        · rename_i hlt
          by_cases hq : key q.1 = key a'
          · have hne : key a' ≠ key a := fun h => absurd (hq.trans h) hlt.ne
            rw [if_neg hne, List.find?_cons_of_pos (by simpa using hq), List.find?_cons_of_pos (by simpa using hq)]
          · rw [List.find?_cons_of_neg (by simpa using hq), List.find?_cons_of_neg (by simpa using hq)]
            exact ih
        · rename_i h1 h2
          have heq : key q.1 = key a := le_antisymm (not_lt.1 h1) (not_lt.1 h2)
          by_cases h : key a' = key a
          · simp [h, heq]
          · simp [h, heq, Ne.symm h]
  exact hgen m.entries

/-- What is found after removing a key. -/
theorem find?_erase (m : KeyedMap key β) (a a' : α) :
    (m.erase a).find? a' = if key a' = key a then none else m.find? a' := by
  split
  · rename_i h
    rw [find?_eq_none]
    intro p hp
    rw [h]
    exact (mem_erase.1 hp).2
  · rename_i h
    cases hf : m.find? a' with
    | none =>
      rw [find?_eq_none] at hf ⊢
      exact fun p hp => hf p (mem_erase.1 hp).1
    | some b =>
      obtain ⟨a'', hmem, hk⟩ := find?_eq_some.1 hf
      exact find?_eq_some.2 ⟨a'', mem_erase.2 ⟨hmem, by rwa [hk]⟩, hk⟩

/-- A key has an entry exactly when a value is found for it. -/
theorem contains_eq_isSome (m : KeyedMap key β) (a : α) : m.contains a = (m.find? a).isSome := by
  rw [Bool.eq_iff_iff, contains_iff, Option.isSome_iff_exists]
  constructor
  · rintro ⟨p, hp, hk⟩
    exact ⟨p.2, find?_eq_some.2 ⟨p.1, hp, hk⟩⟩
  · rintro ⟨b, hb⟩
    obtain ⟨a', ha', hk⟩ := find?_eq_some.1 hb
    exact ⟨(a', b), ha', hk⟩

/-- Setting the value of a new key adds one pair. -/
theorem mem_insert_of_new {m : KeyedMap key β} {a : α} {b : β} (ha : ∀ p ∈ m.entries, key p.1 ≠ key a) {p : α × β} :
    p ∈ (m.insert a b).entries ↔ p = (a, b) ∨ p ∈ m.entries := by
  have hgen : ∀ l : List (α × β), (∀ q ∈ l, key q.1 ≠ key a) → (p ∈ insertEntry key a b l ↔ p = (a, b) ∨ p ∈ l) := by
    intro l
    induction l with
    | nil => intro _; simp [insertEntry]
    | cons q l ih =>
      intro hl
      have hq : key q.1 ≠ key a := hl q List.mem_cons_self
      rw [insertEntry]
      split
      · exact List.mem_cons
      · rename_i h1
        rw [if_pos (lt_of_le_of_ne (not_lt.1 h1) hq), List.mem_cons, ih (fun r hr => hl r (List.mem_cons_of_mem _ hr)),
          List.mem_cons, or_left_comm]
  exact hgen m.entries ha

/-- The entries after setting the value of a new key are the old ones and one more. -/
theorem perm_insert_of_new {m : KeyedMap key β} {a : α} {b : β} (ha : ∀ p ∈ m.entries, key p.1 ≠ key a) :
    (m.insert a b).entries.Perm ((a, b) :: m.entries) := by
  refine (List.perm_ext_iff_of_nodup (nodup_entries _) ?_).2 fun p => ?_
  · exact List.nodup_cons.2 ⟨fun h => ha _ h rfl, m.nodup_entries⟩
  · rw [mem_insert_of_new ha, List.mem_cons]

/-- The entries after setting the values of new keys, no two of which are the same. -/
theorem perm_foldl_insert {l : List (α × β)} (hl : (l.map fun p => key p.1).Nodup) {m : KeyedMap key β}
    (hm : ∀ p ∈ l, ∀ q ∈ m.entries, key q.1 ≠ key p.1) :
    (l.foldl (fun m p => m.insert p.1 p.2) m).entries.Perm (l ++ m.entries) := by
  induction l generalizing m with
  | nil => exact List.Perm.refl _
  | cons p l ih =>
    obtain ⟨hp, hl⟩ := List.nodup_cons.1 hl
    have hnew := perm_insert_of_new (b := p.2) (hm p List.mem_cons_self)
    have hinsert : ∀ p' ∈ l, ∀ q ∈ (m.insert p.1 p.2).entries, key q.1 ≠ key p'.1 := by
      intro p' hp' q hq heq
      rcases List.mem_cons.1 (hnew.mem_iff.1 hq) with rfl | hq
      · exact hp (List.mem_map.2 ⟨p', hp', heq.symm⟩)
      · exact hm p' (List.mem_cons_of_mem _ hp') q hq heq
    exact ((ih hl hinsert).trans (hnew.append_left l)).trans List.perm_middle

/-- Setting the values of keys in order gives just these entries. -/
theorem entries_foldl_insert {l : List (α × β)} (hl : l.Pairwise fun p q => key p.1 < key q.1) :
    (l.foldl (fun m p => m.insert p.1 p.2) (empty : KeyedMap key β)).entries = l := by
  have hnodup : (l.map fun p => key p.1).Nodup := List.pairwise_map.2 (hl.imp fun h => ne_of_lt h)
  have hperm := perm_foldl_insert hnodup (m := empty) fun _ _ q hq => absurd hq List.not_mem_nil
  rw [entries_empty, List.append_nil] at hperm
  exact hperm.eq_of_pairwise (fun p q _ _ hpq hqp => absurd hpq (lt_asymm hqp)) (KeyedMap.sorted _) hl

/-- The entries of a map are one of them and those left when its key is removed. -/
theorem perm_erase {m : KeyedMap key β} {a a' : α} {b : β} (h : (a', b) ∈ m.entries) (hk : key a' = key a) :
    m.entries.Perm ((a', b) :: (m.erase a).entries) := by
  refine (List.perm_ext_iff_of_nodup m.nodup_entries ?_).2 fun p => ?_
  · exact List.nodup_cons.2 ⟨fun hmem => (mem_erase.1 hmem).2 hk, nodup_entries _⟩
  · rw [List.mem_cons, mem_erase]
    constructor
    · intro hp
      by_cases heq : key p.1 = key a
      · exact Or.inl (entry_unique hp h (heq.trans hk.symm))
      · exact Or.inr ⟨hp, heq⟩
    · rintro (rfl | hp)
      · exact h
      · exact hp.1

/-- Removing the key that was just added gives the map back. -/
theorem erase_insert_of_new {m : KeyedMap key β} {a : α} {b : β} (ha : ∀ p ∈ m.entries, key p.1 ≠ key a) :
    (m.insert a b).erase a = m := by
  refine ext_mem fun p => ?_
  rw [mem_erase, mem_insert_of_new ha]
  constructor
  · rintro ⟨rfl | hp, hne⟩
    · exact absurd rfl hne
    · exact hp
  · exact fun hp => ⟨Or.inr hp, ha p hp⟩

/-- Removing a key without an entry changes nothing. -/
theorem erase_of_new {m : KeyedMap key β} {a : α} (ha : ∀ p ∈ m.entries, key p.1 ≠ key a) : m.erase a = m := by
  refine ext_mem fun p => ?_
  rw [mem_erase]
  exact ⟨fun h => h.1, fun h => ⟨h, ha p h⟩⟩

@[simp] theorem mem_filter {m : KeyedMap key β} {p : α × β → Bool} {e : α × β} :
    e ∈ (m.filter p).entries ↔ e ∈ m.entries ∧ p e := by
  simp [filter]

/-- A new entry that satisfies the predicate is kept, and one that does not is left out. -/
theorem filter_insert_of_new {m : KeyedMap key β} {p : α × β → Bool} {a : α} {b : β} (ha : ∀ e ∈ m.entries, key e.1 ≠ key a) :
    (m.insert a b).filter p = if p (a, b) then (m.filter p).insert a b else m.filter p := by
  have ha' : ∀ e ∈ (m.filter p).entries, key e.1 ≠ key a := fun e he => ha e (mem_filter.1 he).1
  refine ext_mem fun e => ?_
  split
  · rename_i hp
    rw [mem_filter, mem_insert_of_new ha, mem_insert_of_new ha', mem_filter]
    constructor
    · rintro ⟨rfl | he, hpe⟩
      · exact .inl rfl
      · exact .inr ⟨he, hpe⟩
    · rintro (rfl | he)
      · exact ⟨.inl rfl, hp⟩
      · exact ⟨.inr he.1, he.2⟩
  · rename_i hp
    rw [mem_filter, mem_insert_of_new ha, mem_filter]
    constructor
    · rintro ⟨rfl | he, hpe⟩
      · exact absurd hpe hp
      · exact ⟨he, hpe⟩
    · exact fun he => ⟨.inr he.1, he.2⟩

/-- Leaving out entries and removing a key can be done in either order. -/
theorem filter_erase (m : KeyedMap key β) (p : α × β → Bool) (a : α) : (m.erase a).filter p = (m.filter p).erase a := by
  refine ext_mem fun e => ?_
  rw [mem_filter, mem_erase, mem_erase, mem_filter, and_right_comm]

end KeyedMap
