import OpTable.Word

/-!
# Words by name

A `NameMap` gives words to some names: registers or immediates. It is read through `get?`; two maps
agree when they give the same word to every name.
-/

namespace OpTable

/-- A finite map from names to words. -/
structure NameMap where
  /-- The names with their words; the first entry of a name counts. -/
  entries : List (String × Word)

namespace NameMap

def empty : NameMap := ⟨[]⟩

instance : EmptyCollection NameMap := ⟨empty⟩

def get? (m : NameMap) (name : String) : Option Word := m.entries.lookup name

/-- The names that have a word, each once, in the order in which they were first given one. -/
def names (m : NameMap) : List String := (m.entries.map Prod.fst).eraseDups

/-- Gives `name` the word `word` in a list of entries, in place of the word it had. -/
def insertEntry (name : String) (word : Word) : List (String × Word) → List (String × Word)
  | [] => [(name, word)]
  | entry :: rest =>
    if entry.1 = name then (name, word) :: rest else entry :: insertEntry name word rest

def insert (m : NameMap) (name : String) (word : Word) : NameMap :=
  ⟨insertEntry name word m.entries⟩

/-- The map in which `f` is applied to the word of `name`, taken as zero if there is none. -/
def alter (m : NameMap) (name : String) (f : Word → Word) : NameMap :=
  m.insert name (f ((m.get? name).getD 0#64))

/-- The map with the given entries, a later entry of a name replacing an earlier one. -/
def ofList (entries : List (String × Word)) : NameMap :=
  entries.foldl (fun m entry => m.insert entry.1 entry.2) ∅

/-- The two maps give the same word to every name. -/
def Agree (m n : NameMap) : Prop := ∀ name, m.get? name = n.get? name

theorem mem_of_get?_ne_none {m : NameMap} {name : String} (h : m.get? name ≠ none) :
    name ∈ m.entries.map Prod.fst := by
  apply Classical.byContradiction
  intro hn
  apply h
  unfold get?
  rw [List.lookup_eq_none_iff]
  intro p hp
  have hne : name ≠ p.1 := fun e => hn (e ▸ List.mem_map_of_mem hp)
  exact bne_iff_ne.mpr hne

theorem agree_iff (m n : NameMap) :
    Agree m n ↔ ∀ name ∈ m.entries.map Prod.fst ++ n.entries.map Prod.fst,
      m.get? name = n.get? name := by
  constructor
  · intro h name _
    exact h name
  · intro h name
    by_cases hm : m.get? name = none
    · by_cases hn : n.get? name = none
      · rw [hm, hn]
      · exact h name (List.mem_append_right _ (mem_of_get?_ne_none hn))
    · exact h name (List.mem_append_left _ (mem_of_get?_ne_none hm))

instance (m n : NameMap) : Decidable (Agree m n) :=
  decidable_of_iff _ (agree_iff m n).symm

/-! ### Look-up after an insertion -/

theorem lookup_insertEntry (name other : String) (word : Word) (entries : List (String × Word)) :
    (insertEntry name word entries).lookup other =
      if other = name then some word else entries.lookup other := by
  induction entries with
  | nil =>
    by_cases h : other = name
    · simp [insertEntry, h]
    · simp [insertEntry, List.lookup_cons, beq_eq_false_iff_ne.mpr h, h]
  | cons entry rest ih =>
    obtain ⟨key, old⟩ := entry
    by_cases he : key = name
    · by_cases h : other = name
      · simp [insertEntry, he, h]
      · simp [insertEntry, he, List.lookup_cons, beq_eq_false_iff_ne.mpr h, h]
    · by_cases hk : other = key
      · subst hk
        simp [insertEntry, he]
      · simp only [insertEntry, he, if_false, List.lookup_cons, beq_eq_false_iff_ne.mpr hk, ih]

@[simp] theorem get?_empty (name : String) : (∅ : NameMap).get? name = none := rfl

theorem get?_insert (m : NameMap) (name other : String) (word : Word) :
    (m.insert name word).get? other = if other = name then some word else m.get? other :=
  lookup_insertEntry name other word m.entries

theorem get?_alter (m : NameMap) (name other : String) (f : Word → Word) :
    (m.alter name f).get? other =
      if other = name then some (f ((m.get? name).getD 0#64)) else m.get? other :=
  get?_insert m name other _

end NameMap

end OpTable
