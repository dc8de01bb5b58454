/-!
# Positions by name

An `Index` gives positions in a list to some names. It is read through `get?`. The position of a
name in a list of `n` entries is taken from an index that stays below `n`, so it is never one that
the list does not have.
-/

namespace OpTable

/-- A finite map from names to positions. -/
structure Index where
  /-- The names with their positions; the first entry of a name counts. -/
  entries : List (String × Nat)
deriving DecidableEq

namespace Index

def empty : Index := ⟨[]⟩

instance : EmptyCollection Index := ⟨empty⟩

def get? (index : Index) (name : String) : Option Nat := index.entries.lookup name

def insert (index : Index) (name : String) (position : Nat) : Index :=
  ⟨(name, position) :: index.entries⟩

/-- The positions that the index gives are those of a list of `n` entries. -/
def Below (index : Index) (n : Nat) : Prop := ∀ name i, index.get? name = some i → i < n

def position? (index : Index) {n : Nat} (h : index.Below n) (name : String) : Option (Fin n) :=
  (index.get? name).pmap Fin.mk (h name)

@[simp] theorem get?_empty (name : String) : (∅ : Index).get? name = none := rfl

theorem get?_insert (index : Index) (name other : String) (position : Nat) :
    (index.insert name position).get? other =
      if other = name then some position else index.get? other := by
  rw [get?, insert, List.lookup_cons]
  by_cases h : other = name
  · simp [h]
  · rw [beq_eq_false_iff_ne.mpr h, if_neg h]
    rfl

variable {index : Index} {n : Nat}

theorem below_empty (n : Nat) : (∅ : Index).Below n := by
  intro name i h
  rw [get?_empty] at h
  cases h

theorem Below.insert (h : index.Below n) (name : String) :
    (index.insert name n).Below (n + 1) := by
  intro other i hi
  rw [get?_insert] at hi
  split at hi
  · cases hi
    exact Nat.lt_succ_self n
  · have hlt := h other i hi
    omega

theorem position?_eq_none_iff {h : index.Below n} {name : String} :
    index.position? h name = none ↔ index.get? name = none :=
  Option.pmap_eq_none_iff

theorem position?_eq_some_iff {h : index.Below n} {name : String} {i : Fin n} :
    index.position? h name = some i ↔ index.get? name = some i.val := by
  rw [position?, Option.pmap_eq_some_iff]
  constructor
  · rintro ⟨j, hj, hget, rfl⟩
    exact hget
  · intro hget
    exact ⟨i.val, i.isLt, hget, rfl⟩

end Index

end OpTable
