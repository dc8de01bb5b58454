import Mathlib.Data.List.Induction
import OpTable.Proofs.Keys
import OpTable.Table.Basic

/-!
# Indexed records

The index of a builder is a bijection between the mnemonics of its records and their positions
(`Index.Locates`). A record with a new mnemonic extends both sides at the end, one that takes the
place of another has the same mnemonic, and one that is dropped changes nothing, so every record
that is handed in keeps the bijection (`isIndexed_add`) and every run does (`isIndexed_addAll`).

With such an index a look-up finds what a search among the records finds (`Table.get?_eq_find?`),
and a builder does what it would do without one (`add_eq_scan`).
-/

namespace OpTable

namespace Record

theorem find?_eq_none_iff {records : List Record} {mnemonic : String} :
    (records.find? fun s => decide (s.mnemonic = mnemonic)) = none ↔
      mnemonic ∉ records.map (·.mnemonic) := by
  simp

/-- With one record for each mnemonic, the record that is found is the one that has it. -/
theorem find?_eq_some_iff {records : List Record} (h : (records.map (·.mnemonic)).Nodup)
    {mnemonic : String} {r : Record} :
    (records.find? fun s => decide (s.mnemonic = mnemonic)) = some r ↔
      r ∈ records ∧ r.mnemonic = mnemonic :=
  List.find?_key_eq_some_iff h

end Record

/-! ### Names and positions -/

namespace Index

/-- Each of the names has the position at which it stands, and no other name has a position. -/
def Locates (index : Index) (names : List String) : Prop :=
  ∀ name i, index.get? name = some i ↔ names[i]? = some name

theorem locates_empty : (∅ : Index).Locates [] := by
  intro name i
  rw [get?_empty, List.getElem?_nil]
  exact ⟨nofun, nofun⟩

namespace Locates

variable {index : Index} {names : List String} (h : index.Locates names)

include h

theorem get?_eq_none_iff {name : String} : index.get? name = none ↔ name ∉ names := by
  rw [List.mem_iff_getElem?, Option.eq_none_iff_forall_ne_some, not_exists]
  exact forall_congr' fun i => not_congr (h name i)

theorem nodup : names.Nodup := by
  rw [List.nodup_iff_getElem?_ne_getElem?]
  intro i j hij hj he
  -- the name that stands at both places has one position only
  have hname := List.getElem?_eq_getElem hj
  have hpos := (h _ j).mpr hname
  have hpos' := (h _ i).mpr (he.trans hname)
  rw [hpos] at hpos'
  cases hpos'
  omega

/-- A name without a position is put at the end. -/
theorem concat {name : String} (hnew : index.get? name = none) :
    (index.insert name names.length).Locates (names ++ [name]) := by
  intro other i
  have hplace : (names ++ [name])[i]? = some other ↔
      names[i]? = some other ∨ i = names.length ∧ other = name := by
    rcases Nat.lt_trichotomy i names.length with hi | hi | hi
    · have hne := Nat.ne_of_lt hi
      rw [List.getElem?_append_left hi]
      simp [hne]
    · subst hi
      simp [eq_comm]
    · have hne := Nat.ne_of_gt hi
      have hlast : ([name] : List String).length ≤ i - names.length := Nat.sub_pos_of_lt hi
      rw [List.getElem?_append_right (Nat.le_of_lt hi), List.getElem?_eq_none hlast,
        List.getElem?_eq_none (Nat.le_of_lt hi)]
      simp [hne]
  rw [hplace, get?_insert]
  by_cases hname : other = name
  · subst hname
    have hfree : names[i]? ≠ some other := by
      intro hi
      rw [(h other i).mpr hi] at hnew
      cases hnew
    simp [hfree, eq_comm]
  · simp [hname, h other i]

end Locates

/-- A position of an index with one for each mnemonic is the one of the record that a search
finds. -/
theorem Locates.map_get_position? {index : Index} {records : List Record}
    (h : index.Locates (records.map (·.mnemonic))) (hbelow : index.Below records.length)
    (mnemonic : String) :
    (index.position? hbelow mnemonic).map records.get =
      records.find? fun r => decide (r.mnemonic = mnemonic) := by
  cases hp : index.position? hbelow mnemonic with
  | none =>
    rw [position?_eq_none_iff, h.get?_eq_none_iff] at hp
    exact (Record.find?_eq_none_iff.mpr hp).symm
  | some i =>
    rw [position?_eq_some_iff, h mnemonic i.val, List.getElem?_map,
      List.getElem?_eq_getElem i.isLt] at hp
    have hname : (records.get i).mnemonic = mnemonic := Option.some.inj hp
    exact ((Record.find?_eq_some_iff h.nodup).mpr ⟨List.get_mem records i, hname⟩).symm

end Index

/-- Looking a mnemonic up and searching the records for it come to the same. -/
theorem Table.get?_eq_find? {table : Table}
    (h : table.index.Locates (table.records.map (·.mnemonic))) (mnemonic : String) :
    table.get? mnemonic =
      table.records.find? fun r => decide (r.mnemonic = normalizeMnemonic mnemonic) :=
  h.map_get_position? table.index_below _

namespace TableBuilder

/-- Hands in records one after the other. -/
def addAll (b : TableBuilder) (records : List Record) : TableBuilder :=
  records.foldl (fun b r => (b.add r).1) b

@[simp] theorem addAll_concat (b : TableBuilder) (records : List Record) (r : Record) :
    b.addAll (records ++ [r]) = ((b.addAll records).add r).1 := by
  simp [addAll]

/-! ### What a record does to the index -/

/-- The index gives the mnemonic of each record the position of that record, and nothing else. -/
def IsIndexed (b : TableBuilder) : Prop := b.index.Locates (b.records.map (·.mnemonic))

/-- A record whose mnemonic has no position is inserted. Where there is an old one, the policy keeps
it or puts the new one in its place. -/
theorem add_cases (b : TableBuilder) (r : Record) :
    (b.index.get? r.mnemonic = none ∧ b.add r = (b.insert r, .inserted)) ∨
      ∃ i : Fin b.records.length, b.index.get? r.mnemonic = some i.val ∧
        (b.policy = .reject ∧ b.add r = (b, .kept (b.records.get i).line) ∨
          b.policy ≠ .reject ∧
            b.add r = (b.replace i r, .replaced (b.records.get i).line)) := by
  unfold add
  cases hp : b.index.position? b.index_below r.mnemonic with
  | none => exact .inl ⟨Index.position?_eq_none_iff.mp hp, rfl⟩
  | some i =>
    refine .inr ⟨i, Index.position?_eq_some_iff.mp hp, ?_⟩
    cases b.policy with
    | reject => exact .inl ⟨rfl, rfl⟩
    | overwrite => exact .inr ⟨nofun, rfl⟩
    | silent => exact .inr ⟨nofun, rfl⟩

theorem isIndexed_start (name : String) (policy : DuplicatePolicy) :
    (start name policy).IsIndexed := Index.locates_empty

section Step

variable {b : TableBuilder} {r : Record} (h : b.IsIndexed)

include h

theorem isIndexed_insert (hnew : b.index.get? r.mnemonic = none) : (b.insert r).IsIndexed := by
  have hconcat := h.concat hnew
  rw [List.length_map] at hconcat
  rw [IsIndexed, insert, List.map_append]
  exact hconcat

theorem map_mnemonic_replace {i : Fin b.records.length}
    (hi : b.index.get? r.mnemonic = some i.val) :
    (b.replace i r).records.map (·.mnemonic) = b.records.map (·.mnemonic) := by
  obtain ⟨hlt, hname⟩ := List.getElem?_eq_some_iff.mp ((h r.mnemonic i.val).mp hi)
  rw [replace, List.map_set, ← hname]
  exact List.set_getElem_self hlt

theorem isIndexed_replace {i : Fin b.records.length}
    (hi : b.index.get? r.mnemonic = some i.val) : (b.replace i r).IsIndexed := by
  rw [IsIndexed, map_mnemonic_replace h hi]
  exact h

/-- Whether the record is inserted, takes the place of another or is dropped. -/
theorem isIndexed_add (r : Record) : (b.add r).1.IsIndexed := by
  obtain ⟨hnew, hadd⟩ | ⟨i, hi, ⟨-, hadd⟩ | ⟨-, hadd⟩⟩ := b.add_cases r
  · rw [hadd]
    exact isIndexed_insert h hnew
  · rw [hadd]
    exact h
  · rw [hadd]
    exact isIndexed_replace h hi

end Step

theorem isIndexed_addAll (name : String) (policy : DuplicatePolicy) (records : List Record) :
    ((start name policy).addAll records).IsIndexed := by
  induction records using List.reverseRecOn with
  | nil => exact isIndexed_start name policy
  | append_singleton records r ih =>
    rw [addAll_concat]
    exact isIndexed_add ih r

/-! ### Builders without an index -/

/-- The records with `r` in the place of the first one that has its mnemonic. -/
def supersede (r : Record) : List Record → List Record
  | [] => []
  | old :: rest => if old.mnemonic = r.mnemonic then r :: rest else old :: supersede r rest

/-- What a record does to records that are searched for its mnemonic. -/
def scan (policy : DuplicatePolicy) (records : List Record) (r : Record) : List Record × Added :=
  match records.find? fun old => decide (old.mnemonic = r.mnemonic) with
  | none => (records ++ [r], .inserted)
  | some old =>
    if policy = .reject then (records, .kept old.line)
    else (supersede r records, .replaced old.line)

theorem supersede_eq_set {r : Record} {records : List Record} {i : Nat}
    (hnodup : (records.map (·.mnemonic)).Nodup)
    (hi : (records.map (·.mnemonic))[i]? = some r.mnemonic) :
    supersede r records = records.set i r := by
  induction records generalizing i with
  | nil => rfl
  | cons old rest ih =>
    obtain ⟨hold, hrest⟩ := List.nodup_cons.mp hnodup
    cases i with
    | zero =>
      have hname : old.mnemonic = r.mnemonic := Option.some.inj hi
      rw [supersede, if_pos hname, List.set_cons_zero]
    | succ i =>
      have hi : (rest.map (·.mnemonic))[i]? = some r.mnemonic := hi
      have hname : old.mnemonic ≠ r.mnemonic := by
        intro he
        dsimp only at hold
        rw [he] at hold
        exact hold (List.mem_of_getElem? hi)
      rw [supersede, if_neg hname, ih hrest hi, List.set_cons_succ]

/-- The index is never seen: a builder holds the records and gives the answer that come from a
search among its records. -/
theorem add_eq_scan {b : TableBuilder} (h : b.IsIndexed) (r : Record) :
    ((b.add r).1.records, (b.add r).2) = scan b.policy b.records r := by
  have hfind := h.map_get_position? b.index_below r.mnemonic
  obtain ⟨hnew, hadd⟩ | ⟨i, hi, hkept⟩ := b.add_cases r
  · rw [Index.position?_eq_none_iff.mpr hnew] at hfind
    rw [hadd, scan, ← hfind]
    rfl
  · rw [Index.position?_eq_some_iff.mpr hi] at hfind
    rw [scan, ← hfind]
    obtain ⟨hp, hadd⟩ | ⟨hp, hadd⟩ := hkept
    · simp [hadd, hp]
    · have hset := supersede_eq_set h.nodup ((h r.mnemonic i.val).mp hi)
      simp [hadd, hp, hset, replace]

end TableBuilder

end OpTable
