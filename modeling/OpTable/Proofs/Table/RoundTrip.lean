import OpTable.Proofs.Record.RoundTrip
import OpTable.Proofs.Table.Conflicts

/-!
# Decoding what a record of a table encodes

A table without conflicts gives a word of one of its records to that record or to none
(`decode?_of_matches`). The decoder looks at as many low bits as the widest opcode has; a record of
a narrower opcode is found where the word has zeros in the rest of them.
-/

namespace OpTable

namespace Table

theorem find?_filter_of_matches {table : Table} (hnone : table.conflicts = []) {r : Record}
    (hr : r ∈ table.records) {word : Word} (hword : r.Matches word) (opcode : Word) :
    ((table.records.filter (·.opcode.value = opcode)).find? fun s => decide (s.Matches word)) =
      if r.opcode.value = opcode then some r else none := by
  split
  next hopcode =>
    have hmem : r ∈ table.records.filter (·.opcode.value = opcode) :=
      List.mem_filter.mpr ⟨hr, decide_eq_true hopcode⟩
    cases hfind : (table.records.filter (·.opcode.value = opcode)).find?
        fun s => decide (s.Matches word) with
    | none => exact absurd (decide_eq_true hword) (List.find?_eq_none.mp hfind r hmem)
    | some s =>
      have hs := List.mem_of_mem_filter (List.mem_of_find?_eq_some hfind)
      have hmatch := List.find?_some hfind
      rw [eq_of_matches hnone hs hr (of_decide_eq_true hmatch) hword]
  next hopcode =>
    rw [List.find?_eq_none]
    intro s hs hmatch
    obtain ⟨hs, hkey⟩ := List.mem_filter.mp hs
    rw [eq_of_matches hnone hs hr (of_decide_eq_true hmatch) hword] at hkey
    exact hopcode (of_decide_eq_true hkey)

end Table

namespace Decoder

open Table Record

theorem decode?_of_matches {table : Table} (hnone : table.conflicts = []) {r : Record}
    (hr : r ∈ table.records) {word : Word} (hword : r.Matches word) :
    (ofTable table).decode? word =
      if word &&& Word.lowMask (ofTable table).opcodeWidth = r.opcode.value then
        some ⟨word, r, r.decodeOperands word⟩
      else none := by
  rw [decode?_eq_bucket, bucket_ofTable, find?_filter_of_matches hnone hr hword]
  by_cases hopcode : r.opcode.value = word &&& Word.lowMask (ofTable table).opcodeWidth
  · rw [if_pos hopcode, if_pos hopcode.symm]
    rfl
  · rw [if_neg hopcode, if_neg fun he => hopcode he.symm]
    rfl

/-- What a record of a table without conflicts encodes decodes by that record when no opcode of the
table is wider. A narrower record needs zeros above its opcode, else its word does not decode. -/
theorem decode?_encode (name : String) (policy : DuplicatePolicy) {records : List Record}
    (hrecords : ∀ r ∈ records, r.Resolved) :
    let table := ((TableBuilder.start name policy).addAll records).finish
    table.conflicts = [] → ∀ r ∈ table.records, ∀ (ops : Operands) (word : Word),
      r.encode ops = .ok word →
        (ofTable table).decode? word =
            (if word &&& Word.lowMask (ofTable table).opcodeWidth = r.opcode.value then
              some ⟨word, r, r.decodeOperands word⟩
            else none) ∧
          ((∀ s ∈ table.records, s.opcode.width ≤ r.opcode.width) →
            (ofTable table).decode? word = some ⟨word, r, r.decodeOperands word⟩) := by
  intro table hnone r hr ops word hword
  obtain ⟨schema, -, hresolved⟩ := hrecords r (TableBuilder.mem_records_addAll name policy records hr)
  have hwell := hresolved.wellFormed
  have hmatch : r.Matches word := (hwell.encodes hword).matches_word hwell
  refine ⟨decode?_of_matches hnone hr hmatch, ?_⟩
  intro hwidest
  have hopcode : word &&& Word.lowMask (ofTable table).opcodeWidth = r.opcode.value := by
    rw [opcodeWidth_ofTable hr hwidest]
    exact hwell.opcode_eq_of_matches hmatch
  rw [decode?_of_matches hnone hr hmatch, if_pos hopcode]

/-! ### Opcodes of different widths -/

def apartRecords : List Record := mixedRecords ⟨1#64, 8, by decide, by decide, by decide⟩

/-- The table of the opcodes 0011 and 00000001, which have no word in common. -/
def apart : Table := ((TableBuilder.start "apart" .reject).addAll apartRecords).finish

theorem resolved_of_mem_apartRecords : ∀ r ∈ apartRecords, r.Resolved :=
  resolved_of_mem_mixedRecords (by decide)

theorem conflicts_apart : apart.conflicts = [] := by decide

def wide : Record := .short "WIDE" 2 ⟨1#64, 8, by decide, by decide, by decide⟩

theorem narrow_mem_apart : narrow ∈ apart.records := by decide

def registerOperands (value : Word) : Operands := (∅ : Operands).withRegister "rd" value

/-- What the wider record encodes decodes, and what the narrower one encodes does where the bits
between are zero. -/
theorem decode?_encode_apart :
    (∀ r ∈ apartRecords, r.Resolved) ∧ apart.conflicts = [] ∧
      wide ∈ apart.records ∧ wide.encode (registerOperands 1#64) = .ok 257#64 ∧
      (∀ s ∈ apart.records, s.opcode.width ≤ wide.opcode.width) ∧
      (ofTable apart).decode? 257#64 = some ⟨257#64, wide, wide.decodeOperands 257#64⟩ ∧
      narrow ∈ apart.records ∧ narrow.encode (registerOperands 16#64) = .ok 259#64 ∧
      (ofTable apart).decode? 259#64 = some ⟨259#64, narrow, narrow.decodeOperands 259#64⟩ := by
  have hwide : wide ∈ apart.records := by decide
  have hwidest : ∀ s ∈ apart.records, s.opcode.width ≤ wide.opcode.width := by decide
  have hwideWord : wide.encode (registerOperands 1#64) = .ok 257#64 := rfl
  have hnarrowWord : narrow.encode (registerOperands 16#64) = .ok 259#64 := rfl
  have hzeros : 259#64 &&& Word.lowMask (ofTable apart).opcodeWidth = narrow.opcode.value := by
    decide
  have hdecode := decode?_encode "apart" .reject resolved_of_mem_apartRecords conflicts_apart
  have hfirst := (hdecode wide hwide _ _ hwideWord).2 hwidest
  have hsecond := (hdecode narrow narrow_mem_apart _ _ hnarrowWord).1
  exact ⟨resolved_of_mem_apartRecords, conflicts_apart, hwide, hwideWord, hwidest, hfirst,
    narrow_mem_apart, hnarrowWord, hsecond.trans (if_pos hzeros)⟩

/-- A word that the narrower record encodes, that it alone matches, and that does not decode. -/
theorem decode?_narrow_eq_none :
    (∀ r ∈ apartRecords, r.Resolved) ∧ apart.conflicts = [] ∧ narrow ∈ apart.records ∧
      narrow.encode (registerOperands 1#64) = .ok 19#64 ∧ narrow.Matches 19#64 ∧
      (ofTable apart).decode? 19#64 = none := by
  have hmatch : narrow.Matches 19#64 := by decide
  have hbits : 19#64 &&& Word.lowMask (ofTable apart).opcodeWidth ≠ narrow.opcode.value := by
    decide
  have hdecode := decode?_of_matches conflicts_apart narrow_mem_apart hmatch
  rw [if_neg hbits] at hdecode
  exact ⟨resolved_of_mem_apartRecords, conflicts_apart, narrow_mem_apart, rfl, hmatch, hdecode⟩

end Decoder

end OpTable
