import Mathlib.Data.List.Find
import OpTable.Proofs.Compiler.Run
import OpTable.Proofs.Record.Matching
import OpTable.Table.Decoder

/-!
# Decoding by buckets

A bucket holds the records of one opcode value in the order of the table (`bucket_ofTable`). A word
that matches a record holds its opcode in the low bits, so the bucket that is looked up holds every
record that matches, and the first match in it is the first in the table.
-/

namespace OpTable

namespace Decoder

/-- The records in the bucket of an opcode value. -/
def bucket (buckets : List (Word × List Record)) (opcode : Word) : List Record :=
  (buckets.lookup opcode).getD []

theorem bucket_addToBucket (r : Record) (buckets : List (Word × List Record)) (opcode : Word) :
    bucket (addToBucket r buckets) opcode =
      if r.opcode.value = opcode then bucket buckets opcode ++ [r] else bucket buckets opcode := by
  induction buckets with
  | nil =>
    by_cases hr : r.opcode.value = opcode
    · rw [if_pos hr, addToBucket, bucket, List.lookup_cons, hr, beq_self_eq_true]
      rfl
    · rw [if_neg hr, addToBucket, bucket, List.lookup_cons,
        beq_eq_false_iff_ne.mpr fun he => hr he.symm]
      rfl
  | cons entry rest ih =>
    obtain ⟨key, records⟩ := entry
    have hcons : ∀ (records : List Record) (rest : List (Word × List Record)),
        bucket ((key, records) :: rest) opcode =
          if opcode = key then records else bucket rest opcode := by
      intro records rest
      rw [bucket, List.lookup_cons]
      by_cases hk : opcode = key
      · rw [if_pos hk, beq_iff_eq.mpr hk]
        rfl
      · rw [if_neg hk, beq_eq_false_iff_ne.mpr hk]
        rfl
    rw [addToBucket]
    by_cases hkey : key = r.opcode.value
    · rw [if_pos hkey, hcons, hcons, ← hkey]
      by_cases hk : opcode = key
      · rw [if_pos hk, if_pos hk, if_pos hk.symm]
      · rw [if_neg hk, if_neg hk, if_neg fun he => hk he.symm]
    · rw [if_neg hkey, hcons, hcons, ih]
      by_cases hk : opcode = key
      · rw [if_pos hk, if_pos hk, if_neg fun he => hkey (hk.symm.trans he.symm)]
      · rw [if_neg hk, if_neg hk]

theorem bucket_ofTable (table : Table) (opcode : Word) :
    bucket (ofTable table).buckets opcode =
      table.records.filter (·.opcode.value = opcode) := by
  have key : ∀ (records : List Record) (buckets : List (Word × List Record)),
      bucket (records.foldl (fun buckets r => addToBucket r buckets) buckets) opcode =
        bucket buckets opcode ++ records.filter (·.opcode.value = opcode) := by
    intro records
    induction records with
    | nil => intro buckets; exact (List.append_nil _).symm
    | cons r rest ih =>
      intro buckets
      rw [List.foldl_cons, ih, bucket_addToBucket, List.filter_cons]
      by_cases hr : r.opcode.value = opcode
      · rw [if_pos hr, if_pos (decide_eq_true hr), List.append_assoc]
        rfl
      · rw [if_neg hr, if_neg (by rw [decide_eq_true_iff]; exact hr)]
  exact key table.records []

theorem foldl_max_eq {widths : List Nat} {start top : Nat} (hmem : top ∈ start :: widths)
    (hle : ∀ width ∈ start :: widths, width ≤ top) : widths.foldl max start = top := by
  induction widths generalizing start with
  | nil => exact (List.mem_singleton.mp hmem).symm
  | cons width rest ih =>
    simp only [List.mem_cons, forall_eq_or_imp] at hmem hle
    obtain ⟨hstart, hwidth, hrest⟩ := hle
    apply ih
    · rcases hmem with rfl | rfl | hmem
      · rw [Nat.max_eq_left hwidth]
        exact List.mem_cons_self ..
      · rw [Nat.max_eq_right hstart]
        exact List.mem_cons_self ..
      · exact List.mem_cons_of_mem _ hmem
    · rw [List.forall_mem_cons]
      exact ⟨Nat.max_le.mpr ⟨hstart, hwidth⟩, hrest⟩

theorem opcodeWidth_ofTable {table : Table} {r : Record} (hr : r ∈ table.records)
    (hle : ∀ s ∈ table.records, s.opcode.width ≤ r.opcode.width) :
    (ofTable table).opcodeWidth = r.opcode.width := by
  apply foldl_max_eq
  · exact List.mem_cons_of_mem _ (List.mem_map.mpr ⟨r, hr, rfl⟩)
  · intro width hwidth
    rcases List.mem_cons.mp hwidth with rfl | hwidth
    · exact Nat.zero_le _
    · obtain ⟨s, hs, rfl⟩ := List.mem_map.mp hwidth
      exact hle s hs

theorem decode?_eq_bucket (d : Decoder) (word : Word) :
    d.decode? word =
      ((bucket d.buckets (word &&& Word.lowMask d.opcodeWidth)).find?
        fun r => decide (r.Matches word)).map fun r => ⟨word, r, r.decodeOperands word⟩ := by
  rw [decode?, bucket]
  cases d.buckets.lookup (word &&& Word.lowMask d.opcodeWidth) with
  | none => rfl
  | some records =>
    rw [Option.getD_some]
    dsimp only
    cases records.find? fun r => decide (r.Matches word) with
    | none => rfl
    | some r => rfl

/-- The decoder of a table with opcodes of one width finds what a search of the table finds. -/
theorem decode?_eq_find? {schema : Schema} {table : Table}
    (h : ∀ r ∈ table.records, r.ResolvedUnder schema) (word : Word) :
    (ofTable table).decode? word =
      (table.records.find? fun r => decide (r.Matches word)).map
        fun r => ⟨word, r, r.decodeOperands word⟩ := by
  rw [decode?_eq_bucket, bucket_ofTable, List.find?_filter]
  congr 1
  apply List.find?_congr
  intro r hr
  have hwell := (h r hr).wellFormed
  have hwidth : (ofTable table).opcodeWidth = r.opcode.width := by
    apply opcodeWidth_ofTable hr
    intro s hs
    rw [(h s hs).wellFormed.opcode_width, hwell.opcode_width]
  -- a word that matches holds the opcode, so the test for the bucket rejects no match
  refine decide_eq_decide.mpr ?_
  rw [decide_eq_true_iff, decide_eq_true_iff]
  refine and_iff_right_of_imp fun hword => ?_
  rw [hwidth]
  exact (hwell.opcode_eq_of_matches hword).symm

/-- After any run of a compiler, a word decodes by the first record of the table that it matches,
and does not decode when it matches none. -/
theorem decode?_performAll {schema : Schema} {policy : DuplicatePolicy} {c : Compiler}
    (hc : Compiler.start schema policy = .ok c) (steps : List Compiler.Step) (word : Word) :
    let table := (c.performAll steps).finish.table
    ((ofTable table).decode? word = none ↔ ∀ r ∈ table.records, ¬ r.Matches word) ∧
      ∀ d, (ofTable table).decode? word = some d ↔
        ∃ (i : Nat) (hi : i < table.records.length),
          table.records[i].Matches word ∧
            (∀ (j : Nat) (hj : j < i), ¬ table.records[j].Matches word) ∧
            d = ⟨word, table.records[i], table.records[i].decodeOperands word⟩ := by
  intro table
  have hrecords : ∀ r ∈ table.records, r.ResolvedUnder schema :=
    (Compiler.isResolved_performAll hc steps).2
  rw [decode?_eq_find? hrecords]
  refine ⟨?_, ?_⟩
  · rw [Option.map_eq_none_iff, List.find?_eq_none]
    simp only [decide_eq_true_eq]
  · intro d
    rw [Option.map_eq_some_iff]
    constructor
    · intro h
      obtain ⟨r, hr, rfl⟩ := h
      obtain ⟨hword, i, hi, rfl, hbefore⟩ := List.find?_eq_some_iff_getElem.mp hr
      refine ⟨i, hi, of_decide_eq_true hword, ?_, rfl⟩
      intro j hj hmatch
      have hj := hbefore j hj
      rw [decide_eq_true hmatch] at hj
      cases hj
    · intro h
      obtain ⟨i, hi, hword, hbefore, rfl⟩ := h
      refine ⟨_, List.find?_eq_some_iff_getElem.mpr ⟨decide_eq_true hword, i, hi, rfl, ?_⟩, rfl⟩
      intro j hj
      rw [decide_eq_false (hbefore j hj)]
      rfl

/-- Two mnemonics of the same matched bits. -/
def twinSteps : List Compiler.Step :=
  [.text "twins" ("mix 0000 \x7b1'b1,imm[5:2]\x7d rd rd 000 imm[3:0] 0011\n"
    ++ "max 0000 imm[4:0] rd rd 000 rs1[3:0] 0011")]

theorem decode?_performAll_twins :
    let start : Compiler := ⟨Schema.qcpu, .start "qcpu" .reject, []⟩
    let table := (start.performAll twinSteps).finish.table
    Compiler.start Schema.qcpu .reject = .ok start ∧
      table.records.map (·.mnemonic) = ["MIX", "MAX"] ∧
      (∀ r ∈ table.records, r.Matches 0xD0A28B3#64) ∧
      (ofTable table).decode? 0xD0A28B3#64 =
        some ⟨0xD0A28B3#64, .overlapping, Record.overlapping.decodeOperands 0xD0A28B3#64⟩ ∧
      (ofTable table).decode? 0xD0A28B2#64 = none := by
  intro start table
  have hstart : Compiler.start Schema.qcpu .reject = .ok start := rfl
  have hrun : table.records.map (·.mnemonic) = ["MIX", "MAX"] ∧
      table.records[0]? = some Record.overlapping ∧
      (∀ r ∈ table.records, r.Matches 0xD0A28B3#64) ∧
      ∀ r ∈ table.records, ¬ r.Matches 0xD0A28B2#64 := by
    decide +kernel
  obtain ⟨hmnemonics, hfirst, hmatch, hnone⟩ := hrun
  obtain ⟨hi, hrecord⟩ := List.getElem?_eq_some_iff.mp hfirst
  refine ⟨hstart, hmnemonics, hmatch, ?_, ?_⟩
  · apply ((decode?_performAll hstart twinSteps 0xD0A28B3#64).2 _).mpr
    refine ⟨0, hi, hmatch _ (List.getElem_mem hi), ?_, ?_⟩
    · exact fun j hj => absurd hj (Nat.not_lt_zero j)
    · rw [hrecord]
  · exact (decode?_performAll hstart twinSteps 0xD0A28B2#64).1.mpr hnone

end Decoder

end OpTable
