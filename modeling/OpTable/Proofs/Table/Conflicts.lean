import Mathlib.Data.List.Forall2
import OpTable.Proofs.Table.Decoding
import OpTable.Table.Conflict

/-!
# Conflicts are words in common

Two records conflict when some word matches both (`conflictsWith_iff`), and the union of what they
ask for is such a word (`matches_conflict`). In a table without conflicts a word belongs to one
record at most, so a decoder finds the same record in whatever order the records stand.
-/

namespace OpTable

namespace Word

/-- Bits that agree where two masks meet can be joined without disturbing either mask. -/
theorem or_and_eq_of_agree {v m w n : Word} (hv : v &&& m = v) (hw : w &&& n = w)
    (h : v &&& (m &&& n) = w &&& (m &&& n)) : (v ||| w) &&& m = v := by
  apply BitVec.eq_of_getLsbD_eq
  intro i _
  have hvi := congrArg (·.getLsbD i) hv
  have hwi := congrArg (·.getLsbD i) hw
  have hi := congrArg (·.getLsbD i) h
  simp only [BitVec.getLsbD_and, BitVec.getLsbD_or] at hvi hwi hi ⊢
  grind

end Word

namespace Record

/-! ### Two records -/

variable {a b : Record}

theorem conflictsWith_comm : a.ConflictsWith b ↔ b.ConflictsWith a := by
  unfold ConflictsWith
  rw [BitVec.and_comm b.mask a.mask]
  exact eq_comm

theorem matches_conflict (ha : a.Resolved) (hb : b.Resolved) (h : a.ConflictsWith b) :
    a.Matches (a.conflict b).word ∧ b.Matches (a.conflict b).word := by
  have hva := ha.matchValue_and_mask
  have hvb := hb.matchValue_and_mask
  refine ⟨Word.or_and_eq_of_agree hva hvb h, ?_⟩
  show (a.matchValue ||| b.matchValue) &&& b.mask = b.matchValue
  rw [BitVec.or_comm]
  exact Word.or_and_eq_of_agree hvb hva (conflictsWith_comm.mp h)

theorem conflictsWith_of_matches {word : Word} (ha : a.Matches word) (hb : b.Matches word) :
    a.ConflictsWith b := by
  unfold Matches at ha hb
  unfold ConflictsWith
  rw [← ha, ← hb]
  apply BitVec.eq_of_getLsbD_eq
  intro i _
  simp only [BitVec.getLsbD_and]
  grind

theorem conflictsWith_iff (ha : a.Resolved) (hb : b.Resolved) :
    a.ConflictsWith b ↔ ∃ word, a.Matches word ∧ b.Matches word := by
  constructor
  · intro h
    exact ⟨_, matches_conflict ha hb h⟩
  · intro h
    obtain ⟨word, hword⟩ := h
    exact conflictsWith_of_matches hword.1 hword.2

theorem conflict_word_within (ha : a.Resolved) (hb : b.Resolved) :
    (a.conflict b).word &&& ~~~(a.mask ||| b.mask) = 0#64 := by
  have hwithin : (a.matchValue ||| b.matchValue) &&& (a.mask ||| b.mask) =
      a.matchValue ||| b.matchValue :=
    Word.or_and_or_of_and_eq ha.matchValue_and_mask hb.matchValue_and_mask
  show (a.matchValue ||| b.matchValue) &&& ~~~(a.mask ||| b.mask) = 0#64
  rw [← hwithin, BitVec.and_assoc, BitVec.and_not_self]
  exact BitVec.and_zero

/-! ### The list of conflicts -/

/-- The places of the records that conflict, each earlier one with the later ones in order. -/
def conflictPairs : List Record → List (Nat × Nat)
  | [] => []
  | r :: rest =>
    ((rest.zipIdx.filter fun later => decide (r.ConflictsWith later.1)).map
        fun later => (0, later.2 + 1))
      ++ (conflictPairs rest).map fun pair => (pair.1 + 1, pair.2 + 1)

theorem forall₂_conflictPairs (records : List Record) :
    List.Forall₂ (fun c pair => ∃ a b, records[pair.1]? = some a ∧ records[pair.2]? = some b ∧
      a.ConflictsWith b ∧ c = a.conflict b) (conflicts records) (conflictPairs records) := by
  induction records with
  | nil => exact List.Forall₂.nil
  | cons r rest ih =>
    have hlater : rest.filter (fun later => decide (r.ConflictsWith later)) =
        (rest.zipIdx.filter fun later => decide (r.ConflictsWith later.1)).map (·.1) := by
      conv_lhs => rw [← List.zipIdx_map_fst 0 rest]
      exact List.filter_map
    rw [conflicts, conflictPairs, hlater, List.map_map]
    refine List.rel_append ?_ ?_
    · rw [List.forall₂_map_left_iff, List.forall₂_map_right_iff, List.forall₂_same]
      intro later hmem
      obtain ⟨hmem, hconflict⟩ := List.mem_filter.mp hmem
      refine ⟨r, later.1, rfl, ?_, of_decide_eq_true hconflict, rfl⟩
      exact List.mem_zipIdx_iff_getElem?.mp hmem
    · rw [List.forall₂_map_right_iff]
      exact ih

theorem mem_conflictPairs {records : List Record} {i j : Nat} :
    (i, j) ∈ conflictPairs records ↔ i < j ∧ ∃ a b, records[i]? = some a ∧
      records[j]? = some b ∧ a.ConflictsWith b := by
  induction records generalizing i j with
  | nil => simp [conflictPairs]
  | cons r rest ih =>
    cases j with
    | zero => simp [conflictPairs]
    | succ j =>
      cases i with
      | zero => simp [conflictPairs, List.mem_zipIdx_iff_getElem?]
      | succ i => simp [conflictPairs, ih]

theorem pairwise_conflictPairs (records : List Record) :
    (conflictPairs records).Pairwise (Prod.Lex (· < ·) (· < ·)) := by
  induction records with
  | nil => exact List.Pairwise.nil
  | cons r rest ih =>
    have hindices : rest.zipIdx.Pairwise fun x y => x.2 < y.2 := by
      rw [← List.pairwise_map, List.zipIdx_map_snd]
      exact List.pairwise_lt_range'
    rw [conflictPairs, List.pairwise_append, List.pairwise_map, List.pairwise_map]
    refine ⟨?_, ?_, ?_⟩
    · refine (hindices.filter _).imp ?_
      intro x y hxy
      exact Prod.Lex.right _ (Nat.succ_lt_succ hxy)
    · refine ih.imp ?_
      intro x y hxy
      rw [Prod.lex_def] at hxy ⊢
      omega
    · intro x hx y hy
      obtain ⟨later, -, rfl⟩ := List.mem_map.mp hx
      obtain ⟨pair, -, rfl⟩ := List.mem_map.mp hy
      exact Prod.Lex.left _ _ (Nat.succ_pos _)

theorem eq_of_conflicts_eq_nil {records : List Record} (hnone : conflicts records = [])
    {word : Word} {i j : Nat} {a b : Record} (hi : records[i]? = some a) (hj : records[j]? = some b)
    (ha : a.Matches word) (hb : b.Matches word) : i = j := by
  have hpairs := forall₂_conflictPairs records
  rw [hnone, List.forall₂_nil_left_iff] at hpairs
  have hapart : ∀ {i j : Nat} {a b : Record}, records[i]? = some a → records[j]? = some b →
      a.ConflictsWith b → ¬ i < j := by
    intro i j a b hi hj hab hlt
    have hmem := mem_conflictPairs.mpr ⟨hlt, a, b, hi, hj, hab⟩
    rw [hpairs] at hmem
    exact absurd hmem List.not_mem_nil
  have hij := hapart hi hj (conflictsWith_of_matches ha hb)
  have hji := hapart hj hi (conflictsWith_of_matches hb ha)
  omega

theorem conflicts_eq_nil_iff {records : List Record} (hr : ∀ r ∈ records, r.Resolved) :
    conflicts records = [] ↔ ∀ (word : Word) (i j : Nat) (a b : Record),
      records[i]? = some a → records[j]? = some b → a.Matches word → b.Matches word → i = j := by
  constructor
  · intro hnone word i j a b hi hj
    exact eq_of_conflicts_eq_nil hnone hi hj
  · intro hunique
    have hpairs := forall₂_conflictPairs records
    cases hp : conflictPairs records with
    | nil =>
      rw [hp] at hpairs
      exact List.forall₂_nil_right_iff.mp hpairs
    | cons pair rest =>
      have hpair : pair ∈ conflictPairs records := hp ▸ List.mem_cons_self ..
      obtain ⟨hlt, a, b, ha, hb, hab⟩ := mem_conflictPairs.mp hpair
      have hmem := List.mem_of_getElem? ha
      obtain ⟨hma, hmb⟩ := matches_conflict (hr a hmem) (hr b (List.mem_of_getElem? hb)) hab
      have heq := hunique _ _ _ a b ha hb hma hmb
      omega

end Record

theorem find?_eq_of_perm {α : Type} {p : α → Bool} {l l' : List α} (hperm : l.Perm l')
    (hunique : ∀ a ∈ l, ∀ b ∈ l, p a = true → p b = true → a = b) : l.find? p = l'.find? p := by
  cases h : l.find? p with
  | none =>
    have hnone := List.find?_eq_none.mp h
    exact (List.find?_eq_none.mpr fun a ha => hnone a (hperm.mem_iff.mpr ha)).symm
  | some a =>
    have ha := List.mem_of_find?_eq_some h
    cases h' : l'.find? p with
    | none =>
      exact absurd (List.find?_some h) (List.find?_eq_none.mp h' a (hperm.mem_iff.mp ha))
    | some b =>
      have hb := hperm.mem_iff.mpr (List.mem_of_find?_eq_some h')
      rw [hunique a ha b hb (List.find?_some h) (List.find?_some h')]

namespace Table

theorem eq_of_matches {table : Table} (hnone : table.conflicts = []) {word : Word} {a b : Record}
    (ha : a ∈ table.records) (hb : b ∈ table.records) (hma : a.Matches word)
    (hmb : b.Matches word) : a = b := by
  obtain ⟨i, hi⟩ := List.mem_iff_getElem?.mp ha
  obtain ⟨j, hj⟩ := List.mem_iff_getElem?.mp hb
  have hij := Record.eq_of_conflicts_eq_nil hnone hi hj hma hmb
  rw [hij, hj] at hi
  exact (Option.some.inj hi).symm

theorem decode?_eq_of_perm {schema : Schema} {table other : Table}
    (hr : ∀ r ∈ table.records, r.ResolvedUnder schema) (hnone : table.conflicts = [])
    (hperm : other.records.Perm table.records) (word : Word) :
    (Decoder.ofTable other).decode? word = (Decoder.ofTable table).decode? word := by
  have hother : ∀ r ∈ other.records, r.ResolvedUnder schema :=
    fun r h => hr r (hperm.mem_iff.mp h)
  have hunique : ∀ a ∈ table.records, ∀ b ∈ table.records,
      decide (a.Matches word) = true → decide (b.Matches word) = true → a = b := by
    intro a ha b hb hma hmb
    exact eq_of_matches hnone ha hb (of_decide_eq_true hma) (of_decide_eq_true hmb)
  rw [Decoder.decode?_eq_find? hother, Decoder.decode?_eq_find? hr,
    find?_eq_of_perm hperm.symm hunique]

/-- A conflict of the records at two places, with a word that both of them match. -/
def IsConflictAt (table : Table) (c : Conflict) (pair : Nat × Nat) : Prop :=
  ∃ a b, table.records[pair.1]? = some a ∧ table.records[pair.2]? = some b ∧
    c = a.conflict b ∧ a.Matches c.word ∧ b.Matches c.word ∧
    c.word &&& ~~~(a.mask ||| b.mask) = 0#64

/-- The conflicts of a table are the pairs of records that have a word in common, in order, each
with such a word. -/
theorem conflicts_exact (name : String) (policy : DuplicatePolicy) {records : List Record}
    (hr : ∀ r ∈ records, r.Resolved) :
    let table := ((TableBuilder.start name policy).addAll records).finish
    (∃ pairs : List (Nat × Nat),
      pairs.Pairwise (Prod.Lex (· < ·) (· < ·)) ∧
      (∀ i j, (i, j) ∈ pairs ↔ i < j ∧ ∃ a b, table.records[i]? = some a ∧
        table.records[j]? = some b ∧ ∃ word, a.Matches word ∧ b.Matches word) ∧
      List.Forall₂ table.IsConflictAt table.conflicts pairs) ∧
    (∀ a b : Record, a.ConflictsWith b ↔ b.ConflictsWith a) ∧
    (table.conflicts = [] ↔ ∀ (word : Word) (i j : Nat) (a b : Record),
      table.records[i]? = some a → table.records[j]? = some b →
        a.Matches word → b.Matches word → i = j) ∧
    (∀ schema : Schema, (∀ r ∈ table.records, r.ResolvedUnder schema) →
      table.conflicts = [] → ∀ other : Table, other.records.Perm table.records →
        ∀ word, (Decoder.ofTable other).decode? word = (Decoder.ofTable table).decode? word) := by
  intro table
  have htable : ∀ r ∈ table.records, r.Resolved :=
    fun r h => hr r (TableBuilder.mem_records_addAll name policy records h)
  have hat : ∀ {i : Nat} {a : Record}, table.records[i]? = some a → a.Resolved :=
    fun h => htable _ (List.mem_of_getElem? h)
  refine ⟨⟨Record.conflictPairs table.records, Record.pairwise_conflictPairs _, ?_, ?_⟩, ?_, ?_, ?_⟩
  · intro i j
    rw [Record.mem_conflictPairs]
    refine and_congr_right fun _ => exists_congr fun a => exists_congr fun b => ?_
    refine and_congr_right fun ha => and_congr_right fun hb => ?_
    exact Record.conflictsWith_iff (hat ha) (hat hb)
  · refine (Record.forall₂_conflictPairs table.records).imp ?_
    intro c pair h
    obtain ⟨a, b, ha, hb, hab, rfl⟩ := h
    obtain ⟨hma, hmb⟩ := Record.matches_conflict (hat ha) (hat hb) hab
    exact ⟨a, b, ha, hb, rfl, hma, hmb, Record.conflict_word_within (hat ha) (hat hb)⟩
  · exact fun a b => Record.conflictsWith_comm
  · exact Record.conflicts_eq_nil_iff htable
  · intro schema hschema hnone other hperm word
    exact decode?_eq_of_perm hschema hnone hperm word

/-- Two records under different schemas, with opcodes of 4 bits and of 8. -/
def mixedRecords (opcode : BitString) : List Record := [.narrow, .short "WIDE" 2 opcode]

theorem resolved_of_mem_mixedRecords {opcode : BitString}
    (h : (Encoding.ofLine Schema.wide ⟨"WIDE", ["rd"], opcode.text⟩).toOption =
      some (Record.short "WIDE" 2 opcode).toEncoding) :
    ∀ r ∈ mixedRecords opcode, r.Resolved := by
  intro r hr
  rcases List.mem_pair.mp hr with rfl | rfl
  · exact ⟨Schema.loose, Schema.loose_valid, Record.narrow_resolvedUnder⟩
  · exact ⟨Schema.wide, Schema.wide_valid, Record.short_resolvedUnder (by decide +kernel) h⟩

/-- Two records under one schema. -/
def siblings : List Record :=
  [.narrow, .short "SIBLING" 2 (.ofBits [false, false, false, true] (by decide) (by decide))]

theorem resolvedUnder_of_mem_siblings : ∀ r ∈ siblings, r.ResolvedUnder Schema.loose := by
  intro r hr
  rcases List.mem_pair.mp hr with rfl | rfl
  · exact Record.narrow_resolvedUnder
  · exact Record.short_resolvedUnder (by decide +kernel) (by decide +kernel)

/-- The opcodes 0011 and 00000011 have a word in common, the opcodes 0011 and 0001 have none. -/
theorem conflicts_exact_mixed :
    let records := mixedRecords ⟨3#64, 8, by decide, by decide, by decide⟩
    let mixed := ((TableBuilder.start "mixed" .reject).addAll records).finish
    let alike := ((TableBuilder.start "loose" .reject).addAll siblings).finish
    let reversed := ((TableBuilder.start "loose" .reject).addAll siblings.reverse).finish
    (∀ r ∈ records, r.Resolved) ∧
      mixed.conflicts = [⟨"NARROW", 1, "WIDE", 2, 3#64⟩] ∧
      mixed.IsConflictAt ⟨"NARROW", 1, "WIDE", 2, 3#64⟩ (0, 1) ∧
      (∀ r ∈ alike.records, r.ResolvedUnder Schema.loose) ∧ alike.conflicts = [] ∧
      reversed.records = siblings.reverse ∧
      ∀ word, (Decoder.ofTable reversed).decode? word =
        (Decoder.ofTable alike).decode? word := by
  intro records mixed alike reversed
  have hresolved : ∀ r ∈ records, r.Resolved := resolved_of_mem_mixedRecords (by decide)
  have hmixed : mixed.records = records := by decide
  have halike : alike.records = siblings := by decide
  have hreversed : reversed.records = siblings.reverse := by decide
  have hconflicts : mixed.conflicts = [⟨"NARROW", 1, "WIDE", 2, 3#64⟩] := by
    rw [conflicts, hmixed]
    decide
  have hnone : alike.conflicts = [] := by
    rw [conflicts, halike]
    decide
  have hsiblings : ∀ r ∈ alike.records, r.ResolvedUnder Schema.loose := by
    rw [halike]
    exact resolvedUnder_of_mem_siblings
  have hexact := conflicts_exact "mixed" .reject hresolved
  have horder := conflicts_exact "loose" .reject fun r hr =>
    ⟨Schema.loose, Schema.loose_valid, resolvedUnder_of_mem_siblings r hr⟩
  obtain ⟨⟨pairs, -, hpairs, hall⟩, -⟩ := hexact
  obtain ⟨-, -, -, horder⟩ := horder
  have hmem : (0, 1) ∈ pairs :=
    (hpairs 0 1).mpr
      ⟨Nat.zero_lt_one, _, _, rfl, rfl, 3#64, by decide, by decide⟩
  rw [hconflicts] at hall
  refine ⟨hresolved, hconflicts, ?_, hsiblings, hnone, hreversed, ?_⟩
  · cases hall with
    | cons hpair hrest =>
      cases hrest
      rwa [List.mem_singleton.mp hmem]
  · refine horder Schema.loose hsiblings hnone reversed ?_
    rw [hreversed, halike]
    exact siblings.reverse_perm

end Table

end OpTable
