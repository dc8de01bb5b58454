import Mathlib.Data.List.Pairwise
import OpTable.Proofs.Layout.Accepted
import OpTable.Proofs.Record.RoundTrip

/-!
# Encoding what was decoded

The operands that a record decodes from a word, be it a word of the record or not, can always be
encoded. The new word holds the fixed bits of the record, the last register of a repeated role in
all slots of the role, and the union of what the slices of a field held in each of them; decoding
and encoding once more changes nothing. A word that was encoded comes back as it was, and where
neither roles nor bits of fields repeat, so does every word with the right fixed bits.
-/

namespace OpTable

namespace Slice

theorem low_add_width (s : Slice) : s.low + s.width = s.high + 1 := by
  have h := s.low_le_high
  simp only [width]
  omega

theorem getLsbD_cover (s : Slice) (i : Nat) :
    s.cover.getLsbD i = (decide (s.low ≤ i) && decide (i ≤ s.high)) := by
  have hwidth := s.low_add_width
  have hhigh := s.high_lt
  have hwithin : s.low + s.width ≤ 64 := by omega
  rw [Bool.eq_iff_iff, cover, Word.getLsbD_lowMask_shiftLeft hwithin, Bool.and_eq_true,
    decide_eq_true_iff, decide_eq_true_iff]
  omega

end Slice

theorem PlacedSlice.getLsbD_part (p : PlacedSlice) (word : Word) (i : Nat) :
    (p.part word).getLsbD i =
      (p.slice.cover.getLsbD i && word.getLsbD (p.lsb + (i - p.slice.low))) := by
  have hmoved := p.slice.getLsbD_moved word p.lsb i
  rw [Bool.eq_iff_iff, Bool.and_eq_true, Slice.getLsbD_cover, Bool.and_eq_true, decide_eq_true_iff,
    decide_eq_true_iff, and_assoc]
  exact hmoved

/-- The bits of a field that the slice takes are the same in two values that agree under the cover
of the slice. -/
theorem Slice.bits_eq_of_and_cover {s : Slice} {v w : Word} (h : v &&& s.cover = w &&& s.cover) :
    v.bits s.low s.width = w.bits s.low s.width := by
  have hwidth := s.low_add_width
  apply BitVec.eq_of_getLsbD_eq
  intro i hi
  rw [Word.getLsbD_bits, Word.getLsbD_bits]
  by_cases hn : i < s.width
  · have hlow : s.low ≤ s.low + i := by omega
    have hhigh : s.low + i ≤ s.high := by omega
    have hbit := congrArg (·.getLsbD (s.low + i)) h
    simp only [BitVec.getLsbD_and, getLsbD_cover, hlow, hhigh, decide_true, Bool.and_true] at hbit
    rw [hbit]
  · simp only [hn, decide_false, Bool.false_and, Bool.and_false]

namespace Record

open Layout

/-- No bit of a field is taken by both slices. -/
def Apart (s t : Slice) : Prop := s.field = t.field → s.cover &&& t.cover = 0#64

/-- The word has the right bits in the slots that hold fixed ones and in the fixed segments of the
expressions. -/
structure HoldsFixed (r : Record) (word : Word) : Prop where
  slots : ∀ slot ∈ r.layout, ∀ bits, slot.content.fixed? = some bits →
    slot.extract word = bits.value
  segments : ∀ slot ∈ r.layout, ∀ e, slot.content = .expression e → ∀ above bits below,
    e.segments = above ++ .fixed bits :: below →
      (slot.extract word).bits (Segment.totalWidth below) bits.width = bits.value

/-! ### Registers -/

theorem ResolvedUnder.roleWidth?_eq {schema : Schema} {r : Record} (h : r.ResolvedUnder schema)
    {slot : Slot} (hs : slot ∈ r.layout) {role : String} (hrole : slot.content = .register role) :
    schema.roleWidth? role = some slot.width := by
  obtain ⟨spec, line, encoding, hencoding, rfl⟩ := h
  obtain ⟨opcode, tokens, hreads, -, rfl⟩ := ofLine_eq_ok_iff.mp hencoding
  obtain ⟨i, hi⟩ := List.mem_iff_getElem?.mp hs
  have hcontent : (Encoding.ofTokens schema opcode tokens).contentAt? i =
      some (.register role) := by
    have hi : (Encoding.ofTokens schema opcode tokens).layout[i]? = some slot := hi
    rw [Encoding.contentAt?, hi, Option.map_some, hrole]
  have htoken := contentAt?_eq_register_iff.mp hcontent
  exact width?_of_getElem?_layout hreads.width_eq hi htoken

/-- With one slot for each role, the register of a role is what its slot holds. -/
theorem get?_registers_of_nodup {r : Record} (h : (r.layout.filterMap (·.content.role?)).Nodup)
    (word : Word) {slot : Slot} (hs : slot ∈ r.layout) {role : String}
    (hrole : slot.content = .register role) :
    (r.decodeOperands word).registers.get? role = some (slot.extract word) := by
  obtain ⟨last, hl, hlrole, hget⟩ := exists_get?_registers r word hs hrole
  have hsymm : Std.Symm fun a b : Slot => ∀ x, a.content.role? = some x →
      ∀ y, b.content.role? = some y → x ≠ y :=
    ⟨fun a b hab x hx y hy he => hab y hy x hx he.symm⟩
  have hpair := List.pairwise_filterMap.mp h
  have hsame : last = slot := Decidable.byContradiction fun hne =>
    hpair.forall hl hs hne role (by rw [hlrole]; rfl) role (by rw [hrole]; rfl) rfl
  rw [hget, hsame]

/-! ### Immediates -/

theorem getLsbD_gather (word : Word) (field : String) (placed : List PlacedSlice) (i : Nat) :
    (gather word field placed).getLsbD i = true ↔
      ∃ p ∈ placed, p.slice.field = field ∧ (p.part word).getLsbD i = true := by
  rw [gather, Word.getLsbD_union, List.any_map, List.any_eq_true]
  simp only [List.mem_filter, decide_eq_true_eq, Function.comp_apply, and_assoc]

theorem getLsbD_covered (r : Record) (field : String) (i : Nat) :
    (r.covered field).getLsbD i = true ↔
      ∃ s ∈ r.layout.flatMap Slot.slices, s.field = field ∧ s.cover.getLsbD i = true := by
  rw [covered, Word.getLsbD_union, List.any_map, List.any_eq_true]
  simp only [List.mem_filter, decide_eq_true_eq, Function.comp_apply, and_assoc]

/-- A slice is among the covered bits, so it does not see that the others are cleared. -/
theorem bits_and_covered {r : Record} {s : Slice} (hs : s ∈ r.layout.flatMap Slot.slices)
    (word : Word) :
    (word &&& r.covered s.field).bits s.low s.width = word.bits s.low s.width := by
  apply Slice.bits_eq_of_and_cover
  apply BitVec.eq_of_getLsbD_eq
  intro i _
  rw [BitVec.getLsbD_and, BitVec.getLsbD_and, BitVec.getLsbD_and]
  cases hcover : s.cover.getLsbD i with
  | false => rw [Bool.and_false, Bool.and_false]
  | true => rw [(getLsbD_covered ..).mpr ⟨s, hs, rfl, hcover⟩, Bool.and_true]

namespace WellFormed

variable {schema : Schema} {r : Record}

theorem mem_immediateFields_of_slice (h : r.WellFormed schema) {s : Slice}
    (hs : s ∈ r.layout.flatMap Slot.slices) : s.field ∈ r.immediateFields := by
  rw [h.slices_eq] at hs
  obtain ⟨p, hp, rfl⟩ := List.mem_map.mp hs
  exact List.mem_eraseDups.mpr (List.mem_map.mpr ⟨p, hp, rfl⟩)

/-- Only bits that some slice takes are decoded. -/
theorem gather_and_covered (h : r.WellFormed schema) (word : Word) (field : String) :
    gather word field r.immediateAssembly &&& r.covered field =
      gather word field r.immediateAssembly := by
  apply BitVec.eq_of_getLsbD_eq
  intro i _
  rw [BitVec.getLsbD_and]
  cases hbit : (gather word field r.immediateAssembly).getLsbD i with
  | false => rfl
  | true =>
    obtain ⟨p, hp, hfield, hpart⟩ := (getLsbD_gather ..).mp hbit
    rw [PlacedSlice.getLsbD_part, Bool.and_eq_true] at hpart
    have hs : p.slice ∈ r.layout.flatMap Slot.slices := by
      rw [h.slices_eq]
      exact List.mem_map_of_mem hp
    rw [(getLsbD_covered ..).mpr ⟨p.slice, hs, hfield, hpart.1⟩]
    rfl

theorem toNat_gather_lt {word : Word} {field : String} {placed : List PlacedSlice} {width : Nat}
    (h : ∀ p ∈ placed, p.slice.field = field → p.slice.high + 1 ≤ width) :
    (gather word field placed).toNat < 2 ^ width := by
  apply Word.toNat_lt_of_getLsbD
  intro i hi
  rw [Bool.eq_false_iff]
  intro hbit
  obtain ⟨p, hp, hfield, hpart⟩ := (getLsbD_gather ..).mp hbit
  rw [PlacedSlice.getLsbD_part, Slice.getLsbD_cover] at hpart
  have hle : i ≤ p.slice.high := by
    simp only [Bool.and_eq_true, decide_eq_true_eq] at hpart
    exact hpart.1.2
  have hwidth := h p hp hfield
  omega

/-- A decoded immediate is in range, since it has no bit above its highest slice. -/
theorem checkImmediate_decodeOperands (h : r.WellFormed schema) (word : Word) {field : String}
    (hf : field ∈ r.immediateFields) :
    checkImmediate r (r.decodeOperands word) field = .ok () := by
  have hlt : (gather word field r.immediateAssembly).toNat <
      2 ^ ((r.immediateWidth? field).getD 64) := by
    apply toNat_gather_lt
    intro p hp hfield
    apply List.le_max?_getD_of_mem
    exact List.mem_map.mpr ⟨p, List.mem_filter.mpr ⟨hp, decide_eq_true hfield⟩, rfl⟩
  have hshift := Word.ushiftRight_eq_zero_of_toNat_lt hlt
  have hfits : ImmediateFits (r.isSignedImmediate field) (gather word field r.immediateAssembly)
      ((r.immediateWidth? field).getD 64) := by
    unfold ImmediateFits
    split
    · exact .inr (.inl hshift)
    · exact .inr hshift
  rw [checkImmediate, h.get?_immediates_of_mem word hf]
  exact if_pos hfits

end WellFormed

/-! ### The word of decoded operands -/

/-- The word that the decoded operands of a word encode. -/
def reencoded (r : Record) (word : Word) : Word :=
  Word.concat (r.layout.map (slotPart (r.decodeOperands word)))

theorem ResolvedUnder.encode_decodeOperands_eq {schema : Schema} {r : Record}
    (hr : r.ResolvedUnder schema) (word : Word) :
    r.encode (r.decodeOperands word) = .ok (r.reencoded word) := by
  have h := hr.wellFormed
  refine h.encode_eq_ok (fun field hf => h.checkImmediate_decodeOperands word hf) ?_
  intro slot hs role hrole
  obtain ⟨last, hl, hlrole, hget⟩ := exists_get?_registers r word hs hrole
  refine ⟨_, hget, ?_⟩
  -- all slots of a role are as wide as the schema says
  have hwidth : last.width = slot.width :=
    Option.some.inj ((hr.roleWidth?_eq hl hlrole).symm.trans (hr.roleWidth?_eq hs hrole))
  rw [← hwidth]
  exact Word.toNat_bits_lt _ _ _

section Reencoded

variable {schema : Schema} {r : Record} (hr : r.ResolvedUnder schema)

include hr

theorem agree_decodeOperands_reencoded (word : Word) :
    (r.decodeOperands (r.reencoded word)).Agree (r.decodeOperands word) := by
  have h := hr.wellFormed
  have hencodes := h.encodes (hr.encode_decodeOperands_eq word)
  obtain ⟨hgiven, -⟩ := hencodes.get?_registers h
  obtain ⟨hvalues, -⟩ := hencodes.get?_immediates h
  refine ⟨?_, ?_⟩
  · intro role
    by_cases hrole : role ∈ r.operandRoles
    · obtain ⟨value, hold, hnew⟩ := hgiven role hrole
      rw [hold, hnew]
    · rw [get?_registers_of_not_mem h _ hrole, get?_registers_of_not_mem h _ hrole]
  · intro field
    by_cases hf : field ∈ r.immediateFields
    · obtain ⟨value, hold, hnew⟩ := hvalues field hf
      dsimp only at hold
      rw [h.get?_immediates_of_mem word hf, Option.map_some, h.gather_and_covered] at hold
      rw [hnew, h.get?_immediates_of_mem word hf, hold]
    · rw [h.get?_immediates_of_not_mem _ hf, h.get?_immediates_of_not_mem _ hf]

/-- A slot holds the same with the decoded operands as with those that were encoded. -/
theorem slotValue_decodeOperands_of_encode {ops : Operands} {word : Word}
    (hword : r.encode ops = .ok word) {slot : Slot} (hs : slot ∈ r.layout) :
    slotValue (r.decodeOperands word) slot = slotValue ops slot := by
  have h := hr.wellFormed
  have hencodes := h.encodes hword
  obtain ⟨hgiven, -⟩ := hencodes.get?_registers h
  obtain ⟨hvalues, -⟩ := hencodes.get?_immediates h
  cases hfixed : slot.content.fixed? with
  | some bits => rw [slotValue_of_fixed? _ hfixed, slotValue_of_fixed? _ hfixed]
  | none =>
    unfold slotValue
    cases hc : slot.content with
    | register role =>
      have hmem : role ∈ r.operandRoles := by
        rw [h.operandRoles_eq]
        exact List.mem_filterMap.mpr ⟨slot, hs, by rw [hc]; rfl⟩
      obtain ⟨value, hold, hnew⟩ := hgiven role hmem
      dsimp only
      rw [hold, hnew]
    | expression e =>
      refine Slot.compose_congr hc fun x hx => ?_
      have hx := List.mem_flatMap.mpr ⟨slot, hs, hx⟩
      obtain ⟨value, hold, hnew⟩ := hvalues x.field (h.mem_immediateFields_of_slice hx)
      obtain ⟨given, hgiven, rfl⟩ := Option.map_eq_some_iff.mp hold
      rw [immediateOf, immediateOf, hnew, hgiven, Option.getD_some, Option.getD_some]
      exact bits_and_covered hx given
    | _ => rfl

/-- A word of the record is what its decoded operands encode. -/
theorem reencoded_eq_of_encode {ops : Operands} {word : Word} (hword : r.encode ops = .ok word) :
    r.reencoded word = word := by
  have hparts : r.layout.map (slotPart (r.decodeOperands word)) = r.layout.map (slotPart ops) := by
    apply List.map_congr_left
    intro slot hs
    rw [slotPart, slotPart, slotValue_decodeOperands_of_encode hr hword hs]
  rw [reencoded, hparts, ← (hr.wellFormed.encodes hword).word_eq]

end Reencoded

/-! ### Records without repetitions -/

/-- A bit that no other slice takes is the one that stood in the word. -/
theorem bits_gather {placed : List PlacedSlice} (hapart : (placed.map (·.slice)).Pairwise Apart)
    (word : Word) {p : PlacedSlice} (hp : p ∈ placed) :
    (gather word p.slice.field placed).bits p.slice.low p.slice.width =
      word.bits p.lsb p.width := by
  have hsymm : Std.Symm fun a b : PlacedSlice => Apart a.slice b.slice := by
    refine ⟨fun a b hab hfield => ?_⟩
    rw [BitVec.and_comm]
    exact hab hfield.symm
  have hpair := List.pairwise_map.mp hapart
  have hwidth := p.slice.low_add_width
  apply BitVec.eq_of_getLsbD_eq
  intro i hi
  rw [Word.getLsbD_bits, Word.getLsbD_bits]
  by_cases hn : i < p.slice.width
  · have hcover : p.slice.cover.getLsbD (p.slice.low + i) = true := by
      have hlow : p.slice.low ≤ p.slice.low + i := by omega
      have hhigh : p.slice.low + i ≤ p.slice.high := by omega
      simp only [Slice.getLsbD_cover, hlow, hhigh, decide_true, Bool.and_self]
    have hown : (p.part word).getLsbD (p.slice.low + i) = word.getLsbD (p.lsb + i) := by
      rw [PlacedSlice.getLsbD_part, hcover, Bool.true_and,
        show p.slice.low + i - p.slice.low = i by omega]
    have hbit : (gather word p.slice.field placed).getLsbD (p.slice.low + i) =
        word.getLsbD (p.lsb + i) := by
      rw [← hown, Bool.eq_iff_iff, getLsbD_gather]
      constructor
      · intro h
        obtain ⟨q, hq, hfield, hpart⟩ := h
        have hsame : q = p := Decidable.byContradiction fun hne => by
          have hzero := congrArg (·.getLsbD (p.slice.low + i)) (hpair.forall hq hp hne hfield)
          rw [PlacedSlice.getLsbD_part, Bool.and_eq_true] at hpart
          simp [hcover, hpart.1] at hzero
        rw [← hsame]
        rw [hsame] at hpart ⊢
        exact hpart
      · intro h
        exact ⟨p, hp, rfl, h⟩
    rw [hbit]
    rfl
  · have hn' : ¬ i < p.width := hn
    simp only [hn, hn', decide_false, Bool.false_and, Bool.and_false]

theorem exists_mem_placeAbove (schema : Schema) (base : Nat) {segments above below : List Segment}
    {x : Slice} (h : segments = above ++ .slice x :: below) :
    ∃ p ∈ placeAbove schema base segments,
      p.slice = x ∧ p.lsb = base + Segment.totalWidth below := by
  induction above generalizing segments with
  | nil =>
    subst h
    exact ⟨_, List.mem_cons_self .., rfl, rfl⟩
  | cons s above ih =>
    subst h
    obtain ⟨p, hp, hplace⟩ := ih rfl
    cases s with
    | fixed bits => exact ⟨p, hp, hplace⟩
    | slice y => exact ⟨p, List.mem_cons_of_mem _ hp, hplace⟩

/-- The slots of a stack hold the whole of a word that reaches no higher. -/
theorem concat_extract {layout : List Slot} (h : Stacked layout) (word : Word) :
    Word.concat (layout.map fun slot => ⟨slot.width, slot.extract word⟩) =
      word.bits 0 (widthOf layout) := by
  induction h with
  | nil => exact BitVec.and_zero.symm
  | @cons slot rest hlsb hfilled hrest ih =>
    have htotal : Word.totalWidth (rest.map fun slot => ⟨slot.width, slot.extract word⟩) =
        widthOf rest := by
      rw [Word.totalWidth, List.map_map]
      rfl
    rw [List.map_cons, Word.concat, htotal, ih, widthOf_cons, ← Word.bits_append, Slot.extract,
      hlsb, Nat.zero_add]

section Plain

variable {schema : Schema} {r : Record} (h : r.WellFormed schema)
  (hroles : (r.layout.filterMap (·.content.role?)).Nodup)
  (hslices : (r.layout.flatMap Slot.slices).Pairwise Apart)

include h hslices

theorem compose_decodeOperands {word : Word} (hfixed : r.HoldsFixed word) {slot : Slot}
    (hs : slot ∈ r.layout) {e : BitExpr} (hc : slot.content = .expression e) :
    e.compose (immediateOf (r.decodeOperands word)) = slot.extract word := by
  have hwidth := (h.stacked.filled slot hs).expression_width e hc
  have hcompose : e.compose (immediateOf (r.decodeOperands word)) =
      (slot.extract word).bits 0 e.width := by
    -- segment by segment: a fixed one holds its bits, and a slice what its place in the word does
    apply BitExpr.compose_eq_bits
    intro above s below hsegments
    cases s with
    | fixed bits => exact hfixed.segments slot hs e hc above bits below hsegments
    | slice x =>
      obtain ⟨p, hplaced, rfl, hlsb⟩ := exists_mem_placeAbove schema slot.lsb hsegments
      have hp : p ∈ r.immediateAssembly := by
        rw [h.assembly_eq]
        refine List.mem_flatMap.mpr ⟨slot, hs, ?_⟩
        rw [Slot.placed, hc]
        exact hplaced
      have hfield : p.slice.field ∈ r.immediateFields :=
        List.mem_eraseDups.mpr (List.mem_map.mpr ⟨p, hp, rfl⟩)
      have hinside : Segment.totalWidth below + p.width ≤ slot.width := by
        have htotal : Segment.totalWidth e.segments = slot.width := hwidth
        have hx : (Segment.slice p.slice).width = p.width := rfl
        rw [hsegments, Segment.totalWidth_append, Segment.totalWidth_cons] at htotal
        omega
      rw [h.slices_eq] at hslices
      have hgather := bits_gather hslices word hp
      show (slot.extract word).bits _ p.width =
        (immediateOf _ p.slice.field).bits p.slice.low p.slice.width
      rw [immediateOf, h.get?_immediates_of_mem word hfield, Option.getD_some, hgather,
        Slot.extract, Word.bits_bits word hinside, hlsb]
  have hlt : (slot.extract word).toNat < 2 ^ e.width := by
    rw [hwidth]
    exact Word.toNat_bits_lt _ _ _
  exact hcompose.trans (Word.bits_zero_of_toNat_lt hlt)

include hroles

theorem slotValue_decodeOperands {word : Word} (hfixed : r.HoldsFixed word) {slot : Slot}
    (hs : slot ∈ r.layout) : slotValue (r.decodeOperands word) slot = slot.extract word := by
  cases hf : slot.content.fixed? with
  | some bits => rw [slotValue_of_fixed? _ hf, hfixed.slots slot hs bits hf]
  | none =>
    unfold slotValue
    cases hc : slot.content with
    | register role =>
      dsimp only
      rw [get?_registers_of_nodup hroles word hs hc]
      rfl
    | expression e => exact compose_decodeOperands h hslices hfixed hs hc
    | _ => rw [hc] at hf; cases hf

theorem reencoded_eq_of_holdsFixed {word : Word} (hlt : word.toNat < 2 ^ r.wordWidth)
    (hfixed : r.HoldsFixed word) : r.reencoded word = word := by
  have hparts : r.layout.map (slotPart (r.decodeOperands word)) =
      r.layout.map fun slot => ⟨slot.width, slot.extract word⟩ := by
    apply List.map_congr_left
    intro slot hs
    rw [slotPart, slotValue_decodeOperands h hroles hslices hfixed hs]
  rw [reencoded, hparts, concat_extract h.stacked]
  exact Word.bits_zero_of_toNat_lt hlt

end Plain

theorem Encodes.holdsFixed {schema : Schema} {r : Record} {ops : Operands} {word : Word}
    (h : r.Encodes ops word) (hr : r.WellFormed schema) : r.HoldsFixed word :=
  ⟨fun _ hs _ hb => h.extract_of_fixed? hr hs hb,
    fun _ hs _ he _ _ _ hsegments => h.bits_segment hr hs he hsegments⟩

/-- What a record decodes from any word can be encoded. Encoding and decoding settle after one
round, exactly the words of the record come back as they were, and where no role and no bit of a
field repeats these are the words with the right fixed bits and no others above the record. -/
theorem encode_decodeOperands {schema : Schema} {r : Record} (hr : r.ResolvedUnder schema)
    (word : Word) :
    ∃ normal, r.encode (r.decodeOperands word) = .ok normal ∧
      (r.decodeOperands normal).Agree (r.decodeOperands word) ∧
      r.encode (r.decodeOperands normal) = .ok normal ∧
      (normal = word ↔ ∃ ops, r.encode ops = .ok word) ∧
      ((r.layout.filterMap (·.content.role?)).Nodup →
        (r.layout.flatMap Slot.slices).Pairwise Apart →
          (normal = word ↔ word.toNat < 2 ^ r.wordWidth ∧ r.HoldsFixed word)) := by
  have h := hr.wellFormed
  have hnormal := hr.encode_decodeOperands_eq word
  have hsettled := hr.encode_decodeOperands_eq (r.reencoded word)
  rw [reencoded_eq_of_encode hr hnormal] at hsettled
  refine ⟨r.reencoded word, hnormal, agree_decodeOperands_reencoded hr word, hsettled, ?_, ?_⟩
  · constructor
    · intro he
      rw [he] at hnormal
      exact ⟨_, hnormal⟩
    · intro hops
      obtain ⟨ops, hword⟩ := hops
      exact reencoded_eq_of_encode hr hword
  · intro hroles hslices
    constructor
    · intro he
      have hencodes := h.encodes hnormal
      rw [he] at hencodes
      exact ⟨hencodes.toNat_lt, hencodes.holdsFixed h⟩
    · intro hword
      exact reencoded_eq_of_holdsFixed h hroles hslices hword.1 hword.2

/-- The two registers of the word differ, as do the bits that the slices share, a fixed segment and
the opcode are wrong, and bit 40 is set. In `narrow` nothing repeats. -/
theorem encode_decodeOperands_overlapping :
    overlapping.ResolvedUnder Schema.qcpu ∧
      overlapping.encode (overlapping.decodeOperands 0x10001021000#64) = .ok 0x9041083#64 ∧
      (overlapping.decodeOperands 0x9041083#64).Agree
        (overlapping.decodeOperands 0x10001021000#64) ∧
      overlapping.encode (overlapping.decodeOperands 0x9041083#64) = .ok 0x9041083#64 ∧
      (¬ ∃ ops, overlapping.encode ops = .ok 0x10001021000#64) ∧
      narrow.ResolvedUnder Schema.loose ∧
      (narrow.layout.filterMap (·.content.role?)).Nodup ∧
      (narrow.layout.flatMap Slot.slices).Pairwise Apart ∧
      narrow.encode (narrow.decodeOperands 0x13#64) = .ok 0x13#64 ∧ narrow.HoldsFixed 0x13#64 := by
  have hword : overlapping.encode (overlapping.decodeOperands 0x10001021000#64) =
      .ok 0x9041083#64 := rfl
  obtain ⟨normal, hnormal, hagree, hsettled, hreached, -⟩ :=
    encode_decodeOperands overlapping_resolved 0x10001021000#64
  have he : normal = 0x9041083#64 := Except.ok.inj (hnormal.symm.trans hword)
  rw [he] at hagree hsettled hreached
  have hnot : ¬ ∃ ops, overlapping.encode ops = .ok 0x10001021000#64 :=
    fun hops => absurd (hreached.mpr hops) (by decide)
  have hroles : (narrow.layout.filterMap (·.content.role?)).Nodup := by decide
  have hslices : (narrow.layout.flatMap Slot.slices).Pairwise Apart := List.Pairwise.nil
  have hsame : narrow.encode (narrow.decodeOperands 0x13#64) = .ok 0x13#64 := rfl
  obtain ⟨normal, hnormal, -, -, -, hplain⟩ :=
    encode_decodeOperands narrow_resolvedUnder 0x13#64
  have he : normal = 0x13#64 := Except.ok.inj (hnormal.symm.trans hsame)
  exact ⟨overlapping_resolved, hword, hagree, hsettled, hnot, narrow_resolvedUnder, hroles,
    hslices, hsame, ((hplain hroles hslices).mp he).2⟩

end Record

end OpTable
