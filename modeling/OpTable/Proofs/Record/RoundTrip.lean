import OpTable.Proofs.Record.Encoding

/-!
# Decoding an encoded word

Every slot of an encoded word reads back its own bits, so the word belongs to the record and its
operands are found again. A role that stands in several slots was written the same everywhere; a
field that is split, or covered twice, comes back with the bits that some slice takes.
-/

namespace OpTable

/-- The map has a word for each of the names, the one that `given` has, and for no other name. -/
def NameMap.GivesExactly (m : NameMap) (names : List String) (given : String → Option Word) :
    Prop :=
  (∀ name ∈ names, ∃ word, given name = some word ∧ m.get? name = some word) ∧
    ∀ name, name ∉ names → m.get? name = none

namespace Record

open Layout

namespace Encodes

variable {schema : Schema} {r : Record} {ops : Operands} {word : Word}

theorem toNat_lt (h : r.Encodes ops word) : word.toNat < 2 ^ r.wordWidth := by
  rw [h.word_eq, wordWidth_eq, ← totalWidth_map_slotPart ops]
  apply Word.toNat_concat_lt
  intro part hpart
  obtain ⟨slot, hs, rfl⟩ := List.mem_map.mp hpart
  exact h.fits slot hs

theorem extract (h : r.Encodes ops word) (hr : r.WellFormed schema) {slot : Slot}
    (hs : slot ∈ r.layout) : slot.extract word = slotValue ops slot := by
  obtain ⟨above, below, hlayout⟩ := List.append_of_mem hs
  have hstacked := hr.stacked
  rw [hlayout] at hstacked
  have hfits : ∀ part ∈ r.layout.map (slotPart ops), part.Fits := by
    intro part hpart
    obtain ⟨s, hs, rfl⟩ := List.mem_map.mp hpart
    exact h.fits s hs
  have hwidth : Word.totalWidth (r.layout.map (slotPart ops)) ≤ 64 := by
    rw [totalWidth_map_slotPart]
    exact hr.wordWidth_le
  rw [hlayout, List.map_append, List.map_cons] at hfits hwidth
  rw [Slot.extract, hstacked.lsb_eq, ← totalWidth_map_slotPart ops below, h.word_eq, hlayout,
    List.map_append, List.map_cons]
  exact Word.bits_concat hfits hwidth

theorem extract_of_fixed? (h : r.Encodes ops word) (hr : r.WellFormed schema) {slot : Slot}
    (hs : slot ∈ r.layout) {bits : BitString} (hb : slot.content.fixed? = some bits) :
    slot.extract word = bits.value := by
  rw [h.extract hr hs, slotValue_of_fixed? ops hb]

theorem matches_word (h : r.Encodes ops word) (hr : r.WellFormed schema) : r.Matches word := by
  rw [hr.matches_iff]
  intro slot hs bits hb
  exact h.extract_of_fixed? hr hs (SlotContent.fixed?_of_matched? hb)

theorem bits_segment (h : r.Encodes ops word) (hr : r.WellFormed schema) {slot : Slot}
    (hs : slot ∈ r.layout) {e : BitExpr} (he : slot.content = .expression e)
    {above below : List Segment} {s : Segment} (hsegments : e.segments = above ++ s :: below) :
    (slot.extract word).bits (Segment.totalWidth below) s.width = s.bits (immediateOf ops) := by
  have hvalue : slotValue ops slot = e.compose (immediateOf ops) := by
    rw [slotValue, he]
  rw [h.extract hr hs, hvalue]
  exact e.bits_compose (immediateOf ops) hsegments

/-! ### Registers -/

theorem get?_registers (h : r.Encodes ops word) (hr : r.WellFormed schema) :
    (r.decodeOperands word).registers.GivesExactly r.operandRoles ops.registers.get? := by
  refine ⟨?_, fun role hrole => get?_registers_of_not_mem hr word hrole⟩
  intro role hrole
  rw [hr.operandRoles_eq] at hrole
  obtain ⟨slot, hs, hslot⟩ := List.mem_filterMap.mp hrole
  -- the last slot of the role decides, and every slot of the role holds the given value
  obtain ⟨last, hl, hcontent, hget⟩ :=
    exists_get?_registers r word hs (SlotContent.eq_register_of_role? hslot)
  obtain ⟨value, hvalue⟩ := Option.isSome_iff_exists.mp (h.register_given last hl role hcontent)
  refine ⟨value, hvalue, ?_⟩
  rw [hget, h.extract hr hl, slotValue, hcontent]
  dsimp only
  rw [hvalue]
  rfl

/-! ### Immediates -/

theorem part_eq (h : r.Encodes ops word) (hr : r.WellFormed schema) {p : PlacedSlice}
    (hp : p ∈ r.immediateAssembly) :
    p.part word = immediateOf ops p.slice.field &&& p.slice.cover := by
  obtain ⟨slot, hs, e, above, below, he, hsegments, hlsb, hle⟩ := hr.mem_assembly hp
  have hbits : word.bits p.lsb p.width =
      (immediateOf ops p.slice.field).bits p.slice.low p.slice.width := by
    have hsegment := h.bits_segment hr hs he hsegments
    rw [Slot.extract, Word.bits_bits word (by
      have hwidth : (Segment.slice p.slice).width = p.width := rfl
      omega), ← hlsb] at hsegment
    exact hsegment
  rw [PlacedSlice.part, hbits, Word.bits_shiftLeft]
  rfl

theorem gather_eq (h : r.Encodes ops word) (hr : r.WellFormed schema) (field : String) :
    gather word field r.immediateAssembly = immediateOf ops field &&& r.covered field := by
  have hparts : (r.immediateAssembly.filter (·.slice.field = field)).map (·.part word) =
      (r.immediateAssembly.filter (·.slice.field = field)).map
        fun p => immediateOf ops field &&& p.slice.cover := by
    apply List.map_congr_left
    intro p hp
    obtain ⟨hmem, hf⟩ := List.mem_filter.mp hp
    rw [h.part_eq hr hmem, of_decide_eq_true hf]
  rw [gather, hparts, covered, hr.slices_eq, List.filter_map, List.map_map, Word.and_union,
    List.map_map]
  rfl

theorem get?_immediates (h : r.Encodes ops word) (hr : r.WellFormed schema) :
    (r.decodeOperands word).immediates.GivesExactly r.immediateFields
      fun field => (ops.immediates.get? field).map (· &&& r.covered field) := by
  refine ⟨?_, fun field hf => hr.get?_immediates_of_not_mem word hf⟩
  intro field hf
  obtain ⟨value, hvalue⟩ := Option.isSome_iff_exists.mp (h.immediate_given field hf)
  refine ⟨value &&& r.covered field, congrArg (Option.map (· &&& r.covered field)) hvalue, ?_⟩
  rw [hr.get?_immediates_of_mem word hf, h.gather_eq hr, immediateOf, hvalue]
  rfl

end Encodes

/-- Whatever a resolved record encodes is a word of the record, with all fixed bits in their
places, and decodes to the registers that were given and to the covered bits of the immediates. -/
theorem decode_encode {schema : Schema} {r : Record} (hr : r.ResolvedUnder schema) {ops : Operands}
    {word : Word} (hword : r.encode ops = .ok word) :
    word.toNat < 2 ^ r.wordWidth ∧ r.Matches word ∧
      (∀ slot ∈ r.layout, ∀ bits, slot.content = .literal bits → slot.extract word = bits.value) ∧
      (∀ slot ∈ r.layout, ∀ e, slot.content = .expression e → ∀ above bits below,
        e.segments = above ++ .fixed bits :: below →
          (slot.extract word).bits (Segment.totalWidth below) bits.width = bits.value) ∧
      (r.decodeOperands word).registers.GivesExactly r.operandRoles ops.registers.get? ∧
      (r.decodeOperands word).immediates.GivesExactly r.immediateFields
        fun field => (ops.immediates.get? field).map (· &&& r.covered field) := by
  have hwell := hr.wellFormed
  have h := hwell.encodes hword
  refine ⟨h.toNat_lt, h.matches_word hwell, ?_, ?_, h.get?_registers hwell, h.get?_immediates hwell⟩
  · intro slot hs bits hb
    refine h.extract_of_fixed? hwell hs ?_
    rw [hb]
    rfl
  · intro slot hs e he above bits below hsegments
    exact h.bits_segment hwell hs he hsegments

def overlappingOperands : Operands :=
  ((∅ : Operands).withRegister "rd" 5#64).withImmediate "imm" 0x2B#64

/-- Both slots of the role hold 5, and the bits that the slices share are there twice. -/
theorem decode_encode_overlapping :
    overlapping.ResolvedUnder Schema.qcpu ∧
      overlapping.encode overlappingOperands = .ok 0xD0A28B3#64 ∧
      overlapping.Matches 0xD0A28B3#64 ∧
      (overlapping.decodeOperands 0xD0A28B3#64).registers.GivesExactly overlapping.operandRoles
        overlappingOperands.registers.get? ∧
      (overlapping.decodeOperands 0xD0A28B3#64).immediates.GivesExactly
        overlapping.immediateFields
        fun field => (overlappingOperands.immediates.get? field).map
          (· &&& overlapping.covered field) := by
  have hword : overlapping.encode overlappingOperands = .ok 0xD0A28B3#64 := rfl
  obtain ⟨-, hmatches, -, -, hregisters, himmediates⟩ := decode_encode overlapping_resolved hword
  exact ⟨overlapping_resolved, hword, hmatches, hregisters, himmediates⟩

end Record

end OpTable
