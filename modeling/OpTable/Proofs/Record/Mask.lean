import OpTable.Proofs.Record.Matching

/-!
# Bits that are looked at

The mask of a record covers the slots of the opcode and of the function codes and no other bit, so
the comparison under the mask is that of these slots, each on its own (`matches_iff_codes`). Slots
do not overlap: what stands in the others, or above the word, plays no part.
-/

namespace OpTable

namespace Slot

/-- The slot holds the opcode or a function code, of these bits. -/
def HoldsCode (slot : Slot) (bits : BitString) : Prop :=
  slot.content = .opcode bits ∨ slot.content = .funct3 bits ∨ slot.content = .funct7 bits

/-- The bit of a word belongs to the slot. -/
def Covers (slot : Slot) (bit : Nat) : Prop := slot.lsb ≤ bit ∧ bit < slot.lsb + slot.width

theorem matched?_eq_some_iff {slot : Slot} {bits : BitString} :
    slot.content.matched? = some bits ↔ slot.HoldsCode bits := by
  unfold HoldsCode
  cases slot.content <;> simp [SlotContent.matched?]

theorem getLsbD_mask {slot : Slot} (h : slot.lsb + slot.width ≤ 64) (i : Nat) :
    slot.mask.getLsbD i = true ↔ slot.Covers i :=
  Word.getLsbD_lowMask_shiftLeft h i

end Slot

theorem Layout.Stacked.eq_of_covers {layout : List Slot} (h : Stacked layout) {a b : Slot} {i : Nat}
    (ha : a ∈ layout) (hb : b ∈ layout) (hai : a.Covers i) (hbi : b.Covers i) : a = b := by
  induction h with
  | nil => exact absurd ha List.not_mem_nil
  | @cons slot rest hlsb hfilled hrest ih =>
    -- the first slot stands on all others, so none of them reaches up to it
    have hbelow : ∀ s ∈ rest, s.Covers i → ¬ slot.Covers i := by
      intro s hs hsi hslot
      have hle := hrest.le_widthOf hs
      unfold Slot.Covers at hsi hslot
      omega
    rcases List.mem_cons.mp ha with hfirst | harest
    · rcases List.mem_cons.mp hb with hsame | hbrest
      · rw [hfirst, hsame]
      · rw [hfirst] at hai
        exact absurd hai (hbelow b hbrest hbi)
    · rcases List.mem_cons.mp hb with hfirst | hbrest
      · rw [hfirst] at hbi
        exact absurd hbi (hbelow a harest hai)
      · exact ih harest hbrest

namespace Record

open Layout

/-- The bit of a word belongs to a slot that holds the opcode or a function code. -/
def LooksAt (r : Record) (bit : Nat) : Prop :=
  ∃ slot ∈ r.layout, (∃ bits, slot.HoldsCode bits) ∧ slot.Covers bit

namespace WellFormed

variable {schema : Schema} {r : Record}

theorem getLsbD_mask (h : r.WellFormed schema) (i : Nat) :
    r.mask.getLsbD i = true ↔ r.LooksAt i := by
  have hslot : ∀ slot ∈ r.layout, slot.lsb + slot.width ≤ 64 := fun slot hs =>
    Nat.le_trans (h.stacked.le_widthOf hs) h.wordWidth_le
  rw [mask, maskOf_eq, Word.getLsbD_union, List.any_eq_true]
  constructor
  · rintro ⟨mask, hmask, hbit⟩
    obtain ⟨slot, hs, hmask⟩ := List.mem_filterMap.mp hmask
    obtain ⟨bits, hbits, rfl⟩ := Option.map_eq_some_iff.mp hmask
    exact ⟨slot, hs, ⟨bits, Slot.matched?_eq_some_iff.mp hbits⟩,
      (Slot.getLsbD_mask (hslot slot hs) i).mp hbit⟩
  · rintro ⟨slot, hs, ⟨bits, hbits⟩, hcovers⟩
    refine ⟨slot.mask, ?_, (Slot.getLsbD_mask (hslot slot hs) i).mpr hcovers⟩
    refine List.mem_filterMap.mpr ⟨slot, hs, ?_⟩
    rw [slotMask?, Slot.matched?_eq_some_iff.mpr hbits]
    rfl

theorem not_looksAt_of_covers (h : r.WellFormed schema) {slot : Slot} (hs : slot ∈ r.layout)
    (hcode : ∀ bits, ¬ slot.HoldsCode bits) {i : Nat} (hi : slot.Covers i) : ¬ r.LooksAt i := by
  rintro ⟨other, hother, ⟨bits, hbits⟩, hcovers⟩
  have hsame := h.stacked.eq_of_covers hs hother hi hcovers
  rw [← hsame] at hbits
  exact hcode bits hbits

theorem not_looksAt_of_wordWidth_le (h : r.WellFormed schema) {i : Nat} (hi : r.wordWidth ≤ i) :
    ¬ r.LooksAt i := by
  rintro ⟨slot, hs, -, hcovers⟩
  have hle := h.stacked.le_widthOf hs
  rw [wordWidth_eq] at hi
  unfold Slot.Covers at hcovers
  omega

theorem matches_congr (h : r.WellFormed schema) {word other : Word}
    (hagree : ∀ i, r.LooksAt i → word.getLsbD i = other.getLsbD i) :
    r.Matches word ↔ r.Matches other := by
  have hmasked : word &&& r.mask = other &&& r.mask := by
    apply BitVec.eq_of_getLsbD_eq
    intro i _
    rw [BitVec.getLsbD_and, BitVec.getLsbD_and]
    cases hbit : r.mask.getLsbD i with
    | false => rw [Bool.and_false, Bool.and_false]
    | true => rw [hagree i ((h.getLsbD_mask i).mp hbit)]
  unfold Matches
  rw [hmasked]

end WellFormed

/-- A word matches a record when each slot of an opcode or function code holds its bits. The bits
of these slots are those of the mask, the value to be matched lies within them, and none of them
belongs to another slot or stands above the word; so no bit but theirs decides. -/
theorem matches_iff_codes {r : Record} (hr : r.Resolved) :
    (∀ word, r.Matches word ↔
        ∀ slot ∈ r.layout, ∀ bits, slot.HoldsCode bits → slot.extract word = bits.value) ∧
      r.matchValue &&& ~~~ r.mask = 0#64 ∧
      r.mask.toNat < 2 ^ r.wordWidth ∧
      (∀ i, r.mask.getLsbD i = true ↔ r.LooksAt i) ∧
      (∀ slot ∈ r.layout, (∀ bits, ¬ slot.HoldsCode bits) →
        ∀ i, slot.Covers i → ¬ r.LooksAt i) ∧
      (∀ i, r.wordWidth ≤ i → ¬ r.LooksAt i) ∧
      ∀ word other, (∀ i, r.LooksAt i → word.getLsbD i = other.getLsbD i) →
        (r.Matches word ↔ r.Matches other) := by
  have hwithin := hr.matchValue_and_mask
  obtain ⟨schema, -, hresolved⟩ := hr
  have h := hresolved.wellFormed
  refine ⟨?_, ?_, toNat_maskOf_lt h.stacked, h.getLsbD_mask, ?_, ?_, ?_⟩
  · intro word
    rw [h.matches_iff]
    simp only [SlotsMatch, Slot.matched?_eq_some_iff]
  · have hnone : r.mask &&& ~~~ r.mask = 0#64 := BitVec.and_not_self _
    rw [← hwithin, BitVec.and_assoc, hnone, BitVec.and_zero]
  · exact fun slot hs hcode i hi => h.not_looksAt_of_covers hs hcode hi
  · exact fun i hi => h.not_looksAt_of_wordWidth_le hi
  · exact fun word other hagree => h.matches_congr hagree

/-- The opcode and the code before the destination decide, and no other bit does. -/
theorem matches_iff_codes_overlapping :
    overlapping.Resolved ∧ overlapping.mask = 0x70F#64 ∧ overlapping.Matches 0xD0A28B3#64 ∧
      overlapping.Matches (0xD0A28B3#64 ^^^ ~~~ 0x70F#64) ∧
      ¬ overlapping.LooksAt 28 ∧ ¬ overlapping.LooksAt 27 ∧ ¬ overlapping.LooksAt 32 := by
  have hr : overlapping.Resolved := ⟨Schema.qcpu, rfl, overlapping_resolved⟩
  have hmask : overlapping.mask = 0x70F#64 := by decide
  have hmatches : overlapping.Matches 0xD0A28B3#64 := by decide
  obtain ⟨-, -, -, hbits, hothers, habove, hcongr⟩ := matches_iff_codes hr
  refine ⟨hr, hmask, hmatches, ?_, ?_, ?_, ?_⟩
  · refine (hcongr _ _ ?_).mp hmatches
    intro i hi
    rw [← hbits, hmask] at hi
    rw [BitVec.getLsbD_xor, BitVec.getLsbD_not, hi]
    simp
  · exact hothers ⟨28, 4, .literal ⟨0#64, 4, by decide, by decide, by decide⟩⟩ (by decide)
      (by simp [Slot.HoldsCode]) 28 (by simp [Slot.Covers])
  · rw [← hbits, hmask]
    decide
  · exact habove 32 (by decide)

end Record

end OpTable
