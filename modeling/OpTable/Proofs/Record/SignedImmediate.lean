import OpTable.Proofs.Record.Acceptance

/-!
# Signed immediates as numbers

A signed immediate can be given as a number. It is accepted from the least negative number of its
width up to the greatest unsigned one, and is read back as the signed number that has the bits which
some slice takes: the same number, when it is in the signed range and has no other bits.
-/

namespace OpTable

namespace Record

theorem acceptsImmediate_withImmediate {r : Record} {ops : Operands} {field other : String}
    (value : Word) (hne : other ≠ field) :
    r.AcceptsImmediate (ops.withImmediate field value) other ↔ r.AcceptsImmediate ops other := by
  have hget : (ops.withImmediate field value).immediates.get? other =
      ops.immediates.get? other := by
    show (ops.immediates.insert field value).get? other = _
    rw [NameMap.get?_insert, if_neg hne]
  rw [AcceptsImmediate, AcceptsImmediate, hget]

theorem get?_withSignedImmediate {ops : Operands} {field : String} {value : Int} :
    (ops.withSignedImmediate field value).immediates.get? field = some (BitVec.ofInt 64 value) := by
  show (ops.immediates.insert field _).get? field = _
  rw [NameMap.get?_insert, if_pos rfl]

section Signed

variable {r : Record} {field : String} {width : Nat} {value : Int} {ops : Operands}

theorem acceptsImmediate_withSignedImmediate_iff (hwidth : r.immediateWidth? field = some width)
    (hsigned : r.isSignedImmediate field = true) (hlow : -2 ^ 63 ≤ value) (hhigh : value < 2 ^ 63) :
    r.AcceptsImmediate (ops.withSignedImmediate field value) field ↔
      -((2 ^ (width - 1) : Nat) : Int) ≤ value ∧ value < (2 ^ width : Nat) := by
  obtain ⟨hpos, hle⟩ := immediateWidth?_bounds hwidth
  rw [← Word.toNat_ofInt_range_iff hpos hle hlow hhigh, AcceptsImmediate, get?_withSignedImmediate,
    hwidth, hsigned]
  simp [Allows]

variable (hwidth : r.immediateWidth? field = some width)
  (hsigned : r.isSignedImmediate field = true)

include hwidth hsigned

/-- What was decoded for a signed immediate stands for the number of its width that is congruent to
the decoded bits. -/
theorem exists_immediateValue? (raw : Word) :
    ∃ number, r.immediateValue? field raw = some number ∧
      -((2 ^ (width - 1) : Nat) : Int) ≤ number ∧ number < (2 ^ (width - 1) : Nat) ∧
      number ≡ raw.toNat [ZMOD ((2 ^ width : Nat) : Int)] := by
  obtain ⟨hpos, hle⟩ := immediateWidth?_bounds hwidth
  refine ⟨raw.signExtend width, ?_, (Word.signExtend_eq_iff hpos hle).mp rfl⟩
  simp only [immediateValue?, hwidth, hsigned, if_true]

/-- A signed immediate is accepted as a number from the least negative one of its width up to the
greatest unsigned one. It is read back as the number in the signed range that is congruent to the
bits that some slice takes; where the given number is in that range and has no other bits, it is
read back as it was. -/
theorem encode_withSignedImmediate {schema : Schema} (hr : r.ResolvedUnder schema)
    (hlow : -2 ^ 63 ≤ value) (hhigh : value < 2 ^ 63)
    (hothers : ∀ other ∈ r.immediateFields, other ≠ field → r.AcceptsImmediate ops other)
    (hregisters : ∀ slot ∈ r.layout, AcceptsRegister ops slot) :
    ((∃ word, r.encode (ops.withSignedImmediate field value) = .ok word) ↔
        -((2 ^ (width - 1) : Nat) : Int) ≤ value ∧ value < (2 ^ width : Nat)) ∧
      ∀ word, r.encode (ops.withSignedImmediate field value) = .ok word →
        ∃ raw number, (r.decodeOperands word).immediates.get? field = some raw ∧
          r.immediateValue? field raw = some number ∧
          -((2 ^ (width - 1) : Nat) : Int) ≤ number ∧ number < (2 ^ (width - 1) : Nat) ∧
          number ≡ (BitVec.ofInt 64 value &&& r.covered field).toNat
            [ZMOD ((2 ^ width : Nat) : Int)] ∧
          (-((2 ^ (width - 1) : Nat) : Int) ≤ value → value < (2 ^ (width - 1) : Nat) →
            (∀ i < width, (r.covered field).getLsbD i = false →
              (BitVec.ofInt 64 value).getLsbD i = false) → number = value) := by
  have hfield := mem_immediateFields_of_immediateWidth? hwidth
  constructor
  · rw [encode_eq_ok_iff, ← acceptsImmediate_withSignedImmediate_iff hwidth hsigned hlow hhigh]
    constructor
    · intro h
      exact h.1 field hfield
    · intro h
      refine ⟨?_, hregisters⟩
      intro other hother
      by_cases hne : other = field
      · rw [hne]
        exact h
      · exact (acceptsImmediate_withImmediate _ hne).mpr (hothers other hother hne)
  · intro word hword
    have hwell := hr.wellFormed
    obtain ⟨hvalues, -⟩ := (hwell.encodes hword).get?_immediates hwell
    obtain ⟨raw, hgiven, hraw⟩ := hvalues field hfield
    dsimp only at hgiven
    rw [get?_withSignedImmediate, Option.map_some, Option.some.injEq] at hgiven
    obtain ⟨number, hnumber, hleast, hmost, hcongr⟩ := exists_immediateValue? hwidth hsigned raw
    -- what is decoded are the covered bits of what was given
    refine ⟨raw, number, hraw, hnumber, hleast, hmost, ?_, ?_⟩
    · rw [hgiven]
      exact hcongr
    · intro hvalueLow hvalueHigh huncovered
      obtain ⟨hpos, hle⟩ := immediateWidth?_bounds hwidth
      have hextend : raw.signExtend width = value := by
        refine Word.signExtend_eq_of_getLsbD hpos hle ?_ hvalueLow hvalueHigh
        intro i hi
        rw [← hgiven, BitVec.getLsbD_and]
        cases hcovered : (r.covered field).getLsbD i with
        | true => rw [Bool.and_true]
        | false => rw [Bool.and_false, huncovered i hi hcovered]
      simp only [immediateValue?, hwidth, hsigned, if_true, hextend, Option.some.injEq] at hnumber
      exact hnumber.symm

end Signed

/-- The least number comes back as it was. The greatest loses its lowest bit and gains a sign. -/
theorem encode_withSignedImmediate_evenOffset :
    evenOffset.ResolvedUnder Schema.loose ∧ evenOffset.immediateWidth? "imm" = some 6 ∧
      evenOffset.isSignedImmediate "imm" = true ∧
      evenOffset.encode ((∅ : Operands).withSignedImmediate "imm" (-32)) = .ok 0x103#64 ∧
      (∃ raw, (evenOffset.decodeOperands 0x103#64).immediates.get? "imm" = some raw ∧
        evenOffset.immediateValue? "imm" raw = some (-32)) ∧
      evenOffset.encode ((∅ : Operands).withSignedImmediate "imm" 63) = .ok 0x1F3#64 ∧
      (∃ raw, (evenOffset.decodeOperands 0x1F3#64).immediates.get? "imm" = some raw ∧
        evenOffset.immediateValue? "imm" raw = some (-2)) ∧
      ¬ ∃ word, evenOffset.encode ((∅ : Operands).withSignedImmediate "imm" 64) = .ok word := by
  have hwidth : evenOffset.immediateWidth? "imm" = some 6 := by decide
  have hsigned : evenOffset.isSignedImmediate "imm" = true := by decide
  have hothers : ∀ other ∈ evenOffset.immediateFields, other ≠ "imm" →
      evenOffset.AcceptsImmediate ∅ other := by
    have hfields : evenOffset.immediateFields = ["imm"] := by decide
    intro other hother hne
    rw [hfields] at hother
    exact absurd (List.mem_singleton.mp hother) hne
  have hregisters : ∀ slot ∈ evenOffset.layout, AcceptsRegister ∅ slot := by
    have hnone : ∀ slot ∈ evenOffset.layout, slot.content.role? = none := by decide
    intro slot hs role hrole
    have hslot := hnone slot hs
    rw [hrole] at hslot
    cases hslot
  have hleast : evenOffset.encode ((∅ : Operands).withSignedImmediate "imm" (-32)) =
      .ok 0x103#64 := rfl
  have hmost : evenOffset.encode ((∅ : Operands).withSignedImmediate "imm" 63) =
      .ok 0x1F3#64 := rfl
  refine ⟨evenOffset_resolvedUnder, hwidth, hsigned, hleast, ?_, hmost, ?_, ?_⟩
  · obtain ⟨raw, number, hraw, hnumber, -, -, -, hsame⟩ :=
      (encode_withSignedImmediate hwidth hsigned evenOffset_resolvedUnder (by decide) (by decide)
        hothers hregisters).2 _ hleast
    rw [hsame (by decide) (by decide) (by decide)] at hnumber
    exact ⟨raw, hraw, hnumber⟩
  · obtain ⟨raw, number, hraw, hnumber, hlow, hhigh, hcongr, -⟩ :=
      (encode_withSignedImmediate hwidth hsigned evenOffset_resolvedUnder (by decide) (by decide)
        hothers hregisters).2 _ hmost
    have hbits : (BitVec.ofInt 64 63 &&& evenOffset.covered "imm").toNat = 62 := by decide
    rw [hbits] at hcongr
    have hvalue : number = -2 := by
      unfold Int.ModEq at hcongr
      omega
    rw [hvalue] at hnumber
    exact ⟨raw, hraw, hnumber⟩
  · intro hword
    have hrange := (encode_withSignedImmediate hwidth hsigned evenOffset_resolvedUnder (by decide)
      (by decide) hothers hregisters).1.mp hword
    exact absurd hrange.2 (by decide)

end Record

end OpTable
