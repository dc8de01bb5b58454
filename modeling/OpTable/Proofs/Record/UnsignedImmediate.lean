import OpTable.Proofs.Record.Acceptance
import OpTable.Table.Decoder

/-!
# Unsigned immediates as numbers

The number of a decoded immediate has 64 bits with its sign. An unsigned immediate is the number
that its bits stand for as long as that number is below 2 ^ 63, so always when no slice of the field
takes bit 63 (`immediateValue?_unsigned`). From there on the number is negative.
-/

namespace OpTable

theorem Word.and_lowMask_of_toNat_lt {word : Word} {width : Nat} (h : word.toNat < 2 ^ width) :
    word &&& lowMask width = word := by
  have hbits := bits_zero_of_toNat_lt h
  rwa [bits, BitVec.ushiftRight_zero] at hbits

namespace Record

open Layout

theorem immediateValue?_of_unsigned {r : Record} {field : String} {width : Nat} {raw : Word}
    (hwidth : r.immediateWidth? field = some width)
    (hunsigned : r.isSignedImmediate field = false) (hraw : raw.toNat < 2 ^ width) :
    r.immediateValue? field raw = some raw.toInt := by
  simp only [immediateValue?, hwidth, hunsigned, Bool.false_eq_true, if_false,
    Word.and_lowMask_of_toNat_lt hraw]

namespace WellFormed

variable {schema : Schema} {r : Record} {field : String} {width : Nat}

theorem isSignedImmediate_eq (h : r.WellFormed schema) (hf : field ∈ r.immediateFields) :
    r.isSignedImmediate field = schema.isSignedField field := by
  rw [Bool.eq_iff_iff, isSignedImmediate, List.any_eq_true]
  constructor
  · rintro ⟨p, hp, hmatch⟩
    rw [Bool.and_eq_true, decide_eq_true_iff] at hmatch
    rw [← hmatch.1, ← h.signed_eq hp]
    exact hmatch.2
  · intro hs
    obtain ⟨p, hp, rfl⟩ := List.mem_map.mp (List.mem_eraseDups.mp hf)
    refine ⟨p, hp, ?_⟩
    rw [h.signed_eq hp, hs, decide_eq_true rfl]
    rfl

theorem toNat_lt_of_and_covered (h : r.WellFormed schema)
    (hwidth : r.immediateWidth? field = some width) {value : Word}
    (hvalue : value &&& r.covered field = value) : value.toNat < 2 ^ width := by
  apply Word.toNat_lt_of_getLsbD
  intro i hi
  rw [← hvalue, BitVec.getLsbD_and]
  cases hbit : (r.covered field).getLsbD i with
  | false => exact Bool.and_false _
  | true =>
    obtain ⟨s, hs, hfield, hcover⟩ := (getLsbD_covered ..).mp hbit
    rw [h.slices_eq] at hs
    obtain ⟨p, hp, rfl⟩ := List.mem_map.mp hs
    have hhigh := high_lt_immediateWidth? hwidth p hp hfield
    rw [Slice.getLsbD_cover, Bool.and_eq_true, decide_eq_true_iff, decide_eq_true_iff] at hcover
    omega

end WellFormed

/-- An unsigned immediate is decoded as the number that its bits stand for exactly when that number
is below 2 ^ 63; the number that is given for it has the same 64 bits in any case. A value that has
no bits but those which some slice takes can be encoded whenever the other operands can, and comes
back as it was under the same condition. -/
theorem immediateValue?_unsigned {schema : Schema} {r : Record} (hs : schema.Valid)
    (hr : r.ResolvedUnder schema) {d : Declaration} (hd : d ∈ schema.fields)
    (hunsigned : d.signed = false) {width : Nat} (hwidth : r.immediateWidth? d.name = some width) :
    (∀ word, ∃ raw number, (r.decodeOperands word).immediates.get? d.name = some raw ∧
        (⟨word, r, r.decodeOperands word⟩ : Decoded).immediateValue? d.name = some number ∧
        (number = raw.toNat ↔ raw.toNat < 2 ^ 63) ∧ number = raw.toInt ∧
        (width < 64 → number = raw.toNat)) ∧
      ∀ (ops : Operands) (value : Word), ops.immediates.get? d.name = some value →
        value &&& r.covered d.name = value →
          ((∃ word, r.encode ops = .ok word) ↔
              (∀ other ∈ r.immediateFields, other ≠ d.name → r.AcceptsImmediate ops other) ∧
                ∀ slot ∈ r.layout, AcceptsRegister ops slot) ∧
            ∀ word, r.encode ops = .ok word → ∃ number,
              (⟨word, r, r.decodeOperands word⟩ : Decoded).immediateValue? d.name = some number ∧
              (number = value.toNat ↔ value.toNat < 2 ^ 63) ∧
              (width < 64 → number = value.toNat) := by
  have h := hr.wellFormed
  have hfield := mem_immediateFields_of_immediateWidth? hwidth
  have hsign : r.isSignedImmediate d.name = false := by
    rw [h.isSignedImmediate_eq hfield, hs.isSignedField_eq hd, hunsigned]
  have hnumber : ∀ {word raw : Word}, (r.decodeOperands word).immediates.get? d.name = some raw →
      raw.toNat < 2 ^ width →
      (⟨word, r, r.decodeOperands word⟩ : Decoded).immediateValue? d.name = some raw.toInt := by
    intro word raw hraw hlt
    rw [Decoded.immediateValue?, hraw]
    exact immediateValue?_of_unsigned hwidth hsign hlt
  have hsmall : ∀ {raw : Word}, raw.toNat < 2 ^ width → width < 64 → raw.toInt = raw.toNat := by
    intro raw hlt hlow
    exact (Word.toInt_eq_toNat_iff raw).mpr
      (Nat.lt_of_lt_of_le hlt (Nat.pow_le_pow_right (by omega) (by omega)))
  constructor
  · intro word
    have hlt : (gather word d.name r.immediateAssembly).toNat < 2 ^ width :=
      WellFormed.toNat_gather_lt (high_lt_immediateWidth? hwidth)
    have hraw := h.get?_immediates_of_mem word hfield
    exact ⟨_, _, hraw, hnumber hraw hlt, Word.toInt_eq_toNat_iff _, rfl, hsmall hlt⟩
  · intro ops value hgiven hcovered
    have hlt := h.toNat_lt_of_and_covered hwidth hcovered
    have haccepts : r.AcceptsImmediate ops d.name := ⟨value, width, hgiven, hwidth, .inl hlt⟩
    constructor
    · rw [encode_eq_ok_iff]
      constructor
      · intro hall
        exact ⟨fun other hother _ => hall.1 other hother, hall.2⟩
      · intro hall
        refine ⟨?_, hall.2⟩
        intro other hother
        by_cases hne : other = d.name
        · rw [hne]
          exact haccepts
        · exact hall.1 other hother hne
    · intro word hword
      -- what is decoded are the covered bits of what was given, so all of it
      obtain ⟨raw, hraw, hdecoded⟩ := ((h.encodes hword).get?_immediates h).1 d.name hfield
      dsimp only at hraw
      rw [hgiven, Option.map_some, hcovered, Option.some.injEq] at hraw
      subst hraw
      exact ⟨_, hnumber hdecoded hlt, Word.toInt_eq_toNat_iff _, hsmall hlt⟩

end Record

/-! ### Bit 63 -/

/-- Addresses are unsigned numbers of 64 bits. -/
def Schema.addressed : Schema :=
  { loose with name := "addressed", operandRoles := [⟨"rd", 6, false⟩],
               fields := [⟨"addr", 64, false⟩] }

theorem Schema.addressed_valid : addressed.Valid := rfl

namespace Record

/-- A record with the highest four bits of an address. -/
def segment : Record where
  mnemonic := "SEG"
  line := 1
  opcode := narrow.opcode
  funct3 := none
  funct7 := none
  operandRoles := ["rd"]
  immediateAssembly := [⟨⟨"addr", 63, 60, by decide, by decide, by decide⟩, 10, false⟩]
  layout :=
    [⟨10, 4, .expression
        ⟨[.slice ⟨"addr", 63, 60, by decide, by decide, by decide⟩], by decide, by decide⟩⟩,
      ⟨4, 6, .register "rd"⟩,
      ⟨0, 4, .opcode narrow.opcode⟩]

theorem segment_resolvedUnder : segment.ResolvedUnder Schema.addressed := by
  have hline : (Encoding.ofLine Schema.addressed ⟨"seg", ["addr[63:60]", "rd"], "0011"⟩).toOption =
      some segment.toEncoding := by decide
  have hdefine : define "seg" 1 segment.toEncoding = segment := by decide +kernel
  rw [← hdefine]
  exact resolvedUnder_of_toOption 1 hline

def segmentOperands (addr : Word) : Operands :=
  ((∅ : Operands).withRegister "rd" 5#64).withImmediate "addr" addr

/-- The greatest address that has a number: bit 63 is zero. -/
theorem immediateValue?_unsigned_segment :
    Schema.addressed.Valid ∧ segment.ResolvedUnder Schema.addressed ∧
      ⟨"addr", 64, false⟩ ∈ Schema.addressed.fields ∧ segment.immediateWidth? "addr" = some 64 ∧
      segment.encode (segmentOperands 0x7000000000000000#64) = .ok 7251#64 ∧
      (⟨7251#64, segment, segment.decodeOperands 7251#64⟩ : Decoded).immediateValue? "addr" =
        some 0x7000000000000000 := by
  have hd : (⟨"addr", 64, false⟩ : Declaration) ∈ Schema.addressed.fields := List.mem_cons_self ..
  have hwidth : segment.immediateWidth? "addr" = some 64 := by decide
  have hword : segment.encode (segmentOperands 0x7000000000000000#64) = .ok 7251#64 := rfl
  obtain ⟨number, hnumber, hsame, -⟩ := ((immediateValue?_unsigned Schema.addressed_valid
    segment_resolvedUnder hd rfl hwidth).2 (segmentOperands 0x7000000000000000#64) _ rfl
    (by decide)).2 _ hword
  rw [hsame.mpr (by decide)] at hnumber
  exact ⟨Schema.addressed_valid, segment_resolvedUnder, hd, hwidth, hword, hnumber⟩

/-- The address 2 ^ 63 is encoded and its bits come back, but as a number it is negative. -/
theorem immediateValue?_segment_neg :
    Schema.addressed.Valid ∧ segment.ResolvedUnder Schema.addressed ∧
      ⟨"addr", 64, false⟩ ∈ Schema.addressed.fields ∧ segment.immediateWidth? "addr" = some 64 ∧
      segment.encode (segmentOperands 0x8000000000000000#64) = .ok 8275#64 ∧
      (segment.decodeOperands 8275#64).immediates.get? "addr" = some 0x8000000000000000#64 ∧
      (⟨8275#64, segment, segment.decodeOperands 8275#64⟩ : Decoded).immediateValue? "addr" =
        some (-0x8000000000000000) := by
  exact ⟨Schema.addressed_valid, segment_resolvedUnder, List.mem_cons_self .., by decide, rfl, rfl,
    rfl⟩

end Record

end OpTable
