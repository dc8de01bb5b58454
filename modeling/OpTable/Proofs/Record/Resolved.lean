import OpTable.Proofs.Except
import OpTable.Proofs.Layout.Stacked
import OpTable.Proofs.Schema.Validity
import OpTable.Record.Basic

/-!
# Resolved records

A record that a line defines is a stack of slots with the opcode at the bottom, and its roles and
placed slices are those of its slots (`ResolvedUnder.wellFormed`).
-/

namespace OpTable.Record

open Layout

/-- The record is what an accepted line defines under the schema. -/
def ResolvedUnder (schema : Schema) (r : Record) : Prop :=
  ∃ (spec : SpecLine) (line : Nat) (encoding : Encoding),
    Encoding.ofLine schema spec = .ok encoding ∧ r = define spec.mnemonic line encoding

/-- The record is what an accepted line defines under some valid schema. -/
def Resolved (r : Record) : Prop := ∃ schema : Schema, schema.Valid ∧ r.ResolvedUnder schema

/-- The layout is a stack with the opcode at the bottom, and the rest of the record repeats it. -/
structure WellFormed (schema : Schema) (r : Record) : Prop where
  stacked : Stacked r.layout
  wordWidth_le : r.wordWidth ≤ 64
  opcode_below : ∃ above, r.layout = above ++ [⟨0, r.opcode.width, .opcode r.opcode⟩]
  opcode_width : r.opcode.width = schema.opcodeWidth
  operandRoles_eq : r.operandRoles = r.layout.filterMap (·.content.role?)
  assembly_eq : r.immediateAssembly = r.layout.flatMap (Slot.placed schema)

theorem wordWidth_eq (r : Record) : r.wordWidth = widthOf r.layout := rfl

theorem ResolvedUnder.wellFormed {schema : Schema} {r : Record} (h : r.ResolvedUnder schema) :
    r.WellFormed schema := by
  obtain ⟨spec, line, encoding, hencoding, rfl⟩ := h
  obtain ⟨opcode, tokens, hreads, hwanted, rfl⟩ := ofLine_eq_ok_iff.mp hencoding
  have hwidth := hreads.width_eq
  have hopcode := opcodeToken_eq_ok hreads.opcode_eq
  have hbottom : Stacked [(⟨0, opcode.width, .opcode opcode⟩ : Slot)] := by
    refine Stacked.cons rfl ⟨?_, ?_⟩ Stacked.nil
    · intro bits hb
      rw [Option.some.inj hb]
    · intro e he
      cases he
  refine ⟨?_, ?_, ⟨_, rfl⟩, hopcode.2, ?_, ?_⟩
  · exact stacked_slots _ _ hwidth hbottom rfl
  · have hle := le_of_wantedWidth? hwanted
    rw [wordWidth_eq]
    show widthOf (slots schema tokens.length opcode.width 0 tokens ++ _) ≤ 64
    rw [widthOf_append, widthOf_slots]
    show totalWidth tokens + opcode.width ≤ 64
    omega
  · show tokens.filterMap (·.token.role?) =
      (slots schema tokens.length opcode.width 0 tokens ++ _).filterMap (·.content.role?)
    rw [List.filterMap_append, filterMap_role?_slots]
    exact (List.append_nil _).symm
  · show assembly schema opcode.width tokens =
      (slots schema tokens.length opcode.width 0 tokens ++ _).flatMap (Slot.placed schema)
    rw [List.flatMap_append, flatMap_placed_slots _ _ _ hwidth]
    exact (List.append_nil _).symm

namespace WellFormed

variable {schema : Schema} {r : Record}

theorem opcode_mem (h : r.WellFormed schema) :
    (⟨0, r.opcode.width, .opcode r.opcode⟩ : Slot) ∈ r.layout := by
  obtain ⟨above, hr⟩ := h.opcode_below
  rw [hr]
  exact List.mem_append_right _ (List.mem_singleton.mpr rfl)

theorem signed_eq (h : r.WellFormed schema) {p : PlacedSlice} (hp : p ∈ r.immediateAssembly) :
    p.signed = schema.isSignedField p.slice.field := by
  rw [h.assembly_eq] at hp
  obtain ⟨slot, -, hp⟩ := List.mem_flatMap.mp hp
  unfold Slot.placed at hp
  split at hp
  next e he =>
    obtain ⟨above, below, -, -, hp⟩ := mem_placeAbove hp
    exact hp
  · exact absurd hp List.not_mem_nil

end WellFormed

/-! ### A record with repetitions -/

theorem resolvedUnder_of_toOption {schema : Schema} {spec : SpecLine} {encoding : Encoding}
    (line : Nat) (h : (Encoding.ofLine schema spec).toOption = some encoding) :
    (define spec.mnemonic line encoding).ResolvedUnder schema :=
  ⟨spec, line, encoding, Except.eq_ok_of_toOption h, rfl⟩

def overlappingLine : SpecLine :=
  ⟨"mix", ["0000", "\x7b1'b1,imm[5:2]\x7d", "rd", "rd", "000", "imm[3:0]"], "0011"⟩

/-- A record with a literal, a role in two slots, and a field with two slices that share bits. -/
def overlapping : Record where
  mnemonic := "MIX"
  line := 1
  opcode := ⟨3#64, 4, by decide, by decide, by decide⟩
  funct3 := some ⟨0#64, 3, by decide, by decide, by decide⟩
  funct7 := none
  operandRoles := ["rd", "rd"]
  immediateAssembly :=
    [⟨⟨"imm", 5, 2, by decide, by decide, by decide⟩, 23, true⟩,
      ⟨⟨"imm", 3, 0, by decide, by decide, by decide⟩, 4, true⟩]
  layout :=
    [⟨28, 4, .literal ⟨0#64, 4, by decide, by decide, by decide⟩⟩,
      ⟨23, 5, .expression
        ⟨[.fixed ⟨1#64, 1, by decide, by decide, by decide⟩,
          .slice ⟨"imm", 5, 2, by decide, by decide, by decide⟩], by decide, by decide⟩⟩,
      ⟨17, 6, .register "rd"⟩,
      ⟨11, 6, .register "rd"⟩,
      ⟨8, 3, .funct3 ⟨0#64, 3, by decide, by decide, by decide⟩⟩,
      ⟨4, 4, .expression
        ⟨[.slice ⟨"imm", 3, 0, by decide, by decide, by decide⟩], by decide, by decide⟩⟩,
      ⟨0, 4, .opcode ⟨3#64, 4, by decide, by decide, by decide⟩⟩]

theorem overlapping_resolved : overlapping.ResolvedUnder Schema.qcpu := by
  have hdefine : define overlappingLine.mnemonic 1 overlapping.toEncoding = overlapping := by
    decide +kernel
  rw [← hdefine]
  exact resolvedUnder_of_toOption 1 (by decide +kernel)

/-! ### Short records -/

/-- A record of one register above the opcode. -/
def short (mnemonic : String) (line : Nat) (opcode : BitString) : Record where
  mnemonic := mnemonic
  line := line
  opcode := opcode
  funct3 := none
  funct7 := none
  operandRoles := ["rd"]
  immediateAssembly := []
  layout := [⟨opcode.width, 6, .register "rd"⟩, ⟨0, opcode.width, .opcode opcode⟩]

theorem short_resolvedUnder {schema : Schema} {mnemonic : String} {line : Nat}
    {opcode : BitString} (hname : normalizeMnemonic mnemonic = mnemonic)
    (h : (Encoding.ofLine schema ⟨mnemonic, ["rd"], opcode.text⟩).toOption =
      some (short mnemonic line opcode).toEncoding) :
    (short mnemonic line opcode).ResolvedUnder schema := by
  have hdefine : define mnemonic line (short mnemonic line opcode).toEncoding =
      short mnemonic line opcode := by
    rw [define, hname]
    rfl
  rw [← hdefine]
  exact resolvedUnder_of_toOption line h

def narrow : Record := short "NARROW" 1 ⟨3#64, 4, by decide, by decide, by decide⟩

theorem narrow_resolvedUnder : narrow.ResolvedUnder Schema.loose :=
  short_resolvedUnder (by decide +kernel) (by decide +kernel)

/-- A record whose only operand is a signed immediate of six bits, the lowest left out. -/
def evenOffset : Record where
  mnemonic := "SKIP"
  line := 1
  opcode := ⟨3#64, 4, by decide, by decide, by decide⟩
  funct3 := none
  funct7 := none
  operandRoles := []
  immediateAssembly := [⟨⟨"imm", 5, 1, by decide, by decide, by decide⟩, 4, true⟩]
  layout :=
    [⟨4, 5, .expression
        ⟨[.slice ⟨"imm", 5, 1, by decide, by decide, by decide⟩], by decide, by decide⟩⟩,
      ⟨0, 4, .opcode ⟨3#64, 4, by decide, by decide, by decide⟩⟩]

theorem evenOffset_resolvedUnder : evenOffset.ResolvedUnder Schema.loose := by
  have hline : (Encoding.ofLine Schema.loose ⟨"skip", ["imm[5:1]"], "0011"⟩).toOption =
      some evenOffset.toEncoding := by decide +kernel
  have hdefine : define "skip" 1 evenOffset.toEncoding = evenOffset := by decide +kernel
  rw [← hdefine]
  exact resolvedUnder_of_toOption 1 hline

end OpTable.Record
