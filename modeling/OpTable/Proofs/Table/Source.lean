import OpTable.Proofs.Compiler.Run
import OpTable.Proofs.Expr.Printing
import OpTable.Proofs.SpecLine
import OpTable.Proofs.Text.Lines

/-!
# Sources of tables

A record can be written as a specification line again: its mnemonic, the contents of its slots from
the highest down, and its opcode. Literals are written as bits and expressions as they are printed,
so each slot is a token of the same class and width as before, and the line defines the same record.
-/

namespace OpTable

/-! ### Slots as tokens -/

/-- The field token that the slot is written as. The opcode is not a field. -/
def SlotContent.fieldText? : SlotContent → Option String
  | .opcode _ => none
  | .funct3 bits => some bits.text
  | .funct7 bits => some bits.text
  | .literal bits => some bits.text
  | .register role => some role
  | .expression e => some e.text

/-- The line that defines the record. -/
def Record.specLine (r : Record) : SpecLine where
  mnemonic := r.mnemonic
  fields := r.layout.filterMap (·.content.fieldText?)
  opcode := r.opcode.text

def Record.source (r : Record) : String := r.specLine.text

/-- The lines that define the records, in their order. -/
def Table.source (table : Table) : String := "\n".intercalate (table.records.map Record.source)

theorem Token.text_literal (bits : BitString) : (literal bits).text = bits.text := rfl

theorem Token.classify_text {schema : Schema} {text : String} {token : Token}
    (h : classify schema text = .ok token) : classify schema token.text = .ok token := by
  cases classify_eq_ok_iff.mp h with
  | @literal bits hliteral hbits =>
    have hdigits : BitString.isLiteral bits.text = true := by
      rw [BitString.isLiteral_iff, BitString.toList_text]
      exact ⟨bits.digits_ne_nil, fun c => BitString.bit_of_mem_digits⟩
    have hread : BitString.ofText bits.text = .ok bits := by
      rw [BitString.ofText, BitString.toList_text, BitString.ofChars_digits]
    exact classify_eq_ok_iff.mpr (.literal hdigits hread)
  | @expression e hliteral hlooks he => exact expression_iff.mpr (BitExpr.derives_text _ e)
  | role hliteral hlooks hname hrole => exact h

namespace Layout

variable {schema : Schema} {line : SpecLine} {opcode : BitString} {tokens : List SizedToken}

theorem fieldText?_slotContent (schema : Schema) (count index : Nat) (token : Token) :
    (slotContent schema count index token).fieldText? = some token.text := by
  cases token with
  | literal bits =>
    simp only [slotContent, literalContent]
    split
    · rfl
    · split <;> rfl
  | role name => rfl
  | expression e => rfl

theorem filterMap_fieldText?_slots (schema : Schema) (count base index : Nat)
    (tokens : List SizedToken) :
    (slots schema count base index tokens).filterMap (·.content.fieldText?) =
      tokens.map (·.token.text) := by
  induction tokens generalizing index with
  | nil => rfl
  | cons sized rest ih =>
    simp only [slots, List.filterMap_cons, fieldText?_slotContent, ih, List.map_cons]

theorem fieldToken_text {text : String} {sized : SizedToken}
    (h : fieldToken schema text = .ok sized) :
    fieldToken schema sized.token.text = .ok sized := by
  obtain ⟨htoken, hwidth⟩ := fieldToken_eq_ok h
  rw [fieldToken, Token.classify_text htoken]
  dsimp only
  rw [hwidth]

theorem opcodeToken_text {text : String} (h : opcodeToken schema text = .ok opcode) :
    opcodeToken schema opcode.text = .ok opcode := by
  obtain ⟨htoken, hwidth⟩ := opcodeToken_eq_ok h
  have hread := Token.classify_text htoken
  rw [Token.text_literal] at hread
  rw [opcodeToken, hread]
  exact if_pos hwidth

theorem map_fieldToken_text {fields : List String}
    (h : fields.map (fieldToken schema) = tokens.map .ok) :
    (tokens.map (·.token.text)).map (fieldToken schema) = tokens.map .ok := by
  rw [List.map_map]
  refine List.map_congr_left fun sized hsized => ?_
  have hmem : Except.ok sized ∈ fields.map (fieldToken schema) := by
    rw [h]
    exact List.mem_map_of_mem hsized
  obtain ⟨text, -, htext⟩ := List.mem_map.mp hmem
  exact fieldToken_text htext

theorem Reads.texts (h : Reads schema line opcode tokens) (mnemonic : String) :
    Reads schema ⟨mnemonic, tokens.map (·.token.text), opcode.text⟩ opcode tokens where
  fields_ne_nil := by
    intro hnil
    have hfields := h.fields_eq
    rw [List.map_eq_nil_iff.mp hnil] at hfields
    exact h.fields_ne_nil (List.map_eq_nil_iff.mp hfields)
  opcode_eq := opcodeToken_text h.opcode_eq
  fields_eq := map_fieldToken_text h.fields_eq

theorem Reads.isPlain (h : Reads schema line opcode tokens)
    (hmnemonic : IsPlainText line.mnemonic.toList) : line.IsPlain where
  mnemonic := hmnemonic
  fields := by
    intro field hfield
    have hmem : fieldToken schema field ∈ tokens.map .ok := by
      rw [← h.fields_eq]
      exact List.mem_map_of_mem hfield
    obtain ⟨sized, -, hsized⟩ := List.mem_map.mp hmem
    exact Token.isPlainText (fieldToken_eq_ok hsized.symm).1
  opcode := Token.isPlainText (opcodeToken_eq_ok h.opcode_eq).1

end Layout

/-! ### One record -/

namespace Compiler

open Layout

/-- The record is defined by its source, on whatever line that stands. -/
structure IsSourced (schema : Schema) (r : Record) : Prop where
  isPlain : r.specLine.IsPlain
  ofLine_source : ∀ line, Reading.ofLine schema line r.source = .defines { r with line }

theorem isSourced_of_ofLine {schema : Schema} {line : Nat} {text : String} {r : Record}
    (h : Reading.ofLine schema line text = .defines r) : IsSourced schema r := by
  obtain ⟨spec, encoding, hspec, hencoding, rfl⟩ := Reading.ofLine_eq_defines_iff.mp h
  obtain ⟨opcode, tokens, hreads, hwanted, rfl⟩ := ofLine_eq_ok_iff.mp hencoding
  let r := Record.define spec.mnemonic line (Encoding.ofTokens schema opcode tokens)
  have hline : r.specLine =
      ⟨normalizeMnemonic spec.mnemonic, tokens.map (·.token.text), opcode.text⟩ := by
    have hfields : r.layout.filterMap (·.content.fieldText?) = tokens.map (·.token.text) := by
      show (slots schema tokens.length opcode.width 0 tokens ++ _).filterMap _ = _
      rw [List.filterMap_append, filterMap_fieldText?_slots]
      exact List.append_nil _
    rw [Record.specLine, hfields]
    rfl
  have htexts := hreads.texts (normalizeMnemonic spec.mnemonic)
  have hplain : r.specLine.IsPlain := by
    rw [hline]
    exact htexts.isPlain (isPlainText_normalizeMnemonic (SpecLine.isPlainText_mnemonic hspec))
  refine ⟨hplain, fun number => Reading.ofLine_eq_defines_iff.mpr ?_⟩
  refine ⟨_, Encoding.ofTokens schema opcode tokens, SpecLine.Content.ofText_text hplain, ?_, ?_⟩
  · rw [hline]
    exact ofLine_eq_ok_iff.mpr ⟨opcode, tokens, htexts, hwanted, rfl⟩
  · rw [hline, Record.define, Record.define, normalizeMnemonic_normalizeMnemonic]

/-! ### Records of a run -/

/-- The builder of a run has records that can be written again. -/
structure IsSourcedBuilder (schema : Schema) (b : TableBuilder) : Prop where
  schemaName_eq : b.schemaName = schema.name
  isSourced : ∀ r ∈ b.records, IsSourced schema r

theorem isSourcedBuilder_add {schema : Schema} {b : TableBuilder} {line : Nat} {text : String}
    {r : Record} (hr : Reading.ofLine schema line text = .defines r)
    (h : IsSourcedBuilder schema b) : IsSourcedBuilder schema (b.add r).1 where
  schemaName_eq := by rw [TableBuilder.schemaName_add, h.schemaName_eq]
  isSourced := by
    intro s hs
    rcases TableBuilder.mem_records_add hs with rfl | hs
    · exact isSourced_of_ofLine hr
    · exact h.isSourced s hs

theorem isSourcedBuilder_performAll {schema : Schema} {policy : DuplicatePolicy} {c : Compiler}
    (hc : start schema policy = .ok c) (steps : List Step) :
    IsSourcedBuilder schema (c.performAll steps).builder :=
  (builder_performAll hc ⟨rfl, fun _ hr => absurd hr List.not_mem_nil⟩
    (fun _ _ _ _ hr h => isSourcedBuilder_add hr h) steps).2

/-! ### Compiling a source -/

theorem compileLine_source {c : Compiler} {r : Record} (hr : IsSourced c.schema r)
    (hc : c.builder.IsIndexed) (hnew : r.mnemonic ∉ c.builder.records.map (·.mnemonic))
    (origin : String) (line : Nat) :
    c.compileLine origin line r.source = { c with builder := c.builder.insert { r with line } } := by
  have hfree := hc.get?_eq_none_iff.mpr hnew
  rw [compileLine_eq, hr.ofLine_source line, Reading.taken, Reading.remarks]
  obtain ⟨-, hadd⟩ | ⟨i, hi, -⟩ := c.builder.add_cases { r with line }
  · rw [hadd]
    simp [duplicate?]
  · rw [hfree] at hi
    cases hi

/-- Sources of records with new mnemonics are taken in without remark. -/
theorem compileLines_sources {c : Compiler} {records : List Record}
    (hrecords : ∀ r ∈ records, IsSourced c.schema r) (hc : c.builder.IsIndexed)
    (hnodup : (c.builder.records.map (·.mnemonic) ++ records.map (·.mnemonic)).Nodup)
    (origin : String) (line : Nat) :
    let compiled := c.compileLines origin line (records.map fun r => r.source.toList)
    compiled.diagnostics = c.diagnostics ∧ compiled.builder.schemaName = c.builder.schemaName ∧
      compiled.builder.records =
        c.builder.records ++ records.mapIdx fun i r => { r with line := line + i } := by
  intro compiled
  induction records generalizing c line with
  | nil => exact ⟨rfl, rfl, (List.append_nil _).symm⟩
  | cons r rest ih =>
    have hr := hrecords r (List.mem_cons_self ..)
    obtain ⟨-, -, hapart⟩ := List.nodup_append.mp hnodup
    have hnew : r.mnemonic ∉ c.builder.records.map (·.mnemonic) :=
      fun hmem => hapart _ hmem _ (List.mem_cons_self ..) rfl
    have hstep := compileLine_source hr hc hnew origin line
    have hinserted : (c.builder.insert { r with line }).IsIndexed :=
      TableBuilder.isIndexed_insert hc (hc.get?_eq_none_iff.mpr hnew)
    have hrest : ((c.builder.insert { r with line }).records.map (·.mnemonic) ++
        rest.map (·.mnemonic)).Nodup := by
      simpa [TableBuilder.insert] using hnodup
    obtain ⟨hdiagnostics, hname, hlines⟩ :=
      ih (c := { c with builder := c.builder.insert { r with line } })
        (fun s hs => hrecords s (List.mem_cons_of_mem _ hs)) hinserted hrest (line + 1)
    have hcompiled : compiled = compileLines { c with builder := c.builder.insert { r with line } }
        origin (line + 1) (rest.map fun r => r.source.toList) := by
      show c.compileLines origin line (r.source.toList :: _) = _
      rw [compileLines, String.ofList_toList, hstep]
    rw [hcompiled, hdiagnostics, hname, hlines]
    have hplace : ∀ i, line + 1 + i = line + (i + 1) := by omega
    refine ⟨rfl, rfl, ?_⟩
    simp only [TableBuilder.insert, List.mapIdx_cons, List.append_assoc, List.singleton_append,
      hplace]
    rfl

theorem ofText_source {table : Table} {schema : Schema}
    (h : ∀ r ∈ table.records, IsSourced schema r) :
    Text.Line.ofText table.source.toList = table.records.map fun r => r.source.toList := by
  have hlist : table.source.toList =
      ['\n'].intercalate (table.records.map fun r => r.source.toList) := by
    rw [Table.source, String.toList_intercalate, List.map_map]
    rfl
  rw [hlist, Text.Line.ofText_intercalate]
  rw [List.forall_mem_map]
  intro r hr
  have hplain := (h r hr).isPlain
  refine ⟨hplain.text_ne_nil, ?_, ?_⟩
  · exact fun hmem => (hplain.of_mem_text hmem).1 rfl
  · exact fun hmem => (hplain.of_mem_text hmem).2 rfl

end Compiler

/-- The source of a finished table compiles without remark to the same records, each on the line
where it stands in the source. -/
theorem Table.compileText_source {schema : Schema} {policy : DuplicatePolicy} {c : Compiler}
    (hc : Compiler.start schema policy = .ok c) (steps : List Compiler.Step)
    (other : DuplicatePolicy) :
    let table := (c.performAll steps).finish.table
    ∃ report, compileText schema other table.source = .ok report ∧ report.diagnostics = [] ∧
      report.table.schemaName = table.schemaName ∧
      report.table.records = table.records.mapIdx fun i r => { r with line := i + 1 } := by
  intro table
  have hbuilder := Compiler.isSourcedBuilder_performAll hc steps
  obtain ⟨hvalid, -⟩ := Compiler.eq_of_start hc
  let fresh : Compiler := ⟨schema, .start schema.name other, []⟩
  have hstart : Compiler.start schema other = .ok fresh := by rw [Compiler.start, hvalid]
  have hsourced : ∀ r ∈ table.records, Compiler.IsSourced schema r := hbuilder.isSourced
  have hcompiled : fresh.compileText "<input>" table.source =
      fresh.compileLines "<input>" 1 (table.records.map fun r => r.source.toList) := by
    rw [Compiler.compileText, Compiler.ofText_source hsourced]
  have hnodup : (fresh.builder.records.map (·.mnemonic) ++
      table.records.map (·.mnemonic)).Nodup := (Compiler.isIndexed_performAll hc steps).nodup
  obtain ⟨hdiagnostics, hname, hrecords⟩ := Compiler.compileLines_sources (c := fresh) hsourced
    (TableBuilder.isIndexed_start _ _) hnodup "<input>" 1
  rw [← hcompiled] at hdiagnostics hname hrecords
  have hplace : ∀ i, 1 + i = i + 1 := fun i => Nat.add_comm 1 i
  simp only [hplace] at hrecords
  refine ⟨(fresh.compileText "<input>" table.source).finish, ?_, hdiagnostics, ?_, hrecords⟩
  · rw [compileText, hstart]
    rfl
  · exact hname.trans hbuilder.schemaName_eq.symm

/-- Tokens in forms that are not printed: nested groups, numbers in other radixes, a bare name,
braces around a single slice. -/
def Table.unprinted : Compiler.Step :=
  .text "t.isa" ("mix 0000 \x7b1'h1,\x7bimm[5:2]\x7d\x7d rd rd 000 \x7bimm[3:0]\x7d 0011 # mix\n" ++
    "\nsll 0000000 \x7bshamt,1'd1\x7d rs1 000 rd 0011\n")

theorem Table.compileText_source_unprinted :
    ∃ c, Compiler.start Schema.qcpu .overwrite = .ok c ∧
      let table := (c.performAll [unprinted]).finish.table
      table.source = "MIX 0000 \x7b1'b1,imm[5:2]\x7d rd rd 000 imm[3:0] 0011\n" ++
        "SLL 0000000 \x7bshamt[4:0],1'b1\x7d rs1 000 rd 0011" ∧
      ∃ report, compileText Schema.qcpu .reject table.source = .ok report ∧
        report.diagnostics = [] ∧ report.table.schemaName = table.schemaName ∧
        report.table.records = table.records.mapIdx fun i r => { r with line := i + 1 } := by
  have hstart : Compiler.start Schema.qcpu .overwrite =
      .ok ⟨Schema.qcpu, .start Schema.qcpu.name .overwrite, []⟩ := rfl
  refine ⟨_, hstart, by decide +kernel, ?_⟩
  exact compileText_source hstart [unprinted] .reject

end OpTable
