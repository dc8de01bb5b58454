import OpTable.Proofs.Compiler.Run
import OpTable.Proofs.Schema.Extension

/-!
# Compiling under an extended schema

A run that reports no error does the same under every schema that extends its own. Line for line,
the two compilers differ in their schemas and in nothing else.
-/

namespace OpTable

theorem Encoding.errors_ne_nil_of_ofLine {schema : Schema} {line : SpecLine}
    {errors : List CompileError} (h : ofLine schema line = .error errors) : errors ≠ [] := by
  unfold ofLine at h
  split at h
  · cases h
    exact List.cons_ne_nil _ _
  · dsimp only at h
    split at h
    · cases h
      exact List.cons_ne_nil _ _
    · cases h
      exact List.cons_ne_nil _ _
    · split at h
      · cases h
        exact List.cons_ne_nil _ _
      · cases h

namespace Compiler

/-- The compiler as it stands, under another schema. -/
def under (c : Compiler) (t : Schema) : Compiler :=
  ⟨t, { c.builder with schemaName := t.name }, c.diagnostics⟩

/-- The function takes in something under `s` and goes on with what was reported before; unless it
reports an error, it does the same under `t`. -/
structure Carries (s t : Schema) (f : Compiler → Compiler) : Prop where
  schema_eq : ∀ c, (f c).schema = c.schema
  diagnostics_eq : ∀ c, ∃ more, (f c).diagnostics = c.diagnostics ++ more
  under_eq : ∀ c, c.schema = s → (f c).finish.hasErrors = false → f (c.under t) = (f c).under t

theorem hasErrors_of_append {c d : Compiler} {more : List Diagnostic}
    (hd : d.diagnostics = c.diagnostics ++ more) (h : d.finish.hasErrors = false) :
    c.finish.hasErrors = false := by
  have hall : (c.diagnostics ++ more).any (·.isError) = false := by
    rw [← hd]
    exact h
  rw [List.any_append, Bool.or_eq_false_iff] at hall
  exact hall.1

section Carries

variable {s t : Schema}

theorem carries_id : Carries s t id where
  schema_eq := fun _ => rfl
  diagnostics_eq := fun _ => ⟨[], (List.append_nil _).symm⟩
  under_eq := fun _ _ _ => rfl

theorem Carries.comp {f g : Compiler → Compiler} (hf : Carries s t f) (hg : Carries s t g) :
    Carries s t fun c => g (f c) where
  schema_eq := fun c => (hg.schema_eq _).trans (hf.schema_eq c)
  diagnostics_eq := by
    intro c
    obtain ⟨first, hfirst⟩ := hf.diagnostics_eq c
    obtain ⟨second, hsecond⟩ := hg.diagnostics_eq (f c)
    exact ⟨first ++ second, by rw [hsecond, hfirst, List.append_assoc]⟩
  under_eq := by
    intro c hc h
    obtain ⟨more, hmore⟩ := hg.diagnostics_eq (f c)
    have hclean := hasErrors_of_append hmore h
    rw [hf.under_eq c hc hclean, hg.under_eq (f c) ((hf.schema_eq c).trans hc) h]

theorem carries_report (d : Diagnostic) :
    Carries s t fun c => { c with diagnostics := c.diagnostics ++ [d] } where
  schema_eq := fun _ => rfl
  diagnostics_eq := fun _ => ⟨[d], rfl⟩
  under_eq := fun _ _ _ => rfl

theorem diagnostics_compileLine (c : Compiler) (origin : String) (line : Nat) (text : String) :
    ∃ more, (c.compileLine origin line text).diagnostics = c.diagnostics ++ more := by
  rw [compileLine_eq]
  exact ⟨_, rfl⟩

/-- A reading without errors is the same under the extended schema. -/
theorem Reading.ofLine_of_extends (h : t.Extends s) (hs : s.Valid) (ht : t.Valid) (line : Nat)
    (text : String) :
    ofLine t line text = ofLine s line text ∨
      ∃ e errors, ofLine s line text = .faulty (e :: errors) := by
  unfold ofLine
  cases SpecLine.Content.ofText text with
  | blank => exact .inl rfl
  | lone token => exact .inl rfl
  | definition spec =>
    dsimp only
    cases hread : Encoding.ofLine s spec with
    | ok encoding =>
      rw [h.ofLine hs ht hread]
      exact .inl rfl
    | error errors =>
      obtain ⟨e, rest, rfl⟩ :=
        List.exists_cons_of_ne_nil (Encoding.errors_ne_nil_of_ofLine hread)
      exact .inr ⟨e, rest, rfl⟩

theorem add_schemaName (b : TableBuilder) (name : String) (r : Record) :
    ({ b with schemaName := name } : TableBuilder).add r =
      ({ (b.add r).1 with schemaName := name }, (b.add r).2) := by
  obtain ⟨own, policy, records, index, hbelow⟩ := b
  unfold TableBuilder.add
  dsimp only
  cases index.position? hbelow r.mnemonic with
  | none => rfl
  | some i => cases policy <;> rfl

theorem Reading.taken_schemaName (b : TableBuilder) (name : String) (reading : Reading) :
    reading.taken { b with schemaName := name } =
      { reading.taken b with schemaName := name } := by
  cases reading with
  | blank => rfl
  | faulty errors => rfl
  | defines r => rw [taken, taken, add_schemaName]

theorem Reading.remarks_schemaName (b : TableBuilder) (name : String) (reading : Reading) :
    reading.remarks { b with schemaName := name } = reading.remarks b := by
  cases reading with
  | blank => rfl
  | faulty errors => rfl
  | defines r => rw [remarks, remarks, add_schemaName]

theorem carries_compileLine (h : t.Extends s) (hs : s.Valid) (ht : t.Valid) (origin : String)
    (line : Nat) (text : String) : Carries s t fun c => c.compileLine origin line text where
  schema_eq := fun c => schema_compileLine c origin line text
  diagnostics_eq := fun c => diagnostics_compileLine c origin line text
  under_eq := by
    intro c hc hclean
    rcases Reading.ofLine_of_extends h hs ht line text with hsame | ⟨e, errors, hfaulty⟩
    · have hread : Reading.ofLine (c.under t).schema line text =
          Reading.ofLine c.schema line text := by
        rw [hc]
        exact hsame
      rw [compileLine_eq, compileLine_eq, hread, under, Reading.taken_schemaName,
        Reading.remarks_schemaName]
      rfl
    · have hread : Reading.ofLine c.schema line text = .faulty (e :: errors) := by
        rw [hc]
        exact hfaulty
      rw [compileLine_eq, hread] at hclean
      simp [Reading.remarks, finish, Report.hasErrors, Diagnostic.about, Diagnostic.isError] at hclean

/-- A run without errors is the same under the extended schema. -/
theorem carries_performAll (h : t.Extends s) (hs : s.Valid) (ht : t.Valid) (steps : List Step) :
    Carries s t fun c => c.performAll steps :=
  performAll_composition carries_id (fun _ _ hf hg => hf.comp hg)
    (carries_compileLine h hs ht) carries_report steps

end Carries

end Compiler

open Compiler in
/-- Under a schema that declares more operand roles, or the same in another order, every line that
was accepted is accepted with the same encoding, and every run that reported no error leaves the
same records and says the same about them. -/
theorem Schema.Extends.compiles {s t : Schema} (h : t.Extends s) (hs : s.Valid) (ht : t.Valid) :
    (∀ line encoding, Encoding.ofLine s line = .ok encoding →
        Encoding.ofLine t line = .ok encoding) ∧
      ∀ policy steps, ∃ c d, start s policy = .ok c ∧ start t policy = .ok d ∧
        let report := (c.performAll steps).finish
        let other := (d.performAll steps).finish
        report.hasErrors = false →
          other.table.records = report.table.records ∧ other.diagnostics = report.diagnostics := by
  refine ⟨fun line encoding => h.ofLine hs ht, ?_⟩
  intro policy steps
  refine ⟨⟨s, .start s.name policy, []⟩, ⟨t, .start t.name policy, []⟩, ?_, ?_, ?_⟩
  · rw [start, hs]
  · rw [start, ht]
  intro report other hclean
  have hrun := (carries_performAll h hs ht steps).under_eq ⟨s, .start s.name policy, []⟩ rfl hclean
  have hother : other = (under (performAll ⟨s, .start s.name policy, []⟩ steps) t).finish :=
    congrArg finish hrun
  rw [hother]
  exact ⟨rfl, rfl⟩

/-- The integer preset with a signed field more. -/
def Schema.twoFields : Schema :=
  { Schema.qcpu with fields := [⟨"shamt", 5, false⟩, ⟨"off", 9, true⟩] }

/-- The same in another order, with a rounding mode. -/
def Schema.reordered : Schema :=
  { Schema.qcpu with
    name := "reordered"
    operandRoles := [⟨"rd", 6, false⟩, ⟨"rm", 3, false⟩, ⟨"rs2", 6, false⟩, ⟨"rs1", 6, true⟩]
    fields := [⟨"off", 9, true⟩, ⟨"shamt", 5, false⟩] }

theorem Schema.reordered_extends : reordered.Extends twoFields where
  wordWidth_eq := rfl
  opcodeWidth_eq := rfl
  funct3Width_eq := rfl
  funct7Width_eq := rfl
  fields_perm := List.Perm.swap ..
  roles := by decide

def SpecLine.branch : SpecLine :=
  ⟨"beq", ["\x7b1'b0,off[8:3],shamt,1'b0\x7d", "rs1", "000", "rd"], "0110"⟩

/-- The second line defines the same mnemonic, which is worth a warning. -/
def Compiler.branches : List Step :=
  [.line "t.isa" 1 "beq \x7b1'b0,off[8:3],shamt,1'b0\x7d rs1 000 rd 0110",
    .line "t.isa" 2 "beq rs1 \x7b1'b1,shamt,off[6:0]\x7d 000 rd 0111"]

theorem Schema.Extends.compiles_reordered :
    reordered.Extends twoFields ∧ twoFields.Valid ∧ reordered.Valid ∧
      (∃ encoding, Encoding.ofLine twoFields SpecLine.branch = .ok encoding ∧
        Encoding.ofLine reordered SpecLine.branch = .ok encoding) ∧
      ∃ c d, Compiler.start twoFields .overwrite = .ok c ∧
        Compiler.start reordered .overwrite = .ok d ∧
        (c.performAll Compiler.branches).finish.hasErrors = false ∧
        (c.performAll Compiler.branches).finish.diagnostics.length = 1 ∧
        (d.performAll Compiler.branches).finish.table.records =
          (c.performAll Compiler.branches).finish.table.records ∧
        (d.performAll Compiler.branches).finish.diagnostics =
          (c.performAll Compiler.branches).finish.diagnostics := by
  have hs : twoFields.Valid := rfl
  have ht : reordered.Valid := rfl
  obtain ⟨hlines, hruns⟩ := compiles reordered_extends hs ht
  have hsome : (Encoding.ofLine twoFields SpecLine.branch).toOption.isSome = true := by
    decide +kernel
  obtain ⟨encoding, hencoding⟩ := Option.isSome_iff_exists.mp hsome
  have hline := Except.eq_ok_of_toOption hencoding
  obtain ⟨c, d, hc, hd, hreport⟩ := hruns .overwrite Compiler.branches
  have hrun : (c.performAll Compiler.branches).finish.hasErrors = false ∧
      (c.performAll Compiler.branches).finish.diagnostics.length = 1 := by
    obtain ⟨-, rfl⟩ := Compiler.eq_of_start hc
    decide +kernel
  obtain ⟨hclean, hwarned⟩ := hrun
  obtain ⟨hrecords, hdiagnostics⟩ := hreport hclean
  exact ⟨reordered_extends, hs, ht, ⟨encoding, hline, hlines _ _ hline⟩, c, d, hc, hd, hclean,
    hwarned, hrecords, hdiagnostics⟩

end OpTable
