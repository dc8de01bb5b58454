import OpTable.Proofs.Compiler.Reading
import OpTable.Proofs.Record.Resolved
import OpTable.Proofs.Table.Building

/-!
# Compiling single lines

What a run over single lines leaves behind is said without the compiler: the lines that are
accepted define records (`SourceLine.defined?`), the table keeps one of them for each mnemonic as
the policy has it, and every line has its remarks, which depend on the lines before it
(`SourceLine.remarks`). That the compiler does exactly this is an invariant of its runs,
`Compiler.HasTaken`.
-/

namespace OpTable

/-- A line of a source, with the place that it is reported under. -/
structure SourceLine where
  origin : String
  number : Nat
  text : String

namespace SourceLine

variable (schema : Schema) (policy : DuplicatePolicy)

/-- The record that the line defines, when it is accepted, under its mnemonic in capitals. -/
def defined? (line : SourceLine) : Option Record :=
  match SpecLine.Content.ofText line.text with
  | .definition spec =>
    match Encoding.ofLine schema spec with
    | .ok encoding =>
      some { encoding with mnemonic := normalizeMnemonic spec.mnemonic, line := line.number }
    | .error _ => none
  | _ => none

def defined (lines : List SourceLine) : List Record := lines.filterMap (defined? schema)

/-- What is wrong with the line; a blank line is not wrong. -/
def errors (line : SourceLine) : List CompileError :=
  match SpecLine.Content.ofText line.text with
  | .blank => []
  | .lone _ => [.malformedLine 1]
  | .definition spec =>
    match Encoding.ofLine schema spec with
    | .ok _ => []
    | .error errors => errors

/-- What there is to say about a record after `earlier` ones of its mnemonic. -/
def repetition? (earlier : List Record) (r : Record) : Option (Severity × CompileError) :=
  match policy with
  | .overwrite =>
    earlier.getLast?.map fun last => (.warning, .duplicateMnemonic r.mnemonic last.line)
  | .silent => none
  | .reject =>
    earlier.head?.map fun first => (.error, .duplicateMnemonic r.mnemonic first.line)

def about (line : SourceLine) (remark : Severity × CompileError) : Diagnostic :=
  .about line.origin line.number line.text remark.1 remark.2

/-- The diagnostics of a line that comes after the lines `before`. -/
def remarks (before : List SourceLine) (line : SourceLine) : List Diagnostic :=
  match line.defined? schema with
  | none => (line.errors schema).map fun error => line.about (.error, error)
  | some r =>
    (repetition? policy (Record.named r.mnemonic (defined schema before)) r).toList.map line.about

/-- The diagnostics of lines that come after the lines `before`, in order. -/
def allRemarks (before : List SourceLine) : List SourceLine → List Diagnostic
  | [] => []
  | line :: rest => remarks schema policy before line ++ allRemarks (before ++ [line]) rest

/-- The line as something that a compiler takes in. -/
def step (line : SourceLine) : Compiler.Step := .line line.origin line.number line.text

theorem defined_concat (lines : List SourceLine) (line : SourceLine) :
    defined schema (lines ++ [line]) = defined schema lines ++ (line.defined? schema).toList := by
  simp only [defined, List.filterMap_append, List.filterMap_cons, List.filterMap_nil]
  cases line.defined? schema with
  | none => rfl
  | some r => rfl

/-! ### Readings -/

variable {schema} {line : SourceLine}

theorem of_blank (h : Compiler.Reading.ofLine schema line.number line.text = .blank) :
    line.defined? schema = none ∧ line.errors schema = [] := by
  unfold Compiler.Reading.ofLine at h
  unfold defined? errors
  split at h
  next hc => simp [hc]
  · cases h
  · split at h
    · cases h
    · cases h

theorem of_faulty {found : List CompileError}
    (h : Compiler.Reading.ofLine schema line.number line.text = .faulty found) :
    line.defined? schema = none ∧ line.errors schema = found := by
  unfold Compiler.Reading.ofLine at h
  unfold defined? errors
  split at h
  · cases h
  next hc =>
    cases h
    simp [hc]
  next spec hc =>
    split at h
    · cases h
    next he =>
      cases h
      simp [hc, he]

theorem of_defines {r : Record}
    (h : Compiler.Reading.ofLine schema line.number line.text = .defines r) :
    line.defined? schema = some r := by
  unfold Compiler.Reading.ofLine at h
  unfold defined?
  split at h
  · cases h
  · cases h
  next spec hc =>
    split at h
    next encoding he =>
      cases h
      simp [hc, he, Record.define]
    · cases h

end SourceLine

namespace Compiler

/-- What the compiler says of a record is what there is to say after the ones it was handed. -/
theorem duplicate?_add (name : String) (policy : DuplicatePolicy) (records : List Record)
    (r : Record) :
    duplicate? policy r.mnemonic (((TableBuilder.start name policy).addAll records).add r).2 =
      SourceLine.repetition? policy (Record.named r.mnemonic records) r := by
  have hfind := TableBuilder.find?_addAll name policy records r.mnemonic
  have hindexed := TableBuilder.isIndexed_addAll name policy records
  obtain ⟨hnone, -, hadd⟩ | ⟨old, hold, ⟨hp, -, hadd⟩ | ⟨hp, -, hadd⟩⟩ :=
    TableBuilder.records_add_cases hindexed r
  · have hnil := DuplicatePolicy.standing?_eq_none_iff.mp (hfind.symm.trans hnone)
    rw [hadd]
    cases policy <;> simp [hnil, duplicate?, SourceLine.repetition?]
  · have hstands := hfind.symm.trans hold
    rw [TableBuilder.policy_addAll] at hp
    subst hp
    have hfirst : (Record.named r.mnemonic records).head? = some old := hstands
    simp [hadd, duplicate?, SourceLine.repetition?, hfirst]
  · have hstands := hfind.symm.trans hold
    rw [TableBuilder.policy_addAll] at hp
    rw [DuplicatePolicy.standing?_of_ne_reject hp] at hstands
    cases policy with
    | overwrite => simp [hadd, duplicate?, SourceLine.repetition?, hstands]
    | silent => simp [hadd, duplicate?, SourceLine.repetition?]
    | reject => exact absurd rfl hp

/-- The compiler has taken in the lines and nothing else. -/
structure HasTaken (schema : Schema) (policy : DuplicatePolicy) (lines : List SourceLine)
    (c : Compiler) : Prop where
  schema_eq : c.schema = schema
  builder_eq : c.builder =
    (TableBuilder.start schema.name policy).addAll (SourceLine.defined schema lines)

variable {schema : Schema} {policy : DuplicatePolicy} {before : List SourceLine} {c : Compiler}

theorem HasTaken.perform (h : HasTaken schema policy before c) (line : SourceLine) :
    HasTaken schema policy (before ++ [line]) (c.perform line.step) ∧
      (c.perform line.step).diagnostics =
        c.diagnostics ++ line.remarks schema policy before := by
  obtain ⟨cs, cb, cd⟩ := c
  obtain ⟨rfl, hb⟩ := h
  dsimp only at hb
  subst hb
  have hstep : ∀ c : Compiler,
      c.perform line.step = c.compileLine line.origin line.number line.text := fun _ => rfl
  rw [hstep, compileLine_eq, SourceLine.remarks]
  dsimp only
  cases hr : Reading.ofLine cs line.number line.text with
  | blank =>
    obtain ⟨hd, he⟩ := SourceLine.of_blank hr
    refine ⟨⟨rfl, ?_⟩, ?_⟩
    · simp [Reading.taken, SourceLine.defined_concat, hd]
    · simp [Reading.remarks, hd, he]
  | faulty found =>
    obtain ⟨hd, he⟩ := SourceLine.of_faulty hr
    refine ⟨⟨rfl, ?_⟩, ?_⟩
    · simp [Reading.taken, SourceLine.defined_concat, hd]
    · simp [Reading.remarks, SourceLine.about, hd, he]
  | defines r =>
    have hd := SourceLine.of_defines hr
    refine ⟨⟨rfl, ?_⟩, ?_⟩
    · simp [Reading.taken, SourceLine.defined_concat, hd]
    · simp only [Reading.remarks, TableBuilder.policy_addAll, duplicate?_add, hd]
      rfl

theorem HasTaken.performAll (h : HasTaken schema policy before c) (lines : List SourceLine) :
    HasTaken schema policy (before ++ lines) (c.performAll (lines.map SourceLine.step)) ∧
      (c.performAll (lines.map SourceLine.step)).diagnostics =
        c.diagnostics ++ SourceLine.allRemarks schema policy before lines := by
  induction lines generalizing before c with
  | nil => exact ⟨by rw [List.append_nil]; exact h, (List.append_nil _).symm⟩
  | cons line rest ih =>
    obtain ⟨htaken, hremarks⟩ := h.perform line
    obtain ⟨hrest, hdiagnostics⟩ := ih htaken
    have hrun : c.performAll ((line :: rest).map SourceLine.step) =
        (c.perform line.step).performAll (rest.map SourceLine.step) := rfl
    rw [hrun, hdiagnostics, hremarks, List.append_assoc]
    rw [List.append_assoc] at hrest
    exact ⟨hrest, rfl⟩

theorem hasTaken_start (schema : Schema) (policy : DuplicatePolicy) :
    HasTaken schema policy [] ⟨schema, .start schema.name policy, []⟩ := ⟨rfl, rfl⟩

end Compiler

/-- A run over single lines: the table has the mnemonics that were defined, in the order of their
first definitions, each with the record that the policy keeps. The index takes the mnemonics to the
positions of their records, one to one, so each is found under any spelling of its name. Every line
has left its remarks. -/
theorem Compiler.finish_performAll_lines {schema : Schema} (hs : schema.Valid)
    (policy : DuplicatePolicy) (lines : List SourceLine) :
    ∃ c, start schema policy = .ok c ∧
      let report := (c.performAll (lines.map SourceLine.step)).finish
      let defined := SourceLine.defined schema lines
      report.table.schemaName = schema.name ∧
        report.table.records.map (·.mnemonic) = (defined.map (·.mnemonic)).eraseDups ∧
        (∀ r ∈ report.table.records,
          policy.standing? (Record.named r.mnemonic defined) = some r) ∧
        report.table.index.Locates (report.table.records.map (·.mnemonic)) ∧
        (∀ name r, report.table.get? name = some r ↔
          r ∈ report.table.records ∧ r.mnemonic = normalizeMnemonic name) ∧
        report.diagnostics = SourceLine.allRemarks schema policy [] lines := by
  refine ⟨⟨schema, .start schema.name policy, []⟩, ?_, ?_⟩
  · rw [start, hs]
  intro report defined
  obtain ⟨⟨-, hbuilder⟩, hdiagnostics⟩ := (hasTaken_start schema policy).performAll lines
  have htable : report.table =
      ((TableBuilder.start schema.name policy).addAll defined).finish :=
    congrArg TableBuilder.finish hbuilder
  have hlocates : report.table.index.Locates (report.table.records.map (·.mnemonic)) := by
    rw [htable]
    exact TableBuilder.isIndexed_addAll schema.name policy defined
  rw [htable] at hlocates ⊢
  refine ⟨TableBuilder.schemaName_addAll .., TableBuilder.map_mnemonic_addAll .., ?_, hlocates, ?_,
    hdiagnostics⟩
  · intro r hr
    rw [← TableBuilder.find?_addAll schema.name]
    exact (Record.find?_eq_some_iff hlocates.nodup).mpr ⟨hr, rfl⟩
  · intro name r
    rw [Table.get?_eq_find? hlocates]
    exact Record.find?_eq_some_iff hlocates.nodup

/-- A mnemonic in three spellings, with a blank line and a faulty one in between. -/
def SourceLine.spellings : List SourceLine :=
  [⟨"t.isa", 1, "add rd 0000"⟩, ⟨"t.isa", 2, " # nothing"⟩, ⟨"t.isa", 3, "add 0000"⟩,
    ⟨"t.isa", 4, "ADD rd 0001"⟩, ⟨"t.isa", 5, "aDD rd 0010"⟩]

theorem Compiler.finish_performAll_spellings :
    Schema.loose.Valid ∧ ∃ c, start Schema.loose .overwrite = .ok c ∧
      let report := (c.performAll (SourceLine.spellings.map SourceLine.step)).finish
      let last : Record := .short "ADD" 5 ⟨2#64, 4, by decide, by decide, by decide⟩
      report.table.records = [last] ∧ report.table.index.get? "ADD" = some 0 ∧
        report.table.get? "Add" = some last ∧
        report.diagnostics =
          [.about "t.isa" 3 "add 0000" .error (.malformedLine 2),
            .about "t.isa" 4 "ADD rd 0001" .warning (.duplicateMnemonic "ADD" 1),
            .about "t.isa" 5 "aDD rd 0010" .warning (.duplicateMnemonic "ADD" 4)] := by
  obtain ⟨c, hc, -, hmnemonics, hstanding, hlocates, hget, hdiagnostics⟩ :=
    finish_performAll_lines Schema.loose_valid .overwrite SourceLine.spellings
  have h1 : SourceLine.defined? Schema.loose ⟨"t.isa", 1, "add rd 0000"⟩ =
      some (.short "ADD" 1 ⟨0#64, 4, by decide, by decide, by decide⟩) := by decide +kernel
  have h2 : SourceLine.defined? Schema.loose ⟨"t.isa", 2, " # nothing"⟩ = none := by
    decide +kernel
  have h3 : SourceLine.defined? Schema.loose ⟨"t.isa", 3, "add 0000"⟩ = none := by
    decide +kernel
  have h4 : SourceLine.defined? Schema.loose ⟨"t.isa", 4, "ADD rd 0001"⟩ =
      some (.short "ADD" 4 ⟨1#64, 4, by decide, by decide, by decide⟩) := by decide +kernel
  have h5 : SourceLine.defined? Schema.loose ⟨"t.isa", 5, "aDD rd 0010"⟩ =
      some (.short "ADD" 5 ⟨2#64, 4, by decide, by decide, by decide⟩) := by decide +kernel
  refine ⟨Schema.loose_valid, c, hc, ?_⟩
  intro report last
  have hrecords : report.table.records = [last] := by
    have hdefined : SourceLine.defined Schema.loose SourceLine.spellings =
        [.short "ADD" 1 ⟨0#64, 4, by decide, by decide, by decide⟩,
          .short "ADD" 4 ⟨1#64, 4, by decide, by decide, by decide⟩, last] := by
      simp [SourceLine.defined, SourceLine.spellings, h1, h2, h3, h4, h5, last]
    rw [hdefined] at hmnemonics hstanding
    obtain ⟨r, hr, hname⟩ := List.map_eq_singleton_iff.mp
      (hmnemonics.trans (rfl : _ = ["ADD"]))
    have hlast := hstanding r (by rw [hr]; exact List.mem_singleton_self r)
    rw [hname] at hlast
    show (c.performAll (SourceLine.spellings.map SourceLine.step)).finish.table.records = _
    rw [hr, ← Option.some.inj hlast]
    rfl
  refine ⟨hrecords, ?_, ?_, ?_⟩
  · exact (hlocates "ADD" 0).mpr (by rw [hrecords]; rfl)
  · have hname : last.mnemonic = normalizeMnemonic "Add" := by decide +kernel
    exact (hget "Add" last).mpr ⟨by rw [hrecords]; exact List.mem_singleton_self last, hname⟩
  · have hblank : SpecLine.Content.ofText " # nothing" = .blank := by decide +kernel
    have hfaulty : SpecLine.Content.ofText "add 0000" = .definition ⟨"add", [], "0000"⟩ := by
      decide +kernel
    rw [hdiagnostics]
    simp [SourceLine.allRemarks, SourceLine.spellings, SourceLine.remarks, h1, h2, h3, h4, h5,
      SourceLine.errors, hblank, hfaulty, Encoding.ofLine, SpecLine.arity, SourceLine.about,
      SourceLine.repetition?, SourceLine.defined, Record.named, Record.short]

end OpTable
