import OpTable.Proofs.Compiler.Extension
import OpTable.Proofs.Text.Lines
import OpTable.Render.Format

/-!
# Renamed schemas

The name of a schema decides nothing about the lines that are accepted under it, so under schemas
that differ in their names only every run fills its table with the same records
(`sameRecords_performAll`). In the written tables the name stands on one line. JSON escapes it; the
constants and the summary write it as it is, and there a newline in the name cuts its line in two
(`render_renamed`).
-/

namespace OpTable

/-! ### Runs -/

/-- The schemas differ in nothing but their names. -/
def Schema.SameButName (s t : Schema) : Prop := { s with name := t.name } = t

theorem Schema.SameButName.extends {s t : Schema} (h : s.SameButName t) : t.Extends s := by
  rw [← h]
  exact {
    wordWidth_eq := rfl
    opcodeWidth_eq := rfl
    funct3Width_eq := rfl
    funct7Width_eq := rfl
    fields_perm := List.Perm.refl _
    roles := fun role hrole => ⟨role, hrole, rfl, rfl⟩ }

theorem Schema.SameButName.symm {s t : Schema} (h : s.SameButName t) : t.SameButName s := by
  rw [SameButName, ← h]

namespace Compiler

section Runs

variable {s t : Schema}

theorem Reading.ofLine_eq_defines_of_sameButName (h : s.SameButName t) (hs : s.Valid)
    (ht : t.Valid) {line : Nat} {text : String} {r : Record} (hr : ofLine s line text = .defines r) :
    ofLine t line text = .defines r := by
  obtain ⟨spec, encoding, hspec, hencoding, rfl⟩ := ofLine_eq_defines_iff.mp hr
  exact ofLine_eq_defines_iff.mpr ⟨spec, encoding, hspec, h.extends.ofLine hs ht hencoding, rfl⟩

/-- The compilers, one under each schema, hold the same records in tables of the schemas' names. -/
structure SameRecords (s t : Schema) (c d : Compiler) : Prop where
  schema_eq : c.schema = s
  other_eq : d.schema = t
  name_eq : c.builder.schemaName = s.name
  builder_eq : d.builder = { c.builder with schemaName := t.name }

theorem SameRecords.table_finish {c d : Compiler} (hcd : SameRecords s t c d) :
    c.finish.table.schemaName = s.name ∧ d.finish.table.schemaName = t.name ∧
      d.finish.table.records = c.finish.table.records := by
  have hbuilder := hcd.builder_eq
  rw [finish, finish, TableBuilder.finish, TableBuilder.finish, hbuilder]
  exact ⟨hcd.name_eq, rfl, rfl⟩

theorem SameRecords.compileLine (h : s.SameButName t) (hs : s.Valid) (ht : t.Valid)
    {c d : Compiler} (hcd : SameRecords s t c d) (origin : String) (line : Nat) (text : String) :
    SameRecords s t (c.compileLine origin line text) (d.compileLine origin line text) := by
  -- a refusal may mention the schema by its name, so only the records that lines define are the same
  have hread : ∀ r, Reading.ofLine d.schema line text = .defines r ↔
      Reading.ofLine c.schema line text = .defines r := by
    intro r
    rw [hcd.schema_eq, hcd.other_eq]
    exact ⟨Reading.ofLine_eq_defines_of_sameButName h.symm ht hs,
      Reading.ofLine_eq_defines_of_sameButName h hs ht⟩
  refine ⟨(schema_compileLine c origin line text).trans hcd.schema_eq,
    (schema_compileLine d origin line text).trans hcd.other_eq, ?_, ?_⟩
  · rcases builder_compileLine c origin line text with he | ⟨r, -, he⟩
    · rw [he, hcd.name_eq]
    · rw [he, TableBuilder.schemaName_add, hcd.name_eq]
  · rw [builder_compileLine_eq, builder_compileLine_eq]
    cases hc : Reading.ofLine c.schema line text with
    | defines r =>
      rw [(hread r).mpr hc, hcd.builder_eq, Reading.taken_schemaName]
    | _ =>
      cases hd : Reading.ofLine d.schema line text with
      | defines r =>
        rw [(hread r).mp hd] at hc
        cases hc
      | _ => exact hcd.builder_eq

theorem sameRecords_performAll (h : s.SameButName t) (hs : s.Valid) (ht : t.Valid)
    (steps : List Step) {c d : Compiler} (hcd : SameRecords s t c d) :
    SameRecords s t (c.performAll steps) (d.performAll steps) := by
  refine performAll_composition
    (P := fun f => ∀ c d, SameRecords s t c d → SameRecords s t (f c) (f d)) ?_ ?_ ?_ ?_ steps c d hcd
  · exact fun _ _ hcd => hcd
  · exact fun _ _ hf hg c d hcd => hg _ _ (hf c d hcd)
  · exact fun origin line text _ _ hcd => hcd.compileLine h hs ht origin line text
  · exact fun _ _ _ hcd => ⟨hcd.schema_eq, hcd.other_eq, hcd.name_eq, hcd.builder_eq⟩

end Runs

end Compiler

/-! ### Lines that name the schema -/

def Render.Constants.nameLine (name : String) : String :=
  s!"// @generated by qcpu_tablegen (schema: {name}). Do not edit."

def Render.Summary.nameLine (name : String) : String := s!"Schema: {name}"

def Json.nameLine (name : String) : String :=
  s!"  \"schema\": {String.ofList (quoted name)},"

def Json.closing (records : Json) : String :=
  s!"  \"records\": {String.ofList (records.write 1)}\n\x7d\n"

namespace OutputFormat

/-- The line with the name. -/
def nameLine (name : String) : OutputFormat → String
  | json => Json.nameLine name
  | constants => Render.Constants.nameLine name
  | summary => Render.Summary.nameLine name

/-- The lines before the line with the name. -/
def opening : OutputFormat → List String
  | json => ["\x7b"]
  | constants => []
  | summary => []

/-- A table of the records that has no name. -/
def unnamed (records : List Record) : Table := ⟨"", records, ∅, Index.below_empty _⟩

/-- What comes after the line with the name. -/
def closing (records : List Record) : OutputFormat → String
  | json => Json.closing (.array (records.map Record.toJson))
  | constants => String.join ((Render.Constants.lines (unnamed records)).tail.map (· ++ "\n"))
  | summary => String.join ((Render.Summary.lines (unnamed records)).tail.map (· ++ "\n"))

end OutputFormat

theorem Json.newline_not_mem_escapedChar (c : Char) : '\n' ∉ escapedChar c := by
  have hdigit : ∀ n < 16, '\n' ≠ Nat.digitChar n := by decide
  unfold escapedChar
  split
  · decide
  split
  · decide
  split
  · decide
  next hnewline =>
  split
  · decide
  split
  · decide
  split
  · decide
  split
  · decide
  split
  · have hhigh := hdigit (c.toNat / 16) (by omega)
    have hlow := hdigit (c.toNat % 16) (by omega)
    simp [hhigh, hlow]
  · exact fun hmem => hnewline (List.mem_singleton.mp hmem).symm

theorem Json.newline_not_mem_quoted (value : String) : '\n' ∉ quoted value := by
  rw [quoted, List.mem_append, List.mem_cons, List.mem_flatMap, List.mem_singleton]
  rintro ((hc | ⟨c, -, hc⟩) | hc)
  · cases hc
  · exact newline_not_mem_escapedChar c hc
  · cases hc

theorem Render.Constants.lines_named (table : Table) :
    lines table =
      nameLine table.schemaName :: (lines (OutputFormat.unnamed table.records)).tail := by
  simp only [lines, widestWord, List.cons_append, List.nil_append, List.tail_cons]
  rfl

theorem Render.Summary.lines_named (table : Table) :
    lines table =
      nameLine table.schemaName :: (lines (OutputFormat.unnamed table.records)).tail := by
  simp only [lines, nameWidth, Table.size, Table.conflicts, List.cons_append, List.nil_append,
    List.tail_cons]
  rfl

theorem Json.pretty_named (name : String) (records : Json) :
    (object [("schema", .text name), ("records", records)]).pretty ++ "\n" =
      String.join (OutputFormat.json.opening.map (· ++ "\n")) ++
        (nameLine name ++ "\n" ++ closing records) := by
  have hschema : quoted "schema" = ['"', 's', 'c', 'h', 'e', 'm', 'a', '"'] := by decide
  have hrecords : quoted "records" = ['"', 'r', 'e', 'c', 'o', 'r', 'd', 's', '"'] := by decide
  apply String.ext
  rw [pretty, write, write, writeMembers, writeMembers, newLine, newLine, hschema, hrecords]
  simp [nameLine, closing, OutputFormat.opening, String.toList_append, toString]

/-- Tables with the same records are written the same, but for the line with the name. -/
theorem Table.render_eq (table : Table) (format : OutputFormat) :
    table.render format =
      String.join (format.opening.map (· ++ "\n")) ++
        (format.nameLine table.schemaName ++ "\n" ++ format.closing table.records) := by
  cases format with
  | json => exact Json.pretty_named table.schemaName _
  | constants =>
    rw [render, Render.Constants.text, Render.Constants.lines_named, Text.join_lines_cons]
    exact String.empty_append.symm
  | summary =>
    rw [render, Render.Summary.text, Render.Summary.lines_named, Text.join_lines_cons]
    exact String.empty_append.symm

/-! ### Lines of tables -/

namespace OutputFormat

open Text

theorem newline_not_mem_opening (format : OutputFormat) :
    ∀ line ∈ format.opening, '\n' ∉ line.toList := by
  cases format <;> decide

theorem newlines_nameLine_json (name : String) : newlines (json.nameLine name) = 0 := by
  have hquoted : newlines (String.ofList (Json.quoted name)) = 0 := by
    rw [newlines_eq_zero_iff, String.toList_ofList]
    exact Json.newline_not_mem_quoted name
  show newlines (_ ++ String.ofList (Json.quoted name) ++ _) = 0
  rw [newlines_append, newlines_append, hquoted]
  decide

theorem newlines_nameLine {format : OutputFormat} (h : format ≠ json) (name : String) :
    newlines (format.nameLine name) = newlines name := by
  cases format with
  | json => exact absurd rfl h
  | constants =>
    show newlines ("// @generated by qcpu_tablegen (schema: " ++ name ++ "). Do not edit.") = _
    have hbefore : newlines "// @generated by qcpu_tablegen (schema: " = 0 := by decide
    have hafter : newlines "). Do not edit." = 0 := by decide
    rw [newlines_append, newlines_append, hbefore, hafter, Nat.zero_add, Nat.add_zero]
  | summary =>
    show newlines ("Schema: " ++ name) = _
    have hbefore : newlines "Schema: " = 0 := by decide
    rw [newlines_append, hbefore, Nat.zero_add]

theorem newlines_nameLine_eq_zero {format : OutputFormat} {name : String}
    (h : format = json ∨ newlines name = 0) : newlines (format.nameLine name) = 0 := by
  by_cases hjson : format = json
  · rw [hjson, newlines_nameLine_json]
  · rw [newlines_nameLine hjson, h.resolve_left hjson]

theorem linesOf_render (table : Table) (format : OutputFormat) :
    linesOf (table.render format) =
      format.opening.map (fun line => ⟨line.toList, true⟩) ++
        (linesOf (format.nameLine table.schemaName ++ "\n") ++
          linesOf (format.closing table.records)) := by
  rw [Table.render_eq, linesOf_join_append format.newline_not_mem_opening, linesOf_ended_append]

/-- A name without newlines takes one line, and only this line depends on it. -/
theorem linesOf_render_of_newlines {table : Table} {format : OutputFormat}
    (h : newlines (format.nameLine table.schemaName) = 0) :
    linesOf (table.render format) =
      format.opening.map (fun line => ⟨line.toList, true⟩) ++
        ⟨(format.nameLine table.schemaName).toList, true⟩ ::
          linesOf (format.closing table.records) := by
  rw [linesOf_render, linesOf_ended (newlines_eq_zero_iff.mp h)]
  rfl

theorem length_linesOf_render (table : Table) (format : OutputFormat) :
    (linesOf (table.render format)).length =
      format.opening.length + newlines (format.nameLine table.schemaName) + 1 +
        (linesOf (format.closing table.records)).length := by
  rw [linesOf_render, List.length_append, List.length_append, List.length_map,
    length_linesOf_ended]
  omega

theorem comment_nameLine (name : String) :
    ['/', '/'] <+: (constants.nameLine name).toList := by
  have hstart : ['/', '/'] <+: "// @generated by qcpu_tablegen (schema: ".toList := by decide
  show _ <+: ("// @generated by qcpu_tablegen (schema: " ++ name ++ "). Do not edit.").toList
  rw [String.toList_append, String.toList_append, List.append_assoc]
  exact hstart.trans (List.prefix_append ..)

section Names

variable {table other : Table} {format : OutputFormat}
  (hname : newlines (format.nameLine table.schemaName) = 0)

include hname

theorem getElem?_linesOf_render :
    (linesOf (table.render format))[format.opening.length]? =
      some ⟨(format.nameLine table.schemaName).toList, true⟩ := by
  rw [linesOf_render_of_newlines hname, List.getElem?_append_right (by simp),
    List.length_map, Nat.sub_self]
  rfl

theorem differAt_render (hrecords : other.records = table.records)
    (hother : newlines (format.nameLine other.schemaName) = 0) :
    DifferAt format.opening.length (table.render format) (other.render format) := by
  have hlines := linesOf_render_of_newlines hother
  rw [hrecords] at hlines
  have hdiffer := differAt_of_eq (linesOf_render_of_newlines hname) hlines
  rwa [List.length_map] at hdiffer

end Names

end OutputFormat

namespace Compiler

open Text

/-- Under schemas that differ in their names only, a run leaves the same records. The tables are
written with as many lines and differ in the line with the name, which is a comment among the
constants: as JSON always, and in the other formats where the names have no newlines. There every
newline of a name takes one line more. -/
theorem render_renamed {s t : Schema} (hs : s.Valid) (ht : t.Valid) (h : s.SameButName t)
    (policy : DuplicatePolicy) (steps : List Step) :
    ∃ c d, start s policy = .ok c ∧ start t policy = .ok d ∧
      let table := (c.performAll steps).finish.table
      let other := (d.performAll steps).finish.table
      other.records = table.records ∧
      (∀ format : OutputFormat, format = .json ∨ newlines s.name = 0 ∧ newlines t.name = 0 →
        DifferAt format.opening.length (table.render format) (other.render format) ∧
        (linesOf (table.render format))[format.opening.length]? =
          some ⟨(format.nameLine s.name).toList, true⟩ ∧
        (linesOf (other.render format))[format.opening.length]? =
          some ⟨(format.nameLine t.name).toList, true⟩) ∧
      (∀ format : OutputFormat, format ≠ .json →
        (linesOf (table.render format)).length + newlines t.name =
          (linesOf (other.render format)).length + newlines s.name) ∧
      ∀ name, ['/', '/'] <+: (OutputFormat.constants.nameLine name).toList := by
  refine ⟨_, _, start_eq_ok policy hs, start_eq_ok policy ht, ?_⟩
  intro table other
  have hsame := sameRecords_performAll h hs ht steps
    (c := ⟨s, .start s.name policy, []⟩) (d := ⟨t, .start t.name policy, []⟩) ⟨rfl, rfl, rfl, rfl⟩
  obtain ⟨htable, hother, hrecords⟩ : table.schemaName = s.name ∧ other.schemaName = t.name ∧
      other.records = table.records := hsame.table_finish
  refine ⟨hrecords, ?_, ?_, OutputFormat.comment_nameLine⟩
  · intro format hformat
    have hleft := OutputFormat.newlines_nameLine_eq_zero (hformat.imp_right And.left)
    have hright := OutputFormat.newlines_nameLine_eq_zero (hformat.imp_right And.right)
    rw [← htable] at hleft ⊢
    rw [← hother] at hright ⊢
    exact ⟨OutputFormat.differAt_render hleft hrecords hright,
      OutputFormat.getElem?_linesOf_render hleft, OutputFormat.getElem?_linesOf_render hright⟩
  · intro format hformat
    rw [OutputFormat.length_linesOf_render, OutputFormat.length_linesOf_render,
      OutputFormat.newlines_nameLine hformat, OutputFormat.newlines_nameLine hformat, htable,
      hother, hrecords]
    omega

def oneLine : Schema := { Schema.loose with name := "one\tline" }

def negation : Step := .text "t.isa" "not rd 0001\nnot rd\n"

theorem render_renamed_oneLine :
    Schema.loose.Valid ∧ oneLine.Valid ∧ Schema.loose.SameButName oneLine ∧
      newlines Schema.loose.name = 0 ∧ newlines oneLine.name = 0 ∧
      ∃ c d, start Schema.loose .overwrite = .ok c ∧ start oneLine .overwrite = .ok d ∧
        let table := (c.performAll [negation]).finish.table
        let other := (d.performAll [negation]).finish.table
        other.records = table.records ∧ table.records.map (·.mnemonic) = ["NOT"] ∧
        DifferAt 0 (table.render .constants) (other.render .constants) ∧
        (linesOf (other.render .json))[1]? =
          some ⟨"  \"schema\": \"one\\tline\",".toList, true⟩ := by
  have hloose : Schema.loose.Valid := Schema.loose_valid
  have hone : oneLine.Valid := rfl
  have hsame : Schema.loose.SameButName oneLine := rfl
  have hnames : newlines Schema.loose.name = 0 ∧ newlines oneLine.name = 0 := by decide
  obtain ⟨c, d, hc, hd, hrecords, hlines, -, -⟩ :=
    render_renamed hloose hone hsame .overwrite [negation]
  have hdefines : (c.performAll [negation]).finish.table.records.map (·.mnemonic) = ["NOT"] := by
    obtain ⟨-, rfl⟩ := eq_of_start hc
    decide +kernel
  exact ⟨hloose, hone, hsame, hnames.1, hnames.2, c, d, hc, hd, hrecords, hdefines,
    (hlines .constants (.inr hnames)).1, (hlines .json (.inl rfl)).2.2⟩

def twoLines : Schema := { Schema.loose with name := "two\nlines" }

/-- A name of two lines takes two lines, and among the constants the second is no comment. -/
theorem render_renamed_twoLines :
    Schema.loose.Valid ∧ twoLines.Valid ∧ Schema.loose.SameButName twoLines ∧
      ∃ c d, start Schema.loose .overwrite = .ok c ∧ start twoLines .overwrite = .ok d ∧
        let table := (c.performAll [negation]).finish.table
        let other := (d.performAll [negation]).finish.table
        (linesOf (other.render .constants)).length =
          (linesOf (table.render .constants)).length + 1 ∧
        (linesOf (other.render .constants))[1]? = some ⟨"lines). Do not edit.".toList, true⟩ ∧
        (linesOf (other.render .summary)).length =
          (linesOf (table.render .summary)).length + 1 := by
  refine ⟨Schema.loose_valid, rfl, rfl, ⟨Schema.loose, .start "loose" .overwrite, []⟩,
    ⟨twoLines, .start "two\nlines" .overwrite, []⟩, rfl, rfl, ?_⟩
  intro table other
  have htable : table.schemaName = "loose" := rfl
  have hother : other.schemaName = "two\nlines" := rfl
  have hrecords : other.records = table.records := by decide +kernel
  have hlengths : ∀ format : OutputFormat, format ≠ .json →
      (linesOf (other.render format)).length = (linesOf (table.render format)).length + 1 := by
    intro format hformat
    have hone : newlines "loose" = 0 := by decide
    have htwo : newlines "two\nlines" = 1 := by decide
    rw [OutputFormat.length_linesOf_render, OutputFormat.length_linesOf_render,
      OutputFormat.newlines_nameLine hformat, OutputFormat.newlines_nameLine hformat, htable,
      hother, hrecords, hone, htwo]
    omega
  have hheader : linesOf (OutputFormat.constants.nameLine "two\nlines" ++ "\n") =
      [⟨"// @generated by qcpu_tablegen (schema: two".toList, true⟩,
        ⟨"lines). Do not edit.".toList, true⟩] := by
    decide +kernel
  refine ⟨hlengths .constants nofun, ?_, hlengths .summary nofun⟩
  rw [OutputFormat.linesOf_render, hother, hheader]
  rfl

end Compiler

end OpTable
