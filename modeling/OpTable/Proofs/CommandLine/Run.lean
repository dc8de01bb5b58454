import OpTable.CommandLine.Run
import OpTable.Proofs.CommandLine.Arguments
import OpTable.Proofs.Table.Conflicts

/-!
# What a run leaves behind

A run compiles what its arguments name once all of it can be loaded (`compile_eq_ok_iff`), and only
then writes. Diagnostics and conflicts decide its exit status and nothing else
(`perform_outcome`): the table is written in full, as it would be if nobody had asked for them.
-/

namespace OpTable

namespace Compiler

theorem performAll_append (c : Compiler) (steps more : List Step) :
    c.performAll (steps ++ more) = (c.performAll steps).performAll more :=
  List.foldl_append

end Compiler

theorem FileAccess.compileAll_eq_ok_iff {files : FileAccess} {c c' : Compiler}
    {paths : List String} :
    files.compileAll c paths = .ok c' ↔
      ∃ contents, paths.map files.read = contents.map .ok ∧
        c' = c.performAll (List.zipWith .bytes paths contents) := by
  induction paths generalizing c with
  | nil =>
    constructor
    · intro h
      cases h
      exact ⟨[], rfl, rfl⟩
    · rintro ⟨contents, -, rfl⟩
      rfl
  | cons path rest ih =>
    rw [compileAll, compile]
    constructor
    · intro h
      cases hread : files.read path with
      | error fault =>
        rw [hread] at h
        cases h
      | ok bytes =>
        rw [hread] at h
        obtain ⟨contents, hrest, rfl⟩ := ih.mp h
        refine ⟨bytes :: contents, ?_, rfl⟩
        rw [List.map_cons, List.map_cons, hread, hrest]
    · rintro ⟨contents, hcontents, rfl⟩
      cases contents with
      | nil => cases hcontents
      | cons bytes contents =>
        obtain ⟨hread, hrest⟩ := List.cons.inj hcontents
        rw [hread]
        exact ih.mpr ⟨contents, hrest, rfl⟩

namespace Report

theorem hasErrors_eq_false_iff {report : Report} :
    report.hasErrors = false ↔ ∀ d ∈ report.diagnostics, d.severity ≠ .error := by
  simp [hasErrors, Diagnostic.isError]

theorem warningCount_eq_zero_iff {report : Report} :
    report.warningCount = 0 ↔ ∀ d ∈ report.diagnostics, d.severity ≠ .warning := by
  have hle := List.length_filter_le Diagnostic.isError report.diagnostics
  have hall : report.warningCount = 0 ↔
      (report.diagnostics.filter Diagnostic.isError).length = report.diagnostics.length := by
    rw [warningCount, errorCount, Nat.sub_eq_zero_iff_le]
    exact ⟨fun h => Nat.le_antisymm hle h, fun h => h.ge⟩
  rw [hall, List.length_filter_eq_length_iff]
  refine forall₂_congr fun d _ => ?_
  cases hseverity : d.severity <;> simp [Diagnostic.isError, hseverity]

end Report

namespace CommandLine

/-! ### What a run takes in -/

namespace Arguments

/-- What is compiled when the inputs have these contents. -/
def steps (args : Arguments) (contents : List (List UInt8)) : List Compiler.Step :=
  args.bundled?.toList.map .bundled ++ List.zipWith .bytes args.inputs contents

/-- The outcome of compiling all of it, under a schema. -/
def report (args : Arguments) (schema : Schema) (contents : List (List UInt8)) : Report :=
  ((⟨schema, .start schema.name args.policy, []⟩ : Compiler).performAll
    (args.steps contents)).finish

/-- The schema that is used when no file has one. -/
def presetSchema (args : Arguments) : Schema := (args.bundled?.map Bundled.schema).getD .qcpu

/-- The same arguments, with warnings and conflicts accepted. -/
def lenient (args : Arguments) : Arguments :=
  { args with checkConflicts := false, denyWarnings := false }

theorem valid_presetSchema (args : Arguments) : args.presetSchema.Valid := by
  rw [presetSchema]
  cases args.bundled? with
  | none => rfl
  | some bundled => cases bundled <;> rfl

end Arguments

/-- There is something to compile, the schema file has a schema that can be used, and all inputs
can be read and have these contents. -/
structure Loads (files : FileAccess) (args : Arguments) (schema : Schema)
    (contents : List (List UInt8)) : Prop where
  given : args.inputs ≠ [] ∨ args.bundled? ≠ none
  file : ∀ path, args.schema? = some path → files.schema path = .ok schema ∧ schema.Valid
  preset : args.schema? = none → schema = args.presetSchema
  inputs : args.inputs.map files.read = contents.map .ok

/-- The file for the table can be written, if there is to be one. -/
def CanWrite (files : FileAccess) (args : Arguments) : Prop :=
  ∀ path, args.output? = some path → files.create path = .ok ()

/-- A report that is not a failure for the arguments. -/
structure Passes (args : Arguments) (report : Report) : Prop where
  errors : ∀ d ∈ report.diagnostics, d.severity ≠ .error
  warnings : args.denyWarnings = true → ∀ d ∈ report.diagnostics, d.severity ≠ .warning
  conflicts : args.checkConflicts = true → ∀ (word : Word) (i j : Nat) (a b : Record),
    report.table.records[i]? = some a → report.table.records[j]? = some b →
      a.Matches word → b.Matches word → i = j

section Run

variable {files : FileAccess} {args : Arguments} {schema : Schema} {contents : List (List UInt8)}

theorem schemaOf_eq_ok_iff :
    schemaOf files args = .ok schema ↔
      (∀ path, args.schema? = some path → files.schema path = .ok schema) ∧
        (args.schema? = none → schema = args.presetSchema) := by
  unfold schemaOf Arguments.presetSchema
  cases args.schema? with
  | some path =>
    cases hfile : files.schema path <;> simp [hfile]
  | none =>
    cases args.bundled? <;> simp [eq_comm]

theorem Loads.valid (h : Loads files args schema contents) : schema.Valid := by
  cases hschema : args.schema? with
  | some path => exact (h.file path hschema).2
  | none =>
    rw [h.preset hschema]
    exact args.valid_presetSchema

theorem Loads.readable (h : Loads files args schema contents) :
    ∀ path ∈ args.inputs, ∃ bytes, files.read path = .ok bytes := by
  intro path hpath
  have hmem : files.read path ∈ contents.map Except.ok := by
    rw [← h.inputs]
    exact List.mem_map_of_mem hpath
  obtain ⟨bytes, -, hbytes⟩ := List.mem_map.mp hmem
  exact ⟨bytes, hbytes.symm⟩

theorem not_loads_of_read_eq_error {path : String} {fault : FileFault} (hpath : path ∈ args.inputs)
    (hread : files.read path = .error fault) :
    ¬ ∃ schema contents, Loads files args schema contents := by
  intro h
  obtain ⟨schema, contents, hloads⟩ := h
  obtain ⟨bytes, hbytes⟩ := hloads.readable path hpath
  rw [hread] at hbytes
  cases hbytes

theorem not_loads_of_schema_eq_error {path : String} {error : CompileError}
    (hpath : args.schema? = some path) (hschema : files.schema path = .error error) :
    ¬ ∃ schema contents, Loads files args schema contents := by
  intro h
  obtain ⟨schema, contents, hloads⟩ := h
  obtain ⟨hfile, -⟩ := hloads.file path hpath
  rw [hschema] at hfile
  cases hfile

/-- The files and the arguments leave no choice of what is compiled. -/
theorem Loads.unique {other : Schema} {others : List (List UInt8)}
    (h : Loads files args schema contents) (h' : Loads files args other others) :
    schema = other ∧ contents = others := by
  constructor
  · cases hschema : args.schema? with
    | some path => exact Except.ok.inj ((h.file path hschema).1.symm.trans (h'.file path hschema).1)
    | none => rw [h.preset hschema, h'.preset hschema]
  · have hok : Function.Injective (Except.ok : List UInt8 → Except FileFault (List UInt8)) :=
      fun _ _ => Except.ok.inj
    exact List.map_injective_iff.mpr hok (h.inputs.symm.trans h'.inputs)

theorem compile_eq_ok_iff {report : Report} :
    compile files args = .ok report ↔
      ∃ schema contents, Loads files args schema contents ∧
        report = args.report schema contents := by
  constructor
  · intro h
    unfold compile at h
    split at h
    · cases h
    next hgiven =>
    split at h
    · cases h
    next schema hschema =>
    split at h
    · cases h
    next c hc =>
    dsimp only at h
    split at h
    · cases h
    next c' hinputs =>
    cases h
    obtain ⟨hvalid, rfl⟩ := Compiler.eq_of_start hc
    obtain ⟨hfile, hpreset⟩ := schemaOf_eq_ok_iff.mp hschema
    obtain ⟨contents, hcontents, rfl⟩ := FileAccess.compileAll_eq_ok_iff.mp hinputs
    refine ⟨schema, contents, ⟨?_, fun path hpath => ⟨hfile path hpath, hvalid⟩, hpreset,
      hcontents⟩, ?_⟩
    · exact Decidable.not_and_iff_or_not.mp hgiven
    · rw [Arguments.report, Arguments.steps, Compiler.performAll_append]
      cases args.bundled? <;> rfl
  · rintro ⟨schema, contents, h, rfl⟩
    have hschema := schemaOf_eq_ok_iff.mpr ⟨fun path hpath => (h.file path hpath).1, h.preset⟩
    have hstart := Compiler.start_eq_ok args.policy h.valid
    have hinputs : ∀ c : Compiler, files.compileAll c args.inputs =
        .ok (c.performAll (List.zipWith .bytes args.inputs contents)) :=
      fun c => FileAccess.compileAll_eq_ok_iff.mpr ⟨contents, h.inputs, rfl⟩
    rw [compile, if_neg (Decidable.not_and_iff_or_not.mpr h.given), hschema]
    dsimp only
    rw [hstart]
    dsimp only
    rw [hinputs, Arguments.report, Arguments.steps, Compiler.performAll_append]
    cases args.bundled? <;> rfl

/-! ### What it leaves behind -/

theorem isFailed_eq_false_iff (hvalid : schema.Valid) :
    isFailed args (args.report schema contents) = false ↔
      Passes args (args.report schema contents) := by
  have hc := Compiler.start_eq_ok args.policy hvalid
  have hresolved : ∀ r ∈ (args.report schema contents).table.records, r.Resolved := by
    intro r hr
    exact ⟨schema, hvalid, (Compiler.isResolved_performAll hc (args.steps contents)).2 r hr⟩
  have hconflicts : (args.report schema contents).table.conflicts.isEmpty = true ↔ _ :=
    List.isEmpty_iff.trans (Record.conflicts_eq_nil_iff hresolved)
  generalize args.report schema contents = report at hconflicts
  have hwarnings : ¬ 0 < report.warningCount ↔ report.warningCount = 0 := by omega
  constructor
  · intro h
    simp only [isFailed, Bool.or_eq_false_iff, Bool.and_eq_false_imp, decide_eq_false_iff_not,
      Bool.not_eq_false'] at h
    obtain ⟨⟨herrors, hwarned⟩, hconflicting⟩ := h
    exact ⟨Report.hasErrors_eq_false_iff.mp herrors,
      fun hdeny => Report.warningCount_eq_zero_iff.mp (hwarnings.mp (hwarned hdeny)),
      fun hcheck => hconflicts.mp (hconflicting hcheck)⟩
  · intro h
    simp only [isFailed, Bool.or_eq_false_iff, Bool.and_eq_false_imp, decide_eq_false_iff_not,
      Bool.not_eq_false']
    exact ⟨⟨Report.hasErrors_eq_false_iff.mpr h.errors,
      fun hdeny => hwarnings.mpr (Report.warningCount_eq_zero_iff.mpr (h.warnings hdeny))⟩,
      fun hcheck => hconflicts.mpr (h.conflicts hcheck)⟩

theorem run_of_not_loads (h : ¬ ∃ schema contents, Loads files args schema contents) :
    ∃ failure, run files args = Failure.outcome failure := by
  unfold run
  split
  next failure _ => exact ⟨failure, rfl⟩
  next report hreport =>
    obtain ⟨schema, contents, hloads, -⟩ := compile_eq_ok_iff.mp hreport
    exact absurd ⟨schema, contents, hloads⟩ h

theorem run_of_not_canWrite (h : ¬ CanWrite files args) :
    ∃ failure, run files args = Failure.outcome failure := by
  unfold run
  split
  next failure _ => exact ⟨failure, rfl⟩
  split
  next hnone =>
    refine absurd ?_ h
    intro path hpath
    rw [hnone] at hpath
    cases hpath
  next path hpath =>
    split
    next e _ => exact ⟨.file e, rfl⟩
    next text hwritable =>
      refine absurd ?_ h
      intro other hother
      rw [hpath] at hother
      cases hother
      unfold FileAccess.writable at hwritable
      split at hwritable
      · cases hwritable
      next hcreate => exact hcreate

theorem run_of_loads (h : Loads files args schema contents) (hwrite : CanWrite files args) :
    let report := args.report schema contents
    let text := report.table.render args.format
    run files args = conclude args report (if args.output? = none then text else "")
      (args.output?.map fun path => (path, text)) := by
  intro report text
  have hcompile : compile files args = .ok report := compile_eq_ok_iff.mpr ⟨_, _, h, rfl⟩
  rw [run, hcompile]
  dsimp only
  cases houtput : args.output? with
  | none => rfl
  | some path =>
    have hwritable : files.writable path report.table args.format = .ok text := by
      rw [FileAccess.writable, hwrite path houtput]
    simp only [hwritable, reduceCtorEq, if_false, Option.map_some]

theorem exitCode_conclude {report : Report} {stdout : String}
    {written? : Option (String × String)} :
    (conclude args report stdout written?).exitCode = 0 ↔ isFailed args report = false := by
  unfold conclude
  cases isFailed args report <;> simp

theorem stdout_conclude (args : Arguments) (report : Report) (stdout : String)
    (written? : Option (String × String)) :
    (conclude args report stdout written?).stdout = stdout := by
  unfold conclude
  split <;> rfl

theorem written?_conclude (args : Arguments) (report : Report) (stdout : String)
    (written? : Option (String × String)) :
    (conclude args report stdout written?).written? = written? := by
  unfold conclude
  split <;> rfl

theorem exitCode_run :
    (run files args).exitCode = 0 ↔
      ∃ schema contents, Loads files args schema contents ∧ CanWrite files args ∧
        Passes args (args.report schema contents) := by
  have hfailure : ∀ failure : Failure, run files args = failure.outcome →
      (run files args).exitCode ≠ 0 := by
    intro failure hrun
    rw [hrun]
    exact Nat.one_ne_zero
  constructor
  · intro hexit
    by_cases hloads : ∃ schema contents, Loads files args schema contents
    · obtain ⟨schema, contents, hloads⟩ := hloads
      by_cases hwrite : CanWrite files args
      · rw [run_of_loads hloads hwrite, exitCode_conclude, isFailed_eq_false_iff hloads.valid]
          at hexit
        exact ⟨schema, contents, hloads, hwrite, hexit⟩
      · obtain ⟨failure, hrun⟩ := run_of_not_canWrite hwrite
        exact absurd hexit (hfailure failure hrun)
    · obtain ⟨failure, hrun⟩ := run_of_not_loads hloads
      exact absurd hexit (hfailure failure hrun)
  · rintro ⟨schema, contents, hloads, hwrite, hpasses⟩
    rw [run_of_loads hloads hwrite, exitCode_conclude, isFailed_eq_false_iff hloads.valid]
    exact hpasses

end Run

/-- A run with accepted arguments succeeds exactly when everything can be loaded and written,
nothing is an error, and no warning and no common word of two records is found where the arguments
ask for none. It leaves nothing behind unless everything could be loaded. If that and the file for
the table are fine, the table is written in full, and as it would be by a run that accepts warnings
and conflicts. -/
theorem perform_outcome {files : FileAccess} {environment? : Option String} {texts : List String}
    {args : Arguments} (h : Arguments.ofList environment? texts = .ok args) :
    let outcome := perform files environment? texts
    (outcome.exitCode = 0 ↔
        ∃ schema contents, Loads files args schema contents ∧ CanWrite files args ∧
          Passes args (args.report schema contents)) ∧
      ((¬ ∃ schema contents, Loads files args schema contents) →
        outcome.stdout = "" ∧ outcome.written? = none) ∧
      ∀ schema contents, Loads files args schema contents → CanWrite files args →
        let text := (args.report schema contents).table.render args.format
        outcome.stdout = (if args.output? = none then text else "") ∧
          outcome.written? = (args.output?.map fun path => (path, text)) ∧
          (run files args.lenient).stdout = outcome.stdout ∧
          (run files args.lenient).written? = outcome.written? := by
  intro outcome
  have hrun : outcome = run files args := by
    show perform files environment? texts = _
    rw [perform, h]
  rw [hrun]
  refine ⟨exitCode_run, ?_, ?_⟩
  · intro hloads
    obtain ⟨failure, hfailure⟩ := run_of_not_loads hloads
    rw [hfailure]
    exact ⟨rfl, rfl⟩
  · intro schema contents hloads hwrite text
    have hlenient : Loads files args.lenient schema contents :=
      ⟨hloads.given, hloads.file, hloads.preset, hloads.inputs⟩
    have hwriteLenient : CanWrite files args.lenient := hwrite
    rw [run_of_loads hloads hwrite, run_of_loads hlenient hwriteLenient]
    simp only [stdout_conclude, written?_conclude]
    exact ⟨rfl, rfl, rfl, rfl⟩

/-- One file, which defines an instruction twice; no other file can be read. -/
def redefining : FileAccess where
  read path := if path = "twice" then .ok content else .error .missing
  create _ := .ok ()
where
  content : List UInt8 :=
    "add 0000000 rs2 rs1 000 rd 0000\nadd 0000001 rs2 rs1 000 rd 0000\n".toList.map
      fun c => UInt8.ofNat c.toNat

/-- The arguments of a run on files, with conflicts as failures. -/
def checking (inputs : List String) (denyWarnings : Bool) : Arguments where
  inputs := inputs
  bundled? := none
  schema? := none
  format := .summary
  output? := none
  policy := .overwrite
  checkConflicts := true
  denyWarnings := denyWarnings

/-- The arguments of a run on a file after the bundled instructions, with a value for every option
but the schema. -/
def keeping : Arguments :=
  { checking ["twice"] false with
    bundled? := some .base
    format := .json
    output? := some "table.json"
    policy := .reject }

/-- The arguments of a run with a schema file. -/
def following (path : String) : Arguments := { checking ["twice"] false with schema? := some path }

theorem ofList_keeping : Arguments.ofList none
    ["--builtin=base", "--format=json", "--output=table.json", "--duplicates=reject",
      "--check-conflicts", "--", "twice"] = .ok keeping := by
  have hspelled : keeping.spelled = ["--builtin=base", "--format=json", "--output=table.json",
      "--duplicates=reject", "--check-conflicts", "--", "twice"] := by decide +kernel
  have hnames : keeping.NamesFiles := ⟨by decide, nofun, by rintro _ ⟨⟩; decide⟩
  rw [← hspelled]
  exact Arguments.ofList_spelled hnames fun _ => rfl

theorem ofList_following : Arguments.ofList none
    ["--schema=gone", "--format=summary", "--duplicates=overwrite", "--check-conflicts", "--",
      "twice"] = .ok (following "gone") := by
  have hspelled : (following "gone").spelled = ["--schema=gone", "--format=summary",
      "--duplicates=overwrite", "--check-conflicts", "--", "twice"] := by decide +kernel
  have hnames : (following "gone").NamesFiles := ⟨by decide, by rintro _ ⟨⟩; decide, nofun⟩
  rw [← hspelled]
  exact Arguments.ofList_spelled hnames fun _ => rfl

theorem loads_redefining {args : Arguments} (hinputs : args.inputs = ["twice"])
    (hschema : args.schema? = none) :
    Loads redefining args args.presetSchema [redefining.content] := by
  refine ⟨.inl ?_, ?_, fun _ => rfl, ?_⟩
  · rw [hinputs]
    exact List.cons_ne_nil _ _
  · intro path hpath
    rw [hschema] at hpath
    cases hpath
  · rw [hinputs]
    rfl

theorem report_redefining (denyWarnings : Bool) :
    let report := (checking ["twice"] denyWarnings).report .qcpu [redefining.content]
    report.diagnostics.map (·.severity) = [.warning] ∧ report.table.records.length = 1 := by
  decide +kernel +revert

theorem passes_redefining :
    Passes (checking ["twice"] false)
      ((checking ["twice"] false).report .qcpu [redefining.content]) := by
  obtain ⟨hseverities, hlength⟩ := report_redefining false
  refine ⟨?_, nofun, ?_⟩
  · intro d hd herror
    have hmem := List.mem_map_of_mem (f := (·.severity)) hd
    rw [hseverities, herror] at hmem
    exact absurd hmem (by decide)
  · -- the only record has no other to share a word with
    intro _ word i j a b hi hj _ _
    obtain ⟨hi, -⟩ := List.getElem?_eq_some_iff.mp hi
    obtain ⟨hj, -⟩ := List.getElem?_eq_some_iff.mp hj
    omega

theorem not_passes_redefining :
    ¬ Passes (checking ["twice"] true)
      ((checking ["twice"] true).report .qcpu [redefining.content]) := by
  intro h
  obtain ⟨hseverities, -⟩ := report_redefining true
  have hwarning := List.mem_singleton_self Severity.warning
  rw [← hseverities, List.mem_map] at hwarning
  obtain ⟨d, hd, hseverity⟩ := hwarning
  exact h.warnings rfl d hd hseverity

/-- The warning about the second definition makes the run fail only if that is asked for, and the
table is written in both cases. With a file that is not there nothing is written, be it an input or
the schema. The table of a run with the bundled instructions is written to the file that is named
and in the format that is asked for. -/
theorem perform_outcome_redefining :
    let report := (checking ["twice"] true).report .qcpu [redefining.content]
    let denying := perform redefining none ["twice", "--check-conflicts", "--deny-warnings"]
    let accepting := perform redefining none ["twice", "--check-conflicts"]
    let missing := perform redefining none ["twice", "gone", "--check-conflicts"]
    let kept := perform redefining none
      ["--builtin=base", "--format=json", "--output=table.json", "--duplicates=reject",
        "--check-conflicts", "--", "twice"]
    let schemaless := perform redefining none
      ["--schema=gone", "--format=summary", "--duplicates=overwrite", "--check-conflicts", "--",
        "twice"]
    denying.exitCode ≠ 0 ∧ denying.stdout = report.table.render .summary ∧
      denying.written? = none ∧ accepting.exitCode = 0 ∧ accepting.stdout = denying.stdout ∧
      missing.exitCode ≠ 0 ∧ missing.stdout = "" ∧ missing.written? = none ∧
      kept.stdout = "" ∧ kept.written? =
        some ("table.json", (keeping.report .qcpu [redefining.content]).table.render .json) ∧
      schemaless.exitCode ≠ 0 ∧ schemaless.stdout = "" ∧ schemaless.written? = none := by
  intro report denying accepting missing
  dsimp only
  have hdenying : Arguments.ofList none ["twice", "--check-conflicts", "--deny-warnings"] =
      .ok (checking ["twice"] true) := Except.eq_ok_of_toOption (by decide +kernel)
  have haccepting : Arguments.ofList none ["twice", "--check-conflicts"] =
      .ok (checking ["twice"] false) := Except.eq_ok_of_toOption (by decide +kernel)
  have hmissing : Arguments.ofList none ["twice", "gone", "--check-conflicts"] =
      .ok (checking ["twice", "gone"] false) := Except.eq_ok_of_toOption (by decide +kernel)
  have hloads : ∀ deny, Loads redefining (checking ["twice"] deny) .qcpu [redefining.content] :=
    fun _ => loads_redefining rfl rfl
  have hwrite : ∀ deny, CanWrite redefining (checking ["twice"] deny) := fun _ _ _ => rfl
  have hgone : ¬ ∃ schema contents,
      Loads redefining (checking ["twice", "gone"] false) schema contents :=
    not_loads_of_read_eq_error (List.mem_cons_of_mem _ (List.mem_singleton_self _)) rfl
  have hschemaless : ¬ ∃ schema contents, Loads redefining (following "gone") schema contents :=
    not_loads_of_schema_eq_error rfl rfl
  obtain ⟨hexit, -, htable⟩ := @perform_outcome redefining none _ _ hdenying
  obtain ⟨hstdout, hwritten, -, -⟩ := htable _ _ (hloads true) (hwrite true)
  obtain ⟨hexit', -, htable'⟩ := @perform_outcome redefining none _ _ haccepting
  obtain ⟨hstdout', -⟩ := htable' _ _ (hloads false) (hwrite false)
  obtain ⟨hexit'', hnothing, -⟩ := @perform_outcome redefining none _ _ hmissing
  obtain ⟨-, -, htableKept⟩ := @perform_outcome redefining none _ _ ofList_keeping
  obtain ⟨hstdoutKept, hwrittenKept, -, -⟩ :=
    htableKept _ _ (loads_redefining rfl rfl) fun _ _ => rfl
  have houtput : keeping.output? = some "table.json" := rfl
  simp only [houtput, reduceCtorEq, if_false, Option.map_some] at hstdoutKept hwrittenKept
  obtain ⟨hexitFile, hnothingFile, -⟩ := @perform_outcome redefining none _ _ ofList_following
  refine ⟨?_, hstdout, hwritten, hexit'.mpr ⟨_, _, hloads false, hwrite false, passes_redefining⟩,
    hstdout'.trans hstdout.symm, ?_, (hnothing hgone).1, (hnothing hgone).2, hstdoutKept,
    hwrittenKept, ?_, (hnothingFile hschemaless).1, (hnothingFile hschemaless).2⟩
  · intro hzero
    obtain ⟨schema, contents, h, -, hpasses⟩ := hexit.mp hzero
    obtain ⟨rfl, rfl⟩ := h.unique (hloads true)
    exact not_passes_redefining hpasses
  · intro hzero
    obtain ⟨schema, contents, h, -⟩ := hexit''.mp hzero
    exact hgone ⟨schema, contents, h⟩
  · intro hzero
    obtain ⟨schema, contents, h, -⟩ := hexitFile.mp hzero
    exact hschemaless ⟨schema, contents, h⟩

end CommandLine

end OpTable
