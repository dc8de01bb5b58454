import OpTable.CommandLine.Arguments
import OpTable.Files.Access
import OpTable.Table.Conflict

/-!
# Runs of the command line

A run compiles the bundled specifications and then the input files, and writes the table. It fails
when something cannot be read or written, on errors, and, if the arguments say so, on warnings and
on conflicts; the table is written all the same when only diagnostics or conflicts make it fail.

Two things that a program does are not part of an outcome. A text for the standard output or the
standard error output is taken to arrive: of all that is written, only the file for the table can
fail. And no run keeps a log: the option that asks for a more verbose one is accepted and changes
nothing, and diagnostics and conflicts are counted, but not printed one by one.
-/

namespace OpTable.CommandLine

structure Outcome where
  exitCode : Nat
  stdout : String
  stderr : String
  /-- The file that is written, with its text. -/
  written? : Option (String × String)
deriving DecidableEq

inductive Failure where
  | noInput
  /-- The schema file gives no schema. -/
  | schemaFile (path : String) (reason : CompileError)
  /-- The schema cannot be used. -/
  | schema (reason : CompileError)
  /-- An input cannot be read, or the output cannot be written. -/
  | file (reason : CompileError)

/-- The sentence of an error and what it comes from. -/
def chain (e : CompileError) : String :=
  match e with
  | .file _ reason => s!"{e.message}: {reason.message}"
  | _ => e.message

def Failure.message : Failure → String
  | .noInput => "no input: pass spec files or --builtin"
  | .schemaFile path reason => s!"failed to load schema {path}: {chain reason}"
  | .schema reason => s!"invalid schema: {chain reason}"
  | .file reason => chain reason

def Failure.outcome (failure : Failure) : Outcome :=
  ⟨1, "", s!"error: {failure.message}\n", none⟩

/-- The schema of a run: the one in the schema file, else the one that the bundled specifications
are written for, else that of the integer instructions. -/
def schemaOf (files : FileAccess) (args : Arguments) : Except Failure Schema :=
  match args.schema?, args.bundled? with
  | some path, _ =>
    match files.schema path with
    | .ok schema => .ok schema
    | .error e => .error (.schemaFile path e)
  | none, some bundled => .ok bundled.schema
  | none, none => .ok .qcpu

def compile (files : FileAccess) (args : Arguments) : Except Failure Report :=
  if args.inputs = [] ∧ args.bundled? = none then .error .noInput
  else
    match schemaOf files args with
    | .error failure => .error failure
    | .ok schema =>
      match Compiler.start schema args.policy with
      | .error e => .error (.schema e)
      | .ok c =>
        let c :=
          match args.bundled? with
          | some bundled => c.compileBundled bundled
          | none => c
        match files.compileAll c args.inputs with
        | .error e => .error (.file e)
        | .ok c => .ok c.finish

/-- Whether the run fails although there is a table to write. -/
def isFailed (args : Arguments) (report : Report) : Bool :=
  report.hasErrors || (args.denyWarnings && 0 < report.warningCount)
    || (args.checkConflicts && !report.table.conflicts.isEmpty)

/-- The outcome of a run that has written its table. -/
def conclude (args : Arguments) (report : Report) (stdout : String)
    (written? : Option (String × String)) : Outcome :=
  if isFailed args report then
    ⟨1, stdout, s!"{report.errorCount} error(s), {report.warningCount} warning(s)\n", written?⟩
  else ⟨0, stdout, "", written?⟩

def run (files : FileAccess) (args : Arguments) : Outcome :=
  match compile files args with
  | .error failure => failure.outcome
  | .ok report =>
    match args.output? with
    | none => conclude args report (report.table.render args.format) none
    | some path =>
      match files.writable path report.table args.format with
      | .error e => (Failure.file e).outcome
      | .ok text => conclude args report "" (some (path, text))

def versionText : String := "qcpu_tablegen 0.1.0\n"

def usageText : String :=
  "Usage: qcpu_tablegen [--builtin base|float|all] [--schema FILE] [--format json|rust|summary] "
    ++ "[-o FILE] [--duplicates overwrite|silent|reject] [--check-conflicts] [--deny-warnings] "
    ++ "[-v] [INPUT]...\n"

def Stop.outcome : Stop → Outcome
  | .version => ⟨0, versionText, "", none⟩
  | .help => ⟨0, usageText, "", none⟩
  | .usage => ⟨2, "", usageText, none⟩

def perform (files : FileAccess) (environment? : Option String) (texts : List String) : Outcome :=
  match Arguments.ofList environment? texts with
  | .error stop => stop.outcome
  | .ok args => run files args

end OpTable.CommandLine
