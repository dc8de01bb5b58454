import OpTable.Bundled
import OpTable.Render.Format
import OpTable.Table.Basic

/-!
# Arguments of the command line

Arguments are read from left to right. An option takes the next argument for its value, unless that
starts with a dash and is not just a dash, or the value is attached with an equals sign. Single
letters may be put together behind one dash. Everything after `--` is an input.
-/

namespace OpTable.CommandLine

structure Arguments where
  inputs : List String
  /-- Bundled specifications, compiled before the files. -/
  bundled? : Option Bundled
  schema? : Option String
  format : OutputFormat
  /-- The file that is written instead of the standard output. -/
  output? : Option String
  policy : DuplicatePolicy
  /-- Conflicts make the run fail. -/
  checkConflicts : Bool
  /-- Warnings make the run fail. -/
  denyWarnings : Bool
deriving DecidableEq

inductive Stop where
  | version
  | help
  | usage
deriving DecidableEq

/-! ### Options -/

inductive Setting where
  | bundled
  | schema
  | format
  | output
  | policy
deriving DecidableEq

/-- What the name of an option stands for. -/
inductive Switch where
  | setting (setting : Setting)
  | checkConflicts
  | denyWarnings
  | verbose
  | version
  | help
deriving DecidableEq

def longName? (name : String) : Option Switch :=
  if name = "builtin" then some (.setting .bundled)
  else if name = "schema" then some (.setting .schema)
  else if name = "format" then some (.setting .format)
  else if name = "output" then some (.setting .output)
  else if name = "duplicates" then some (.setting .policy)
  else if name = "check-conflicts" then some .checkConflicts
  else if name = "deny-warnings" then some .denyWarnings
  else if name = "verbose" then some .verbose
  else if name = "version" then some .version
  else if name = "help" then some .help
  else none

def letter? (letter : Char) : Option Switch :=
  match letter with
  | 'o' => some (.setting .output)
  | 'v' => some .verbose
  | 'V' => some .version
  | 'h' => some .help
  | _ => none

/-- The format that is called by this very name. -/
def exactFormat? (name : String) : Option OutputFormat :=
  [OutputFormat.json, .constants, .summary].find? fun format => decide (format.text = name)

def exactPolicy? (name : String) : Option DuplicatePolicy :=
  [DuplicatePolicy.overwrite, .silent, .reject].find? fun policy => decide (policy.text = name)

structure Draft where
  inputs : List String
  bundled? : Option Bundled
  schema? : Option String
  format? : Option OutputFormat
  output? : Option String
  policy? : Option DuplicatePolicy
  checkConflicts : Bool
  denyWarnings : Bool

namespace Draft

def empty : Draft := ⟨[], none, none, none, none, none, false, false⟩

/-- A value that is given for the first time and is not empty. -/
def once {α : Type} (old : Option α) (read : String → Option α) (value : String) :
    Except Stop (Option α) :=
  match old, read value with
  | none, some a => if value.isEmpty then .error .usage else .ok (some a)
  | _, _ => .error .usage

def give (draft : Draft) (value : String) : Setting → Except Stop Draft
  | .bundled => do return { draft with bundled? := ← once draft.bundled? Bundled.named? value }
  | .schema => do return { draft with schema? := ← once draft.schema? some value }
  | .format => do return { draft with format? := ← once draft.format? exactFormat? value }
  | .output => do return { draft with output? := ← once draft.output? some value }
  | .policy => do return { draft with policy? := ← once draft.policy? exactPolicy? value }

def addInput (draft : Draft) (path : String) : Except Stop Draft :=
  if path.isEmpty then .error .usage else .ok { draft with inputs := draft.inputs ++ [path] }

def addInputs (draft : Draft) (paths : List String) : Except Stop Draft :=
  paths.foldlM addInput draft

/-- Takes in an option; gives back what still needs a value. -/
def turn (draft : Draft) : Switch → Except Stop (Draft × Option Setting)
  | .setting setting => .ok (draft, some setting)
  | .checkConflicts =>
    if draft.checkConflicts then .error .usage
    else .ok ({ draft with checkConflicts := true }, none)
  | .denyWarnings =>
    if draft.denyWarnings then .error .usage else .ok ({ draft with denyWarnings := true }, none)
  | .verbose => .ok (draft, none)
  | .version => .error .version
  | .help => .error .help

/-- Takes in a long option with the value that is attached to it, if any; gives back what still
needs a value. -/
def long (draft : Draft) (name : String) (attached : Option String) :
    Except Stop (Draft × Option Setting) :=
  match longName? name, attached with
  | none, _ => .error .usage
  | some (.setting setting), some value => do return (← draft.give value setting, none)
  | some _, some _ => .error .usage
  | some option, none => draft.turn option

/-- Takes in letters behind a dash; gives back what still needs a value. -/
def letters (draft : Draft) : List Char → Except Stop (Draft × Option Setting)
  | [] => .ok (draft, none)
  | letter :: rest =>
    match letter? letter with
    | none => .error .usage
    | some option =>
      match draft.turn option with
      | .error stop => .error stop
      | .ok (draft, none) => letters draft rest
      | .ok (draft, some setting) =>
        match rest with
        | [] => .ok (draft, some setting)
        | '=' :: value => do return (← draft.give (String.ofList value) setting, none)
        | value => do return (← draft.give (String.ofList value) setting, none)

/-- Takes in one argument other than `--`; gives back what still needs a value. -/
def argument (draft : Draft) (text : String) : Except Stop (Draft × Option Setting) :=
  match text.toList with
  | '-' :: '-' :: rest =>
    let name := String.ofList (rest.takeWhile (· != '='))
    match rest.dropWhile (· != '=') with
    | _ :: value => draft.long name (some (String.ofList value))
    | [] => draft.long name none
  | ['-'] => do return (← draft.addInput text, none)
  | '-' :: rest => draft.letters rest
  | _ => do return (← draft.addInput text, none)

/-- Whether an argument can be the value of the option before it. -/
def isValue (text : String) : Bool := text == "-" || text.toList.head? != some '-'

/-- Takes in arguments; `pending` is the option that needs the next one for its value. -/
def arguments (draft : Draft) (pending : Option Setting) : List String → Except Stop Draft
  | [] =>
    match pending with
    | none => .ok draft
    | some _ => .error .usage
  | text :: rest =>
    match pending with
    | some setting =>
      if isValue text then
        match draft.give text setting with
        | .ok draft => arguments draft none rest
        | .error stop => .error stop
      else .error .usage
    | none =>
      if text = "--" then draft.addInputs rest
      else
        match draft.argument text with
        | .ok (draft, pending) => arguments draft pending rest
        | .error stop => .error stop

end Draft

/-- Reads the arguments of a run. `environment?` is the schema file that the environment names; it
counts when no argument names one. -/
def Arguments.ofList (environment? : Option String) (texts : List String) :
    Except Stop Arguments := do
  let draft ← Draft.empty.arguments none texts
  let schema? ←
    match draft.schema?, environment? with
    | some path, _ => .ok (some path)
    | none, some path => if path.isEmpty then .error .usage else .ok (some path)
    | none, none => .ok none
  return {
    inputs := draft.inputs
    bundled? := draft.bundled?
    schema?
    format := draft.format?.getD .summary
    output? := draft.output?
    policy := draft.policy?.getD .overwrite
    checkConflicts := draft.checkConflicts
    denyWarnings := draft.denyWarnings }

end OpTable.CommandLine
