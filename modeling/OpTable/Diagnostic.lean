import OpTable.CompileError
import OpTable.Text.Blank

/-!
# Diagnostics

A diagnostic says what is wrong with a line of a source and how grave it is.
-/

namespace OpTable

inductive Severity where
  /-- The table is as the source asks. -/
  | warning
  /-- Something is missing from the table. -/
  | error
deriving DecidableEq

def Severity.text : Severity → String
  | .warning => "warning"
  | .error => "error"

structure Diagnostic where
  origin : String
  /-- The number of the line, from 1. -/
  line : Nat
  /-- The line without blanks at its ends. -/
  text : String
  severity : Severity
  error : CompileError

namespace Diagnostic

/-- The diagnostic about a line as it stands in the source. -/
def about (origin : String) (line : Nat) (text : String) (severity : Severity)
    (error : CompileError) : Diagnostic :=
  ⟨origin, line, String.ofList (Text.trim text.toList), severity, error⟩

def isError (d : Diagnostic) : Bool := d.severity == .error

/-- Where and what, with the line below unless it is empty. -/
def display (d : Diagnostic) : String :=
  s!"{d.origin}:{d.line}: {d.severity.text} [{d.error.kind}]: {d.error.message}"
    ++ if d.text.isEmpty then "" else "\n    | " ++ d.text

end Diagnostic

end OpTable
