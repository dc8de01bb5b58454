import OpTable.Render.Constants
import OpTable.Render.Summary

/-!
# Output formats

A table is written as JSON with all that its records hold, as constants for a program, or as a
summary for people.
-/

namespace OpTable

inductive OutputFormat where
  | json
  | constants
  | summary
deriving DecidableEq

namespace OutputFormat

def text : OutputFormat → String
  | json => "json"
  | constants => "rust"
  | summary => "summary"

/-- The format of a name that is written in lower case. -/
def named? (name : String) : Option OutputFormat :=
  if name = "json" then some json
  else if name = "rust" ∨ name = "rs" then some constants
  else if name = "summary" ∨ name = "text" then some summary
  else none

/-- The format of a name, in letters of either case. -/
def ofText? (name : String) : Option OutputFormat := named? (name.map Char.toLower)

def unknownMessage (name : String) : String :=
  s!"unknown output format `{name.map Char.toLower}`"

end OutputFormat

def Table.render (table : Table) : OutputFormat → String
  | .json => table.toJson.pretty ++ "\n"
  | .constants => Render.Constants.text table
  | .summary => Render.Summary.text table

end OpTable
