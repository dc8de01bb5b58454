import OpTable.Schema.Reader
import OpTable.CompileError
import OpTable.Toml.Document

/-!
# Schemas written in TOML

Numbers of more than 64 bits do no harm where nothing needs them. A document with such numbers that
does not fit counts as malformed.
-/

namespace OpTable.Schema

/-- The schema that a TOML document describes, if it can be used. -/
def ofToml (text : String) : Except CompileError Schema :=
  match Toml.document text with
  | .error .malformed => .error (.schema .malformed)
  | .error .tooDeep => .error (.schema .tooDeep)
  | .ok entries =>
    match ofEntries Datum.Style.toml entries with
    | .error reason =>
      if (Datum.table entries).hasPlainNumbers then .error (.schema (.misfit reason))
      else .error (.schema .malformed)
    | .ok schema =>
      match schema.check with
      | .error reason => .error (.schema (.unusable reason))
      | .ok () => .ok schema

end OpTable.Schema
