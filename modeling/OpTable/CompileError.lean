import OpTable.Datum
import OpTable.Schema.Validity
import OpTable.Text.Utf8
import OpTable.Token

/-!
# Errors of compilation

`CompileError` gathers what can go wrong between the specification and the table. All of them but
the last two concern one line: such a line defines nothing, and the other lines are compiled all the
same.
-/

namespace OpTable

inductive SchemaError where
  /-- The text is no TOML document, or none whose numbers have 64 bits. -/
  | malformed
  | tooDeep
  /-- The document does not have the shape of a schema. -/
  | misfit (reason : Datum.Misfit)
  | unusable (reason : SchemaFault)

def SchemaError.message : SchemaError → String
  | .malformed => "not a well-formed TOML document"
  | .tooDeep => "recursion limit\n"
  | .misfit reason => reason.message Datum.Style.toml
  | .unusable reason => reason.message

inductive FileFault where
  /-- There is no such file, or no directory to hold it. -/
  | missing
  /-- A part of the path is a file and no directory. -/
  | notDirectory
  | directory
  /-- The path, or a name in it, is too long. -/
  | nameTooLong
  | nulInName
  | notUtf8
  /-- Another fault, in the words of the system. -/
  | other (text : String)
deriving DecidableEq

def FileFault.message : FileFault → String
  | .missing => "No such file or directory (os error 2)"
  | .notDirectory => "Not a directory (os error 20)"
  | .directory => "Is a directory (os error 21)"
  | .nameTooLong => "File name too long (os error 36)"
  | .nulInName => "file name contained an unexpected NUL byte"
  | .notUtf8 => "stream did not contain valid UTF-8"
  | .other text => text

inductive OpcodeFault where
  /-- The literal has another width than opcodes. -/
  | width (expected found : Nat)
  | kind (found : Token)
deriving DecidableEq

def OpcodeFault.message : OpcodeFault → String
  | .width expected found => s!"expected {expected} bits, found {found}"
  | .kind found => s!"opcode must be literal bits, found {found.kindName}"

inductive CompileError where
  /-- The line has too few tokens. -/
  | malformedLine (found : Nat)
  | unclassifiableToken (token : String) (reason : TokenFault)
  | duplicateMnemonic (mnemonic : String) (previousLine : Nat)
  | invalidUtf8 (reason : Text.Utf8.Fault)
  | invalidOpcode (token : String) (reason : OpcodeFault)
  /-- The tokens have the wrong width in all. -/
  | widthMismatch (schema : String) (expected found : Nat)
  | schema (reason : SchemaError)
  | file (path : String) (reason : FileFault)

namespace CompileError

def kind : CompileError → String
  | malformedLine _ => "MalformedLine"
  | unclassifiableToken _ _ => "UnclassifiableToken"
  | duplicateMnemonic _ _ => "DuplicateMnemonic"
  | invalidUtf8 _ => "InvalidUtf8"
  | invalidOpcode _ _ => "InvalidOpcode"
  | widthMismatch _ _ _ => "WidthMismatch"
  | schema _ => "Schema"
  | file _ _ => "Io"

def message : CompileError → String
  | malformedLine found =>
    s!"malformed line: expected mnemonic, field tokens and opcode, found {found} token(s)"
  | unclassifiableToken token reason => s!"unclassifiable token `{token}`: {reason.message}"
  | duplicateMnemonic mnemonic previousLine =>
    s!"duplicate mnemonic `{mnemonic}` (previously defined at line {previousLine})"
  | invalidUtf8 reason => s!"line is not valid UTF-8: {reason.message}"
  | invalidOpcode token reason => s!"invalid opcode `{token}`: {reason.message}"
  | widthMismatch name expected found =>
    s!"instruction layout is {found} bits wide, schema `{name}` expects {expected}"
  | schema reason => s!"invalid schema: {reason.message}"
  | file path reason => s!"I/O error on {path}: {reason.message}"

end CompileError

end OpTable
