import OpTable.Bundled
import OpTable.Diagnostic
import OpTable.Table.Basic
import OpTable.Text.Lines

/-!
# Compilation

A `Compiler` takes in specification lines, from texts, byte streams or the bundled specifications,
and fills a table. A line that defines nothing leaves diagnostics and no trace in the table.
-/

namespace OpTable

structure Report where
  table : Table
  /-- The diagnostics, in the order of the lines. -/
  diagnostics : List Diagnostic

namespace Report

def errorCount (report : Report) : Nat := (report.diagnostics.filter (·.isError)).length

def warningCount (report : Report) : Nat := report.diagnostics.length - report.errorCount

def hasErrors (report : Report) : Bool := report.diagnostics.any (·.isError)

def isClean (report : Report) : Bool := report.diagnostics.isEmpty

/-- The errors without their places. -/
def errors (report : Report) : List CompileError :=
  (report.diagnostics.filter (·.isError)).map (·.error)

end Report

structure Compiler where
  schema : Schema
  builder : TableBuilder
  diagnostics : List Diagnostic

namespace Compiler

/-- A compilation that has seen no line, if the schema can be used. -/
def start (schema : Schema) (policy : DuplicatePolicy) : Except CompileError Compiler :=
  match schema.check with
  | .ok () => .ok ⟨schema, .start schema.name policy, []⟩
  | .error fault => .error (.schema (.unusable fault))

/-! ### Lines -/

/-- What a line says: the record that it defines, or what is wrong with it. -/
inductive Reading where
  | blank
  | faulty (errors : List CompileError)
  | defines (record : Record)

def Reading.ofLine (schema : Schema) (line : Nat) (text : String) : Reading :=
  match SpecLine.Content.ofText text with
  | .blank => .blank
  | .lone _ => .faulty [.malformedLine 1]
  | .definition spec =>
    match Encoding.ofLine schema spec with
    | .ok encoding => .defines (.define spec.mnemonic line encoding)
    | .error errors => .faulty errors

/-- What there is to say about a record that was taken in. -/
def duplicate? (policy : DuplicatePolicy) (mnemonic : String) :
    Added → Option (Severity × CompileError)
  | .inserted => none
  | .replaced previousLine =>
    if policy = .overwrite then some (.warning, .duplicateMnemonic mnemonic previousLine) else none
  | .kept firstLine => some (.error, .duplicateMnemonic mnemonic firstLine)

def compileLine (c : Compiler) (origin : String) (line : Nat) (text : String) : Compiler :=
  match Reading.ofLine c.schema line text with
  | .blank => c
  | .faulty errors =>
    { c with diagnostics :=
        c.diagnostics ++ errors.map (Diagnostic.about origin line text .error) }
  | .defines record =>
    let (builder, added) := c.builder.add record
    match duplicate? c.builder.policy record.mnemonic added with
    | none => { c with builder }
    | some (severity, error) =>
      { c with
        builder
        diagnostics := c.diagnostics ++ [Diagnostic.about origin line text severity error] }

/-! ### Texts -/

/-- Compiles lines of a source, the first of which is number `line`. -/
def compileLines (c : Compiler) (origin : String) (line : Nat) : List (List Char) → Compiler
  | [] => c
  | text :: rest =>
    compileLines (c.compileLine origin line (String.ofList text)) origin (line + 1) rest

def compileText (c : Compiler) (origin : String) (text : String) : Compiler :=
  c.compileLines origin 1 (Text.Line.ofText text.toList)

def compileSource (c : Compiler) (source : Source) : Compiler :=
  c.compileText source.origin source.text

def compileBundled (c : Compiler) (bundled : Bundled) : Compiler :=
  bundled.sources.foldl compileSource c

/-! ### Byte streams -/

/-- Compiles a line of a byte stream. A line that is not UTF-8 is an error. -/
def compileByteLine (c : Compiler) (origin : String) (line : Nat) (bytes : List UInt8) : Compiler :=
  match Text.Utf8.decode bytes with
  | .ok text => c.compileLine origin line (String.ofList text)
  | .error fault =>
    let text := String.ofList (Text.Utf8.decodeLossy bytes)
    { c with diagnostics :=
        c.diagnostics ++ [Diagnostic.about origin line text .error (.invalidUtf8 fault)] }

def compileByteLines (c : Compiler) (origin : String) (line : Nat) : List (List UInt8) → Compiler
  | [] => c
  | bytes :: rest => compileByteLines (c.compileByteLine origin line bytes) origin (line + 1) rest

def compileBytes (c : Compiler) (origin : String) (bytes : List UInt8) : Compiler :=
  c.compileByteLines origin 1 (Text.Line.ofBytes bytes)

/-! ### Steps -/

/-- Something that a compiler takes in. -/
inductive Step where
  | line (origin : String) (number : Nat) (text : String)
  | text (origin text : String)
  | bytes (origin : String) (bytes : List UInt8)
  | bundled (choice : Bundled)

def perform (c : Compiler) : Step → Compiler
  | .line origin number text => c.compileLine origin number text
  | .text origin text => c.compileText origin text
  | .bytes origin bytes => c.compileBytes origin bytes
  | .bundled choice => c.compileBundled choice

def performAll (c : Compiler) (steps : List Step) : Compiler := steps.foldl perform c

/-! ### The end -/

def finish (c : Compiler) : Report := ⟨c.builder.finish, c.diagnostics⟩

end Compiler

def compileText (schema : Schema) (policy : DuplicatePolicy) (text : String) :
    Except CompileError Report :=
  (Compiler.start schema policy).map fun c => (c.compileText "<input>" text).finish

/-- Compiles bundled specifications under the schema they are written for. -/
def compileBundled (bundled : Bundled) (policy : DuplicatePolicy) : Except CompileError Report :=
  (Compiler.start bundled.schema policy).map fun c => (c.compileBundled bundled).finish

end OpTable
