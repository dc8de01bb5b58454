import OpTable.Compiler
import OpTable.Render.Format
import OpTable.Schema.Toml

/-!
# Files

`FileAccess` says what reading and creating files gives. Schemas and specifications are read through
it, so that what becomes of them depends on the contents of the files alone.
-/

namespace OpTable

/-- What can be read and written under a path. -/
structure FileAccess where
  read : String → Except FileFault (List UInt8)
  /-- Whether a file can be created, or emptied, at a path. -/
  create : String → Except FileFault Unit

namespace FileAccess

/-- The content of the file at a path, which has to be UTF-8. -/
def readText (files : FileAccess) (path : String) : Except FileFault String :=
  match files.read path with
  | .error fault => .error fault
  | .ok bytes =>
    match Text.Utf8.decode bytes with
    | .ok text => .ok (String.ofList text)
    | .error _ => .error .notUtf8

def schema (files : FileAccess) (path : String) : Except CompileError Schema :=
  match files.readText path with
  | .error fault => .error (.file path fault)
  | .ok text => Schema.ofToml text

def compile (files : FileAccess) (c : Compiler) (path : String) : Except CompileError Compiler :=
  match files.read path with
  | .error fault => .error (.file path fault)
  | .ok bytes => .ok (c.compileBytes path bytes)

/-- Compiles files one after the other, up to the first that cannot be read. -/
def compileAll (files : FileAccess) (c : Compiler) : List String → Except CompileError Compiler
  | [] => .ok c
  | path :: rest =>
    match files.compile c path with
    | .error e => .error e
    | .ok c => compileAll files c rest

def writable (files : FileAccess) (path : String) (table : Table) (format : OutputFormat) :
    Except CompileError String :=
  match files.create path with
  | .error fault => .error (.file path fault)
  | .ok () => .ok (table.render format)

end FileAccess

end OpTable
