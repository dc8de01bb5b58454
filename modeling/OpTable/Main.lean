import OpTable.CommandLine.Run

/-!
# The program

Reads the files that the arguments name, performs the run on their contents, and writes what it
leaves behind. A standard stream that cannot be written to is a fault of the system here, and no
outcome of the run.
-/

namespace OpTable.CommandLine

/-- The number of a system error, which may come with a minus sign. -/
def errorNumber (code : UInt32) : UInt32 := if code < 0x80000000 then code else 0 - code

/-- What a fault of the system means for a file. -/
def fileFault : IO.Error → FileFault
  | .noFileOrDirectory _ _ _ => .missing
  | .inappropriateType _ code _ => if errorNumber code = 21 then .directory else .notDirectory
  | e@(.invalidArgument _ code _) =>
    if errorNumber code = 36 then .nameTooLong else .other (toString e)
  | e => .other (toString e)

def readFile (path : String) : IO (Except FileFault (List UInt8)) := do
  try
    return .ok (← IO.FS.readBinFile path).toList
  catch e =>
    return .error (fileFault e)

def writeFile (path text : String) : IO (Except FileFault Unit) := do
  try
    IO.FS.writeFile path text
    return .ok ()
  catch e =>
    return .error (fileFault e)

/-- The files that arguments name for reading. -/
def Arguments.readPaths (args : Arguments) : List String := args.schema?.toList ++ args.inputs

/-- File access to contents that were read before. -/
def loadedFiles (contents : List (String × Except FileFault (List UInt8)))
    (created : Except FileFault Unit) : FileAccess where
  read := fun path => (contents.lookup path).getD (.error .missing)
  create := fun _ => created

def performRun (args : Arguments) : IO Outcome := do
  let mut contents := []
  for path in args.readPaths do
    contents := contents ++ [(path, ← readFile path)]
  let outcome := run (loadedFiles contents (.ok ())) args
  match outcome.written? with
  | none => return outcome
  | some (path, text) =>
    match ← writeFile path text with
    | .ok () => return outcome
    | .error fault => return run (loadedFiles contents (.error fault)) args

end OpTable.CommandLine

open OpTable.CommandLine in
/-- Performs the command that the arguments spell and gives its exit status. -/
def main (args : List String) : IO UInt32 := do
  let environment? ← IO.getEnv "QCPU_TABLEGEN_SCHEMA"
  let outcome ←
    match Arguments.ofList environment? args with
    | .error stop => pure stop.outcome
    | .ok args => performRun args
  IO.print outcome.stdout
  IO.eprint outcome.stderr
  return outcome.exitCode.toUInt32
