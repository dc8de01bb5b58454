import OpTable.Files.Access

/-!
# File trees

A `FileTree` holds files in directories, and one of the directories is the place that paths start
from. The names of a path lead on from there: `.` stays where it is, and `..` goes back. A path with
a slash in front starts at the top, which is its own parent. Names and paths have a greatest length.
-/

namespace OpTable

/-- Files by the names that lead to them from the top, and the directory that paths start from. -/
structure FileTree where
  start : List String
  /-- The files; the first entry of a place counts. -/
  files : List (List String × List UInt8)

namespace FileTree

/-- Whether the names lead to a directory: one on the way to the start or to a file. -/
def isDirectory (t : FileTree) (names : List String) : Bool :=
  names.isPrefixOf t.start || t.files.any fun file => names.isPrefixOf file.1 && names ≠ file.1

def content? (t : FileTree) (names : List String) : Option (List UInt8) := t.files.lookup names

/-! ### Paths -/

/-- The most bytes that a name may have. -/
def longestName : Nat := 255

/-- The most bytes that a path may have. -/
def longestPath : Nat := 4095

def names (path : String) : List String :=
  ((path.toList.splitOnP (· == '/')).filter (!·.isEmpty)).map String.ofList

/-- Whether the path starts at the top, as it starts with a slash. -/
def startsAtTop (path : String) : Bool := path.toList.head? == some '/'

/-- Whether the path can only be one of a directory, as it ends in a slash. -/
def endsInSlash (path : String) : Bool := path.toList.getLast? == some '/'

/-- Where names lead from a place. All but the last have to be directories. -/
def walk (t : FileTree) (place : List String) : List String → Except FileFault (List String)
  | [] => .ok place
  | name :: rest =>
    if t.isDirectory place then
      if name = "." then walk t place rest
      else if name = ".." then walk t place.dropLast rest
      else if longestName < name.utf8ByteSize then .error .nameTooLong
      else walk t (place ++ [name]) rest
    else if (t.content? place).isSome then .error .notDirectory
    else .error .missing

def follow (t : FileTree) (path : String) (names : List String) :
    Except FileFault (List String) :=
  if path.toList.contains '\x00' then .error .nulInName
  else if path.isEmpty then .error .missing
  else if longestPath < path.utf8ByteSize then .error .nameTooLong
  else walk t (if startsAtTop path then [] else t.start) names

def locate (t : FileTree) (path : String) : Except FileFault (List String) :=
  follow t path (names path)

/-- Where the names of a path lead without the last one, which has to be a directory. -/
def locateParent (t : FileTree) (path : String) : Except FileFault (List String) :=
  follow t path ((names path).dropLast ++ ["."])

/-! ### Reading and writing -/

def read (t : FileTree) (path : String) : Except FileFault (List UInt8) :=
  match t.locate path with
  | .error fault => .error fault
  | .ok place =>
    if t.isDirectory place then .error .directory
    else
      match t.content? place with
      | none => .error .missing
      | some content => if endsInSlash path then .error .notDirectory else .ok content

/-- Where a file is created for a path. If the path can only be one of a directory, its last name is
not looked at. -/
def target (t : FileTree) (path : String) : Except FileFault (List String) :=
  if endsInSlash path then
    match t.locateParent path with
    | .error fault => .error fault
    | .ok _ => .error .directory
  else
    match t.locate path with
    | .error fault => .error fault
    | .ok place => if t.isDirectory place then .error .directory else .ok place

def write (t : FileTree) (path : String) (content : List UInt8) : Except FileFault FileTree :=
  (t.target path).map fun place =>
    { t with files := (place, content) :: t.files.filter fun file => file.1 ≠ place }

def access (t : FileTree) : FileAccess where
  read := t.read
  create := fun path => (t.target path).map fun _ => ()

end FileTree

end OpTable
