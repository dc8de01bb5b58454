import OpTable.Toml.Source

/-!
# TOML documents

A document defines entries, one after the other, in the table that the last header opened. A
definition may add to what stands there and never changes it: `Node` remembers how a table came
about, and with it who may still add entries. Read from end to end, a document is a data tree with
the entries of each table in the order of their keys. The first definition at fault decides why a
text is no document.
-/

namespace OpTable.Toml

inductive Fault where
  | malformed
  | tooDeep
deriving DecidableEq

def orMalformed {α : Type} : Option α → Except Fault α
  | some a => .ok a
  | none => .error .malformed

/-! ### Keys -/

/-- The most parts that a key may have. -/
def longestKey : Nat := 80

/-- Reads a key: the parts before the last, and the last. All parts are read before they are
counted. -/
def readKey (lexemes : List Lexeme) : Except Fault (List String × String) := do
  let parts ← orMalformed (lexemes.mapM Lexeme.key?)
  if longestKey < parts.length then .error .tooDeep
  else return (parts.dropLast, ← orMalformed parts.getLast?)

/-! ### Definitions -/

/-- How a table came about. -/
inductive Origin where
  /-- A header names it. -/
  | header
  /-- A header names a table inside it. -/
  | implied
  /-- A key with dots goes through it. -/
  | dotted
deriving DecidableEq

/-- What a key stands for while the document is read. -/
inductive Node where
  | value (datum : Datum)
  | table (origin : Origin) (entries : List (String × Node))
  /-- Tables under headers in double brackets; entries go to the last one. -/
  | tables (items : List (List (String × Node)))

/-- Entries of a table, in the order of their definition. -/
abbrev Entries := List (String × Node)

namespace Entries

def set (key : String) (node : Node) : Entries → Entries
  | [] => [(key, node)]
  | entry :: rest => if entry.1 = key then (key, node) :: rest else entry :: set key node rest

def atLast (f : Entries → Option Entries) (items : List Entries) : Option (List Entries) := do
  let last ← items.getLast?
  return items.dropLast ++ [← f last]

/-- Defines a key that may have dots: `path` are the parts before the last. Only a table that such
keys made can be added to; on the way to it the key goes through tables that no header names, and
through the last of some tables in double brackets. -/
def define (node : Node) : (path : List String) → (key : String) → Entries → Option Entries
  | [], key, entries =>
    match entries.lookup key with
    | none => some (entries ++ [(key, node)])
    | some _ => none
  | first :: path, key, entries =>
    match entries.lookup first with
    | none => do return entries.set first (.table .dotted (← define node path key []))
    | some (.table origin sub) =>
      if origin = .dotted ∨ (origin = .implied ∧ path ≠ []) then do
        return entries.set first (.table origin (← define node path key sub))
      else none
    | some (.tables items) =>
      if path = [] then none
      else do return entries.set first (.tables (← atLast (define node path key) items))
    | some (.value _) => none

/-- Changes what the key of a header stands for. The way there leads through tables of any origin,
and through the last of some tables in double brackets. -/
def change (f : Option Node → Option Node) :
    (path : List String) → (key : String) → Entries → Option Entries
  | [], key, entries => do return entries.set key (← f (entries.lookup key))
  | first :: path, key, entries =>
    match entries.lookup first with
    | none => do return entries.set first (.table .implied (← change f path key []))
    | some (.table origin sub) => do
      return entries.set first (.table origin (← change f path key sub))
    | some (.tables items) => do
      return entries.set first (.tables (← atLast (change f path key) items))
    | some (.value _) => none

/-- What the key of a header stands for. -/
def find? : (path : List String) → (key : String) → Entries → Option Node
  | [], key, entries => entries.lookup key
  | first :: path, key, entries =>
    match entries.lookup first with
    | some (.table _ sub) => find? path key sub
    | some (.tables items) => do find? path key (← items.getLast?)
    | _ => none

end Entries

/-- Opens a table under a header: a new one, or one that only other headers imply. -/
def Node.opened? : Option Node → Option Node
  | none => some (.table .header [])
  | some (.table .implied entries) => some (.table .header entries)
  | some _ => none

/-- Adds a table under a header in double brackets. -/
def Node.added? (entries : Entries) : Option Node → Option Node
  | none => some (.tables [entries])
  | some (.tables items) => some (.tables (items ++ [entries]))
  | some _ => none

/-- The entries of a table; none for anything else. -/
def Node.entries : Option Node → Entries
  | some (.table _ entries) => entries
  | _ => []

mutual

def Node.toDatum : Node → Datum
  | .value datum => datum
  | .table _ entries => .table (Datum.sortEntries (entriesToData entries))
  | .tables items => .list (tablesToData items)

def entriesToData : List (String × Node) → List (String × Datum)
  | [] => []
  | (key, node) :: rest => (key, node.toDatum) :: entriesToData rest

def tablesToData : List (List (String × Node)) → List Datum
  | [] => []
  | entries :: rest =>
    .table (Datum.sortEntries (entriesToData entries)) :: tablesToData rest

end

/-! ### Values -/

def Lexeme.datum? (lexeme : Lexeme) : Option Datum :=
  match lexeme.form with
  | .bare => bare? lexeme.text
  | _ => lexeme.string?.map .text

mutual

def Source.Value.read : Source.Value → Except Fault Datum
  | .scalar lexeme => orMalformed lexeme.datum?
  | .array items => do return .list (← readItems items)
  | .table entries => do
    return .table (Datum.sortEntries (entriesToData (← readEntries [] entries)))

def readItems : List Source.Value → Except Fault (List Datum)
  | [] => .ok []
  | item :: rest => do return (← item.read) :: (← readItems rest)

/-- Reads entries one after the other, and defines them in a table. -/
def readEntries (table : Entries) :
    List (List Lexeme × Source.Value) → Except Fault Entries
  | [] => .ok table
  | (key, value) :: rest => do
    let (path, key) ← readKey key
    let datum ← value.read
    readEntries (← orMalformed (table.define (.value datum) path key)) rest

end

/-! ### Documents -/

/-- Adds a header with its entries to a document. A table in double brackets takes its place after
its entries were read. -/
def readSection (document : Entries) (part : Source.Section) : Except Fault Entries := do
  let (path, key) ← readKey part.key
  if part.double then
    let table ← readEntries [] part.entries
    orMalformed (document.change (Node.added? table) path key)
  else
    let document ← orMalformed (document.change Node.opened? path key)
    let table ← readEntries (Node.entries (document.find? path key)) part.entries
    orMalformed (document.change (fun _ => some (.table .header table)) path key)

def Source.read (source : Source) : Except Fault Entries := do
  source.sections.foldlM readSection (← readEntries [] source.entries)

def document (text : String) : Except Fault (List (String × Datum)) := do
  let source ← orMalformed (Source.ofText? text)
  return Datum.sortEntries (entriesToData (← source.read))

end OpTable.Toml
