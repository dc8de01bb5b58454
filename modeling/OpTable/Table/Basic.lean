import OpTable.Record.Basic
import OpTable.Table.Index

/-!
# Encoding tables

A table holds one record for each mnemonic, in the order in which the mnemonics were first defined,
and an index by which a mnemonic is looked up. A `TableBuilder` fills both; what becomes of a
mnemonic that is defined again is its `DuplicatePolicy`. A new definition takes the place of the old
one in the order, so the index does not change then. The index is not part of the written table.
-/

namespace OpTable

/-- What becomes of a mnemonic that is defined again. -/
inductive DuplicatePolicy where
  /-- The new definition counts, with a warning. -/
  | overwrite
  /-- The new definition counts. -/
  | silent
  /-- The old definition stays, and the new one is an error. -/
  | reject
deriving DecidableEq

namespace DuplicatePolicy

def text : DuplicatePolicy → String
  | overwrite => "overwrite"
  | silent => "silent"
  | reject => "reject"

/-- The policy of a name that is written in lower case. -/
def named? (name : String) : Option DuplicatePolicy :=
  if name = "overwrite" then some overwrite
  else if name = "silent" ∨ name = "silent-overwrite" then some silent
  else if name = "reject" then some reject
  else none

/-- The policy of a name, in letters of either case. -/
def ofText? (name : String) : Option DuplicatePolicy := named? (name.map Char.toLower)

def unknownMessage (name : String) : String :=
  s!"unknown duplicate policy `{name.map Char.toLower}`"

end DuplicatePolicy

/-- What became of a record that was handed in. -/
inductive Added where
  | inserted
  /-- The record took the place of the one defined at `previousLine`. -/
  | replaced (previousLine : Nat)
  /-- The record was dropped for the one defined at `firstLine`. -/
  | kept (firstLine : Nat)
deriving DecidableEq

structure Table where
  schemaName : String
  /-- The records, one for each mnemonic. -/
  records : List Record
  /-- The positions of the records, by their mnemonics. -/
  index : Index
  index_below : index.Below records.length
deriving DecidableEq

namespace Table

/-- The record of a mnemonic, written in letters of either case. -/
def get? (table : Table) (mnemonic : String) : Option Record :=
  (table.index.position? table.index_below (normalizeMnemonic mnemonic)).map table.records.get

def contains (table : Table) (mnemonic : String) : Bool := (table.get? mnemonic).isSome

def size (table : Table) : Nat := table.records.length

def toJson (table : Table) : Json :=
  .object [("schema", .text table.schemaName),
    ("records", .array (table.records.map Record.toJson))]

end Table

structure TableBuilder where
  schemaName : String
  policy : DuplicatePolicy
  records : List Record
  /-- The positions of the records, by their mnemonics. -/
  index : Index
  index_below : index.Below records.length
deriving DecidableEq

namespace TableBuilder

def start (schemaName : String) (policy : DuplicatePolicy) : TableBuilder :=
  ⟨schemaName, policy, [], ∅, Index.below_empty 0⟩

/-- The builder with one more record at the end. -/
def insert (b : TableBuilder) (r : Record) : TableBuilder :=
  { b with
    records := b.records ++ [r]
    index := b.index.insert r.mnemonic b.records.length
    index_below := by
      rw [List.length_append]
      exact b.index_below.insert r.mnemonic }

/-- The builder with a record in the place of an old one. -/
def replace (b : TableBuilder) (i : Fin b.records.length) (r : Record) : TableBuilder :=
  { b with
    records := b.records.set i r
    index_below := by
      rw [List.length_set]
      exact b.index_below }

def add (b : TableBuilder) (r : Record) : TableBuilder × Added :=
  match b.index.position? b.index_below r.mnemonic with
  | none => (b.insert r, .inserted)
  | some i =>
    let previousLine := (b.records.get i).line
    match b.policy with
    | .reject => (b, .kept previousLine)
    | .overwrite => (b.replace i r, .replaced previousLine)
    | .silent => (b.replace i r, .replaced previousLine)

def finish (b : TableBuilder) : Table := ⟨b.schemaName, b.records, b.index, b.index_below⟩

end TableBuilder

end OpTable
