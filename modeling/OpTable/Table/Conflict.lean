import OpTable.Table.Basic

/-!
# Conflicts

Two records conflict when some word matches both.
-/

namespace OpTable

/-- Two records and a word that matches both. -/
structure Conflict where
  first : String
  firstLine : Nat
  second : String
  secondLine : Nat
  word : Word
deriving DecidableEq

def Conflict.text (c : Conflict) : String :=
  s!"冲突: {c.first}(行 {c.firstLine}) 与 {c.second}(行 {c.secondLine}) (示例: 0x{c.word.hex 8})"

namespace Record

/-- The two records ask for the same bits wherever both look. -/
def ConflictsWith (a b : Record) : Prop :=
  a.matchValue &&& (a.mask &&& b.mask) = b.matchValue &&& (a.mask &&& b.mask)

instance (a b : Record) : Decidable (a.ConflictsWith b) :=
  inferInstanceAs (Decidable (_ = _))

def conflict (a b : Record) : Conflict :=
  ⟨a.mnemonic, a.line, b.mnemonic, b.line, a.matchValue ||| b.matchValue⟩

/-- The conflicts among records, each earlier one with the later ones in order. -/
def conflicts : List Record → List Conflict
  | [] => []
  | r :: rest => (rest.filter fun later => decide (r.ConflictsWith later)).map r.conflict
      ++ conflicts rest

end Record

def Table.conflicts (table : Table) : List Conflict := Record.conflicts table.records

end OpTable
