import OpTable.Table.Conflict

/-!
# Summary

A table for people to read: one line for each record, and what conflicts there are.
-/

namespace OpTable.Render.Summary

/-- The text, followed by blanks up to `width` characters. -/
def column (width : Nat) (text : String) : String :=
  String.ofList (text.toList.rightpad width ' ')

def orDash (text : String) : String := if text.isEmpty then "-" else text

structure Row where
  mnemonic : String
  mask : String
  matchValue : String
  funct3 : String
  funct7 : String
  operands : String
  immediate : String

/-- The cells in columns; the mnemonics take `nameWidth` characters. -/
def Row.text (nameWidth : Nat) (row : Row) : String :=
  "  ".intercalate [column nameWidth row.mnemonic, column 10 row.mask, column 10 row.matchValue,
    column 8 row.funct3, column 8 row.funct7, column 14 row.operands, row.immediate]

def headings : Row := ⟨"MNEMONIC", "MASK", "MATCH", "FUNCT3", "FUNCT7", "OPERANDS", "IMMEDIATE"⟩

def Row.ofRecord (r : Record) : Row where
  mnemonic := r.mnemonic
  mask := s!"0x{r.mask.hex 8}"
  matchValue := s!"0x{r.matchValue.hex 8}"
  funct3 := (r.funct3.map (·.text)).getD "-"
  funct7 := (r.funct7.map (·.text)).getD "-"
  operands := orDash (",".intercalate r.operandRoles)
  immediate := orDash (" ".intercalate (r.immediateAssembly.map (·.text)))

/-- The number of characters that mnemonics take: as many as the longest has bytes, and no fewer
than the heading. -/
def nameWidth (table : Table) : Nat :=
  (table.records.map fun r => Text.Utf8.byteLength r.mnemonic.toList).foldl max
    headings.mnemonic.length

def conflictLines (conflicts : List Conflict) : List String :=
  if conflicts.isEmpty then ["状态: ✓ 无冲突"]
  else s!"状态: ✗ {conflicts.length} 个冲突" :: conflicts.map fun c => s!"  - {c.text}"

def lines (table : Table) : List String :=
  let width := nameWidth table
  [s!"Schema: {table.schemaName}", s!"指令数: {table.size}", headings.text width]
    ++ table.records.map (fun r => (Row.ofRecord r).text width)
    ++ conflictLines table.conflicts

/-- The table for people to read. -/
def text (table : Table) : String := String.join ((lines table).map (· ++ "\n"))

end OpTable.Render.Summary
