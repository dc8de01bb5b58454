import OpTable.Record.Operands
import OpTable.Table.Basic

/-!
# Decoding words by a table

A decoder sorts the records of a table into buckets by the value of their opcode. A word is looked
up in the bucket of its own low bits, as many as the widest opcode has, and the first record there
that it matches is its instruction.
-/

namespace OpTable

structure Decoded where
  word : Word
  record : Record
  operands : Operands

namespace Decoded

def immediateValue? (d : Decoded) (field : String) : Option Int :=
  match d.operands.immediates.get? field with
  | some raw => d.record.immediateValue? field raw
  | none => none

/-- The registers and then the immediates, each with its value. -/
def operandTexts (d : Decoded) : List String :=
  d.record.operandRoles.filterMap
      (fun role => (d.operands.registers.get? role).map fun value => s!"{role}={value.toNat}")
    ++ d.record.immediateFields.filterMap
      fun field => (d.immediateValue? field).map fun value => s!"{field}={value}"

def text (d : Decoded) : String :=
  let operands := d.operandTexts
  d.record.mnemonic ++ if operands.isEmpty then "" else " " ++ ", ".intercalate operands

end Decoded

structure Decoder where
  schemaName : String
  size : Nat
  /-- The width of the widest opcode. -/
  opcodeWidth : Nat
  /-- The records of each opcode value, in the order of the table. -/
  buckets : List (Word × List Record)

namespace Decoder

def addToBucket (r : Record) : List (Word × List Record) → List (Word × List Record)
  | [] => [(r.opcode.value, [r])]
  | (opcode, records) :: rest =>
    if opcode = r.opcode.value then (opcode, records ++ [r]) :: rest
    else (opcode, records) :: addToBucket r rest

def ofTable (table : Table) : Decoder where
  schemaName := table.schemaName
  size := table.size
  opcodeWidth := (table.records.map (·.opcode.width)).foldl max 0
  buckets := table.records.foldl (fun buckets r => addToBucket r buckets) []

/-- The instruction that a word stands for; of several that match, the first in the table. -/
def decode? (d : Decoder) (word : Word) : Option Decoded :=
  match d.buckets.lookup (word &&& Word.lowMask d.opcodeWidth) with
  | none => none
  | some records =>
    match records.find? fun r => decide (r.Matches word) with
    | some r => some ⟨word, r, r.decodeOperands word⟩
    | none => none

def opcodeCount (d : Decoder) : Nat := d.buckets.length

def describe (d : Decoder) : String :=
  s!"TableDecoder \x7b schema: {Text.quote d.schemaName}, records: {d.size}, "
    ++ s!"opcodes: {d.opcodeCount} \x7d"

end Decoder

end OpTable
