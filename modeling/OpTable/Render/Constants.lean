import OpTable.Table.Basic

/-!
# Constants

A table as source text: the type of words, one constant for each record, and the list of all of
them. Words of up to 32 bits are written in eight hexadecimal digits, wider ones in sixteen.
-/

namespace OpTable.Render.Constants

structure WordType where
  name : String
  digits : Nat
deriving DecidableEq

/-- The type for words of up to `width` bits. -/
def wordType (width : Nat) : WordType := if width ≤ 32 then ⟨"u32", 8⟩ else ⟨"u64", 16⟩

/-- The width of the widest word of a table; without records, 32. -/
def widestWord (table : Table) : Nat := ((table.records.map (·.wordWidth)).max?).getD 32

def identifierChar (c : Char) : Char := if c.isAlphanum then c.toUpper else '_'

/-- The name of the constant of a mnemonic: other characters than letters and digits become
underscores, and the name never starts with a digit. -/
def identifier (mnemonic : String) : String :=
  match mnemonic.toList.map identifierChar with
  | c :: rest =>
    if c.isAlpha ∨ c = '_' then String.ofList (c :: rest) else String.ofList ('_' :: c :: rest)
  | [] => "_"

def optionalCode : Option BitString → String
  | some bits => s!"Some({bits.marked})"
  | none => "None"

def quotedList (texts : List String) : String := ", ".intercalate (texts.map Text.quote)

/-- The lines of the constant of a record. -/
def constant (digits : Nat) (r : Record) : List String :=
  [s!"pub const {identifier r.mnemonic}: OpInfo = OpInfo \x7b",
    s!"    mnemonic: {Text.quote r.mnemonic},",
    s!"    opcode: {r.opcode.marked},",
    s!"    funct3: {optionalCode r.funct3},",
    s!"    funct7: {optionalCode r.funct7},",
    s!"    mask: 0x{r.mask.hex digits},",
    s!"    match_val: 0x{r.matchValue.hex digits},",
    s!"    operands: &[{quotedList r.operandRoles}],",
    "\x7d;",
    ""]

def lines (table : Table) : List String :=
  let word := wordType (widestWord table)
  [s!"// @generated by qcpu_tablegen (schema: {table.schemaName}). Do not edit.",
    "",
    s!"pub type Word = {word.name};",
    ""]
    ++ table.records.flatMap (constant word.digits)
    ++ ["pub const OPS: &[OpInfo] = &["]
    ++ table.records.map (fun r => s!"    {identifier r.mnemonic},")
    ++ ["];"]

def text (table : Table) : String := String.join ((lines table).map (· ++ "\n"))

end OpTable.Render.Constants
