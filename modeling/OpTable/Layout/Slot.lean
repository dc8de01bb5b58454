import OpTable.Expr.Basic

/-!
# Slots

An instruction word is divided into slots, one for each token of its line. A slot knows its place
and what it holds; slices of fields inside it are placed in the word by `PlacedSlice`.
-/

namespace OpTable

inductive SlotContent where
  | opcode (bits : BitString)
  | funct3 (bits : BitString)
  | funct7 (bits : BitString)
  /-- Bits that are written but not matched. -/
  | literal (bits : BitString)
  | register (role : String)
  | expression (e : BitExpr)
deriving DecidableEq

namespace SlotContent

def roleName : SlotContent → String
  | opcode _ => "opcode"
  | funct3 _ => "funct3"
  | funct7 _ => "funct7"
  | literal _ => "literal"
  | register _ => "register"
  | expression _ => "expression"

/-- The bits that the slot always holds. -/
def fixed? : SlotContent → Option BitString
  | opcode bits => some bits
  | funct3 bits => some bits
  | funct7 bits => some bits
  | literal bits => some bits
  | register _ => none
  | expression _ => none

/-- The bits by which a word is recognized. -/
def matched? : SlotContent → Option BitString
  | opcode bits => some bits
  | funct3 bits => some bits
  | funct7 bits => some bits
  | literal _ => none
  | register _ => none
  | expression _ => none

/-- What the slot holds, as data: marked bits, or the text of a role or an expression. -/
def valueText : SlotContent → String
  | opcode bits => bits.marked
  | funct3 bits => bits.marked
  | funct7 bits => bits.marked
  | literal bits => bits.marked
  | register role => role
  | expression e => e.text

end SlotContent

structure Slot where
  /-- The position of the lowest bit. -/
  lsb : Nat
  width : Nat
  content : SlotContent
deriving DecidableEq

namespace Slot

def mask (slot : Slot) : Word := Word.lowMask slot.width <<< slot.lsb

def extract (slot : Slot) (word : Word) : Word := word.bits slot.lsb slot.width

def place (slot : Slot) (bits : Word) : Word := bits <<< slot.lsb

end Slot

/-- A slice of a field and its place in an instruction word. -/
structure PlacedSlice where
  slice : Slice
  lsb : Nat
  /-- Whether the values of the field are signed. -/
  signed : Bool
deriving DecidableEq

namespace PlacedSlice

def width (segment : PlacedSlice) : Nat := segment.slice.width

def text (segment : PlacedSlice) : String := s!"{segment.slice.text}@{segment.lsb}"

end PlacedSlice

end OpTable
