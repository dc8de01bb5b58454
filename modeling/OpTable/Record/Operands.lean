import OpTable.Record.Basic

/-!
# Operands

`Record.encode` builds the word of an instruction from the values of its registers and immediates;
`Record.decodeOperands` reads the values back. Values are checked before they are placed: immediates
first, in the order of `Record.immediateFields`, then registers in the order of the slots.
-/

namespace OpTable

/-- The values of the registers and immediates of an instruction. -/
structure Operands where
  registers : NameMap
  immediates : NameMap

namespace Operands

def empty : Operands := ⟨∅, ∅⟩

instance : EmptyCollection Operands := ⟨empty⟩

def withRegister (ops : Operands) (role : String) (value : Word) : Operands :=
  { ops with registers := ops.registers.insert role value }

def withImmediate (ops : Operands) (field : String) (value : Word) : Operands :=
  { ops with immediates := ops.immediates.insert field value }

/-- The operands with one more immediate, a negative number in two's complement. -/
def withSignedImmediate (ops : Operands) (field : String) (value : Int) : Operands :=
  ops.withImmediate field (BitVec.ofInt 64 value)

/-- The two give the same values. -/
def Agree (a b : Operands) : Prop :=
  a.registers.Agree b.registers ∧ a.immediates.Agree b.immediates

instance (a b : Operands) : Decidable (Agree a b) :=
  inferInstanceAs (Decidable (_ ∧ _))

end Operands

inductive OperandError where
  | missingRegister (mnemonic role : String)
  /-- The value of a register has too many bits. -/
  | registerOutOfRange (mnemonic role : String) (value : Word) (width : Nat)
  | missingImmediate (mnemonic field : String)
  /-- The value of an immediate cannot be written in its width. -/
  | immediateOutOfRange (mnemonic field : String) (value : Word) (width : Nat)
deriving DecidableEq

def OperandError.message : OperandError → String
  | .missingRegister mnemonic role => s!"{mnemonic}: missing register operand `{role}`"
  | .registerOutOfRange mnemonic role value width =>
    s!"{mnemonic}: register `{role}` value {value.toNat} does not fit in {width} bits"
  | .missingImmediate mnemonic field => s!"{mnemonic}: missing immediate `{field}`"
  | .immediateOutOfRange mnemonic field value width =>
    s!"{mnemonic}: immediate `{field}` value 0x{value.hex 0} does not fit in {width} bits"

namespace Record

/-! ### Encoding -/

/-- The value can be given for an immediate of this width and sign. -/
def ImmediateFits (signed : Bool) (value : Word) (width : Nat) : Prop :=
  if signed then value.FitsSigned width else value.FitsUnsigned width

instance (signed : Bool) (value : Word) (width : Nat) :
    Decidable (ImmediateFits signed value width) :=
  inferInstanceAs (Decidable (if signed then _ else _))

/-- Passes over an immediate that has a value in range. -/
def checkImmediate (r : Record) (ops : Operands) (field : String) : Except OperandError Unit :=
  match ops.immediates.get? field with
  | none => .error (.missingImmediate r.mnemonic field)
  | some value =>
    let width := (r.immediateWidth? field).getD 64
    if ImmediateFits (r.isSignedImmediate field) value width then .ok ()
    else .error (.immediateOutOfRange r.mnemonic field value width)

def checkImmediates (r : Record) (ops : Operands) : List String → Except OperandError Unit
  | [] => .ok ()
  | field :: rest =>
    match checkImmediate r ops field with
    | .ok () => checkImmediates r ops rest
    | .error e => .error e

/-- The bits that a slot holds. -/
def slotBits (r : Record) (ops : Operands) (slot : Slot) : Except OperandError Word :=
  match slot.content with
  | .opcode bits => .ok bits.value
  | .funct3 bits => .ok bits.value
  | .funct7 bits => .ok bits.value
  | .literal bits => .ok bits.value
  | .register role =>
    match ops.registers.get? role with
    | none => .error (.missingRegister r.mnemonic role)
    | some value =>
      if value &&& ~~~ Word.lowMask slot.width = 0#64 then .ok value
      else .error (.registerOutOfRange r.mnemonic role value slot.width)
  | .expression e => .ok (e.compose fun field => (ops.immediates.get? field).getD 0#64)

def encodeSlots (r : Record) (ops : Operands) (word : Word) : List Slot → Except OperandError Word
  | [] => .ok word
  | slot :: rest =>
    match slotBits r ops slot with
    | .ok bits => encodeSlots r ops (word ||| slot.place bits) rest
    | .error e => .error e

/-- The word of the instruction with these operands. -/
def encode (r : Record) (ops : Operands) : Except OperandError Word :=
  match checkImmediates r ops r.immediateFields with
  | .ok () => encodeSlots r ops 0#64 r.layout
  | .error e => .error e

/-! ### Decoding -/

def decodeSlot (word : Word) (ops : Operands) (slot : Slot) : Operands :=
  match slot.content with
  | .register role => ops.withRegister role (slot.extract word)
  | .expression e => { ops with immediates := e.scatter (slot.extract word) ops.immediates }
  | _ => ops

/-- The operands that a word holds, whether it matches the record or not. -/
def decodeOperands (r : Record) (word : Word) : Operands :=
  r.layout.foldl (decodeSlot word) ∅

end Record

end OpTable
