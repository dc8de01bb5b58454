import OpTable.Json
import OpTable.Layout.Encoding

/-!
# Encoding records

A record says how the words of one instruction look. A word matches it when the opcode and the
function codes stand in it; what else the slots hold is operands, or literals that are written but
not looked at.
-/

namespace OpTable

/-- The form in which mnemonics are compared: ASCII letters in upper case. -/
def normalizeMnemonic (mnemonic : String) : String := mnemonic.map Char.toUpper

/-- How the words of one instruction look. -/
structure Record extends Encoding where
  mnemonic : String
  line : Nat
deriving DecidableEq

namespace Record

def define (mnemonic : String) (line : Nat) (encoding : Encoding) : Record :=
  { encoding with mnemonic := normalizeMnemonic mnemonic, line }

def wordWidth (r : Record) : Nat := (r.layout.map (·.width)).sum

/-! ### Matching -/

/-- The bits that are looked at in the slots of a layout. -/
def maskOf (layout : List Slot) : Word :=
  layout.foldl
    (fun word slot => if slot.content.matched?.isSome then word ||| slot.mask else word) 0#64

/-- The bits that have to stand in the slots of a layout. -/
def matchValueOf (layout : List Slot) : Word :=
  layout.foldl
    (fun word slot =>
      match slot.content.matched? with
      | some bits => word ||| slot.place bits.value
      | none => word) 0#64

def mask (r : Record) : Word := maskOf r.layout

def matchValue (r : Record) : Word := matchValueOf r.layout

/-- The word is one of the instruction. -/
def Matches (r : Record) (word : Word) : Prop := word &&& r.mask = r.matchValue

instance (r : Record) (word : Word) : Decidable (r.Matches word) :=
  inferInstanceAs (Decidable (_ = _))

/-! ### Immediates -/

/-- The names of the immediates, in the order of their first slices. -/
def immediateFields (r : Record) : List String :=
  (r.immediateAssembly.map (·.slice.field)).eraseDups

/-- The width of an immediate: as far as its highest bit that a slice takes. -/
def immediateWidth? (r : Record) (field : String) : Option Nat :=
  ((r.immediateAssembly.filter (·.slice.field = field)).map (·.slice.high + 1)).max?

def isSignedImmediate (r : Record) (field : String) : Bool :=
  r.immediateAssembly.any fun segment => segment.slice.field = field && segment.signed

/-- The number that an immediate stands for when the bits decoded for it are `raw`. -/
def immediateValue? (r : Record) (field : String) (raw : Word) : Option Int :=
  match r.immediateWidth? field with
  | none => none
  | some width =>
    if r.isSignedImmediate field then some (raw.signExtend width)
    else some (raw &&& Word.lowMask width).toInt

/-! ### Written form -/

def segmentToJson (segment : PlacedSlice) : Json :=
  .object [("field", .text segment.slice.field), ("high", .number segment.slice.high),
    ("low", .number segment.slice.low), ("lsb", .number segment.lsb),
    ("signed", .boolean segment.signed)]

def slotToJson (slot : Slot) : Json :=
  .object [("lsb", .number slot.lsb), ("width", .number slot.width),
    ("field", .object
      [("role", .text slot.content.roleName), ("value", .text slot.content.valueText)])]

def toJson (r : Record) : Json :=
  .object [("mnemonic", .text r.mnemonic), ("line", .number r.line),
    ("opcode", .text r.opcode.marked),
    ("funct3", .ofOption (.text ·.marked) r.funct3),
    ("funct7", .ofOption (.text ·.marked) r.funct7),
    ("operand_roles", .array (r.operandRoles.map .text)),
    ("immediate_assembly", .array (r.immediateAssembly.map segmentToJson)),
    ("layout", .array (r.layout.map slotToJson))]

end Record

end OpTable
