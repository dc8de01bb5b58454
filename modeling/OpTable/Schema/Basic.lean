import OpTable.Identifier
import OpTable.Json

/-!
# Schemas

A schema declares what the specification of an instruction set may use: the widths of words, opcodes
and function codes, the operand roles, and the fields that expressions may name without a bit range.
Look-ups take the first declaration of a name; `Schema.check` refuses a schema that declares a name
twice.
-/

namespace OpTable

/-- A declared name: an operand role, or a field of expressions. -/
structure Declaration where
  name : String
  width : Nat
  signed : Bool
deriving DecidableEq

/-- What the specification of an instruction set may use. -/
structure Schema where
  name : String
  /-- The width of every instruction word, if it is fixed. -/
  wordWidth? : Option Nat
  opcodeWidth : Nat
  /-- The width of the literal that stands for the function code before the destination. -/
  funct3Width : Nat
  /-- The width of the literal that stands for the function code in the highest position. -/
  funct7Width : Nat
  operandRoles : List Declaration
  /-- The fields that expressions may name without a bit range. -/
  fields : List Declaration
deriving DecidableEq

/-- The first declaration of a name. -/
def Declaration.find? (declarations : List Declaration) (name : String) : Option Declaration :=
  List.find? (fun declaration => decide (declaration.name = name)) declarations

namespace Schema

def roleWidth? (s : Schema) (name : String) : Option Nat :=
  (Declaration.find? s.operandRoles name).map (·.width)

def IsRole (s : Schema) (name : String) : Prop := (s.roleWidth? name).isSome

instance (s : Schema) (name : String) : Decidable (s.IsRole name) :=
  inferInstanceAs (Decidable (_ = true))

/-- Whether the values of the field `name` are signed. A field that is not declared is. -/
def isSignedField (s : Schema) (name : String) : Bool :=
  match Declaration.find? s.fields name with
  | some declaration => declaration.signed
  | none => true

/-- The width of a name that stands without a bit range: a field, or else an operand role. -/
def fieldWidth? (s : Schema) (name : String) : Option Nat :=
  match Declaration.find? s.fields name with
  | some declaration => some declaration.width
  | none => s.roleWidth? name

/-- All declared names: the operand roles, then the fields. -/
def declared (s : Schema) : List Declaration := s.operandRoles ++ s.fields

end Schema

/-! ### Written form -/

/-- A declaration as JSON; the sign is written only where it is set. -/
def Declaration.toJson (declaration : Declaration) : Json :=
  .object ([("name", .text declaration.name), ("width", .number declaration.width)]
    ++ if declaration.signed then [("signed", .boolean true)] else [])

def Schema.toJson (s : Schema) : Json :=
  .object [("name", .text s.name), ("word_width", .ofOption .number s.wordWidth?),
    ("opcode_width", .number s.opcodeWidth), ("funct3_width", .number s.funct3Width),
    ("funct7_width", .number s.funct7Width),
    ("operand_roles", .array (s.operandRoles.map Declaration.toJson)),
    ("fields", .array (s.fields.map Declaration.toJson))]

end OpTable
