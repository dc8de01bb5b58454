import OpTable.CompileError
import OpTable.Layout.Slot
import OpTable.SpecLine

/-!
# Encodings

`Encoding.ofLine` gives every token of a line its place in the instruction word, from the opcode in
the lowest bits up, and says which literals are function codes:

* the first field, when it is a literal as wide as the schema's `funct7`;
* the field before the destination, which is the last but one, when it is a literal as wide as the
  schema's `funct3` and not the first of these.

No function code is made up: a line without such a literal has none. All faults of the tokens are
reported together, the opcode's first; the total width is looked at only when the tokens are sound.
-/

namespace OpTable

/-- What a line says about the words of its instruction. -/
structure Encoding where
  opcode : BitString
  /-- The function code before the destination. -/
  funct3 : Option BitString
  /-- The function code in the highest position. -/
  funct7 : Option BitString
  /-- The roles of the registers, the highest first. -/
  operandRoles : List String
  /-- The slices of fields, the highest first. -/
  immediateAssembly : List PlacedSlice
  /-- The slots, the highest first. -/
  layout : List Slot
deriving DecidableEq

structure SizedToken where
  token : Token
  width : Nat
deriving DecidableEq

namespace Layout

/-! ### Tokens -/

def totalWidth (tokens : List SizedToken) : Nat := (tokens.map (·.width)).sum

def fieldToken (schema : Schema) (text : String) : Except CompileError SizedToken :=
  match Token.classify schema text with
  | .error reason => .error (.unclassifiableToken text reason)
  | .ok token =>
    match token.width? schema with
    | some width => .ok ⟨token, width⟩
    | none => .error (.unclassifiableToken text .noWidth)

def opcodeToken (schema : Schema) (text : String) : Except CompileError BitString :=
  match Token.classify schema text with
  | .error reason => .error (.unclassifiableToken text reason)
  | .ok (.literal bits) =>
    if bits.width = schema.opcodeWidth then .ok bits
    else .error (.invalidOpcode text (.width schema.opcodeWidth bits.width))
  | .ok token => .error (.invalidOpcode text (.kind token))

/-- The faults in a list of outcomes, in order. -/
def faults {α : Type} (outcomes : List (Except CompileError α)) : List CompileError :=
  outcomes.filterMap fun
    | .error e => some e
    | .ok _ => none

def results {α : Type} (outcomes : List (Except CompileError α)) : List α :=
  outcomes.filterMap fun
    | .error _ => none
    | .ok a => some a

/-- The width that the schema wants instead of the width `total`, if it does not want that one. -/
def wantedWidth? (schema : Schema) (total : Nat) : Option Nat :=
  match schema.wordWidth? with
  | some expected =>
    if expected ≠ total then some expected else if 64 < total then some 64 else none
  | none => if 64 < total then some 64 else none

/-! ### Function codes -/

/-- The function code of the first field. -/
def funct7? (schema : Schema) (tokens : List SizedToken) : Option BitString := do
  let bits ← (← tokens.head?).token.literal?
  if bits.width = schema.funct7Width then some bits else none

/-- The function code of the last field but one. -/
def funct3? (schema : Schema) (tokens : List SizedToken) : Option BitString :=
  match tokens.reverse with
  | _ :: sized :: before =>
    match sized.token.literal? with
    | some bits =>
      if bits.width = schema.funct3Width ∧ ¬ (before = [] ∧ (funct7? schema tokens).isSome) then
        some bits
      else none
    | none => none
  | _ => none

/-! ### Places -/

/-- What a literal stands for that is number `index` of `count` fields. -/
def literalContent (schema : Schema) (count index : Nat) (bits : BitString) : SlotContent :=
  if index = 0 ∧ bits.width = schema.funct7Width then .funct7 bits
  else if index + 2 = count ∧ bits.width = schema.funct3Width then .funct3 bits
  else .literal bits

def slotContent (schema : Schema) (count index : Nat) : Token → SlotContent
  | .literal bits => literalContent schema count index bits
  | .role name => .register name
  | .expression e => .expression e

/-- The slots of the tokens from number `index` on; below them stand `base` bits. -/
def slots (schema : Schema) (count base : Nat) : Nat → List SizedToken → List Slot
  | _, [] => []
  | index, sized :: rest =>
    ⟨base + totalWidth rest, sized.width, slotContent schema count index sized.token⟩
      :: slots schema count base (index + 1) rest

/-- The slices among the segments of an expression that ends below bit `top`. -/
def placeBelow (schema : Schema) (top : Nat) : List Segment → List PlacedSlice
  | [] => []
  | segment :: rest =>
    let lsb := top - segment.width
    match segment with
    | .fixed _ => placeBelow schema lsb rest
    | .slice slice => ⟨slice, lsb, schema.isSignedField slice.field⟩ :: placeBelow schema lsb rest

/-- The slices of all expressions among the tokens; below them stand `base` bits. -/
def assembly (schema : Schema) (base : Nat) : List SizedToken → List PlacedSlice
  | [] => []
  | sized :: rest =>
    match sized.token with
    | .expression e =>
      placeBelow schema (base + totalWidth rest + sized.width) e.segments
        ++ assembly schema base rest
    | _ => assembly schema base rest

end Layout

open Layout

/-- Gives every token of a line its place, or all that is wrong with the line. -/
def Encoding.ofLine (schema : Schema) (line : SpecLine) : Except (List CompileError) Encoding :=
  if line.fields = [] then .error [.malformedLine line.arity]
  else
    let outcomes := line.fields.map (fieldToken schema)
    match opcodeToken schema line.opcode, faults outcomes with
    | .error e, errors => .error (e :: errors)
    | .ok _, e :: errors => .error (e :: errors)
    | .ok opcode, [] =>
      let tokens := results outcomes
      let total := opcode.width + totalWidth tokens
      match wantedWidth? schema total with
      | some expected => .error [.widthMismatch schema.name expected total]
      | none =>
        .ok {
          opcode
          funct3 := funct3? schema tokens
          funct7 := funct7? schema tokens
          operandRoles := tokens.filterMap (·.token.role?)
          immediateAssembly := assembly schema opcode.width tokens
          layout := slots schema tokens.length opcode.width 0 tokens
            ++ [⟨0, opcode.width, .opcode opcode⟩] }

end OpTable
