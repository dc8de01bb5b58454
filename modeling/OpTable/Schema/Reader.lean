import OpTable.Datum
import OpTable.Schema.Basic

/-!
# Reading schemas from data trees

A declaration is a table, or the list of its name, width and sign; a schema is a table. Keys that
mean nothing are passed over. The entries are read in their order, so the first one that does not
fit decides the misfit; only then are missing keys looked for, in the order of the declaration.
-/

namespace OpTable

open Datum

namespace Declaration

/-- The entries of a declaration that were read. -/
structure Draft where
  name? : Option String
  width? : Option Nat
  signed? : Option Bool

def Draft.read (draft : Draft) (entry : String × Datum) : Except Misfit Draft :=
  match entry with
  | ("name", value) => do return { draft with name? := some (← value.asText) }
  | ("width", value) => do return { draft with width? := some (← value.asNumber) }
  | ("signed", value) => do return { draft with signed? := some (← value.asFlag) }
  | (_, value) => do
    value.passOver
    return draft

/-- The declaration whose entries were read; values are not signed unless it says so. -/
def Draft.finish (draft : Draft) : Except Misfit Declaration := do
  let name ← required "name" draft.name?
  let width ← required "width" draft.width?
  return ⟨name, width, draft.signed?.getD false⟩

/-- Reads a declaration that is written as a list. -/
def ofList (style : Style) (items : List Datum) : Except Misfit Declaration :=
  match items with
  | name :: more => do
    let name ← name.asText
    match more with
    | [] => .error (.tooShort 1)
    | width :: more =>
      let width ← width.asNumber
      let signed ←
        match more with
        | [] => .ok false
        | signed :: _ => signed.asFlag
      match style.longestDeclaration? with
      | some longest =>
        if longest < items.length then .error (.tooLong items.length)
        else return ⟨name, width, signed⟩
      | none => return ⟨name, width, signed⟩
  | [] => .error (.tooShort 0)

def ofDatum (style : Style) : Datum → Except Misfit Declaration
  | .table entries => do (← entries.foldlM Draft.read ⟨none, none, none⟩).finish
  | .list items => ofList style items
  | other => .error (.kind other .declaration)

end Declaration

namespace Schema

structure Draft where
  name? : Option String
  wordWidth? : Option Nat
  opcodeWidth? : Option Nat
  funct3Width? : Option Nat
  funct7Width? : Option Nat
  operandRoles? : Option (List Declaration)
  fields? : Option (List Declaration)

def Draft.empty : Draft := ⟨none, none, none, none, none, none, none⟩

def Draft.read (style : Style) (draft : Draft) (entry : String × Datum) : Except Misfit Draft :=
  match entry with
  | ("name", value) => do return { draft with name? := some (← value.asText) }
  | ("word_width", value) => do return { draft with wordWidth? := ← value.asOptional asNumber }
  | ("opcode_width", value) => do return { draft with opcodeWidth? := some (← value.asNumber) }
  | ("funct3_width", value) => do return { draft with funct3Width? := some (← value.asNumber) }
  | ("funct7_width", value) => do return { draft with funct7Width? := some (← value.asNumber) }
  | ("operand_roles", value) => do
    return { draft with operandRoles? := some (← value.asList (Declaration.ofDatum style)) }
  | ("fields", value) => do
    return { draft with fields? := some (← value.asList (Declaration.ofDatum style)) }
  | (_, value) => do
    value.passOver
    return draft

/-- The schema whose entries were read; without fields unless it lists them. -/
def Draft.finish (draft : Draft) : Except Misfit Schema := do
  return {
    name := ← required "name" draft.name?
    wordWidth? := draft.wordWidth?
    opcodeWidth := ← required "opcode_width" draft.opcodeWidth?
    funct3Width := ← required "funct3_width" draft.funct3Width?
    funct7Width := ← required "funct7_width" draft.funct7Width?
    operandRoles := ← required "operand_roles" draft.operandRoles?
    fields := draft.fields?.getD [] }

/-- Reads a schema from the entries of a table. It may still be one that cannot be used. -/
def ofEntries (style : Style) (entries : List (String × Datum)) : Except Misfit Schema := do
  (← entries.foldlM (Draft.read style) .empty).finish

end Schema

end OpTable
