import OpTable.Schema.Basic

/-!
# Valid schemas

A schema can be used when every width is one of 1 to 64 bits, every declared name is an identifier,
and no name is declared twice, be it as a role or as a field. `Schema.check` looks for the first
fault in the order of the declarations.
-/

namespace OpTable

inductive SchemaFault where
  /-- A width is not one of 1 to 64 bits. -/
  | width (what : String) (bits : Nat)
  | name (text : String)
  | repeated (text : String)
deriving DecidableEq

def SchemaFault.message : SchemaFault → String
  | .width what bits => s!"{what} width {bits} is outside 1..=64"
  | .name text => s!"`{text}` is not a valid field name"
  | .repeated text => s!"field `{text}` declared twice"

namespace Schema

/-- The width is one that words can hold. -/
def IsWidth (width : Nat) : Prop := 1 ≤ width ∧ width ≤ 64

instance (width : Nat) : Decidable (IsWidth width) :=
  inferInstanceAs (Decidable (_ ∧ _))

def checkWidth (what : String) (width : Nat) : Except SchemaFault Unit :=
  if IsWidth width then .ok () else .error (.width what width)

/-- Checks declarations one after the other; `seen` are the names declared before. -/
def checkDeclared (seen : List String) : List Declaration → Except SchemaFault Unit
  | [] => .ok ()
  | ⟨name, width, _⟩ :: rest => do
    checkWidth name width
    if ¬ IsIdentifier name then .error (.name name)
    else if name ∈ seen then .error (.repeated name)
    else checkDeclared (name :: seen) rest

/-- Passes over a schema that can be used, or gives its first fault. -/
def check (s : Schema) : Except SchemaFault Unit := do
  match s.wordWidth? with
  | some width => checkWidth "word" width
  | none => .ok ()
  checkWidth "opcode" s.opcodeWidth
  checkWidth "funct3" s.funct3Width
  checkWidth "funct7" s.funct7Width
  checkDeclared [] s.declared

def Valid (s : Schema) : Prop := s.check = .ok ()

end Schema

end OpTable
