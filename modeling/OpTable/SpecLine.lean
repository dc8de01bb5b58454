import OpTable.Text.Blank

/-!
# Specification lines

A line defines one instruction: its mnemonic, its field tokens from the highest bits down, and its
opcode, with blanks between them. A number sign starts a comment. How tokens are put together is not
looked at here.
-/

namespace OpTable

/-- The tokens of a line that defines an instruction. -/
structure SpecLine where
  /-- The mnemonic, as written. -/
  mnemonic : String
  /-- The field tokens, the highest bits first. -/
  fields : List String
  opcode : String
deriving DecidableEq

namespace SpecLine

def arity (line : SpecLine) : Nat := line.fields.length + 2

inductive Content where
  | blank
  /-- The line has a single token, which defines nothing. -/
  | lone (token : String)
  | definition (line : SpecLine)
deriving DecidableEq

/-- What a list of tokens makes up: the first is the mnemonic and the last the opcode. -/
def Content.ofTokens : List String → Content
  | [] => .blank
  | [token] => .lone token
  | mnemonic :: second :: rest =>
    .definition ⟨mnemonic, (second :: rest).dropLast, (second :: rest).getLast (by simp)⟩

/-- What stands before a comment. -/
def code (text : List Char) : List Char := text.takeWhile (· != '#')

def Content.ofText (text : String) : Content :=
  .ofTokens ((Text.words (code text.toList)).map String.ofList)

end SpecLine

end OpTable
