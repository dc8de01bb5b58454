import OpTable.Expr.Parser
import OpTable.Schema.Basic

/-!
# Tokens

A field token of a specification line is one of three things: literal bits, an operand role of the
schema, or a bit expression. `Token.classify` says which from the token's spelling, and a token
that is none of them is a fault of its own.
-/

namespace OpTable

inductive Token where
  | literal (bits : BitString)
  | role (name : String)
  | expression (e : BitExpr)
deriving DecidableEq

inductive TokenFault where
  | bits (reason : BitString.Error)
  | expression (reason : BitExpr.Error)
  | unknownRole (name schema : String)
  /-- The text is spelled like none of the classes. -/
  | unrecognized
  /-- The schema gives the token no width. -/
  | noWidth
deriving DecidableEq

def TokenFault.message : TokenFault → String
  | .bits reason => reason.message
  | .expression reason => reason.message
  | .unknownRole name schema => s!"`{name}` is not an operand role of schema `{schema}`"
  | .unrecognized => "not a bit literal, bit expression or operand role"
  | .noWidth => "field has no declared width"

namespace Token

/-- Whether the text is meant as a bit expression: it starts with a brace or has a bracket. -/
def looksLikeExpression (text : String) : Bool :=
  text.toList.head? == some '\x7b' || text.toList.contains '['

def classify (schema : Schema) (text : String) : Except TokenFault Token :=
  if BitString.isLiteral text then
    match BitString.ofText text with
    | .ok bits => .ok (.literal bits)
    | .error reason => .error (.bits reason)
  else if looksLikeExpression text then
    match BitExpr.ofText schema.fieldWidth? text with
    | .ok e => .ok (.expression e)
    | .error reason => .error (.expression reason)
  else if IsIdentifier text then
    if schema.IsRole text then .ok (.role text)
    else .error (.unknownRole text schema.name)
  else .error .unrecognized

/-- The number of bits of the token in an instruction word. -/
def width? (schema : Schema) : Token → Option Nat
  | literal bits => some bits.width
  | role name => schema.roleWidth? name
  | expression e => some e.width

def kindName : Token → String
  | literal _ => "literal bits"
  | role _ => "operand role"
  | expression _ => "bit expression"

def literal? : Token → Option BitString
  | literal bits => some bits
  | _ => none

def role? : Token → Option String
  | role name => some name
  | _ => none

def text : Token → String
  | literal bits => bits.text
  | role name => name
  | expression e => e.text

end Token

end OpTable
