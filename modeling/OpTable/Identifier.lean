/-!
# Identifiers

An identifier is an ASCII letter or underscore followed by ASCII letters, digits and underscores.
-/

namespace OpTable

def isIdentifierStart (c : Char) : Bool := c.isAlpha || c == '_'

def isIdentifierPart (c : Char) : Bool := c.isAlphanum || c == '_'

def spellsIdentifier : List Char → Bool
  | [] => false
  | c :: rest => isIdentifierStart c && rest.all isIdentifierPart

def IsIdentifier (text : String) : Prop := spellsIdentifier text.toList = true

instance (text : String) : Decidable (IsIdentifier text) :=
  inferInstanceAs (Decidable (_ = true))

theorem isIdentifier_ofList {chars : List Char} :
    IsIdentifier (String.ofList chars) ↔ spellsIdentifier chars = true := by
  rw [IsIdentifier, String.toList_ofList]

end OpTable
