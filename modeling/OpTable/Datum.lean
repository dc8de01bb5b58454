import OpTable.BitString
import OpTable.Decimal.Shortest

/-!
# Data trees

A `Datum` is what a configuration file or a data document holds: a tree of scalars, lists and
tables. A reader that expects another shape than it finds gives a `Misfit`. The same tree reads in
the same way whatever notation it came from; a `Style` says only how the sentence about a misfit
writes a floating-point number and which lists are too long.
-/

namespace OpTable

inductive Datum where
  | null
  | boolean (value : Bool)
  | integer (value : Int)
  | real (value : Float)
  /-- A number that is out of every range. It can be passed over unread, and no more. -/
  | outOfRange
  | text (value : String)
  | list (items : List Datum)
  /-- Entries by key, in the order in which they are read. -/
  | table (entries : List (String × Datum))
deriving Inhabited

namespace Datum

/-- Entries in the order of their keys. -/
def sortEntries (entries : List (String × Datum)) : List (String × Datum) :=
  entries.mergeSort fun a b => a.1 ≤ b.1

/-! ### Numbers in a tree -/

mutual

/-- Whether every scalar in the tree satisfies `p`. -/
def allScalars (p : Datum → Bool) : Datum → Bool
  | list items => allInList p items
  | table entries => allInTable p entries
  | scalar => p scalar

def allInList (p : Datum → Bool) : List Datum → Bool
  | [] => true
  | item :: items => allScalars p item && allInList p items

def allInTable (p : Datum → Bool) : List (String × Datum) → Bool
  | [] => true
  | (_, value) :: entries => allScalars p value && allInTable p entries

end

def isReadable : Datum → Bool :=
  allScalars fun scalar =>
    match scalar with
    | outOfRange => false
    | _ => true

/-- Whether the whole numbers in the tree have 64 bits with their sign, and no number is out of
range. -/
def hasPlainNumbers : Datum → Bool :=
  allScalars fun scalar =>
    match scalar with
    | integer value => -2 ^ 63 ≤ value && value < 2 ^ 63
    | outOfRange => false
    | _ => true

/-! ### What does not fit -/

/-- What a place in a data tree has to hold. -/
inductive Shape where
  | text
  /-- A whole number of at most 32 bits. -/
  | number
  | flag
  | list
  | declaration
deriving DecidableEq

def Shape.words : Shape → String
  | .text => "a string"
  | .number => "u32"
  | .flag => "a boolean"
  | .list => "a sequence"
  | .declaration => "struct FieldSpec"

inductive Misfit where
  /-- Another kind of datum stands there. -/
  | kind (found : Datum) (expected : Shape)
  | range (found : Int) (expected : Shape)
  | tooShort (length : Nat)
  | tooLong (length : Nat)
  | missing (key : String)
  | bits (reason : BitString.Error)
  | outOfRange

/-- Conventions of the notation that a data tree was written in. -/
structure Style where
  decimals : Decimal.Layout
  /-- The longest list that may declare a name. -/
  longestDeclaration? : Option Nat

/-- JSON: an exponent for very small and very large numbers, and no items beyond those read. -/
def Style.json : Style := ⟨Decimal.scientificOutside, some 3⟩

/-- TOML: no exponents, and further items are passed over. -/
def Style.toml : Style := ⟨Decimal.positional, none⟩

def describe (style : Style) : Datum → String
  | null => "null"
  | boolean true => "boolean `true`"
  | boolean false => "boolean `false`"
  | integer value => s!"integer `{value}`"
  | real value => s!"floating point `{style.decimals.text value}`"
  | outOfRange => "number out of range"
  | text value => s!"string {Text.quote value}"
  | list _ => "sequence"
  | table _ => "map"

def Misfit.message (style : Style) : Misfit → String
  | kind found expected => s!"invalid type: {found.describe style}, expected {expected.words}"
  | range found expected => s!"invalid value: integer `{found}`, expected {expected.words}"
  | tooShort length =>
    s!"invalid length {length}, expected {Shape.declaration.words} with 3 elements"
  | tooLong length => s!"invalid length {length}, expected fewer elements in array"
  | missing key => s!"missing field `{key}`"
  | bits reason => reason.message
  | outOfRange => "number out of range"

/-! ### Readers -/

def asText : Datum → Except Misfit String
  | text value => .ok value
  | other => .error (.kind other .text)

/-- Reads a whole number of at most 32 bits. -/
def asNumber : Datum → Except Misfit Nat
  | integer value =>
    if 0 ≤ value ∧ value < 2 ^ 32 then .ok value.toNat else .error (.range value .number)
  | other => .error (.kind other .number)

def asFlag : Datum → Except Misfit Bool
  | boolean value => .ok value
  | other => .error (.kind other .flag)

def asList {α : Type} (read : Datum → Except Misfit α) : Datum → Except Misfit (List α)
  | list items => items.mapM read
  | other => .error (.kind other .list)

/-- Reads what may be explicitly absent. -/
def asOptional {α : Type} (read : Datum → Except Misfit α) : Datum → Except Misfit (Option α)
  | null => .ok none
  | other => (read other).map some

/-- Reads a bit string from its text, with or without the mark `0b`. -/
def asBitString (datum : Datum) : Except Misfit BitString := do
  match BitString.ofMarked (← datum.asText) with
  | .ok value => .ok value
  | .error reason => .error (.bits reason)

/-- Passes over a datum that means nothing. Its numbers have to be readable all the same. -/
def passOver (datum : Datum) : Except Misfit Unit :=
  if datum.isReadable then .ok () else .error .outOfRange

def required {α : Type} (key : String) : Option α → Except Misfit α
  | some value => .ok value
  | none => .error (.missing key)

end Datum

end OpTable
