/-!
# Numerals

Reading unsigned numerals in a base from 2 to 36; digits above nine are letters of either case.
-/

namespace OpTable.Text.Numeral

def digit? (base : Nat) (c : Char) : Option Nat :=
  let value? :=
    if '0' ≤ c ∧ c ≤ '9' then some (c.toNat - '0'.toNat)
    else if 'a' ≤ c ∧ c ≤ 'z' then some (c.toNat - 'a'.toNat + 10)
    else if 'A' ≤ c ∧ c ≤ 'Z' then some (c.toNat - 'A'.toNat + 10)
    else none
  value?.filter (· < base)

/-- Reads on from a number whose digits so far have the value `n`. -/
def readFrom (base n : Nat) : List Char → Option Nat
  | [] => some n
  | c :: rest =>
    match digit? base c with
    | some d => readFrom base (base * n + d) rest
    | none => none

/-- The number that a nonempty list of digits stands for, the most significant digit first. -/
def value? (base : Nat) (digits : List Char) : Option Nat :=
  if digits.isEmpty then none else readFrom base 0 digits

end OpTable.Text.Numeral
