import OpTable.Arithmetic

/-!
# Scaled decimals

The quick reading of a decimal as a double: as many of its digits as 64 bits hold make up a whole
number, which is multiplied or divided by a power of ten. The whole number, the power and the
product or quotient are each rounded, so the double need not be the nearest one; it is where the
whole number and the power are doubles themselves.
-/

namespace OpTable.Decimal

/-- A whole number times a power of ten. -/
structure Scaled where
  /-- The whole number, of at most 64 bits. -/
  significand : Nat
  exponent : Int

/-- Goes on from the number `n` with digits as long as 64 bits hold the number, and gives it with
the digits that are left. -/
def takeDigits (n : Nat) : List Nat → Nat × List Nat
  | [] => (n, [])
  | d :: rest => if 10 * n + d < 2 ^ 64 then takeDigits (10 * n + d) rest else (n, d :: rest)

/-- The decimal with these digits before and after its point, times `10 ^ exponent`. Digits that
are left over before the point still count as places, and after the point they do not count. -/
def Scaled.ofDigits (whole fraction : List Nat) (exponent : Int) : Scaled :=
  let (n, dropped) := takeDigits 0 whole
  let (significand, unused) := takeDigits n fraction
  let places : Int := (fraction.length : Int) - (unused.length : Int)
  ⟨significand, exponent + dropped.length - places⟩

/-- The largest power of ten that is taken in one step. -/
def largestPower : Nat := 308

def power (n : Nat) : Float := Float.ofScientific 1 false n

/-- The quotient of `x` and `10 ^ n`, in steps if the power is too large for a double. -/
def divideByPower (x : Float) (n : Nat) : Float :=
  if n ≤ largestPower then x / power n
  else if x == 0.0 then x
  else divideByPower (x / power largestPower) (n - largestPower)
termination_by n
decreasing_by simp only [largestPower] at *; omega

/-- The double that a decimal is read as, unless it is too large. -/
def Scaled.toFloat? (s : Scaled) : Option Float :=
  let x := Float.ofScientific s.significand false 0
  if s.exponent < 0 then some (divideByPower x s.exponent.natAbs)
  else if s.exponent ≤ largestPower then
    let product := x * power s.exponent.natAbs
    if product.isInf then none else some product
  else if s.significand = 0 then some x
  else none

end OpTable.Decimal
