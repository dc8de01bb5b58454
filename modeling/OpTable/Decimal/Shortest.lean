import OpTable.Arithmetic

/-!
# Shortest decimals

The decimal of a double is the one with the fewest digits that reads back as that double, and of
those the nearest. `digitsOf?` finds it in exact arithmetic: on ever finer decimal grids it
tests the two neighbours of the value, and the first grid that has one between the halfway points to
the neighbouring doubles wins. `Layout` says which of two equally near decimals is taken, where the
point goes and when an exponent is written.
-/

namespace OpTable.Decimal

/-- A positive double `value / scale`, with the halfway points to its neighbours on the same
scale. -/
structure Interval where
  scale : Nat
  /-- The halfway point below. -/
  low : Nat
  value : Nat
  /-- The halfway point above. -/
  high : Nat
  /-- Whether the halfway points themselves round to the double. -/
  closed : Bool

/-- The interval of the double `mantissa * 2 ^ exponent`. The gap below is half as wide where the
mantissa is the least of its binade. -/
def interval (mantissa : Nat) (exponent : Int) (leastOfBinade : Bool) : Interval :=
  let up := 2 ^ exponent.toNat
  { scale := 4 * 2 ^ (-exponent).toNat
    low := (4 * mantissa - if leastOfBinade then 1 else 2) * up
    value := 4 * mantissa * up
    high := (4 * mantissa + 2) * up
    closed := mantissa % 2 == 0 }

/-- Whether `n * 10 ^ place` lies in the interval. -/
def Interval.holds (i : Interval) (place : Int) (n : Nat) : Bool :=
  let point := n * 10 ^ place.toNat * i.scale
  let shift := 10 ^ (-place).toNat
  if i.closed then i.low * shift ≤ point && point ≤ i.high * shift
  else i.low * shift < point && point < i.high * shift

/-- Which of two equally near decimals is taken. -/
inductive Tie where
  | up
  | even
deriving DecidableEq

/-- Whether the lower one of two decimals is taken, `below` being its last digits and `rest / step`
what the value exceeds it by. -/
def Tie.takesLower (tie : Tie) (below rest step : Nat) : Bool :=
  2 * rest < step || (2 * rest == step && tie = .even && below % 2 == 0)

/-- The multiple of `10 ^ place` in the interval, as the factor; the nearer one if two
neighbours of the value are in it. -/
def Interval.onGrid? (i : Interval) (tie : Tie) (place : Int) : Option Nat :=
  let step := 10 ^ place.toNat * i.scale
  let scaled := i.value * 10 ^ (-place).toNat
  let below := scaled / step
  match i.holds place below, i.holds place (below + 1) with
  | true, true => some (if tie.takesLower below (scaled % step) step then below else below + 1)
  | true, false => some below
  | false, true => some (below + 1)
  | false, false => none

/-- Digits and the power of ten of the last one. -/
structure Digits where
  /-- The digits, without leading zeros. -/
  digits : List Char
  place : Int

/-- The fewest digits that give back the double of the interval. -/
def Interval.shortest? (i : Interval) (tie : Tie) : Option Digits :=
  (List.range 660).findSome? fun (k : Nat) =>
    let place : Int := (309 : Int) - (k : Int)
    (i.onGrid? tie place).map fun n => ⟨Nat.toDigits 10 n, place⟩

/-- The shortest digits of a finite double without its sign; zero has none. -/
def digitsOf? (tie : Tie) (x : Float) : Option Digits :=
  let bits := x.toBits.toNat
  let fraction : Nat := bits % 2 ^ 52
  let biased : Nat := bits / 2 ^ 52 % 2 ^ 11
  if biased = 0 ∧ fraction = 0 then none
  else if biased = 0 then (interval fraction (-1074) false).shortest? tie
  else
    let leastOfBinade := fraction == 0 && 1 < biased
    (interval (2 ^ 52 + fraction) ((biased : Int) - 1075) leastOfBinade).shortest? tie

/-- How a double is written. It has no exponent when the place of its point, counted from its first
digit, lies above `above` and is at most `upTo`. -/
structure Layout where
  tie : Tie
  /-- The first place that is too small. -/
  above? : Option Int
  /-- The last place that is not too large. -/
  upTo? : Option Int

/-- No exponent is ever written. -/
def positional : Layout := ⟨.up, none, none⟩

/-- An exponent is written below `0.00001` and from `1e16` on. -/
def scientificOutside : Layout := ⟨.even, some (-5), some 16⟩

def Layout.isPositional (layout : Layout) (point : Int) : Bool :=
  (layout.above?.all (· < point)) && (layout.upTo?.all (point ≤ ·))

def exponentText (exponent : Int) : List Char :=
  'e' :: (if exponent < 0 then '-' else '+') :: Nat.toDigits 10 exponent.natAbs

/-- The digits with a point, and with an exponent where the layout asks for one. A whole number
without an exponent ends in `.0`. -/
def Layout.write (layout : Layout) (d : Digits) : List Char :=
  let point := d.digits.length + d.place
  if layout.isPositional point then
    if 0 ≤ d.place then d.digits ++ List.replicate d.place.toNat '0' ++ ['.', '0']
    else if 0 < point then d.digits.take point.toNat ++ '.' :: d.digits.drop point.toNat
    else ['0', '.'] ++ List.replicate (-point).toNat '0' ++ d.digits
  else
    let mantissa :=
      match d.digits with
      | [] => []
      | [c] => [c]
      | c :: rest => c :: '.' :: rest
    mantissa ++ exponentText (point - 1)

def Layout.text (layout : Layout) (x : Float) : String :=
  if x.isNaN then "NaN"
  else
    let sign := if 2 ^ 63 ≤ x.toBits.toNat then "-" else ""
    if x.isInf then sign ++ "inf"
    else
      match digitsOf? layout.tie x with
      | some d => sign ++ String.ofList (layout.write d)
      | none => sign ++ "0.0"

end OpTable.Decimal
