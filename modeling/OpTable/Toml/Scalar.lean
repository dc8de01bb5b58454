import OpTable.Datum
import OpTable.Text.Numeral

/-!
# Bare values of TOML

A value without quotation marks and brackets is a truth value, a whole number, a floating-point
number, or a date and time. How it is written decides which; a number that is written well may still
be out of range.
-/

namespace OpTable.Toml

/-! ### Underscores and signs -/

/-- A sign and what follows it; whether the sign is a minus. -/
def signed : List Char → Bool × List Char
  | '+' :: rest => (false, rest)
  | '-' :: rest => (true, rest)
  | text => (false, text)

def isAnyDigit (c : Char) : Bool := (Text.Numeral.digit? 16 c).isSome

/-- Whether parts that underscores divide start and end in digits where an underscore stands. -/
def areDivided (isDigit : Char → Bool) : List (List Char) → Bool
  | [] => true
  | [_] => true
  | first :: second :: more =>
    first.getLast?.any isDigit && second.head?.any isDigit && areDivided isDigit (second :: more)

/-- Whether the underscores in a numeral stand between digits. -/
def isDivided (isDigit : Char → Bool) (text : List Char) : Bool :=
  areDivided isDigit (text.splitOnP (· == '_'))

def withoutUnderscores (text : List Char) : List Char := text.filter (· != '_')

/-! ### Whole numbers -/

/-- A whole number, if 128 bits hold it with a sign or without one. -/
def wholeNumber (n : Int) : Datum :=
  if -2 ^ 127 ≤ n ∧ n < 2 ^ 128 then .integer n else .outOfRange

/-- The number of a numeral without its mark, in a base other than ten. -/
def based? (base : Nat) (text : List Char) : Option Datum :=
  let isDigit := fun c => (Text.Numeral.digit? base c).isSome
  if text.all (fun c => c = '_' || isDigit c) && isDivided isAnyDigit text then
    match Text.Numeral.value? base (withoutUnderscores text) with
    | some n => some (wholeNumber n)
    | none => some .outOfRange
  else none

/-- The number of a decimal numeral, which has no needless zero in front. What stands behind an
underscore is looked at no closer than the underscore needs, and then is out of range. -/
def decimal? (text : List Char) : Option Datum :=
  let (negative, body) := signed text
  if body = ['0'] then some (.integer 0)
  else if body.head? = some '0' || !isDivided isAnyDigit body then none
  else
    match Text.Numeral.value? 10 (withoutUnderscores body) with
    | some n => some (wholeNumber (if negative then -(n : Int) else n))
    | none => some .outOfRange

/-! ### Floating-point numbers -/

/-- The double nearest to `mantissa * 10 ^ exponent`, unless it is too large. -/
def double? (mantissa : Nat) (exponent : Int) : Option Float :=
  let size := exponent + (Nat.toDigits 10 mantissa).length
  if mantissa = 0 ∨ size < -400 then some 0.0
  else if 400 < size then none
  else
    let x := Float.ofScientific mantissa (exponent < 0) exponent.natAbs
    if x.isInf then none else some x

/-- Takes digits and underscores, with one digit at least, and gives the digits. -/
def digitRun? (text : List Char) : Option (List Char × List Char) :=
  let run := text.takeWhile fun c => c.isDigit || c = '_'
  let digits := withoutUnderscores run
  if digits.isEmpty then none else some (digits, text.drop run.length)

def fraction? : List Char → Option (List Char × List Char)
  | '.' :: rest => digitRun? rest
  | rest => some ([], rest)

def exponent? : List Char → Option (Int × List Char)
  | c :: rest =>
    if c = 'e' ∨ c = 'E' then do
      let (negative, rest) := signed rest
      let (digits, rest) ← digitRun? rest
      let n ← Text.Numeral.value? 10 digits
      some (if negative then -(n : Int) else n, rest)
    else some (0, c :: rest)
  | [] => some (0, [])

/-- A floating-point number, which has no needless zero in front. -/
def real? (text : List Char) : Option Datum := do
  let (negative, body) := signed text
  let (whole, rest) ← digitRun? body
  let (fraction, rest) ← fraction? rest
  let (exponent, rest) ← exponent? rest
  if whole.length ≠ 1 ∧ body.head? = some '0' then none
  else if !rest.isEmpty || !isDivided Char.isDigit body then none
  else
    let mantissa ← Text.Numeral.value? 10 (whole ++ fraction)
    match double? mantissa (exponent - fraction.length) with
    | some x => some (.real (if negative then -x else x))
    | none => some .outOfRange

/-! ### Dates and times -/

/-- Takes a number of exactly `count` digits that lies between `low` and `high`. -/
def fixedNumber? (count low high : Nat) (text : List Char) : Option (Nat × List Char) := do
  let digits := text.take count
  if digits.length < count then none
  else
    let n ← Text.Numeral.value? 10 digits
    if low ≤ n ∧ n ≤ high then some (n, text.drop count) else none

def mark? (c : Char) : List Char → Option (List Char)
  | d :: rest => if d = c then some rest else none
  | [] => none

def daysIn (year month : Nat) : Nat :=
  if month = 2 then
    if year % 4 = 0 ∧ (year % 100 ≠ 0 ∨ year % 400 = 0) then 29 else 28
  else if month = 4 ∨ month = 6 ∨ month = 9 ∨ month = 11 then 30
  else 31

def date? (text : List Char) : Option (List Char) := do
  let (year, rest) ← fixedNumber? 4 0 9999 text
  let (month, rest) ← fixedNumber? 2 1 12 (← mark? '-' rest)
  let (_, rest) ← fixedNumber? 2 1 (daysIn year month) (← mark? '-' rest)
  some rest

/-- Takes the parts of a second. -/
def secondParts? : List Char → Option (List Char)
  | '.' :: rest =>
    if rest.head?.any Char.isDigit then some (rest.dropWhile Char.isDigit) else none
  | rest => some rest

/-- Takes a time of day; the seconds may be missing. -/
def time? (text : List Char) : Option (List Char) := do
  let (_, rest) ← fixedNumber? 2 0 23 text
  let (_, rest) ← fixedNumber? 2 0 59 (← mark? ':' rest)
  match rest with
  | ':' :: rest =>
    let (_, rest) ← fixedNumber? 2 0 60 rest
    secondParts? rest
  | _ => some rest

/-- Whether the text is nothing, or the distance from universal time. -/
def isOffset : List Char → Bool
  | [] => true
  | ['Z'] => true
  | ['z'] => true
  | c :: rest =>
    (c = '+' || c = '-') &&
      match fixedNumber? 2 0 23 rest with
      | some (_, ':' :: rest) =>
        match fixedNumber? 2 0 59 rest with
        | some (_, []) => true
        | _ => false
      | _ => false

def isDate (text : List Char) : Bool :=
  match date? text with
  | some [] => true
  | _ => false

/-- Whether the text is a date, a time of day, or both, perhaps with the distance from universal
time. -/
def isDateTime (text : List Char) : Bool :=
  isDate text || time? text == some [] ||
    match date? text with
    | some (c :: rest) =>
      (c = 'T' || c = 't' || c = ' ') &&
        match time? rest with
        | some rest => isOffset rest
        | none => false
    | _ => false

/-- A date and time as data: a table with one entry. -/
def dateTime (text : List Char) : Datum := .table [("datetime", .text (String.ofList text))]

/-! ### Bare values -/

/-- The value of a text that starts with a digit or a sign. -/
def number? (text : List Char) : Option Datum :=
  let body := (signed text).2
  match body.dropWhile Char.isDigit with
  | [] => if body.isEmpty then none else decimal? text
  | c :: rest =>
    if c = '-' ∨ c = ':' then if isDateTime text then some (dateTime text) else none
    else if (c :: rest).any fun c => c = '.' || c = 'e' || c = 'E' then real? text
    else if c = '_' then decimal? text
    else none

def bare? (text : List Char) : Option Datum :=
  let (negative, body) := signed text
  if text = "true".toList then some (.boolean true)
  else if text = "false".toList then some (.boolean false)
  else if body = "inf".toList then some (.real (if negative then -(1.0 / 0.0) else 1.0 / 0.0))
  else if body = "nan".toList then some (.real (0.0 / 0.0))
  else
    match text with
    | '0' :: 'x' :: digits => based? 16 digits
    | '0' :: 'o' :: digits => based? 8 digits
    | '0' :: 'b' :: digits => based? 2 digits
    | _ => number? text

end OpTable.Toml
