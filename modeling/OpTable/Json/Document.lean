import OpTable.Datum
import OpTable.Decimal.Scaled
import OpTable.Text.Numeral
import OpTable.Text.Reader

/-!
# JSON documents

A document is one value with blanks around it. Read from end to end, it is a data tree with the
members of each object in the order of their keys; of several members with one key the last counts.
-/

namespace OpTable.Json.Document

open Text (Reader)
open Text.Reader

def blanks : Reader Unit := do
  let _ ← takeWhile fun c => c = ' ' || c = '\t' || c = '\n' || c = '\r'

/-! ### Strings -/

/-- The character that a backslash and this letter stand for. -/
def shortEscape? (letter : Char) : Option Char :=
  match letter with
  | '"' => some '"'
  | '\\' => some '\\'
  | '/' => some '/'
  | 'b' => some '\x08'
  | 'f' => some '\x0c'
  | 'n' => some '\n'
  | 'r' => some '\r'
  | 't' => some '\t'
  | _ => none

/-- Takes the four hexadecimal digits of a UTF-16 code unit. -/
def codeUnit : Reader Nat := fun s =>
  let digits := s.take 4
  if digits.length < 4 then none
  else (Text.Numeral.value? 16 digits).map fun n => (n, s.drop 4)

/-- Takes what follows the backslash and the `u` of an escape: a code unit, or a pair of them for a
character beyond the first 65536. -/
def numberedEscape : Reader Char := do
  let high ← codeUnit
  if 0xD800 ≤ high ∧ high < 0xDC00 then
    expect '\\'
    expect 'u'
    let low ← codeUnit
    if 0xDC00 ≤ low ∧ low < 0xE000 then
      return Char.ofNat (0x10000 + (high - 0xD800) * 0x400 + (low - 0xDC00))
    else failure
  else if high.isValidChar then return Char.ofNat high
  else failure

def escape : Reader Char := fun s =>
  match s with
  | 'u' :: rest => numberedEscape rest
  | letter :: rest => (shortEscape? letter).map fun c => (c, rest)
  | [] => none

/-- Whether `c` stands for itself in a string. -/
def isPlain (c : Char) : Bool := c ≠ '"' && c ≠ '\\' && 0x20 ≤ c.toNat

/-- Takes the rest of a string after its first mark; `steps` bounds the number of escapes. -/
def stringBody : Nat → Reader (List Char)
  | 0 => failure
  | steps + 1 => do
    let plain ← takeWhile isPlain
    if ← accept '"' then return plain
    expect '\\'
    let c ← escape
    return plain ++ c :: (← stringBody steps)

def string : Reader String := do
  expect '"'
  return String.ofList (← stringBody ((← get).length + 1))

/-! ### Numbers -/

def digits : Reader (List Nat) := do
  let run ← takeWhile Char.isDigit
  if run.isEmpty then failure
  return run.map fun c => c.toNat - '0'.toNat

def numberOf (digits : List Nat) : Nat := digits.foldl (fun n d => 10 * n + d) 0

def exponent? : Reader (Option Int) := do
  let mark ← next?
  if mark = some 'e' ∨ mark = some 'E' then
    set ((← get).drop 1)
    let negative ← accept '-'
    if !negative then
      let _ ← accept '+'
    let n := numberOf (← digits)
    return some (if negative then -(n : Int) else n)
  else return none

/-- A number without a point and an exponent. It is whole if 64 bits hold it, with a sign or
without one; minus zero is not. -/
def wholeNumber? (negative : Bool) (digits : List Nat) : Option Int :=
  let n := numberOf digits
  if negative then if n = 0 ∨ 2 ^ 63 < n then none else some (-(n : Int))
  else if n < 2 ^ 64 then some n
  else none

/-- Takes a number. Zeros do not stand in front of other digits. -/
def number : Reader Datum := do
  let negative ← accept '-'
  let whole ← digits
  if whole.head? = some 0 ∧ whole.length ≠ 1 then failure
  let fraction ← if ← accept '.' then digits else pure []
  let exponent? ← exponent?
  let real : Reader Datum := do
    let x ← orFail (Decimal.Scaled.ofDigits whole fraction (exponent?.getD 0)).toFloat?
    return .real (if negative then -x else x)
  if fraction.isEmpty && exponent?.isNone then
    match wholeNumber? negative whole with
    | some n => return .integer n
    | none => real
  else real

/-! ### Values -/

/-- Takes what `reader` takes with the blanks around it. -/
def spaced {α : Type} (reader : Reader α) : Reader α := do
  blanks
  let a ← reader
  blanks
  return a

/-- Takes a word that stands for a value. -/
def word : Reader Datum := do
  let letters ← takeWhile Char.isAlpha
  if letters = "null".toList then return .null
  else if letters = "true".toList then return .boolean true
  else if letters = "false".toList then return .boolean false
  else failure

/-- Takes a value that holds no others. -/
def scalar : Reader Datum := do
  match ← next? with
  | some '"' => return .text (← string)
  | some c => if c.isAlpha then word else number
  | none => failure

/-- Takes the items of an array up to its closing bracket; `steps` bounds their number. -/
def items (value : Reader Datum) : Nat → Reader (List Datum)
  | 0 => failure
  | steps + 1 => do
    let item ← value
    if ← accept ',' then return item :: (← items value steps)
    expect ']'
    return [item]

def members (value : Reader Datum) : Nat → Reader (List (String × Datum))
  | 0 => failure
  | steps + 1 => do
    let key ← spaced string
    expect ':'
    let entry := (key, ← value)
    if ← accept ',' then return entry :: (← members value steps)
    expect '\x7d'
    return [entry]

/-- Of neighbours with one key the last. -/
def lastOfEach : List (String × Datum) → List (String × Datum)
  | first :: second :: rest =>
    if first.1 = second.1 then lastOfEach (second :: rest)
    else first :: lastOfEach (second :: rest)
  | entries => entries

def array (value : Reader Datum) : Reader Datum := do
  expect '['
  blanks
  if ← accept ']' then return .list []
  return .list (← items value ((← get).length + 1))

def object (value : Reader Datum) : Reader Datum := do
  expect '\x7b'
  blanks
  if ← accept '\x7d' then return .table []
  let entries ← members value ((← get).length + 1)
  return .table (lastOfEach (Datum.sortEntries entries))

/-- Takes a value with the blanks around it, in which arrays and objects are nested at most
`depth` deep. -/
def valueWithin : (depth : Nat) → Reader Datum
  | 0 => spaced scalar
  | depth + 1 => spaced do
    match ← next? with
    | some '[' => array (valueWithin depth)
    | some '\x7b' => object (valueWithin depth)
    | _ => scalar

def read? (text : String) : Option Datum :=
  match valueWithin 127 text.toList with
  | some (datum, []) => some datum
  | _ => none

end OpTable.Json.Document
