import OpTable.Toml.Lexical
import OpTable.Toml.Scalar

/-!
# TOML as it is written

A `Source` is a document taken apart: its headers, keys and values stand in their places and are not
yet read. Whatever stands in the wrong place is found here. Where a key or a value is missing, an
empty lexeme stands for it.
-/

namespace OpTable.Toml

open Text (Reader)
open Text.Reader

inductive Source.Value where
  | scalar (lexeme : Lexeme)
  | array (items : List Source.Value)
  /-- An inline table, with the parts of each key. -/
  | table (entries : List (List Lexeme × Source.Value))

abbrev Source.Definitions := List (List Lexeme × Source.Value)

structure Source.Section where
  /-- Whether the brackets are double. -/
  double : Bool
  key : List Lexeme
  entries : Source.Definitions

structure Source where
  /-- The entries before the first header. -/
  entries : Source.Definitions
  sections : List Source.Section

/-! ### Lexemes -/

/-- Cuts a text after the first `marks`, but not after marks behind a backslash if there are
`escapes`, and with `oneLine` before the end of the line at the latest. -/
def cut (marks : List Char) (escapes oneLine : Bool) : List Char → List Char × List Char
  | [] => ([], [])
  | '\\' :: d :: rest =>
    if escapes && (d = '\\' || d = '"') then
      let (taken, left) := cut marks escapes oneLine rest
      ('\\' :: d :: taken, left)
    else
      let (taken, left) := cut marks escapes oneLine (d :: rest)
      ('\\' :: taken, left)
  | c :: rest =>
    if marks.isPrefixOf (c :: rest) then (marks, (c :: rest).drop marks.length)
    else if oneLine && c = '\n' then ([], c :: rest)
    else
      let (taken, left) := cut marks escapes oneLine rest
      (c :: taken, left)

/-- Takes a quoted lexeme of one line, which starts with `mark`. -/
def shortLexeme (form : Form) (mark : Char) (escapes : Bool) : Reader Lexeme := fun s =>
  let (taken, left) := cut [mark] escapes true (s.drop 1)
  some (⟨form, mark :: taken⟩, left)

/-- Takes a quoted lexeme of several lines, which starts with three `mark`s. Up to two more of them
belong to it at its end. -/
def longLexeme (form : Form) (mark : Char) (escapes : Bool) : Reader Lexeme := fun s =>
  let marks := [mark, mark, mark]
  let (taken, left) := cut marks escapes false (s.drop 3)
  let more := (left.takeWhile (· == mark)).take 2
  some (⟨form, marks ++ taken ++ more⟩, left.drop more.length)

def quotedLexeme? : Reader (Option Lexeme) := do
  match ← get with
  | '"' :: '"' :: '"' :: _ => return some (← longLexeme .longBasic '"' true)
  | '\'' :: '\'' :: '\'' :: _ => return some (← longLexeme .longLiteral '\'' false)
  | '"' :: _ => return some (← shortLexeme .basic '"' true)
  | '\'' :: _ => return some (← shortLexeme .literal '\'' false)
  | _ => return none

/-- Whether `c` divides lexemes. -/
def isDivider (c : Char) : Bool := ".=,[]\x7b\x7d \t#\r\n".toList.contains c

/-! ### Keys -/

def keyPart : Reader Lexeme := do
  match ← quotedLexeme? with
  | some lexeme => return lexeme
  | none => return ⟨.bare, ← takeWhile (!isDivider ·)⟩

/-- Takes a key and what follows it after dots; `steps` bounds the number of parts. -/
def keyParts : Nat → Reader (List Lexeme)
  | 0 => failure
  | steps + 1 => do
    blanks
    let part ← keyPart
    blanks
    if ← accept '.' then return part :: (← keyParts steps) else return [part]

def dottedKey : Reader (List Lexeme) := do keyParts ((← get).length + 1)

/-! ### Values -/

/-- Takes a bare lexeme. A blank may stand between a date and a time. -/
def bareLexeme : Reader Lexeme := do
  let isBare := fun c => c = '.' || !isDivider c
  let text ← takeWhile isBare
  match isDate text, ← get with
  | true, ' ' :: c :: rest =>
    if c.isDigit then
      let more := (c :: rest).takeWhile isBare
      set ((c :: rest).drop more.length)
      return ⟨.bare, text ++ ' ' :: more⟩
    else return ⟨.bare, text⟩
  | _, _ => return ⟨.bare, text⟩

/-- Takes a value that holds no others. -/
def scalar : Reader Source.Value := do
  match ← quotedLexeme? with
  | some lexeme => return .scalar lexeme
  | none => return .scalar (← bareLexeme)

/-- Takes the rest of an array after its bracket or a comma; `steps` bounds the number of items. -/
def arrayItems (value : Reader Source.Value) : Nat → Reader (List Source.Value)
  | 0 => failure
  | steps + 1 => do
    space
    if ← accept ']' then return []
    if (← next?) = some ',' then failure
    let item ← value
    space
    if ← accept ',' then return item :: (← arrayItems value steps)
    expect ']'
    return [item]

/-- Takes a key, an equals sign and a value. `gap` takes what may stand around the equals sign. -/
def keyValue (gap : Reader Unit) (value : Reader Source.Value) :
    Reader (List Lexeme × Source.Value) := do
  let key ← dottedKey
  gap
  expect '='
  gap
  return (key, ← value)

/-- Takes the rest of an inline table after its brace or a comma; `steps` bounds the number of
entries. -/
def inlineEntries (value : Reader Source.Value) : Nat → Reader Source.Definitions
  | 0 => failure
  | steps + 1 => do
    space
    if ← accept '\x7d' then return []
    let entry ← keyValue space value
    space
    if ← accept ',' then return entry :: (← inlineEntries value steps)
    expect '\x7d'
    return [entry]

/-- Takes a value in which arrays and inline tables are nested at most `depth` deep. -/
def valueWithin : (depth : Nat) → Reader Source.Value
  | 0 => do
    match ← next? with
    | some '[' | some '\x7b' => failure
    | _ => scalar
  | depth + 1 => do
    if ← accept '[' then return .array (← arrayItems (valueWithin depth) ((← get).length + 1))
    else if ← accept '\x7b' then
      return .table (← inlineEntries (valueWithin depth) ((← get).length + 1))
    else scalar

def value : Reader Source.Value := valueWithin 80

/-! ### Documents -/

/-- Takes a header: whether its brackets are double, and its key. -/
def header : Reader (Bool × List Lexeme) := do
  expect '['
  let double ← accept '['
  let key ← dottedKey
  expect ']'
  if double then expect ']'
  return (double, key)

/-- Takes the lines of a document; `steps` bounds their number. -/
def lines : Nat → Reader Source
  | 0 => failure
  | steps + 1 => do
    blanks
    match ← next? with
    | none => return ⟨[], []⟩
    | some '[' =>
      let (double, key) ← header
      lineEnd
      let rest ← lines steps
      return ⟨[], ⟨double, key, rest.entries⟩ :: rest.sections⟩
    | some c =>
      if c = '#' ∨ c = '\n' ∨ c = '\r' then
        lineEnd
        lines steps
      else
        let entry ← keyValue blanks value
        lineEnd
        let rest ← lines steps
        return ⟨entry :: rest.entries, rest.sections⟩

/-- The text without a byte order mark. -/
def withoutMark : List Char → List Char
  | '\uFEFF' :: rest => rest
  | text => text

/-- A text taken apart, or `none` if something stands in the wrong place. -/
def Source.ofText? (text : String) : Option Source :=
  let chars := withoutMark text.toList
  whole? (lines (chars.length + 1)) chars

end OpTable.Toml
