import OpTable.Text.Numeral
import OpTable.Text.Reader

/-!
# The words of TOML

Readers of what stands between values (blanks, comments, line ends) and of strings in their four
forms. A `Lexeme` is a key or a scalar value that has been cut out of a document and not yet been
read.
-/

namespace OpTable.Toml

open Text (Reader)
open Text.Reader

/-! ### Between values -/

/-- Whether `c` may stand in a comment or a string of one line. -/
def isTextChar (c : Char) : Bool := c = '\t' || (0x20 ≤ c.toNat && c.toNat ≠ 0x7F)

def blanks : Reader Unit := do
  let _ ← takeWhile fun c => c = ' ' || c = '\t'

/-- Takes a line end, if one comes next, and gives its characters. -/
def newline? : Reader (Option (List Char)) := fun s =>
  match s with
  | '\n' :: rest => some (some ['\n'], rest)
  | '\r' :: '\n' :: rest => some (some ['\r', '\n'], rest)
  | _ => some (none, s)

def newline : Reader Bool := do return (← newline?).isSome

/-- Takes what may follow an expression on its line, and the line end. -/
def lineEnd : Reader Unit := do
  blanks
  if ← accept '#' then
    let _ ← takeWhile isTextChar
  match ← next? with
  | none => pure ()
  | some _ => if ← newline then pure () else failure

/-- Takes blanks, comments and line ends; `steps` bounds their number. -/
def spaceWithin : Nat → Reader Unit
  | 0 => pure ()
  | steps + 1 => do
    blanks
    if ← accept '#' then
      let _ ← takeWhile isTextChar
      match ← next? with
      | none => pure ()
      | some _ => if ← newline then spaceWithin steps else failure
    else if ← newline then spaceWithin steps
    else pure ()

def space : Reader Unit := do spaceWithin ((← get).length + 1)

/-! ### Strings -/

/-- The character that a backslash and this letter stand for. -/
def shortEscape? (letter : Char) : Option Char :=
  match letter with
  | 'b' => some '\x08'
  | 't' => some '\t'
  | 'n' => some '\n'
  | 'f' => some '\x0c'
  | 'r' => some '\r'
  | 'e' => some '\x1b'
  | '"' => some '"'
  | '\\' => some '\\'
  | _ => none

/-- The number of hexadecimal digits that follow this letter after a backslash. -/
def escapeDigits? (letter : Char) : Option Nat :=
  match letter with
  | 'x' => some 2
  | 'u' => some 4
  | 'U' => some 8
  | _ => none

def scalar? (n : Nat) : Option Char := if n.isValidChar then some (Char.ofNat n) else none

def escape : Reader Char := fun s =>
  match s with
  | [] => none
  | letter :: rest =>
    match shortEscape? letter with
    | some c => some (c, rest)
    | none => do
      let count ← escapeDigits? letter
      let digits := rest.take count
      if digits.length < count then none
      else
        let c ← scalar? (← Text.Numeral.value? 16 digits)
        some (c, rest.drop count)

/-- Takes the rest of a basic string of one line; `steps` bounds the number of characters. -/
def basicBody : Nat → Reader (List Char)
  | 0 => failure
  | steps + 1 => do
    if ← accept '"' then pure []
    else if ← accept '\\' then
      let c ← escape
      pure (c :: (← basicBody steps))
    else
      match ← get with
      | c :: rest =>
        if isTextChar c then
          set rest
          pure (c :: (← basicBody steps))
        else failure
      | [] => failure

/-- Takes up to five marks where a string of several lines may end: three end it, and those before
them belong to it. Fewer than three all belong to it. -/
def closingMarks (mark : Char) : Reader (List Char × Bool) := fun s =>
  let count := min 5 (s.takeWhile (· = mark)).length
  if 3 ≤ count then some ((List.replicate (count - 3) mark, true), s.drop count)
  else some ((List.replicate count mark, false), s.drop count)

/-- Takes line ends and blanks after a backslash that ends a line; `steps` bounds their number. -/
def continuation : Nat → Reader Unit
  | 0 => pure ()
  | steps + 1 => do
    blanks
    if ← newline then continuation steps else pure ()

/-- Takes a backslash that ends a line with all that is passed over, and says whether there was
one. -/
def lineContinuation : Reader Bool := fun s =>
  match s with
  | '\\' :: rest =>
    match (do blanks; newline : Reader Bool) rest with
    | some (true, rest) => (do continuation (rest.length + 1); pure true : Reader Bool) rest
    | _ => some (false, s)
  | _ => some (false, s)

/-- Takes the rest of a string of several lines between triple `mark`s; line ends stay as they are.
`steps` bounds the number of characters. -/
def longBody (mark : Char) (escapes : Bool) : Nat → Reader (List Char)
  | 0 => failure
  | steps + 1 => do
    let (marks, closed) ← closingMarks mark
    if closed then pure marks
    else
      match ← newline? with
      | some ending => pure (marks ++ ending ++ (← longBody mark escapes steps))
      | none =>
        let continued ← if escapes then lineContinuation else pure false
        if continued then pure (marks ++ (← longBody mark escapes steps))
        else
          match ← get with
          | c :: rest =>
            if escapes && c = '\\' then
              set rest
              let c ← escape
              pure (marks ++ c :: (← longBody mark escapes steps))
            else if isTextChar c then
              set rest
              pure (marks ++ c :: (← longBody mark escapes steps))
            else failure
          | [] => failure

def longString (mark : Char) (escapes : Bool) : Reader String := do
  let _ ← newline
  return String.ofList (← longBody mark escapes ((← get).length + 1))

def basicString : Reader String := do
  expect '"'
  return String.ofList (← basicBody ((← get).length + 1))

def literalString : Reader String := do
  expect '\''
  let body ← takeWhile fun c => isTextChar c && c ≠ '\''
  expect '\''
  return String.ofList body

/-! ### Lexemes -/

/-- How a lexeme is written. -/
inductive Form where
  | bare
  /-- Between quotation marks, on one line. -/
  | basic
  /-- Between apostrophes, on one line. -/
  | literal
  /-- Between triple quotation marks. -/
  | longBasic
  /-- Between triple apostrophes. -/
  | longLiteral
deriving DecidableEq

/-- A key without dots, or a value that holds no others, as it is written. -/
structure Lexeme where
  form : Form
  /-- The characters, with the marks around them. -/
  text : List Char

/-- Reads a text as a whole. -/
def whole? {α : Type} (reader : Reader α) (text : List Char) : Option α :=
  match reader text with
  | some (a, []) => some a
  | _ => none

def Lexeme.string? (lexeme : Lexeme) : Option String :=
  match lexeme.form with
  | .bare => none
  | .basic => whole? basicString lexeme.text
  | .literal => whole? literalString lexeme.text
  | .longBasic => whole? (longString '"' true) (lexeme.text.drop 3)
  | .longLiteral => whole? (longString '\'' false) (lexeme.text.drop 3)

/-- Whether `c` may stand in a key without quotation marks. -/
def isBareKeyChar (c : Char) : Bool := c.isAlphanum || c = '_' || c = '-'

def Lexeme.key? (lexeme : Lexeme) : Option String :=
  match lexeme.form with
  | .bare =>
    if lexeme.text.isEmpty || !lexeme.text.all isBareKeyChar then none
    else some (String.ofList lexeme.text)
  | .basic | .literal => lexeme.string?
  | .longBasic | .longLiteral => none

end OpTable.Toml
