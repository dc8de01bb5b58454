import OpTable.Text.Printable

/-!
# Quoted characters and texts

A character is quoted between apostrophes and a text between quotation marks. The mark itself, the
backslash, NUL, tab and the line ends are written with a backslash; a character that cannot be seen
on its own is written by its hexadecimal number in braces.
-/

namespace OpTable.Text

/-- One character as it stands between two `mark`s. -/
def quotedChar (mark c : Char) : List Char :=
  if c = '\x00' then ['\\', '0']
  else if c = '\t' then ['\\', 't']
  else if c = '\r' then ['\\', 'r']
  else if c = '\n' then ['\\', 'n']
  else if c = '\\' ∨ c = mark then ['\\', c]
  else if isExtender c || !isPrintable c then
    ['\\', 'u', '\x7b'] ++ Nat.toDigits 16 c.toNat ++ ['\x7d']
  else [c]

def quoteChar (c : Char) : String :=
  String.ofList ('\'' :: quotedChar '\'' c ++ ['\''])

def quote (text : String) : String :=
  String.ofList ('"' :: text.toList.flatMap (quotedChar '"') ++ ['"'])

end OpTable.Text
