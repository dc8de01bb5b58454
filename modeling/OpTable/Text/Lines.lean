/-!
# Lines

A sequence is cut at every newline; each line remembers whether a newline ended it. Nothing follows
a last newline, so a text that ends in one has no empty last line.

A carriage return at the end of a line belongs to the line ending: always in a byte stream
(`ofBytes`), and only where a newline follows it in a text (`ofText`).
-/

namespace OpTable.Text

/-- One line of a sequence: its content, without the newline, and whether a newline ended it. -/
structure Line (α : Type) where
  content : List α
  ended : Bool
deriving DecidableEq

namespace Line

variable {α : Type} [DecidableEq α]

def cut (newline : α) : List α → List (Line α)
  | [] => []
  | c :: rest =>
    if c = newline then ⟨[], true⟩ :: cut newline rest
    else
      match cut newline rest with
      | [] => [⟨[c], false⟩]
      | line :: lines => ⟨c :: line.content, line.ended⟩ :: lines

/-- The list without its last element, if that element is `mark`. -/
def dropLastMark (mark : α) (content : List α) : List α :=
  if content.getLast? = some mark then content.dropLast else content

/-- The lines of a text; a carriage return goes with the newline that follows it. -/
def ofText (text : List Char) : List (List Char) :=
  (cut '\n' text).map fun line =>
    if line.ended then dropLastMark '\r' line.content else line.content

/-- The lines of a byte stream; one carriage return at the end of a line is dropped, also at the end
of the stream. -/
def ofBytes (bytes : List UInt8) : List (List UInt8) :=
  (cut 0x0A bytes).map fun line => dropLastMark 0x0D line.content

end Line

end OpTable.Text
