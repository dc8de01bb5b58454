/-!
# Readers

A `Reader` takes something off the front of a text, or gives up. Whether it goes on is decided by
the characters that come next, so that readers for the parts of a notation add up to one for the
whole.
-/

namespace OpTable.Text

/-- Takes something off the front of a text, or gives up. -/
abbrev Reader (α : Type) := StateT (List Char) Option α

namespace Reader

def takeWhile (p : Char → Bool) : Reader (List Char) := fun s =>
  some (s.takeWhile p, s.dropWhile p)

/-- Takes the character `c` if it comes next, and says whether it did. -/
def accept (c : Char) : Reader Bool := fun s =>
  match s with
  | d :: rest => if d = c then some (true, rest) else some (false, s)
  | [] => some (false, [])

def expect (c : Char) : Reader Unit := do
  if ← accept c then pure () else failure

def next? : Reader (Option Char) := fun s => some (s.head?, s)

def orFail {α : Type} : Option α → Reader α
  | some a => pure a
  | none => failure

end Reader

end OpTable.Text
