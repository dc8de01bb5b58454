/-!
# Written JSON

The part of JSON that tables and schemas are written in: whole numbers and no negative ones, members
in the order in which they are listed. `Json.pretty` writes a tree over several lines, two blanks
for each level; an empty array and an empty object stay on their line.
-/

namespace OpTable

inductive Json where
  | null
  | boolean (value : Bool)
  | number (value : Nat)
  | text (value : String)
  | array (items : List Json)
  | object (members : List (String × Json))

namespace Json

/-- The tree of a value that may be absent, absent values as `null`. -/
def ofOption {α : Type} (toJson : α → Json) : Option α → Json
  | none => null
  | some value => toJson value

/-! ### Strings -/

/-- One character inside a string. Control characters without a short form are written by number. -/
def escapedChar (c : Char) : List Char :=
  if c = '"' then ['\\', '"']
  else if c = '\\' then ['\\', '\\']
  else if c = '\n' then ['\\', 'n']
  else if c = '\r' then ['\\', 'r']
  else if c = '\t' then ['\\', 't']
  else if c = '\x08' then ['\\', 'b']
  else if c = '\x0c' then ['\\', 'f']
  else if c.toNat < 0x20 then
    ['\\', 'u', '0', '0', Nat.digitChar (c.toNat / 16), Nat.digitChar (c.toNat % 16)]
  else [c]

def quoted (value : String) : List Char :=
  '"' :: value.toList.flatMap escapedChar ++ ['"']

/-! ### Layout -/

def newLine (depth : Nat) : List Char := '\n' :: List.replicate (2 * depth) ' '

mutual

/-- The tree, when what surrounds it stands at the given depth. -/
def write (depth : Nat) : Json → List Char
  | null => "null".toList
  | boolean value => (if value then "true" else "false").toList
  | number value => Nat.toDigits 10 value
  | text value => quoted value
  | array [] => ['[', ']']
  | array (item :: items) =>
    '[' :: newLine (depth + 1) ++ write (depth + 1) item ++ writeItems (depth + 1) items
      ++ newLine depth ++ [']']
  | object [] => ['\x7b', '\x7d']
  | object ((key, value) :: members) =>
    '\x7b' :: newLine (depth + 1) ++ quoted key ++ ": ".toList ++ write (depth + 1) value
      ++ writeMembers (depth + 1) members ++ newLine depth ++ ['\x7d']

/-- The further items of an array, each on a line of its own. -/
def writeItems (depth : Nat) : List Json → List Char
  | [] => []
  | item :: items => ',' :: newLine depth ++ write depth item ++ writeItems depth items

def writeMembers (depth : Nat) : List (String × Json) → List Char
  | [] => []
  | (key, value) :: members =>
    ',' :: newLine depth ++ quoted key ++ ": ".toList ++ write depth value
      ++ writeMembers depth members

end

/-- The tree as a text of several lines, without a newline at the end. -/
def pretty (tree : Json) : String := String.ofList (write 0 tree)

end Json

end OpTable
