import OpTable.Arithmetic

/-!
# UTF-8

`Utf8.next` takes one scalar value off the front of a byte list, or says how the bytes fail: a
maximal ill-formed part of one to three bytes, or a well-formed start that the end cuts off.
`Utf8.decode` reports the first failure, `Utf8.decodeLossy` writes U+FFFD for each.
-/

namespace OpTable.Text.Utf8

/-- What the front of a nonempty byte list holds; `rest` is what follows it. -/
inductive Front where
  | scalar (c : Char) (rest : List UInt8)
  /-- An ill-formed part of `length` bytes. -/
  | illFormed (length : Nat) (rest : List UInt8)
  /-- The start of a scalar value whose remaining bytes are missing. -/
  | cutOff

/-- Whether `b` lies between `low` and `high`, both included. -/
def within (low high b : UInt8) : Bool := low ≤ b && b ≤ high

/-- The range that the second byte of a scalar value must lie in after the first byte `b`. -/
def secondRange (b : UInt8) : UInt8 × UInt8 :=
  if b = 0xE0 then (0xA0, 0xBF)
  else if b = 0xED then (0x80, 0x9F)
  else if b = 0xF0 then (0x90, 0xBF)
  else if b = 0xF4 then (0x80, 0x8F)
  else (0x80, 0xBF)

/-- The number of bytes of a scalar value whose first byte is `b`, or `none` for a byte that starts
no scalar value. -/
def sequenceLength? (b : UInt8) : Option Nat :=
  if b < 0x80 then some 1
  else if within 0xC2 0xDF b then some 2
  else if within 0xE0 0xEF b then some 3
  else if within 0xF0 0xF4 b then some 4
  else none

/-- The scalar value of a first byte with `bits` payload bits and its continuation bytes. -/
def assemble (first : UInt8) (bits : Nat) (tail : List UInt8) : Char :=
  Char.ofNat (tail.foldl (fun n b => n * 64 + b.toNat % 64) (first.toNat % 2 ^ bits))

def next (b : UInt8) (rest : List UInt8) : Front :=
  let second := secondRange b
  match sequenceLength? b with
  | some 1 => .scalar (Char.ofNat b.toNat) rest
  | some 2 =>
    match rest with
    | [] => .cutOff
    | c :: r =>
      if within second.1 second.2 c then .scalar (assemble b 5 [c]) r else .illFormed 1 rest
  | some 3 =>
    match rest with
    | [] => .cutOff
    | c :: r =>
      if within second.1 second.2 c then
        match r with
        | [] => .cutOff
        | d :: r' => if within 0x80 0xBF d then .scalar (assemble b 4 [c, d]) r' else .illFormed 2 r
      else .illFormed 1 rest
  | some _ =>
    match rest with
    | [] => .cutOff
    | c :: r =>
      if within second.1 second.2 c then
        match r with
        | [] => .cutOff
        | d :: r' =>
          if within 0x80 0xBF d then
            match r' with
            | [] => .cutOff
            | e :: r'' =>
              if within 0x80 0xBF e then .scalar (assemble b 3 [c, d, e]) r'' else .illFormed 3 r'
          else .illFormed 2 r
      else .illFormed 1 rest
  | none => .illFormed 1 rest

def Front.rest : Front → List UInt8
  | .scalar _ rest => rest
  | .illFormed _ rest => rest
  | .cutOff => []

theorem length_rest_next (b : UInt8) (rest : List UInt8) :
    (next b rest).rest.length ≤ rest.length := by
  unfold next
  dsimp only
  repeat' split
  all_goals simp only [Front.rest, List.length_cons, List.length_nil]
  all_goals omega

theorem length_of_next_scalar {b : UInt8} {rest r : List UInt8} {c : Char}
    (h : next b rest = .scalar c r) : r.length ≤ rest.length := by
  have := length_rest_next b rest
  rwa [h] at this

theorem length_of_next_illFormed {b : UInt8} {rest r : List UInt8} {n : Nat}
    (h : next b rest = .illFormed n r) : r.length ≤ rest.length := by
  have := length_rest_next b rest
  rwa [h] at this

/-- Why bytes are not UTF-8: where the first failure starts and, unless the end cut a scalar value
off, how many bytes are ill-formed. -/
structure Fault where
  /-- The number of well-formed bytes before the failure. -/
  start : Nat
  /-- The length of the ill-formed part; `none` when more bytes could have completed it. -/
  length? : Option Nat
deriving DecidableEq

def Fault.message (fault : Fault) : String :=
  match fault.length? with
  | some length => s!"invalid utf-8 sequence of {length} bytes from index {fault.start}"
  | none => s!"incomplete utf-8 byte sequence from index {fault.start}"

/-- Decodes bytes of which `start` precede, or gives the first failure. -/
def decodeFrom (start : Nat) (bytes : List UInt8) : Except Fault (List Char) :=
  match bytes with
  | [] => .ok []
  | b :: rest =>
    match h : next b rest with
    | .scalar c r =>
      have := length_of_next_scalar h
      match decodeFrom (start + 1 + (rest.length - r.length)) r with
      | .ok cs => .ok (c :: cs)
      | .error fault => .error fault
    | .illFormed n _ => .error ⟨start, some n⟩
    | .cutOff => .error ⟨start, none⟩
termination_by bytes.length
decreasing_by simp only [List.length_cons]; omega

def decode (bytes : List UInt8) : Except Fault (List Char) := decodeFrom 0 bytes

/-- The scalar values of the bytes, with U+FFFD for each part that is not well-formed. -/
def decodeLossy (bytes : List UInt8) : List Char :=
  match bytes with
  | [] => []
  | b :: rest =>
    match h : next b rest with
    | .scalar c r =>
      have := length_of_next_scalar h
      c :: decodeLossy r
    | .illFormed _ r =>
      have := length_of_next_illFormed h
      '\uFFFD' :: decodeLossy r
    | .cutOff => ['\uFFFD']
termination_by bytes.length
decreasing_by all_goals simp only [List.length_cons]; omega

def encode (text : List Char) : List UInt8 := text.flatMap String.utf8EncodeChar

def byteLength (text : List Char) : Nat := (text.map Char.utf8Size).sum

end OpTable.Text.Utf8
