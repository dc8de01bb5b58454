import OpTable.Expr.Basic
import OpTable.Text.Numeral

/-!
# Reading bit expressions

```text
expr  := group | slice
group := '{' item (',' item)* '}'
item  := group | sized | slice | name
sized := NUM '\'' ('b' | 'h' | 'd') DIGITS
slice := name '[' NUM (':' NUM)? ']'
```

Nested groups are flattened, and a bare name stands for all the bits that its declared width gives
it. The readers take characters off the front of a list. One that cannot go on says where it stands
by the list that is left over (`Stop.stuck`), and `BitExpr.ofText` turns that into an offset.
-/

namespace OpTable

namespace BitExpr

inductive Error where
  | unexpectedEnd
  /-- The character at this byte offset cannot stand there. -/
  | unexpectedChar (c : Char) (offset : Nat)
  | emptyGroup
  /-- A number does not fit in 32 bits. -/
  | numberTooLarge (digits : String)
  /-- The high bit of a slice is below its low bit. -/
  | reversedSlice (field : String) (high low : Nat)
  /-- The high bit of a slice is no bit of a word. -/
  | sliceOutOfRange (field : String) (high : Nat)
  /-- A bare name has no declared width. -/
  | unknownFieldWidth (field : String)
  | radix (letter : Char)
  /-- A sized literal has no digits, or digits that are not a number of its radix. -/
  | badLiteral (text : String)
  /-- The value of a sized literal does not fit its width. -/
  | literal (text : String) (reason : BitString.Error)
  | tooWide (width : Nat)
deriving DecidableEq

def Error.message : Error → String
  | .unexpectedEnd => "unexpected end of expression"
  | .unexpectedChar c offset => s!"unexpected character {Text.quoteChar c} at offset {offset}"
  | .emptyGroup => "empty concatenation"
  | .numberTooLarge digits => s!"number `{digits}` is too large"
  | .reversedSlice field high low =>
    s!"slice {field}[{high}:{low}] has its high bit below its low bit"
  | .sliceOutOfRange field high => s!"slice {field}[{high}] is outside the 64-bit range"
  | .unknownFieldWidth field => s!"bare field `{field}` has no declared width"
  | .radix letter => s!"unsupported literal radix {Text.quoteChar letter}"
  | .badLiteral text => s!"malformed sized literal `{text}`"
  | .literal text reason => s!"sized literal `{text}`: {reason.message}"
  | .tooWide width => s!"expression is {width} bits wide, at most 64 are supported"

inductive Stop where
  /-- What is left over cannot follow what was read. -/
  | stuck (rest : List Char)
  /-- What was read breaks a rule that is not one of spelling. -/
  | fault (error : Error)

def Stop.toError (text : List Char) : Stop → Error
  | .stuck [] => .unexpectedEnd
  | .stuck (c :: rest) =>
    .unexpectedChar c (Text.Utf8.byteLength text - Text.Utf8.byteLength (c :: rest))
  | .fault error => error

namespace Read

/-! ### Leaves -/

def expect (want : Char) : List Char → Except Stop (List Char)
  | [] => .error (.stuck [])
  | c :: rest => if c = want then .ok rest else .error (.stuck (c :: rest))

/-- Takes a decimal number of at most 32 bits. -/
def number (s : List Char) : Except Stop (Nat × List Char) :=
  let digits := s.takeWhile Char.isDigit
  if digits.isEmpty then .error (.stuck s)
  else
    match Text.Numeral.value? 10 digits with
    | some n =>
      if n < 2 ^ 32 then .ok (n, s.dropWhile Char.isDigit)
      else .error (.fault (.numberTooLarge (String.ofList digits)))
    | none => .error (.fault (.numberTooLarge (String.ofList digits)))

def name : List Char → Except Stop ({ field : String // IsIdentifier field } × List Char)
  | [] => .error (.stuck [])
  | c :: rest =>
    if h : isIdentifierStart c then
      .ok (⟨String.ofList (c :: rest.takeWhile isIdentifierPart), by
        rw [isIdentifier_ofList]
        simp [spellsIdentifier, h]⟩, rest.dropWhile isIdentifierPart)
    else .error (.stuck (c :: rest))

/-- Takes the low bit of a slice after its high bit; there is none after a single bit. -/
def lowBit (high : Nat) : List Char → Except Stop (Nat × List Char)
  | ':' :: rest => number rest
  | rest => .ok (high, rest)

/-- The slice with these bits, if they are bits of a word and in order. -/
def checkedSlice (field : { field : String // IsIdentifier field }) (high low : Nat) :
    Except Error Slice :=
  if horder : high < low then .error (.reversedSlice field high low)
  else if hrange : 64 ≤ high then .error (.sliceOutOfRange field high)
  else .ok ⟨field, high, low, field.property, by omega, by omega⟩

def range (field : { field : String // IsIdentifier field }) (s : List Char) :
    Except Stop (Slice × List Char) := do
  let s ← expect '[' s
  let (high, s) ← number s
  let (low, s) ← lowBit high s
  let s ← expect ']' s
  match checkedSlice field high low with
  | .ok slice => .ok (slice, s)
  | .error e => .error (.fault e)

def radix? (letter : Char) : Option Nat :=
  if letter = 'b' ∨ letter = 'B' then some 2
  else if letter = 'h' ∨ letter = 'H' then some 16
  else if letter = 'd' ∨ letter = 'D' then some 10
  else none

def literalBits (text : String) (width radix : Nat) (body : List Char) : Except Error BitString :=
  match Text.Numeral.value? radix (body.filter (· != '_')) with
  | none => .error (.badLiteral text)
  | some value =>
    if value < 2 ^ 64 then
      match BitString.ofValue (BitVec.ofNat 64 value) width with
      | .ok bits => .ok bits
      | .error reason => .error (.literal text reason)
    else .error (.badLiteral text)

/-- Takes the letter and the digits of a sized literal that starts with the width and the
apostrophe in `front`. -/
def literalBody (front : List Char) (width : Nat) :
    List Char → Except Stop (BitString × List Char)
  | [] => .error (.stuck [])
  | letter :: rest =>
    match radix? letter with
    | none => .error (.fault (.radix letter))
    | some radix =>
      let body := rest.takeWhile isIdentifierPart
      match literalBits (String.ofList (front ++ letter :: body)) width radix body with
      | .ok bits => .ok (bits, rest.dropWhile isIdentifierPart)
      | .error e => .error (.fault e)

def sized (s : List Char) : Except Stop (BitString × List Char) := do
  let (width, rest) ← number s
  let rest ← expect '\'' rest
  literalBody (s.takeWhile Char.isDigit ++ ['\'']) width rest

/-- The slice that takes all the bits of a bare name. -/
def wholeField (widthOf : String → Option Nat) (field : { field : String // IsIdentifier field }) :
    Except Error Slice :=
  match widthOf field with
  | none => .error (.unknownFieldWidth field)
  | some width =>
    if h : 1 ≤ width ∧ width ≤ 64 then
      .ok ⟨field, width - 1, 0, field.property, by omega, by omega⟩
    else .error (.unknownFieldWidth field)

/-- Takes what follows a name inside a group: a bit range, or nothing for all bits of the field. -/
def fieldPart (widthOf : String → Option Nat) (field : { field : String // IsIdentifier field })
    (s : List Char) : Except Stop (Slice × List Char) :=
  if s.head? = some '[' then range field s
  else
    match wholeField widthOf field with
    | .ok slice => .ok (slice, s)
    | .error e => .error (.fault e)

def leaf (widthOf : String → Option Nat) (s : List Char) : Except Stop (Segment × List Char) :=
  match s with
  | [] => .error (.stuck [])
  | c :: _ =>
    if c.isDigit then do
      let (bits, rest) ← sized s
      .ok (.fixed bits, rest)
    else do
      let (field, rest) ← name s
      let (slice, rest) ← fieldPart widthOf field rest
      .ok (.slice slice, rest)

/-! ### Each leaf takes a character -/

theorem length_expect {want : Char} {s r : List Char} (h : expect want s = .ok r) :
    r.length < s.length := by
  cases s with
  | nil => simp [expect] at h
  | cons c s =>
    simp only [expect] at h
    split at h
    · cases h; simp
    · cases h

theorem length_dropWhile_le (p : Char → Bool) (s : List Char) :
    (s.dropWhile p).length ≤ s.length :=
  (List.dropWhile_sublist p).length_le

theorem length_number {s r : List Char} {n : Nat} (h : number s = .ok (n, r)) :
    r.length < s.length := by
  simp only [number] at h
  split at h
  · cases h
  next hd =>
  have hr : r = s.dropWhile Char.isDigit := by
    split at h
    · split at h
      · cases h; rfl
      · cases h
    · cases h
  have hpos : 0 < (s.takeWhile Char.isDigit).length := by
    rw [List.length_pos_iff]
    intro e
    simp [e] at hd
  have hall := congrArg List.length (List.takeWhile_append_dropWhile (p := Char.isDigit) (l := s))
  rw [List.length_append] at hall
  rw [hr]
  omega

theorem length_name {s r : List Char} {f : { field : String // IsIdentifier field }}
    (h : name s = .ok (f, r)) : r.length < s.length := by
  cases s with
  | nil => simp [name] at h
  | cons c s =>
    simp only [name] at h
    split at h
    · cases h
      simp only [List.length_cons]
      have := length_dropWhile_le isIdentifierPart s
      omega
    · cases h

theorem length_lowBit {high low : Nat} {s r : List Char} (h : lowBit high s = .ok (low, r)) :
    r.length ≤ s.length := by
  unfold lowBit at h
  split at h
  · have := length_number h
    simp only [List.length_cons]
    omega
  · cases h; exact Nat.le_refl _

theorem length_range {f : { field : String // IsIdentifier field }} {s r : List Char} {x : Slice}
    (h : range f s = .ok (x, r)) : r.length < s.length := by
  simp only [range, bind, Except.bind] at h
  split at h
  · cases h
  next s₁ h₁ =>
  split at h
  · cases h
  next p h₂ =>
  split at h
  · cases h
  next q h₃ =>
  split at h
  · cases h
  next s₄ h₄ =>
  split at h
  · cases h
    have h₁ := length_expect h₁
    have h₂ := length_number h₂
    have h₃ := length_lowBit h₃
    have h₄ := length_expect h₄
    omega
  · cases h

theorem length_literalBody {front : List Char} {width : Nat} {s r : List Char} {b : BitString}
    (h : literalBody front width s = .ok (b, r)) : r.length < s.length := by
  cases s with
  | nil => simp [literalBody] at h
  | cons c s =>
    simp only [literalBody] at h
    split at h
    · cases h
    · split at h
      · cases h
        simp only [List.length_cons]
        have := length_dropWhile_le isIdentifierPart s
        omega
      · cases h

theorem length_sized {s r : List Char} {b : BitString} (h : sized s = .ok (b, r)) :
    r.length < s.length := by
  simp only [sized, bind, Except.bind] at h
  split at h
  · cases h
  next p h₁ =>
  split at h
  · cases h
  next s₂ h₂ =>
  have h₁ := length_number h₁
  have h₂ := length_expect h₂
  have h₃ := length_literalBody h
  omega

theorem length_fieldPart {widthOf : String → Option Nat}
    {f : { field : String // IsIdentifier field }} {s r : List Char} {x : Slice}
    (h : fieldPart widthOf f s = .ok (x, r)) : r.length ≤ s.length := by
  unfold fieldPart at h
  split at h
  · exact Nat.le_of_lt (length_range h)
  · split at h
    · cases h; exact Nat.le_refl _
    · cases h

theorem length_leaf {widthOf : String → Option Nat} {s r : List Char} {x : Segment}
    (h : leaf widthOf s = .ok (x, r)) : r.length < s.length := by
  unfold leaf at h
  split at h
  · cases h
  · split at h
    · simp only [bind, Except.bind] at h
      split at h
      · cases h
      next p h₁ =>
      cases h
      exact length_sized h₁
    · simp only [bind, Except.bind] at h
      split at h
      · cases h
      next p h₁ =>
      split at h
      · cases h
      next q h₂ =>
      cases h
      have h₁ := length_name h₁
      have h₂ := length_fieldPart h₂
      omega

/-! ### Groups -/

/-- What reading at the front of `s` gave: at least one segment, and less text than before. -/
structure Items (s : List Char) where
  /-- The segments, with nested groups flattened. -/
  segments : List Segment
  segments_ne_nil : segments ≠ []
  rest : List Char
  shorter : rest.length < s.length

mutual

def item (widthOf : String → Option Nat) (s : List Char) : Except Stop (Items s) :=
  match hs : s with
  | '\x7b' :: body =>
    if body.head? = some '\x7d' then .error (.fault .emptyGroup)
    else
      match items widthOf body with
      | .ok ⟨segments, hne, rest, hlt⟩ =>
        .ok ⟨segments, hne, rest, by simp only [List.length_cons]; omega⟩
      | .error stop => .error stop
  | s =>
    match h : leaf widthOf s with
    | .ok (segment, rest) => .ok ⟨[segment], by simp, rest, length_leaf h⟩
    | .error stop => .error stop
termination_by 2 * s.length

/-- Takes the items of a group, separated by commas, and the closing brace. -/
def items (widthOf : String → Option Nat) (s : List Char) : Except Stop (Items s) :=
  match item widthOf s with
  | .error stop => .error stop
  | .ok first =>
    match hr : first.rest with
    | ',' :: more =>
      match items widthOf more with
      | .ok others =>
        .ok ⟨first.segments ++ others.segments, by simp [first.segments_ne_nil], others.rest, by
          have h₁ := first.shorter
          have h₂ := others.shorter
          rw [hr, List.length_cons] at h₁
          omega⟩
      | .error stop => .error stop
    | '\x7d' :: rest =>
      .ok ⟨first.segments, first.segments_ne_nil, rest, by
        have h := first.shorter
        rw [hr, List.length_cons] at h
        omega⟩
    | rest => .error (.stuck rest)
termination_by 2 * s.length + 1
decreasing_by
  · omega
  · have h := first.shorter
    rw [hr, List.length_cons] at h
    omega

end

/-! ### Whole expressions -/

/-- Takes a whole expression: a group, or a single slice. -/
def expression (widthOf : String → Option Nat) (s : List Char) : Except Stop (Items s) :=
  match s with
  | '\x7b' :: rest => item widthOf ('\x7b' :: rest)
  | s =>
    match h₁ : name s with
    | .error stop => .error stop
    | .ok (field, rest) =>
      match h₂ : range field rest with
      | .error stop => .error stop
      | .ok (slice, rest') =>
        .ok ⟨[.slice slice], by simp, rest', by
          have h₁ := length_name h₁
          have h₂ := length_range h₂
          omega⟩

end Read

/-- Reads a text that is a bit expression from end to end; `widthOf` gives the widths of the names
that may stand without a bit range. -/
def ofText (widthOf : String → Option Nat) (text : String) : Except Error BitExpr :=
  let chars := text.toList
  match Read.expression widthOf chars with
  | .error stop => .error (stop.toError chars)
  | .ok read =>
    match read.rest with
    | [] =>
      if h : Segment.totalWidth read.segments ≤ 64 then
        .ok ⟨read.segments, read.segments_ne_nil, h⟩
      else .error (.tooWide (Segment.totalWidth read.segments))
    | rest => .error ((Stop.stuck rest).toError chars)

end BitExpr

end OpTable
