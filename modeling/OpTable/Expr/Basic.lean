import OpTable.BitString
import OpTable.Identifier
import OpTable.NameMap

/-!
# Bit expressions

A bit expression says how a part of an instruction word is put together: a concatenation of fixed
bits and of slices of named fields, the first segment in the highest position. `BitExpr.compose`
builds the bits from the values of the fields, `BitExpr.scatter` takes them apart again.
-/

namespace OpTable

/-- The bits `high` to `low` of a named field. -/
structure Slice where
  field : String
  high : Nat
  low : Nat
  identifier : IsIdentifier field
  low_le_high : low ≤ high
  high_lt : high < 64
deriving DecidableEq

namespace Slice

def width (s : Slice) : Nat := s.high - s.low + 1

/-- The bit range after the field's name: `[high:low]`, or `[bit]` for a single bit. -/
def rangeText (high low : Nat) : String :=
  if high = low then s!"[{high}]" else s!"[{high}:{low}]"

def text (s : Slice) : String := s.field ++ rangeText s.high s.low

end Slice

/-- One part of a bit expression. -/
inductive Segment where
  | fixed (bits : BitString)
  | slice (slice : Slice)
deriving DecidableEq

namespace Segment

def width : Segment → Nat
  | fixed bits => bits.width
  | slice s => s.width

/-- A sized binary literal, or the slice. -/
def text : Segment → String
  | fixed bits => s!"{bits.width}'b{bits.text}"
  | slice s => s.text

/-- The bits of the segment when `valueOf` gives the values of the fields. -/
def bits (valueOf : String → Word) : Segment → Word
  | fixed bits => bits.value
  | slice s => (valueOf s.field).bits s.low s.width

def totalWidth (segments : List Segment) : Nat := (segments.map width).sum

/-- Takes the low `totalWidth` bits of `word` apart: each slice is read at the place above the
segments that follow it and is added to what `values` holds for its field. -/
def scatterAll (word : Word) : List Segment → NameMap → NameMap
  | [], values => values
  | fixed _ :: rest, values => scatterAll word rest values
  | slice s :: rest, values =>
    (scatterAll word rest values).alter s.field
      fun value => value ||| (word.bits (totalWidth rest) s.width <<< s.low)

end Segment

/-- A concatenation of segments, the first one in the highest position. -/
structure BitExpr where
  /-- The segments, from the highest position down. -/
  segments : List Segment
  segments_ne_nil : segments ≠ []
  totalWidth_le : Segment.totalWidth segments ≤ 64
deriving DecidableEq

namespace BitExpr

def width (e : BitExpr) : Nat := Segment.totalWidth e.segments

def compose (e : BitExpr) (valueOf : String → Word) : Word :=
  e.segments.foldl (fun word s => (word <<< s.width) ||| s.bits valueOf) 0#64

/-- Adds the bits that `word` holds for each slice to the value of the slice's field. -/
def scatter (e : BitExpr) (word : Word) (values : NameMap) : NameMap :=
  Segment.scatterAll word e.segments values

/-- A single slice as it is, anything else in braces. -/
def text (e : BitExpr) : String :=
  match e.segments with
  | [.slice s] => s.text
  | segments => "\x7b" ++ ",".intercalate (segments.map Segment.text) ++ "\x7d"

instance : ToString BitExpr := ⟨text⟩

end BitExpr

end OpTable
