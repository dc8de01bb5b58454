import OpTable.Proofs.Checked.Word
import OpTable.Proofs.Expr.Compose

/-!
# Checked bit expressions

The functions on bit expressions, written with operations that can fail. None of them fails on an
expression of at most 64 bits, and a width is added up where the sum stays below 2^32.
-/

namespace OpTable.Checked

/-! ### Widths -/

def segmentWidth : Segment → Option Nat
  | .fixed bits => some bits.width
  | .slice s => do
    let gap ← sub s.high s.low
    add gap 1

/-- Adds the widths of the segments to `total`, from left to right. -/
def totalWidth (total : Nat) : List Segment → Option Nat
  | [] => some total
  | s :: rest => do
    let width ← segmentWidth s
    let total ← add total width
    totalWidth total rest

theorem segmentWidth_eq (s : Segment) : segmentWidth s = some s.width := by
  cases s with
  | fixed bits => rfl
  | slice x =>
    have hhigh := x.high_lt
    simp only [segmentWidth, sub_eq x.low_le_high, Option.bind_eq_bind, Option.bind_some,
      add_eq (by omega : x.high - x.low + 1 < 2 ^ 32)]
    rfl

theorem totalWidth_eq {total : Nat} {segments : List Segment}
    (h : total + Segment.totalWidth segments < 2 ^ 32) :
    totalWidth total segments = some (total + Segment.totalWidth segments) := by
  induction segments generalizing total with
  | nil => rfl
  | cons s rest ih =>
    rw [Segment.totalWidth_cons, ← Nat.add_assoc] at h ⊢
    simp only [totalWidth, segmentWidth_eq, Option.bind_eq_bind, Option.bind_some,
      add_eq (by omega : total + s.width < 2 ^ 32), ih h]

def exprWidth (e : BitExpr) : Option Nat := totalWidth 0 e.segments

theorem exprWidth_eq (e : BitExpr) : exprWidth e = some e.width := by
  have hle := e.totalWidth_le
  rw [exprWidth, totalWidth_eq (by omega), Nat.zero_add]
  rfl

/-! ### Composing -/

def segmentBits (valueOf : String → Word) : Segment → Option Word
  | .fixed bits => some bits.value
  | .slice s => do
    let width ← segmentWidth (.slice s)
    bits (valueOf s.field) s.low width

/-- The word moved up to make place for a segment. All 64 places are made in zero only. -/
def makePlace (word : Word) (places : Nat) : Option Word :=
  if places < 64 then raise word places else if word = 0#64 then some 0#64 else none

/-- Puts the bits of the segments below `word`, from left to right. -/
def compose (valueOf : String → Word) (word : Word) : List Segment → Option Word
  | [] => some word
  | s :: rest => do
    let width ← segmentWidth s
    let part ← segmentBits valueOf s
    let raised ← makePlace word width
    compose valueOf (raised ||| part) rest

theorem segmentBits_eq (valueOf : String → Word) (s : Segment) :
    segmentBits valueOf s = some (s.bits valueOf) := by
  cases s with
  | fixed bits => rfl
  | slice x =>
    have hhigh := x.high_lt
    have hlow := x.low_le_high
    simp only [segmentBits, segmentWidth_eq, Option.bind_eq_bind, Option.bind_some,
      bits_eq _ _ (by omega : x.low < 64)]
    rfl

theorem makePlace_eq {word : Word} {width places : Nat} (hword : word.toNat < 2 ^ width)
    (h : width + places ≤ 64) : makePlace word places = some (word <<< places) := by
  unfold makePlace
  by_cases hplaces : places < 64
  · rw [if_pos hplaces, raise_eq hword h hplaces]
  · -- a segment of all 64 bits leaves no room for segments before it
    have hwidth : width = 0 := by omega
    subst hwidth
    have hzero : word = 0#64 := BitVec.eq_of_toNat_eq (by rw [BitVec.toNat_ofNat]; omega)
    rw [if_neg hplaces, if_pos hzero, hzero, BitVec.zero_shiftLeft]

theorem compose_eq {valueOf : String → Word} {word : Word} {width : Nat} {segments : List Segment}
    (hword : word.toNat < 2 ^ width) (h : width + Segment.totalWidth segments ≤ 64) :
    compose valueOf word segments =
      some (segments.foldl (fun word s => (word <<< s.width) ||| s.bits valueOf) word) := by
  induction segments generalizing word width with
  | nil => rfl
  | cons s rest ih =>
    rw [Segment.totalWidth_cons] at h
    have hpart : (s.bits valueOf).toNat < 2 ^ s.width := s.part_fits valueOf
    have hnext : (word <<< s.width ||| s.bits valueOf).toNat < 2 ^ (s.width + width) :=
      Word.toNat_or_lt (Word.toNat_shiftLeft_lt hword) (Word.toNat_lt_mono hpart (by omega))
    simp only [compose, segmentWidth_eq, segmentBits_eq, Option.bind_eq_bind, Option.bind_some,
      makePlace_eq hword (by omega : width + s.width ≤ 64), ih hnext (by omega), List.foldl_cons]

/-! ### Scattering -/

/-- Takes the low bits of `word` apart from right to left. With the values comes the number of
places that were taken. -/
def scatterAll (word : Word) : List Segment → NameMap → Option (NameMap × Nat)
  | [], values => some (values, 0)
  | s :: rest, values => do
    let (values, shift) ← scatterAll word rest values
    let width ← segmentWidth s
    let values ← match s with
      | .fixed _ => some values
      | .slice x => do
        let part ← bits word shift width
        let raised ← raise part x.low
        some (values.alter x.field fun value => value ||| raised)
    let shift ← add shift width
    some (values, shift)

theorem scatterAll_eq {word : Word} {segments : List Segment}
    (h : Segment.totalWidth segments ≤ 64) (values : NameMap) :
    scatterAll word segments values =
      some (Segment.scatterAll word segments values, Segment.totalWidth segments) := by
  induction segments with
  | nil => rfl
  | cons s rest ih =>
    rw [Segment.totalWidth_cons] at h
    have hrest := ih (by omega)
    have hcomm := Nat.add_comm (Segment.totalWidth rest) s.width
    cases s with
    | fixed bits =>
      have hsum : Segment.totalWidth rest + (Segment.fixed bits).width < 2 ^ 32 := by omega
      simp only [scatterAll, hrest, segmentWidth_eq, Option.bind_eq_bind, Option.bind_some,
        add_eq hsum, hcomm, Segment.totalWidth_cons, Segment.scatterAll]
    | slice x =>
      have hx : (Segment.slice x).width = x.width := rfl
      rw [hx] at h hcomm
      have hhigh := x.high_lt
      have hlow := x.low_le_high
      have hwidth : x.width = x.high - x.low + 1 := rfl
      have hsum : Segment.totalWidth rest + x.width < 2 ^ 32 := by omega
      have hbits := bits_eq word x.width (by omega : Segment.totalWidth rest < 64)
      have hraise := raise_eq (Word.toNat_bits_lt word (Segment.totalWidth rest) x.width)
        (by omega : x.width + x.low ≤ 64) (by omega : x.low < 64)
      simp only [scatterAll, hrest, segmentWidth_eq, Option.bind_eq_bind, Option.bind_some, hx,
        hbits, hraise, add_eq hsum, hcomm, Segment.totalWidth_cons, Segment.scatterAll]

def scatter (e : BitExpr) (word : Word) (values : NameMap) : Option NameMap := do
  let (values, _) ← scatterAll word e.segments values
  some values

theorem scatter_eq (e : BitExpr) (word : Word) (values : NameMap) :
    scatter e word values = some (e.scatter word values) := by
  simp only [scatter, scatterAll_eq e.totalWidth_le, Option.bind_eq_bind, Option.bind_some]
  rfl

end OpTable.Checked
