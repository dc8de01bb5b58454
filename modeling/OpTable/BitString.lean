import OpTable.Text.Quoted
import OpTable.Text.Utf8
import OpTable.Word

/-!
# Bit strings

A bit string is a value together with a width of 1 to 64 bits. Its text has one digit per bit, so
leading zeros count: `010` and `10` are different bit strings.
-/

namespace OpTable

/-- A value of a fixed width. -/
structure BitString where
  value : Word
  width : Nat
  width_pos : 0 < width
  width_le : width ≤ 64
  value_lt : value.toNat < 2 ^ width
deriving DecidableEq

namespace BitString

inductive Error where
  | empty
  | invalidChar (c : Char)
  /-- There are more than 64 bits. -/
  | tooWide (width : Nat)
  /-- The value has a bit at or above the width. -/
  | overflow (value : Word) (width : Nat)
deriving DecidableEq

def Error.message : Error → String
  | .empty => "empty bit string"
  | .invalidChar c => s!"invalid bit character {Text.quoteChar c}"
  | .tooWide width => s!"bit string is {width} bits wide, at most 64 are supported"
  | .overflow value width => s!"value 0x{value.hex 0} does not fit in {width} bits"

def ofValue (value : Word) (width : Nat) : Except Error BitString :=
  if hpos : width = 0 then .error .empty
  else if hle : 64 < width then .error (.tooWide width)
  else if hlt : value.toNat < 2 ^ width then
    .ok ⟨value, width, by omega, by omega, hlt⟩
  else .error (.overflow value width)

/-! ### Text -/

/-- The number that the bits stand for, the most significant bit first. -/
def numberOf (bits : List Bool) : Nat := bits.foldl (fun n b => 2 * n + b.toNat) 0

theorem foldl_lt (bits : List Bool) (n : Nat) :
    bits.foldl (fun n b => 2 * n + b.toNat) n < (n + 1) * 2 ^ bits.length := by
  induction bits generalizing n with
  | nil => simp
  | cons b bits ih =>
    simp only [List.foldl_cons, List.length_cons, Nat.pow_succ]
    refine Nat.lt_of_lt_of_le (ih _) ?_
    have hb : b.toNat ≤ 1 := Bool.toNat_le b
    have h : 2 * n + b.toNat + 1 ≤ 2 * (n + 1) := by omega
    calc (2 * n + b.toNat + 1) * 2 ^ bits.length
        ≤ 2 * (n + 1) * 2 ^ bits.length := Nat.mul_le_mul_right _ h
      _ = (n + 1) * (2 ^ bits.length * 2) := by
        rw [Nat.mul_comm 2 (n + 1), Nat.mul_assoc, Nat.mul_comm 2]

theorem numberOf_lt (bits : List Bool) : numberOf bits < 2 ^ bits.length := by
  have h := foldl_lt bits 0
  simpa [numberOf] using h

def isBit (c : Char) : Bool := c == '0' || c == '1'

/-- Whether the whole text consists of bits, and of at least one. -/
def isLiteral (text : String) : Bool := !text.toList.isEmpty && text.toList.all isBit

/-- The bit string that `bits` list, the most significant bit first. -/
def ofBits (bits : List Bool) (hpos : 0 < bits.length) (hle : bits.length ≤ 64) : BitString where
  value := BitVec.ofNat 64 (numberOf bits)
  width := bits.length
  width_pos := hpos
  width_le := hle
  value_lt := by
    rw [BitVec.toNat_ofNat]
    exact Nat.lt_of_le_of_lt (Nat.mod_le _ _) (numberOf_lt bits)

theorem length_le_byteLength (chars : List Char) : chars.length ≤ Text.Utf8.byteLength chars := by
  induction chars with
  | nil => simp [Text.Utf8.byteLength]
  | cons c chars ih =>
    have hc : 0 < c.utf8Size := Char.utf8Size_pos c
    simp only [Text.Utf8.byteLength, List.map_cons, List.sum_cons, List.length_cons] at ih ⊢
    omega

theorem length_bits_pos {chars : List Char} (h : ¬ chars = []) :
    0 < (chars.map (· == '1')).length := by
  rw [List.length_map]
  exact List.length_pos_iff.mpr h

theorem length_bits_le {chars : List Char} (h : ¬ 64 < Text.Utf8.byteLength chars) :
    (chars.map (· == '1')).length ≤ 64 := by
  have hle := length_le_byteLength chars
  rw [List.length_map]
  omega

/-- Reads a bit string of one character per bit. The width in the error for a text that is too long
counts bytes. -/
def ofChars (chars : List Char) : Except Error BitString :=
  if hpos : chars = [] then .error .empty
  else if hle : 64 < Text.Utf8.byteLength chars then .error (.tooWide (Text.Utf8.byteLength chars))
  else
    match chars.find? (!isBit ·) with
    | some c => .error (.invalidChar c)
    | none =>
      .ok (ofBits (chars.map (· == '1')) (length_bits_pos hpos) (length_bits_le hle))

def ofText (text : String) : Except Error BitString := ofChars text.toList

/-- The bits as characters, the most significant bit first. -/
def digits (b : BitString) : List Char :=
  (List.range b.width).reverse.map fun i => if b.value.getLsbD i then '1' else '0'

def text (b : BitString) : String := String.ofList b.digits

instance : ToString BitString := ⟨text⟩

/-! ### Marked text -/

/-- The text with the mark `0b` in front, the form in which data holds a bit string. -/
def marked (b : BitString) : String := "0b" ++ b.text

/-- Reads a bit string whose text may carry the mark `0b`. -/
def ofMarked (text : String) : Except Error BitString :=
  match text.toList with
  | '0' :: 'b' :: chars => ofChars chars
  | chars => ofChars chars

end BitString

end OpTable
