import OpTable.Arithmetic

/-!
# Machine words

Instruction words, field values and operand values are 64-bit words. A word is read in bit ranges
(`Word.bits`), as an unsigned number (`toNat`) and as a two's-complement number of a chosen width
(`Word.signExtend`, `Word.FitsSigned`).
-/

namespace OpTable

abbrev Word := BitVec 64

namespace Word

/-- The word whose low `width` bits are one; all bits are one from width 64 on. -/
def lowMask (width : Nat) : Word :=
  if width < 64 then (1#64 <<< width) - 1#64 else BitVec.allOnes 64

/-- The `width` bits of `value` that start at bit `low`, moved down to bit 0. -/
def bits (value : Word) (low width : Nat) : Word :=
  (value >>> low) &&& lowMask width

/-- Whether `value` has no bit at or above `width`. -/
def FitsUnsigned (value : Word) (width : Nat) : Prop :=
  64 ≤ width ∨ value >>> width = 0#64

instance (value : Word) (width : Nat) : Decidable (FitsUnsigned value width) :=
  inferInstanceAs (Decidable (_ ∨ _))

/-- Whether `value` can be written in `width` bits, as it stands or as a sign-extended negative
number: the bits from `width` up are all zero, or all one above a sign bit that is one. -/
def FitsSigned (value : Word) (width : Nat) : Prop :=
  64 ≤ width ∨ value >>> width = 0#64 ∨
    (value >>> width = BitVec.allOnes 64 >>> width ∧ value.getLsbD (width - 1) = true)

instance (value : Word) (width : Nat) : Decidable (FitsSigned value width) :=
  inferInstanceAs (Decidable (_ ∨ _ ∨ (_ ∧ _)))

/-- The number that the low `width` bits of `value` stand for in two's complement. A width of zero
or of at least 64 takes the whole word. -/
def signExtend (value : Word) (width : Nat) : Int :=
  if width = 0 ∨ 64 ≤ width then value.toInt
  else ((value <<< (64 - width)).sshiftRight (64 - width)).toInt

/-! ### Text -/

/-- Upper-case hexadecimal digits, led by zeros up to `digits` places. -/
def hex (value : Word) (digits : Nat) : String :=
  String.ofList (List.leftpad digits '0' ((Nat.toDigits 16 value.toNat).map Char.toUpper))

/-! ### Bits of a mask and of a range -/

theorem getLsbD_lowMask (width i : Nat) :
    (lowMask width).getLsbD i = (decide (i < width) && decide (i < 64)) := by
  unfold lowMask
  split
  next h =>
    have e : (1#64 <<< width) - 1#64 = BitVec.ofNat 64 (2 ^ width - 1) := by
      have hp : 2 ^ width < 2 ^ 64 := Nat.pow_lt_pow_right (by omega) h
      have h1 : 1 ≤ 2 ^ width := Nat.one_le_two_pow
      apply BitVec.eq_of_toNat_eq
      simp only [BitVec.toNat_sub, BitVec.toNat_shiftLeft, BitVec.toNat_ofNat, Nat.shiftLeft_eq]
      omega
    rw [e, BitVec.getLsbD_ofNat, Nat.testBit_two_pow_sub_one]
    exact Bool.and_comm _ _
  next h =>
    rw [BitVec.getLsbD_allOnes]
    by_cases hi : i < 64
    · have : i < width := by omega
      simp [hi, this]
    · simp [hi]

theorem getLsbD_bits (value : Word) (low width i : Nat) :
    (bits value low width).getLsbD i =
      (value.getLsbD (low + i) && (decide (i < width) && decide (i < 64))) := by
  simp only [bits, BitVec.getLsbD_and, BitVec.getLsbD_ushiftRight, getLsbD_lowMask]

end Word

end OpTable
