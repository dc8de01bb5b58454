import Mathlib.Data.Int.ModEq
import OpTable.Proofs.Word

/-!
# Numbers in two's complement

A word fits a width when, as a number, it is small enough without a sign or near enough to the top
for a negative one (`fitsUnsigned_iff`, `fitsSigned_iff`). Extending the sign of a width gives the
one number of that width that is congruent to the word (`signExtend_eq_iff`); so a number of the
width comes back from the low bits of its word (`twosComplement_exact`).
-/

namespace OpTable.Word

/-! ### Ranges -/

theorem fitsUnsigned_iff {value : Word} {width : Nat} :
    FitsUnsigned value width ↔ value.toNat < 2 ^ width := by
  constructor
  · intro h
    rcases h with hwidth | hzero
    · exact Nat.lt_of_lt_of_le value.isLt (Nat.pow_le_pow_right (by omega) hwidth)
    · have hdiv : value.toNat / 2 ^ width = 0 := by
        rw [← Nat.shiftRight_eq_div_pow, ← BitVec.toNat_ushiftRight, hzero]
        rfl
      exact Nat.lt_of_div_eq_zero (Nat.two_pow_pos width) hdiv
  · intro h
    exact .inr (ushiftRight_eq_zero_of_toNat_lt h)

/-- A number below `2 * a * b` whose bit of weight `a` and all bits above it are one. -/
theorem div_eq_pred_and_odd_iff {n a b : Nat} (ha : 0 < a) (hn : n < 2 * a * b) :
    n / (2 * a) = b - 1 ∧ n / a % 2 = 1 ↔ 2 * a * b - a ≤ n := by
  have hb : 0 < b := by
    rcases Nat.eq_zero_or_pos b with rfl | hb
    · omega
    · exact hb
  have hhalf : n / (2 * a) = n / a / 2 := by rw [Nat.mul_comm, Nat.div_div_eq_div_mul]
  have htop : n / a < 2 * b := by
    rw [Nat.div_lt_iff_lt_mul ha]
    calc n < 2 * a * b := hn
      _ = 2 * b * a := by rw [Nat.mul_assoc, Nat.mul_comm a, Nat.mul_assoc]
  have hall : 2 * b - 1 ≤ n / a ↔ 2 * a * b - a ≤ n := by
    rw [Nat.le_div_iff_mul_le ha, Nat.sub_mul, Nat.one_mul, Nat.mul_right_comm]
  rw [hhalf, ← hall]
  omega

theorem two_pow_eq_two_mul {width : Nat} (hpos : 0 < width) : 2 ^ width = 2 * 2 ^ (width - 1) := by
  rw [Nat.mul_comm, Nat.two_pow_pred_mul_two hpos]

theorem fitsSigned_iff {value : Word} {width : Nat} (hpos : 0 < width) (hle : width ≤ 64) :
    FitsSigned value width ↔ value.toNat < 2 ^ width ∨ 2 ^ 64 - 2 ^ (width - 1) ≤ value.toNat := by
  have hlt : value.toNat < 2 ^ 64 := value.isLt
  by_cases h64 : width = 64
  · subst h64
    exact iff_of_true (.inl (Nat.le_refl 64)) (.inl hlt)
  · have hwidth : 2 * 2 ^ (width - 1) = 2 ^ width := (two_pow_eq_two_mul hpos).symm
    have hword : 2 * 2 ^ (width - 1) * 2 ^ (64 - width) = 2 ^ 64 := by
      rw [hwidth, ← Nat.pow_add]
      congr 1
      omega
    -- the bits from the width up are all ones when the quotient is the greatest one
    have hones : value >>> width = BitVec.allOnes 64 >>> width ↔
        value.toNat / 2 ^ width = 2 ^ (64 - width) - 1 := by
      have hdiv : (2 ^ 64 - 1) / 2 ^ width = 2 ^ (64 - width) - 1 := by
        have hsplit : 2 ^ 64 = 2 ^ width * 2 ^ (64 - width) := by rw [← hwidth, hword]
        have hdiv := Nat.mul_sub_div 0 (2 ^ width) (2 ^ (64 - width))
          (Nat.mul_pos (Nat.two_pow_pos width) (Nat.two_pow_pos (64 - width)))
        rwa [Nat.zero_div, ← hsplit] at hdiv
      rw [← BitVec.toNat_inj, BitVec.toNat_ushiftRight, BitVec.toNat_ushiftRight,
        BitVec.toNat_allOnes, Nat.shiftRight_eq_div_pow, Nat.shiftRight_eq_div_pow, hdiv]
    have hsign : value.getLsbD (width - 1) = true ↔ value.toNat / 2 ^ (width - 1) % 2 = 1 := by
      rw [← BitVec.testBit_toNat, Nat.testBit_eq_decide_div_mod_eq, decide_eq_true_iff]
    have hnegative := div_eq_pred_and_odd_iff (b := 2 ^ (64 - width))
      (Nat.two_pow_pos (width - 1)) (hlt.trans_eq hword.symm)
    rw [hword, hwidth] at hnegative
    rw [FitsSigned, hones, hsign, hnegative, ← fitsUnsigned_iff, FitsUnsigned]
    simp only [show ¬ 64 ≤ width by omega, false_or]

/-- A number of 64 bits with its sign is in the range of a narrower width as a word when it is so as
a number. -/
theorem toNat_ofInt_range_iff {value : Int} {width : Nat} (hpos : 0 < width) (hle : width ≤ 64)
    (hlow : -2 ^ 63 ≤ value) (hhigh : value < 2 ^ 63) :
    ((BitVec.ofInt 64 value).toNat < 2 ^ width ∨
        2 ^ 64 - 2 ^ (width - 1) ≤ (BitVec.ofInt 64 value).toNat) ↔
      -((2 ^ (width - 1) : Nat) : Int) ≤ value ∧ value < (2 ^ width : Nat) := by
  have hhalf : 2 ^ (width - 1) = 2 ^ 63 ∨ 2 ^ (width - 1) ≤ 2 ^ 62 := by
    by_cases h64 : width = 64
    · exact .inl (by rw [h64])
    · exact .inr (Nat.pow_le_pow_right (by omega) (by omega))
  rw [two_pow_eq_two_mul hpos, BitVec.toNat_ofInt]
  generalize 2 ^ (width - 1) = half at hhalf
  omega

/-- A word is the same number with and without a sign when its highest bit is zero. -/
theorem toInt_eq_toNat_iff (value : Word) : value.toInt = value.toNat ↔ value.toNat < 2 ^ 63 := by
  rw [BitVec.toInt_eq_toNat_cond]
  split
  next h => omega
  next h =>
    have hlt := value.isLt
    omega

/-! ### Extension of the sign -/

/-- The representative between minus a half and a half grows with the modulus. -/
theorem bmod_mul (x : Int) {m n : Nat} (hm : 0 < m) (hn : 0 < n) :
    (x * n).bmod (2 * m * n) = x.bmod (2 * m) * n := by
  have hlow : -(m : Int) ≤ x.bmod (2 * m) := by
    have h := Int.le_bmod (x := x) (m := 2 * m) (by omega)
    omega
  have hhigh : x.bmod (2 * m) < (m : Int) := by
    have h := Int.bmod_lt (x := x) (m := 2 * m) (by omega)
    omega
  have hn' : (0 : Int) < n := by omega
  have hmodulus : ((2 * m * n : Nat) : Int) = 2 * (m * n) := by
    rw [Nat.mul_assoc]
    push_cast
    rfl
  rw [Int.bmod_eq_iff (Nat.mul_pos (by omega) hn), hmodulus]
  refine ⟨?_, ?_, ?_⟩
  · have h := Int.mul_le_mul_of_nonneg_right hlow hn'.le
    rw [Int.neg_mul] at h
    omega
  · have h := Int.mul_lt_mul_of_pos_right hhigh hn'
    omega
  · rw [← Int.sub_mul, ← Int.mul_assoc]
    refine Int.mul_dvd_mul ?_ (Int.dvd_refl _)
    have h : ((2 * m : Nat) : Int) ∣ x.bmod (2 * m) - x := Int.dvd_bmod_sub_self
    rwa [Int.natCast_mul] at h

theorem signExtend_eq_bmod (value : Word) {width : Nat} (hpos : 0 < width) (hle : width ≤ 64) :
    value.signExtend width = (value.toNat : Int).bmod (2 ^ width) := by
  unfold signExtend
  by_cases h64 : width = 64
  · rw [if_pos (by omega), h64, BitVec.toInt_eq_toNat_bmod]
  · have hwidth : 2 * 2 ^ (width - 1) = 2 ^ width := (two_pow_eq_two_mul hpos).symm
    have hword : 2 ^ width * 2 ^ (64 - width) = 2 ^ 64 := by
      rw [← Nat.pow_add]
      congr 1
      omega
    -- moved up, the word wraps at its own modulus, which is that of the width moved up as well
    have hraise := bmod_mul value.toNat (Nat.two_pow_pos (width - 1)) (Nat.two_pow_pos (64 - width))
    rw [hwidth, hword, ← Int.natCast_mul] at hraise
    rw [if_neg (by omega), BitVec.toInt_sshiftRight, BitVec.toInt_shiftLeft, Nat.shiftLeft_eq,
      hraise, Int.shiftRight_eq_div_pow]
    exact Int.mul_ediv_cancel _ (by have := Nat.two_pow_pos (64 - width); omega)

theorem signExtend_eq_iff {value : Word} {number : Int} {width : Nat} (hpos : 0 < width)
    (hle : width ≤ 64) :
    value.signExtend width = number ↔
      -((2 ^ (width - 1) : Nat) : Int) ≤ number ∧ number < (2 ^ (width - 1) : Nat) ∧
        number ≡ value.toNat [ZMOD ((2 ^ width : Nat) : Int)] := by
  have hmodulus := two_pow_eq_two_mul hpos
  have hleast : -(((2 ^ width : Nat) : Int) / 2) = -((2 ^ (width - 1) : Nat) : Int) := by omega
  have hmost : (((2 ^ width : Nat) : Int) + 1) / 2 = (2 ^ (width - 1) : Nat) := by omega
  rw [signExtend_eq_bmod value hpos hle, Int.bmod_eq_iff (Nat.two_pow_pos width), hleast, hmost,
    Int.modEq_comm, Int.modEq_iff_dvd]

/-- A word and a number that agree in the low bits stand for the same number of that width. -/
theorem signExtend_eq_of_getLsbD {word : Word} {value : Int} {width : Nat} (hpos : 0 < width)
    (hle : width ≤ 64)
    (h : ∀ i < width, word.getLsbD i = (BitVec.ofInt 64 value).getLsbD i)
    (hlow : -((2 ^ (width - 1) : Nat) : Int) ≤ value) (hhigh : value < (2 ^ (width - 1) : Nat)) :
    word.signExtend width = value := by
  have hlowBits : word.setWidth width = (BitVec.ofInt 64 value).setWidth width := by
    apply BitVec.eq_of_getLsbD_eq
    intro i hi
    simp only [BitVec.getLsbD_setWidth, hi, decide_true, Bool.true_and, h i hi]
  have hmod : word.toNat % 2 ^ width = (BitVec.ofInt 64 value).toNat % 2 ^ width := by
    rw [← BitVec.toNat_setWidth, ← BitVec.toNat_setWidth, hlowBits]
  have hdvd : ((2 ^ width : Nat) : Int) ∣ ((2 ^ 64 : Nat) : Int) :=
    Int.natCast_dvd_natCast.mpr (Nat.pow_dvd_pow 2 hle)
  have hvalue : ((BitVec.ofInt 64 value).toNat : Int) = value % ((2 ^ 64 : Nat) : Int) := by
    rw [BitVec.toNat_ofInt]
    exact Int.toNat_of_nonneg (Int.emod_nonneg _ (by decide))
  have hcongr : (word.toNat : Int) % ((2 ^ width : Nat) : Int) =
      value % ((2 ^ width : Nat) : Int) := by
    rw [← Int.natCast_emod, hmod, Int.natCast_emod, hvalue, Int.emod_emod_of_dvd _ hdvd]
  exact (signExtend_eq_iff hpos hle).mpr ⟨hlow, hhigh, hcongr.symm⟩

/-- At every width the number of a word is the only one in the signed range that is congruent to the
word. A word fits where it is a number of the width without a sign, or stands so near the top as the
negative ones do. The numbers that fit and come back from their low bits are those of the signed
range. -/
theorem twosComplement_exact {width : Nat} (hpos : 0 < width) (hle : width ≤ 64) :
    (∀ (value : Word) (number : Int), value.signExtend width = number ↔
        -((2 ^ (width - 1) : Nat) : Int) ≤ number ∧ number < (2 ^ (width - 1) : Nat) ∧
          number ≡ value.toNat [ZMOD ((2 ^ width : Nat) : Int)]) ∧
      (∀ value : Word, FitsSigned value width ↔
        value.toNat < 2 ^ width ∨ 2 ^ 64 - 2 ^ (width - 1) ≤ value.toNat) ∧
      ∀ number : Int, (FitsSigned (BitVec.ofInt 64 number) width ∧
          signExtend (BitVec.ofInt 64 number &&& lowMask width) width = number) ↔
        -((2 ^ (width - 1) : Nat) : Int) ≤ number ∧ number < (2 ^ (width - 1) : Nat) := by
  refine ⟨fun _ _ => signExtend_eq_iff hpos hle, fun _ => fitsSigned_iff hpos hle, ?_⟩
  intro number
  constructor
  · intro h
    obtain ⟨hlow, hhigh, -⟩ := (signExtend_eq_iff hpos hle).mp h.2
    exact ⟨hlow, hhigh⟩
  · intro h
    obtain ⟨hlow, hhigh⟩ := h
    have hmodulus := two_pow_eq_two_mul hpos
    have hhalf : 2 ^ (width - 1) ≤ 2 ^ 63 := Nat.pow_le_pow_right (by omega) (by omega)
    constructor
    · rw [fitsSigned_iff hpos hle, toNat_ofInt_range_iff hpos hle (by omega) (by omega)]
      exact ⟨hlow, by omega⟩
    · -- the mask keeps the bits that the number has in this width
      refine signExtend_eq_of_getLsbD hpos hle ?_ hlow hhigh
      intro i hi
      rw [BitVec.getLsbD_and, getLsbD_lowMask, decide_eq_true hi,
        decide_eq_true (by omega : i < 64), Bool.and_true, Bool.and_true]

/-- With twelve bits, a word with its sign bit set among others, the words next to the greatest one
that fits, and the least number with the one below it. -/
theorem twosComplement_exact_twelve :
    0 < 12 ∧ 12 ≤ 64 ∧ signExtend 0xF0ABC#64 12 = -1348 ∧
      FitsSigned 0xFFF#64 12 ∧ ¬ FitsSigned 0x1000#64 12 ∧
      (FitsSigned (BitVec.ofInt 64 (-2048)) 12 ∧
        signExtend (BitVec.ofInt 64 (-2048) &&& lowMask 12) 12 = -2048) ∧
      ¬ (FitsSigned (BitVec.ofInt 64 (-2049)) 12 ∧
        signExtend (BitVec.ofInt 64 (-2049) &&& lowMask 12) 12 = -2049) := by
  have hpos : 0 < 12 := by decide
  have hle : 12 ≤ 64 := by decide
  obtain ⟨hextend, hfits, hnumber⟩ := twosComplement_exact hpos hle
  refine ⟨hpos, hle, ?_, ?_, ?_, ?_, ?_⟩
  · exact (hextend _ _).mpr ⟨by decide, by decide, by decide⟩
  · exact (hfits _).mpr (by decide)
  · exact mt (hfits _).mp (by decide)
  · exact (hnumber _).mpr (by decide)
  · exact mt (hnumber _).mp (by decide)

end OpTable.Word
