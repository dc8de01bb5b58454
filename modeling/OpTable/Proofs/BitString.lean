import OpTable.BitString
import OpTable.Proofs.Text.Numeral

/-!
# Texts of bit strings

A bit string is printed with one digit for each bit, so the text gives back both the value and the
width. The texts of bit strings are those of 1 to 64 bits, and a text is read as the bit string that
has it (`ofChars_eq_ok_iff`).
-/

namespace OpTable.BitString

theorem foldl_eq (bits : List Bool) (n : Nat) :
    bits.foldl (fun n b => 2 * n + b.toNat) n = n * 2 ^ bits.length + numberOf bits := by
  induction bits generalizing n with
  | nil => simp [numberOf]
  | cons b bits ih =>
    have hzero : numberOf (b :: bits) = b.toNat * 2 ^ bits.length + numberOf bits := by
      rw [numberOf, List.foldl_cons, ih, Nat.mul_zero, Nat.zero_add]
    have hdouble : n * 2 ^ (bits.length + 1) = 2 * n * 2 ^ bits.length := by
      rw [Nat.pow_succ, Nat.mul_comm (2 ^ bits.length), ← Nat.mul_assoc, Nat.mul_comm n]
    rw [List.foldl_cons, ih, hzero, List.length_cons, hdouble, Nat.add_mul, Nat.add_assoc]

theorem numberOf_cons (b : Bool) (bits : List Bool) :
    numberOf (b :: bits) = b.toNat * 2 ^ bits.length + numberOf bits := by
  rw [numberOf, List.foldl_cons, foldl_eq, Nat.mul_zero, Nat.zero_add]

theorem numberOf_append (bits others : List Bool) :
    numberOf (bits ++ others) = numberOf bits * 2 ^ others.length + numberOf others := by
  rw [numberOf, List.foldl_append, foldl_eq]
  rfl

/-- The bits of the value, the most significant bit first. -/
def bits (b : BitString) : List Bool := (List.range b.width).reverse.map fun i => b.value.getLsbD i

theorem length_bits (b : BitString) : b.bits.length = b.width := by simp [bits]

theorem numberOf_range (w : Word) (n : Nat) :
    numberOf ((List.range n).reverse.map fun i => w.getLsbD i) = w.toNat % 2 ^ n := by
  induction n with
  | zero => simp [numberOf, Nat.mod_one]
  | succ n ih =>
    have hlength : ((List.range n).reverse.map fun i => w.getLsbD i).length = n := by simp
    have hbit : (w.getLsbD n).toNat = w.toNat / 2 ^ n % 2 := by
      rw [← BitVec.testBit_toNat, Nat.toNat_testBit]
    rw [List.range_succ, List.reverse_append, List.reverse_singleton, List.singleton_append,
      List.map_cons, numberOf_cons, ih, hlength, hbit, Nat.mod_pow_succ, Nat.mul_comm, Nat.add_comm]

/-- Numbers of as many bits are the same only where the bits are. -/
theorem numberOf_inj {bits others : List Bool} (hlength : bits.length = others.length)
    (h : numberOf bits = numberOf others) : bits = others := by
  induction bits generalizing others with
  | nil => exact (List.eq_nil_of_length_eq_zero hlength.symm).symm
  | cons b bits ih =>
    cases others with
    | nil => cases hlength
    | cons c others =>
      have hrest : bits.length = others.length := Nat.succ.inj hlength
      have hlow := numberOf_lt bits
      have hlow' := numberOf_lt others
      rw [numberOf_cons, numberOf_cons, hrest] at h
      rw [hrest] at hlow
      cases b <;> cases c <;> simp only [Bool.toNat_false, Bool.toNat_true] at h
      · rw [ih hrest (by omega)]
      · omega
      · omega
      · rw [ih hrest (by omega)]

theorem numberOf_bits (b : BitString) : numberOf b.bits = b.value.toNat := by
  rw [bits, numberOf_range]
  exact Nat.mod_eq_of_lt b.value_lt

/-! ### Digits -/

def bitChar (b : Bool) : Char := if b then '1' else '0'

theorem digits_eq (b : BitString) : b.digits = b.bits.map bitChar := by
  rw [digits, bits, List.map_map]
  rfl

theorem toList_text (b : BitString) : b.text.toList = b.digits := String.toList_ofList

theorem bit_of_mem_digits {b : BitString} {c : Char} (h : c ∈ b.digits) : c = '0' ∨ c = '1' := by
  rw [digits_eq] at h
  obtain ⟨bit, -, rfl⟩ := List.mem_map.mp h
  cases bit with
  | false => exact .inl rfl
  | true => exact .inr rfl

theorem length_digits (b : BitString) : b.digits.length = b.width := by
  rw [digits_eq, List.length_map, length_bits]

theorem digits_ne_nil (b : BitString) : b.digits ≠ [] := by
  have hpos := b.width_pos
  have hlength := b.length_digits
  exact List.ne_nil_of_length_pos (by omega)

theorem readFrom_bitChars (bits : List Bool) (n : Nat) :
    Text.Numeral.readFrom 2 n (bits.map bitChar) =
      some (bits.foldl (fun n b => 2 * n + b.toNat) n) := by
  induction bits generalizing n with
  | nil => rfl
  | cons b bits ih =>
    have hdigit : Text.Numeral.digit? 2 (bitChar b) = some b.toNat := by cases b <;> decide
    simp only [List.map_cons, Text.Numeral.readFrom, hdigit, ih, List.foldl_cons]

theorem spells_digits (b : BitString) : Text.Numeral.Spells 2 b.digits b.value.toNat := by
  have hne : ¬ b.digits.isEmpty = true := fun he => b.digits_ne_nil (List.isEmpty_iff.mp he)
  rw [← Text.Numeral.value?_eq_some_iff, Text.Numeral.value?, if_neg hne, digits_eq,
    readFrom_bitChars]
  exact congrArg some b.numberOf_bits

theorem byteLength_of_bits {chars : List Char} (h : ∀ c ∈ chars, c = '0' ∨ c = '1') :
    Text.Utf8.byteLength chars = chars.length := by
  induction chars with
  | nil => rfl
  | cons c rest ih =>
    have hrest := ih fun d hd => h d (List.mem_cons_of_mem _ hd)
    have hc : c.utf8Size = 1 := by
      rcases h c (List.mem_cons_self ..) with rfl | rfl <;> rfl
    simp only [Text.Utf8.byteLength, List.map_cons, List.sum_cons, List.length_cons] at hrest ⊢
    omega

theorem ofChars_digits (b : BitString) : ofChars b.digits = .ok b := by
  have hle := b.width_le
  have hfind : b.digits.find? (!isBit ·) = none := by
    rw [List.find?_eq_none]
    intro c hc
    rcases bit_of_mem_digits hc with rfl | rfl <;> decide
  have hbytes : Text.Utf8.byteLength b.digits = b.width :=
    (byteLength_of_bits fun _ hc => bit_of_mem_digits hc).trans b.length_digits
  have hbits : b.digits.map (· == '1') = b.bits := by
    rw [digits_eq, List.map_map]
    refine (List.map_congr_left ?_).trans (List.map_id _)
    intro bit _
    cases bit <;> rfl
  have hvalue : BitVec.ofNat 64 (numberOf (b.digits.map (· == '1'))) = b.value := by
    rw [hbits, numberOf_bits, BitVec.ofNat_toNat, BitVec.setWidth_eq]
  have hwidth : (b.digits.map (· == '1')).length = b.width := by rw [hbits, length_bits]
  rw [ofChars, dif_neg b.digits_ne_nil, dif_neg (by omega)]
  split
  next c hc =>
    rw [hfind] at hc
    cases hc
  · congr 1
    obtain ⟨value, width, hpos, hle, hlt⟩ := b
    unfold ofBits
    congr 1

/-! ### Reading -/

theorem bits_ofBits (bits : List Bool) (hpos : 0 < bits.length) (hle : bits.length ≤ 64) :
    (ofBits bits hpos hle).bits = bits := by
  have hlt : numberOf bits < 2 ^ 64 :=
    Nat.lt_of_lt_of_le (numberOf_lt bits) (Nat.pow_le_pow_right Nat.two_pos hle)
  apply numberOf_inj (length_bits _)
  rw [numberOf_bits, ofBits, BitVec.toNat_ofNat, Nat.mod_eq_of_lt hlt]

/-- Characters are read as the bit string that is printed with them. -/
theorem ofChars_eq_ok_iff {chars : List Char} {b : BitString} :
    ofChars chars = .ok b ↔ chars = b.digits := by
  constructor
  · intro h
    unfold ofChars at h
    split at h
    · cases h
    split at h
    · cases h
    split at h
    · cases h
    next hfind =>
    cases h
    rw [digits_eq, bits_ofBits, List.map_map]
    refine ((List.map_congr_left ?_).trans (List.map_id _)).symm
    intro c hc
    have hbit : isBit c = true := by
      have hnone := List.find?_eq_none.mp hfind c hc
      rwa [Bool.not_eq_true', Bool.not_eq_false] at hnone
    rcases Bool.or_eq_true_iff.mp hbit with hzero | hone
    · rw [beq_iff_eq.mp hzero]
      rfl
    · rw [beq_iff_eq.mp hone]
      rfl
  · rintro rfl
    exact b.ofChars_digits

theorem ofText_eq_ok_iff {text : String} {b : BitString} :
    ofText text = .ok b ↔ text = b.text := by
  rw [ofText, ofChars_eq_ok_iff, String.ext_iff, toList_text]

/-- The characters are 1 to 64 bits. -/
structure AreBits (chars : List Char) : Prop where
  length_pos : 1 ≤ chars.length
  length_le : chars.length ≤ 64
  bits : ∀ c ∈ chars, c = '0' ∨ c = '1'

theorem areBits_digits (b : BitString) : AreBits b.digits where
  length_pos := b.length_digits ▸ b.width_pos
  length_le := b.length_digits ▸ b.width_le
  bits := fun _ hc => bit_of_mem_digits hc

theorem exists_ofChars_iff {chars : List Char} :
    (∃ b, ofChars chars = .ok b) ↔ AreBits chars := by
  constructor
  · rintro ⟨b, h⟩
    rw [ofChars_eq_ok_iff.mp h]
    exact b.areBits_digits
  · intro h
    have hpos := h.length_pos
    have hle := h.length_le
    have hbytes := byteLength_of_bits h.bits
    have hfind : chars.find? (!isBit ·) = none := by
      rw [List.find?_eq_none]
      intro c hc
      rcases h.bits c hc with rfl | rfl <;> decide
    rw [ofChars, dif_neg (List.ne_nil_of_length_pos hpos), dif_neg (by omega)]
    split
    next c hc =>
      rw [hfind] at hc
      cases hc
    · exact ⟨_, rfl⟩

end OpTable.BitString
