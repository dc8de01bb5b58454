import OpTable.BitString
import OpTable.Proofs.Checked.Word

/-!
# Checked bit strings

Bit strings are made of values and of texts with operations that can fail. None does: what is too
long or too wide is refused before it is computed with.
-/

namespace OpTable.Checked

/-- The bit string of the value and the width, if they make one up. -/
def bitString (value : Word) (width : Nat) : Option BitString :=
  if h : 0 < width ∧ width ≤ 64 ∧ value.toNat < 2 ^ width then
    some ⟨value, width, h.1, h.2.1, h.2.2⟩
  else none

def ofValue (value : Word) (width : Nat) : Option (Except BitString.Error BitString) :=
  if width = 0 then some (.error .empty)
  else if 64 < width then some (.error (.tooWide width))
  else do
    let mask ← lowMask width
    if value &&& ~~~ mask ≠ 0#64 then some (.error (.overflow value width))
    else do
      let bits ← bitString value width
      some (.ok bits)

/-- Reads bits one after the other, with the value of those before in hand. -/
def readBits (value : Word) : List Char → Option (Except BitString.Error Word)
  | [] => some (.ok value)
  | c :: rest =>
    if BitString.isBit c then do
      let raised ← raise value 1
      readBits (raised ||| if c = '1' then 1#64 else 0#64) rest
    else some (.error (.invalidChar c))

def ofChars (chars : List Char) : Option (Except BitString.Error BitString) :=
  if chars = [] then some (.error .empty)
  else if 64 < Text.Utf8.byteLength chars then
    some (.error (.tooWide (Text.Utf8.byteLength chars)))
  else do
    let read ← readBits 0#64 chars
    match read with
    | .error e => some (.error e)
    | .ok value => do
      let bits ← bitString value chars.length
      some (.ok bits)

theorem bitString_eq (b : BitString) {value : Word} {width : Nat} (hvalue : b.value = value)
    (hwidth : b.width = width) : bitString value width = some b := by
  subst hvalue hwidth
  exact dif_pos ⟨b.width_pos, b.width_le, b.value_lt⟩

theorem ofValue_eq (value : Word) (width : Nat) :
    ofValue value width = some (BitString.ofValue value width) := by
  unfold ofValue BitString.ofValue
  by_cases hpos : width = 0
  · rw [if_pos hpos, dif_pos hpos]
  · rw [if_neg hpos, dif_neg hpos]
    by_cases hle : 64 < width
    · rw [if_pos hle, dif_pos hle]
    · rw [if_neg hle, dif_neg hle]
      simp only [lowMask_eq, Option.bind_eq_bind, Option.bind_some, ne_eq,
        Word.and_not_lowMask_eq_zero_iff]
      by_cases hlt : value.toNat < 2 ^ width
      · rw [if_neg (not_not_intro hlt), dif_pos hlt, bitString, dif_pos (by omega)]
        rfl
      · rw [if_pos hlt, dif_neg hlt]

/-- One more bit doubles the number. -/
theorem ofNat_shiftLeft_or (n : Nat) (bit : Bool) :
    BitVec.ofNat 64 n <<< 1 ||| (if bit then 1#64 else 0#64) =
      BitVec.ofNat 64 (2 * n + bit.toNat) := by
  apply BitVec.eq_of_getLsbD_eq
  intro i hi
  rw [BitVec.getLsbD_or, BitVec.getLsbD_shiftLeft, BitVec.getLsbD_ofNat, BitVec.getLsbD_ofNat]
  cases i with
  | zero => cases bit <;> simp
  | succ i =>
    have hhalf : (2 * n + bit.toNat) / 2 = n := by
      have hle := Bool.toNat_le bit
      omega
    have hbit : (if bit then 1#64 else 0#64).getLsbD (i + 1) = false := by cases bit <;> simp
    have hi' : i < 64 := by omega
    simp only [hbit, hi, hi', Nat.testBit_succ, hhalf, Nat.add_sub_cancel, decide_true,
      Nat.not_lt_of_le (Nat.le_add_left 1 i), decide_false, Bool.not_false, Bool.true_and,
      Bool.or_false]

/-- The loop keeps a number of as many bits as were read, and so never loses one. -/
theorem readBits_eq {n width : Nat} {chars : List Char} (hn : n < 2 ^ width)
    (h : width + chars.length ≤ 64) :
    readBits (BitVec.ofNat 64 n) chars = some (match chars.find? (!BitString.isBit ·) with
      | some c => .error (.invalidChar c)
      | none => .ok (BitVec.ofNat 64
          ((chars.map (· == '1')).foldl (fun n bit => 2 * n + bit.toNat) n))) := by
  induction chars generalizing n width with
  | nil => rfl
  | cons c rest ih =>
    rw [List.length_cons] at h
    have hvalue : (BitVec.ofNat 64 n).toNat < 2 ^ width := by
      rw [BitVec.toNat_ofNat]
      exact Nat.lt_of_le_of_lt (Nat.mod_le _ _) hn
    have hnext : 2 * n + (c == '1').toNat < 2 ^ (width + 1) := by
      have hle := Bool.toNat_le (c == '1')
      rw [Nat.pow_succ]
      omega
    have hshift := ofNat_shiftLeft_or n (c == '1')
    simp only [beq_iff_eq] at hshift
    rw [readBits, List.find?_cons]
    by_cases hc : BitString.isBit c = true
    · simp only [hc, if_true, Bool.not_true, raise_eq hvalue (by omega) (by omega : 1 < 64),
        Option.bind_eq_bind, Option.bind_some, hshift, ih hnext (by omega), List.map_cons,
        List.foldl_cons]
    · rw [if_neg hc, Bool.eq_false_iff.mpr hc]
      rfl

theorem ofChars_eq (chars : List Char) : ofChars chars = some (BitString.ofChars chars) := by
  unfold ofChars BitString.ofChars
  by_cases hne : chars = []
  · rw [if_pos hne, dif_pos hne]
  · rw [if_neg hne, dif_neg hne]
    by_cases hle : 64 < Text.Utf8.byteLength chars
    · rw [if_pos hle, dif_pos hle]
    · have hlength := BitString.length_le_byteLength chars
      have hread := readBits_eq (Nat.one_pos : 0 < 2 ^ 0) (by omega : 0 + chars.length ≤ 64)
      rw [if_neg hle, dif_neg hle, hread]
      cases hfind : chars.find? (!BitString.isBit ·) with
      | some c => rfl
      | none =>
        have hlist : (chars.map (· == '1')).length = chars.length := List.length_map _
        have hbits : bitString (BitVec.ofNat 64 ((chars.map (· == '1')).foldl _ 0)) chars.length =
            some (BitString.ofBits _ _ _) :=
          bitString_eq (BitString.ofBits (chars.map (· == '1')) (BitString.length_bits_pos hne)
            (BitString.length_bits_le hle)) rfl hlist
        simp only [Option.bind_eq_bind, Option.bind_some, hbits]

end OpTable.Checked
