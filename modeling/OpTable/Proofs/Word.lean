import OpTable.Word

/-!
# Bit ranges of words

Two things are done with the bits of a word: ranges of them are read (`Word.bits`), and ranges are
put side by side (`Word.concat`). The main statement is `bits_concat`: a part that was put into a
word is read back at its place.
-/

namespace OpTable.Word

/-! ### Words with few bits -/

theorem getLsbD_of_toNat_lt {w : Word} {n i : Nat} (h : w.toNat < 2 ^ n) (hi : n ≤ i) :
    w.getLsbD i = false := by
  rw [← BitVec.testBit_toNat]
  exact Nat.testBit_lt_two_pow (Nat.lt_of_lt_of_le h (Nat.pow_le_pow_right (by omega) hi))

theorem toNat_lt_of_getLsbD {w : Word} {n : Nat} (h : ∀ i, n ≤ i → w.getLsbD i = false) :
    w.toNat < 2 ^ n := by
  apply Nat.lt_pow_two_of_testBit
  intro i hi
  rw [BitVec.testBit_toNat]
  exact h i hi

theorem toNat_lt_mono {w : Word} {m n : Nat} (h : w.toNat < 2 ^ m) (hmn : m ≤ n) :
    w.toNat < 2 ^ n :=
  Nat.lt_of_lt_of_le h (Nat.pow_le_pow_right (by omega) hmn)

theorem toNat_or_lt {v w : Word} {n : Nat} (hv : v.toNat < 2 ^ n) (hw : w.toNat < 2 ^ n) :
    (v ||| w).toNat < 2 ^ n := by
  rw [BitVec.toNat_or]
  exact Nat.or_lt_two_pow hv hw

theorem toNat_shiftLeft_lt {w : Word} {m n : Nat} (h : w.toNat < 2 ^ n) :
    (w <<< m).toNat < 2 ^ (m + n) := by
  apply toNat_lt_of_getLsbD
  intro i hi
  rw [BitVec.getLsbD_shiftLeft, getLsbD_of_toNat_lt h (by omega : n ≤ i - m), Bool.and_false]

theorem toNat_lowMask_lt (width : Nat) : (lowMask width).toNat < 2 ^ width := by
  apply toNat_lt_of_getLsbD
  intro i hi
  rw [getLsbD_lowMask, decide_eq_false (by omega), Bool.false_and]

theorem and_not_lowMask_eq_zero_iff {w : Word} {width : Nat} :
    w &&& ~~~ lowMask width = 0#64 ↔ w.toNat < 2 ^ width := by
  constructor
  · intro h
    apply toNat_lt_of_getLsbD
    intro i hi
    by_cases h64 : i < 64
    · have hbit := congrArg (·.getLsbD i) h
      have hn : ¬ i < width := by omega
      simpa only [BitVec.getLsbD_and, BitVec.getLsbD_not, getLsbD_lowMask, BitVec.getLsbD_zero, h64,
        hn, decide_true, decide_false, Bool.false_and, Bool.not_false, Bool.and_true] using hbit
    · exact BitVec.getLsbD_of_ge w i (by omega)
  · intro h
    apply BitVec.eq_of_getLsbD_eq
    intro i hi
    rw [BitVec.getLsbD_and, BitVec.getLsbD_not, getLsbD_lowMask, BitVec.getLsbD_zero]
    by_cases hw : i < width
    · simp only [hw, hi, decide_true, Bool.and_true, Bool.not_true, Bool.and_false]
    · rw [getLsbD_of_toNat_lt h (by omega), Bool.false_and]

theorem ushiftRight_eq_zero_of_toNat_lt {w : Word} {n : Nat} (h : w.toNat < 2 ^ n) :
    w >>> n = 0#64 := by
  apply BitVec.eq_of_getLsbD_eq
  intro i hi
  rw [BitVec.getLsbD_ushiftRight, getLsbD_of_toNat_lt h (by omega : n ≤ n + i),
    BitVec.getLsbD_zero]

/-- A mask that is moved up covers the bits from its place on, as many as it is wide. -/
theorem getLsbD_lowMask_shiftLeft {low width : Nat} (h : low + width ≤ 64) (i : Nat) :
    (lowMask width <<< low).getLsbD i = true ↔ low ≤ i ∧ i < low + width := by
  rw [BitVec.getLsbD_shiftLeft, getLsbD_lowMask]
  simp only [Bool.and_eq_true, Bool.not_eq_true', decide_eq_true_eq, decide_eq_false_iff_not]
  omega

/-! ### Reading a range -/

theorem toNat_bits_lt (w : Word) (low width : Nat) : (w.bits low width).toNat < 2 ^ width := by
  apply toNat_lt_of_getLsbD
  intro i hi
  have hn : ¬ i < width := by omega
  rw [getLsbD_bits, decide_eq_false hn, Bool.false_and, Bool.and_false]

theorem bits_bits (w : Word) {a m b n : Nat} (h : b + n ≤ m) :
    (w.bits a m).bits b n = w.bits (a + b) n := by
  apply BitVec.eq_of_getLsbD_eq
  intro i hi
  simp only [getLsbD_bits, Nat.add_assoc]
  by_cases hn : i < n
  · have hm : b + i < m := by omega
    by_cases h64 : b + i < 64
    · simp only [hm, h64, decide_true, Bool.and_true]
    · rw [BitVec.getLsbD_of_ge w _ (by omega), Bool.false_and, Bool.false_and]
  · simp only [hn, decide_false, Bool.false_and, Bool.and_false]

theorem bits_zero_of_toNat_lt {w : Word} {n : Nat} (h : w.toNat < 2 ^ n) : w.bits 0 n = w := by
  apply BitVec.eq_of_getLsbD_eq
  intro i hi
  rw [getLsbD_bits, Nat.zero_add]
  by_cases hn : i < n
  · simp only [hn, hi, decide_true, Bool.and_true]
  · rw [getLsbD_of_toNat_lt h (by omega : n ≤ i), Bool.false_and]

theorem bits_append (w : Word) (low m n : Nat) :
    (w.bits (low + m) n <<< m) ||| w.bits low m = w.bits low (n + m) := by
  apply BitVec.eq_of_getLsbD_eq
  intro i hi
  simp only [BitVec.getLsbD_or, BitVec.getLsbD_shiftLeft, getLsbD_bits, hi, decide_true,
    Bool.true_and, Bool.and_true]
  by_cases hm : i < m
  · have hnm : i < n + m := by omega
    simp only [hm, hnm, decide_true, Bool.not_true, Bool.false_and, Bool.and_true, Bool.false_or]
  · have hplace : low + m + (i - m) = low + i := by omega
    have h64 : i - m < 64 := by omega
    have hnm : i - m < n ↔ i < n + m := by omega
    simp only [hm, hplace, h64, hnm, decide_true, decide_false, Bool.not_false, Bool.true_and,
      Bool.and_true, Bool.and_false, Bool.or_false]

/-- A range that is read and put back keeps the bits of the range and clears all others. -/
theorem bits_shiftLeft (w : Word) (low width : Nat) :
    w.bits low width <<< low = w &&& (lowMask width <<< low) := by
  apply BitVec.eq_of_getLsbD_eq
  intro i hi
  simp only [BitVec.getLsbD_shiftLeft, getLsbD_bits, BitVec.getLsbD_and, getLsbD_lowMask, hi,
    decide_true, Bool.true_and]
  by_cases hl : i < low
  · simp only [hl, decide_true, Bool.not_true, Bool.false_and, Bool.and_false]
  · rw [show low + (i - low) = i by omega]
    simp only [hl, decide_false, Bool.not_false, Bool.true_and]

/-- What a range of a word has to be is what the word has to be under the mask of the range. -/
theorem and_mask_eq_iff {w v : Word} {low width : Nat} (hv : v.toNat < 2 ^ width)
    (h : low + width ≤ 64) :
    w &&& (lowMask width <<< low) = v <<< low ↔ w.bits low width = v := by
  rw [← bits_shiftLeft]
  constructor
  · intro heq
    apply BitVec.eq_of_getLsbD_eq
    intro i hi
    by_cases hw : i < width
    · have hbit := congrArg (·.getLsbD (low + i)) heq
      simp only [BitVec.getLsbD_shiftLeft] at hbit
      rw [show low + i - low = i by omega] at hbit
      have hl : ¬ low + i < low := by omega
      have h64 : low + i < 64 := by omega
      simpa only [hl, h64, decide_true, decide_false, Bool.not_false, Bool.true_and] using hbit
    · rw [getLsbD_of_toNat_lt hv (by omega : width ≤ i),
        getLsbD_of_toNat_lt (toNat_bits_lt w low width) (by omega : width ≤ i)]
  · intro heq
    rw [heq]

/-! ### Unions -/

/-- The bits that are set in any of the words. -/
def union (words : List Word) : Word := words.foldr (· ||| ·) 0#64

@[simp] theorem union_nil : union [] = 0#64 := rfl

@[simp] theorem union_cons (w : Word) (words : List Word) :
    union (w :: words) = w ||| union words := rfl

theorem getLsbD_union (words : List Word) (i : Nat) :
    (union words).getLsbD i = words.any (·.getLsbD i) := by
  induction words with
  | nil => exact BitVec.getLsbD_zero
  | cons w words ih => rw [union_cons, BitVec.getLsbD_or, ih, List.any_cons]

theorem union_append (words others : List Word) :
    union (words ++ others) = union words ||| union others := by
  induction words with
  | nil => rw [List.nil_append, union_nil, BitVec.zero_or]
  | cons w words ih => rw [List.cons_append, union_cons, union_cons, ih, BitVec.or_assoc]

theorem and_union (w : Word) (words : List Word) :
    w &&& union words = union (words.map (w &&& ·)) := by
  induction words with
  | nil => exact BitVec.and_zero
  | cons v words ih => rw [List.map_cons, union_cons, union_cons, BitVec.and_or_distrib_left, ih]

/-- A loop that adds a word for some elements of a list gathers their union. -/
theorem foldl_eq_union {α : Type} {step : Word → α → Word} {f : α → Option Word}
    (hstep : ∀ word a, step word a = word ||| (f a).getD 0#64) (l : List α) (word : Word) :
    l.foldl step word = word ||| union (l.filterMap f) := by
  induction l generalizing word with
  | nil => exact BitVec.or_zero.symm
  | cons a rest ih =>
    rw [List.foldl_cons, ih, hstep, List.filterMap_cons]
    cases f a with
    | none => rw [Option.getD_none, BitVec.or_zero]
    | some v => rw [Option.getD_some, union_cons, BitVec.or_assoc]

theorem toNat_union_lt {words : List Word} {n : Nat} (h : ∀ w ∈ words, w.toNat < 2 ^ n) :
    (union words).toNat < 2 ^ n := by
  induction words with
  | nil => exact Nat.two_pow_pos n
  | cons w words ih =>
    have hw := h w (List.mem_cons_self ..)
    have hrest := ih fun v hv => h v (List.mem_cons_of_mem _ hv)
    exact toNat_or_lt hw hrest

/-! ### Parts side by side -/

/-- Bits that take up a certain width in a word. -/
structure Part where
  width : Nat
  bits : Word

/-- The bits take up no more than the width. -/
def Part.Fits (part : Part) : Prop := part.bits.toNat < 2 ^ part.width

/-- The width of parts side by side. -/
def totalWidth (parts : List Part) : Nat := (parts.map (·.width)).sum

/-- The parts side by side, the first in the highest position. -/
def concat : List Part → Word
  | [] => 0#64
  | part :: rest => (part.bits <<< totalWidth rest) ||| concat rest

@[simp] theorem totalWidth_cons (part : Part) (rest : List Part) :
    totalWidth (part :: rest) = part.width + totalWidth rest := List.sum_cons

theorem totalWidth_append (above below : List Part) :
    totalWidth (above ++ below) = totalWidth above + totalWidth below := by
  rw [totalWidth, List.map_append, List.sum_append, totalWidth, totalWidth]

theorem toNat_concat_lt {parts : List Part} (h : ∀ part ∈ parts, part.Fits) :
    (concat parts).toNat < 2 ^ totalWidth parts := by
  induction parts with
  | nil => exact Nat.one_pos
  | cons part rest ih =>
    have hpart : part.Fits := h part (List.mem_cons_self ..)
    have hrest := ih fun p hp => h p (List.mem_cons_of_mem _ hp)
    rw [concat, totalWidth_cons, Nat.add_comm]
    exact toNat_or_lt (toNat_shiftLeft_lt hpart) (toNat_lt_mono hrest (by omega))

theorem toNat_concat_cons {part : Part} {rest : List Part} (hfits : ∀ p ∈ part :: rest, p.Fits)
    (hwidth : totalWidth (part :: rest) ≤ 64) :
    (concat (part :: rest)).toNat =
      part.bits.toNat * 2 ^ totalWidth rest + (concat rest).toNat := by
  have hpart : part.bits.toNat < 2 ^ part.width := hfits part (List.mem_cons_self ..)
  have hrest := toNat_concat_lt fun p hp => hfits p (List.mem_cons_of_mem _ hp)
  have hlt : part.bits.toNat * 2 ^ totalWidth rest < 2 ^ 64 := by
    calc part.bits.toNat * 2 ^ totalWidth rest
        < 2 ^ part.width * 2 ^ totalWidth rest :=
          Nat.mul_lt_mul_of_pos_right hpart (Nat.two_pow_pos _)
      _ = 2 ^ totalWidth (part :: rest) := by rw [← Nat.pow_add, totalWidth_cons]
      _ ≤ 2 ^ 64 := Nat.pow_le_pow_right (by omega) hwidth
  rw [concat, BitVec.toNat_or, BitVec.toNat_shiftLeft, Nat.shiftLeft_eq, Nat.mod_eq_of_lt hlt,
    ← Nat.shiftLeft_eq, Nat.shiftLeft_add_eq_or_of_lt hrest]

/-- What stands above does not reach into the low bits. -/
theorem getLsbD_concat_append (above below : List Part) {i : Nat} (hi : i < totalWidth below) :
    (concat (above ++ below)).getLsbD i = (concat below).getLsbD i := by
  induction above with
  | nil => rfl
  | cons part above ih =>
    have hlow : i < totalWidth (above ++ below) := by
      rw [totalWidth_append]
      omega
    rw [List.cons_append, concat, BitVec.getLsbD_or, BitVec.getLsbD_shiftLeft, ih]
    simp only [hlow, decide_true, Bool.not_true, Bool.and_false, Bool.false_and, Bool.false_or]

theorem bits_concat {above below : List Part} {part : Part}
    (hfits : ∀ p ∈ above ++ part :: below, p.Fits)
    (hwidth : totalWidth (above ++ part :: below) ≤ 64) :
    (concat (above ++ part :: below)).bits (totalWidth below) part.width = part.bits := by
  have hpart : part.Fits := hfits part (by simp)
  have hbelow : (concat below).toNat < 2 ^ totalWidth below :=
    toNat_concat_lt fun p hp => hfits p (by simp [hp])
  rw [totalWidth_append, totalWidth_cons] at hwidth
  apply BitVec.eq_of_getLsbD_eq
  intro i hi
  rw [getLsbD_bits]
  by_cases hw : i < part.width
  · have hlow : totalWidth below + i < totalWidth (part :: below) := by
      rw [totalWidth_cons]
      omega
    have hl : ¬ totalWidth below + i < totalWidth below := by omega
    have h64 : totalWidth below + i < 64 := by omega
    rw [getLsbD_concat_append above (part :: below) hlow, concat, BitVec.getLsbD_or,
      BitVec.getLsbD_shiftLeft, getLsbD_of_toNat_lt hbelow (by omega),
      show totalWidth below + i - totalWidth below = i by omega]
    simp only [hl, h64, hw, hi, decide_true, decide_false, Bool.not_false, Bool.true_and,
      Bool.and_true, Bool.or_false]
  · rw [getLsbD_of_toNat_lt hpart (by omega : part.width ≤ i)]
    simp only [hw, decide_false, Bool.false_and, Bool.and_false]

end OpTable.Word
