import OpTable.Proofs.Word

/-!
# Arithmetic that can fail

Numbers of 32 bits and words of 64 bits, with operations that give nothing where a machine would
overflow: a sum of 2^32 or more, a difference below zero, a shift by 64 places or more. `raise` also
gives nothing when the shift would lose a bit that is set.
-/

namespace OpTable.Checked

def add (a b : Nat) : Option Nat := if a + b < 2 ^ 32 then some (a + b) else none

def sub (a b : Nat) : Option Nat := if b ≤ a then some (a - b) else none

def wordSub (a b : Word) : Option Word := if b.toNat ≤ a.toNat then some (a - b) else none

def shl (w : Word) (places : Nat) : Option Word := if places < 64 then some (w <<< places) else none

def shr (w : Word) (places : Nat) : Option Word := if places < 64 then some (w >>> places) else none

/-- The word moved down with its sign. -/
def sshr (w : Word) (places : Nat) : Option Word :=
  if places < 64 then some (w.sshiftRight places) else none

/-- The word moved up without the loss of a bit. -/
def raise (w : Word) (places : Nat) : Option Word := do
  let raised ← shl w places
  if raised >>> places = w then some raised else none

section Arithmetic

variable {a b places : Nat}

theorem add_eq (h : a + b < 2 ^ 32) : add a b = some (a + b) := if_pos h

theorem sub_eq (h : b ≤ a) : sub a b = some (a - b) := if_pos h

theorem shl_eq (w : Word) (h : places < 64) : shl w places = some (w <<< places) := if_pos h

theorem shr_eq (w : Word) (h : places < 64) : shr w places = some (w >>> places) := if_pos h

theorem sshr_eq (w : Word) (h : places < 64) : sshr w places = some (w.sshiftRight places) :=
  if_pos h

theorem raise_eq {w : Word} {width : Nat} (hw : w.toNat < 2 ^ width) (h : width + places ≤ 64)
    (hplaces : places < 64) : raise w places = some (w <<< places) := by
  have hback : w <<< places >>> places = w := by
    apply BitVec.eq_of_getLsbD_eq
    intro i hi
    have hle : ¬ places + i < places := by omega
    have hsub : places + i - places = i := by omega
    rw [BitVec.getLsbD_ushiftRight, BitVec.getLsbD_shiftLeft, hsub, decide_eq_false hle,
      Bool.not_false, Bool.and_true]
    by_cases hin : places + i < 64
    · rw [decide_eq_true hin, Bool.true_and]
    · rw [Word.getLsbD_of_toNat_lt hw (by omega : width ≤ i), Bool.and_false]
  simp only [raise, shl_eq w hplaces, Option.bind_eq_bind, Option.bind_some]
  exact if_pos hback

end Arithmetic

/-! ### Loops -/

theorem mapM_eq {α β : Type} {f : α → Option β} {g : α → β} {l : List α}
    (h : ∀ a ∈ l, f a = some (g a)) : l.mapM f = some (l.map g) := by
  induction l with
  | nil => rfl
  | cons a rest ih =>
    have ha := h a (List.mem_cons_self ..)
    have hrest := ih fun b hb => h b (List.mem_cons_of_mem _ hb)
    simp only [List.mapM_cons, ha, hrest, Option.bind_eq_bind, Option.bind_some, List.map_cons]
    rfl

theorem foldlM_eq {α σ : Type} {step : σ → α → Option σ} {f : σ → α → σ} {l : List α}
    (h : ∀ a ∈ l, ∀ s, step s a = some (f s a)) (s : σ) : l.foldlM step s = some (l.foldl f s) := by
  induction l generalizing s with
  | nil => rfl
  | cons a rest ih =>
    have ha := h a (List.mem_cons_self ..)
    have hrest := ih fun b hb => h b (List.mem_cons_of_mem _ hb)
    simp only [List.foldlM_cons, ha, hrest, Option.bind_eq_bind, Option.bind_some, List.foldl_cons]

/-! ### Masks and ranges -/

def lowMask (width : Nat) : Option Word :=
  if 64 ≤ width then some (BitVec.allOnes 64)
  else do
    let power ← shl 1#64 width
    wordSub power 1#64

def bits (value : Word) (low width : Nat) : Option Word := do
  let moved ← shr value low
  let mask ← lowMask width
  some (moved &&& mask)

theorem lowMask_eq (width : Nat) : lowMask width = some (Word.lowMask width) := by
  unfold lowMask Word.lowMask
  by_cases h : width < 64
  · have hpower : (1#64 <<< width).toNat = 2 ^ width := by
      have hlt : 2 ^ width < 2 ^ 64 := Nat.pow_lt_pow_right (by omega) h
      rw [BitVec.toNat_shiftLeft, BitVec.toNat_ofNat, Nat.one_mod_two_pow (by omega),
        Nat.shiftLeft_eq, Nat.one_mul, Nat.mod_eq_of_lt hlt]
    have hone : (1#64).toNat ≤ (1#64 <<< width).toNat := by
      rw [hpower]
      exact Nat.one_le_two_pow
    rw [if_neg (by omega), if_pos h, shl_eq _ h]
    exact if_pos hone
  · rw [if_pos (by omega), if_neg h]

theorem bits_eq {low : Nat} (value : Word) (width : Nat) (h : low < 64) :
    bits value low width = some (value.bits low width) := by
  simp only [bits, shr_eq value h, lowMask_eq, Option.bind_eq_bind, Option.bind_some]
  rfl

/-! ### Tests of values -/

def fitsUnsigned (value : Word) (width : Nat) : Option Bool :=
  if 64 ≤ width then some true
  else do
    let upper ← shr value width
    some (decide (upper = 0#64))

def fitsSigned (value : Word) (width : Nat) : Option Bool :=
  if 64 ≤ width then some true
  else do
    let upper ← shr value width
    let ones ← shr (BitVec.allOnes 64) width
    let top ← sub width 1
    let sign ← shr value top
    some (decide (upper = 0#64 ∨ (upper = ones ∧ sign &&& 1#64 = 1#64)))

def signExtend (value : Word) (width : Nat) : Option Int :=
  if width = 0 ∨ 64 ≤ width then some value.toInt
  else do
    let places ← sub 64 width
    let raised ← shl value places
    let extended ← sshr raised places
    some extended.toInt

theorem fitsUnsigned_eq (value : Word) (width : Nat) :
    fitsUnsigned value width = some (decide (value.FitsUnsigned width)) := by
  unfold fitsUnsigned Word.FitsUnsigned
  by_cases h : 64 ≤ width
  · simp only [h, if_true, true_or, decide_true]
  · simp only [h, if_false, false_or, shr_eq value (by omega : width < 64), Option.bind_eq_bind,
      Option.bind_some]

theorem and_one_eq_one_iff (w : Word) : w &&& 1#64 = 1#64 ↔ w.getLsbD 0 = true := by
  rw [BitVec.and_one_eq_setWidth_ofBool_getLsbD]
  cases w.getLsbD 0 with
  | false => decide
  | true => decide

theorem fitsSigned_eq (value : Word) {width : Nat} (hpos : 0 < width) :
    fitsSigned value width = some (decide (value.FitsSigned width)) := by
  unfold fitsSigned Word.FitsSigned
  by_cases h : 64 ≤ width
  · simp only [h, if_true, true_or, decide_true]
  · have hsign : (value >>> (width - 1)) &&& 1#64 = 1#64 ↔ value.getLsbD (width - 1) = true := by
      rw [and_one_eq_one_iff, BitVec.getLsbD_ushiftRight, Nat.add_zero]
    simp only [h, if_false, false_or, shr_eq _ (by omega : width < 64),
      sub_eq (by omega : 1 ≤ width), shr_eq _ (by omega : width - 1 < 64), Option.bind_eq_bind,
      Option.bind_some, hsign]

theorem signExtend_eq (value : Word) (width : Nat) :
    signExtend value width = some (value.signExtend width) := by
  unfold signExtend Word.signExtend
  by_cases h : width = 0 ∨ 64 ≤ width
  · rw [if_pos h, if_pos h]
  · simp only [h, if_false, sub_eq (by omega : width ≤ 64), shl_eq _ (by omega : 64 - width < 64),
      sshr_eq _ (by omega : 64 - width < 64), Option.bind_eq_bind, Option.bind_some]

end OpTable.Checked
