import Mathlib.Data.List.Induction
import OpTable.Text.Numeral

/-!
# What numerals stand for

`value?` reads a numeral from the left with the value so far in hand. `Spells` says what it reads
without the reader: a digit stands for itself, and one more digit makes the number `base` times as
large and adds its own value.
-/

namespace OpTable.Text.Numeral

/-- The digits stand for the number, the most significant digit first. -/
inductive Spells (base : Nat) : List Char → Nat → Prop where
  | digit {c : Char} {d : Nat} (hd : digit? base c = some d) : Spells base [c] d
  | append {digits : List Char} {n : Nat} {c : Char} {d : Nat} (hn : Spells base digits n)
      (hd : digit? base c = some d) : Spells base (digits ++ [c]) (base * n + d)

namespace Spells

variable {base n : Nat} {digits : List Char}

theorem ne_nil (h : Spells base digits n) : digits ≠ [] := by
  cases h with
  | digit hd => exact List.cons_ne_nil _ _
  | append hn hd => exact List.append_ne_nil_of_right_ne_nil _ (List.cons_ne_nil _ _)

theorem digit_of_mem (h : Spells base digits n) : ∀ c ∈ digits, ∃ d, digit? base c = some d := by
  induction h with
  | digit hd =>
    intro c hc
    rw [List.mem_singleton.mp hc]
    exact ⟨_, hd⟩
  | append hn hd ih =>
    intro c hc
    rcases List.mem_append.mp hc with hc | hc
    · exact ih c hc
    · rw [List.mem_singleton.mp hc]
      exact ⟨_, hd⟩

end Spells

theorem readFrom_append (base n : Nat) (digits more : List Char) :
    readFrom base n (digits ++ more) =
      (readFrom base n digits).bind fun m => readFrom base m more := by
  induction digits generalizing n with
  | nil => rfl
  | cons c rest ih =>
    rw [List.cons_append, readFrom, readFrom]
    cases digit? base c with
    | none => rfl
    | some d => exact ih _

theorem readFrom_singleton (base n : Nat) (c : Char) :
    readFrom base n [c] = (digit? base c).map (base * n + ·) := by
  rw [readFrom]
  cases digit? base c with
  | none => rfl
  | some d => rfl

theorem value?_append {base : Nat} {digits : List Char} (h : digits ≠ []) (c : Char) :
    value? base (digits ++ [c]) =
      (value? base digits).bind fun n => (digit? base c).map (base * n + ·) := by
  have hnil : ¬ digits.isEmpty = true := fun he => h (List.isEmpty_iff.mp he)
  have happend : ¬ (digits ++ [c]).isEmpty = true := fun he =>
    List.append_ne_nil_of_left_ne_nil h _ (List.isEmpty_iff.mp he)
  rw [value?, value?, if_neg hnil, if_neg happend, readFrom_append]
  congr 1
  funext n
  exact readFrom_singleton base n c

theorem value?_singleton (base : Nat) (c : Char) : value? base [c] = digit? base c := by
  show readFrom base 0 [c] = digit? base c
  rw [readFrom_singleton, Nat.mul_zero]
  cases digit? base c with
  | none => rfl
  | some d => exact congrArg some (Nat.zero_add d)

/-- The reader gives the number that the digits stand for, and none where they stand for none. -/
theorem value?_eq_some_iff {base n : Nat} {digits : List Char} :
    value? base digits = some n ↔ Spells base digits n := by
  constructor
  · intro h
    induction digits using List.reverseRecOn generalizing n with
    | nil => cases h
    | append_singleton digits c ih =>
      by_cases hnil : digits = []
      · rw [hnil, List.nil_append, value?_singleton] at h
        rw [hnil]
        exact .digit h
      · rw [value?_append hnil] at h
        obtain ⟨m, hm, h⟩ := Option.bind_eq_some_iff.mp h
        obtain ⟨d, hd, rfl⟩ := Option.map_eq_some_iff.mp h
        exact .append (ih hm) hd
  · intro h
    induction h with
    | digit hd => rw [value?_singleton, hd]
    | append hn hd ih =>
      rw [value?_append hn.ne_nil, ih, hd]
      rfl

/-! ### Decimal digits -/

theorem isDigit_of_digit? {c : Char} {d : Nat} (h : digit? 10 c = some d) : c.isDigit = true := by
  rw [digit?, Option.filter_eq_some_iff] at h
  obtain ⟨h, hlt⟩ := h
  have hlt : d < 10 := of_decide_eq_true hlt
  split at h
  next hc => exact Bool.and_eq_true_iff.mpr ⟨decide_eq_true hc.1, decide_eq_true hc.2⟩
  · split at h
    · cases h
      omega
    · split at h
      · cases h
        omega
      · cases h

theorem Spells.isDigit {digits : List Char} {n : Nat} (h : Spells 10 digits n) :
    ∀ c ∈ digits, c.isDigit = true := by
  intro c hc
  obtain ⟨d, hd⟩ := h.digit_of_mem c hc
  exact isDigit_of_digit? hd

/-! ### Digits of numbers -/

theorem digit?_digitChar {base d : Nat} (hbase : base ≤ 16) (h : d < base) :
    digit? base (Nat.digitChar d) = some d := by
  have hall : ∀ base ≤ 16, ∀ d < base, digit? base (Nat.digitChar d) = some d := by decide
  exact hall base hbase d h

theorem spells_toDigits {base : Nat} (hlow : 1 < base) (hhigh : base ≤ 16) (n : Nat) :
    Spells base (Nat.toDigits base n) n := by
  induction n using Nat.strongRecOn with
  | ind n ih =>
    by_cases hlt : n < base
    · rw [Nat.toDigits_of_lt_base hlt]
      exact .digit (digit?_digitChar hhigh hlt)
    · have hge : base ≤ n := by omega
      have hfront := ih (n / base) (Nat.div_lt_self (by omega) hlow)
      have hlast := digit?_digitChar hhigh (Nat.mod_lt n (by omega : base > 0))
      have hn : base * (n / base) + n % base = n := Nat.div_add_mod n base
      have happend := Spells.append hfront hlast
      rw [hn] at happend
      rw [Nat.toDigits_of_base_le hlow hge]
      exact happend

namespace Spells

variable {base n : Nat} {digits : List Char}

/-- Digits may be written in another form of the same value. -/
theorem map {f : Char → Char}
    (hf : ∀ c d, digit? base c = some d → digit? base (f c) = some d) (h : Spells base digits n) :
    Spells base (digits.map f) n := by
  induction h with
  | digit hd => exact .digit (hf _ _ hd)
  | append hn hd ih =>
    rw [List.map_append]
    exact .append ih (hf _ _ hd)

end Spells

end OpTable.Text.Numeral
