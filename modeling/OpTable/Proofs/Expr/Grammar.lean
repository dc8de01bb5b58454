import OpTable.Expr.Basic
import OpTable.Proofs.Text.Numeral

/-!
# The grammar of bit expressions

```text
expr  := group | slice
group := '{' items '}'
items := item (',' item)*
item  := group | sized | slice | name
sized := NUM '\'' [bBhHdD] [A-Za-z0-9_]+
slice := name '[' NUM (':' NUM)? ']'
```

`Derives` is the nesting of groups over any three kinds of leaves; the list that comes with a text
has what its leaves stand for, from left to right. `leaves` are the leaves of a bit expression with
the conditions on their numbers.
-/

namespace OpTable.BitExpr.Grammar

open Text.Numeral

/-! ### Nesting -/

/-- What the texts of each kind of leaf may stand for. -/
structure Leaves (α : Type) where
  sized : List Char → α → Prop
  slice : List Char → α → Prop
  name : List Char → α → Prop

inductive Symbol where
  | expr
  | group
  | items
  | item

/-- The symbol derives the text, with these leaves. -/
inductive Derives {α : Type} (leaves : Leaves α) : Symbol → List Char → List α → Prop where
  | exprGroup {s : List Char} {xs : List α} (h : Derives leaves .group s xs) :
      Derives leaves .expr s xs
  | exprSlice {s : List Char} {x : α} (h : leaves.slice s x) : Derives leaves .expr s [x]
  | group {s : List Char} {xs : List α} (h : Derives leaves .items s xs) :
      Derives leaves .group ('\x7b' :: (s ++ ['\x7d'])) xs
  | single {s : List Char} {xs : List α} (h : Derives leaves .item s xs) :
      Derives leaves .items s xs
  | comma {s t : List Char} {xs ys : List α} (h : Derives leaves .item s xs)
      (ht : Derives leaves .items t ys) : Derives leaves .items (s ++ ',' :: t) (xs ++ ys)
  | itemGroup {s : List Char} {xs : List α} (h : Derives leaves .group s xs) :
      Derives leaves .item s xs
  | itemSized {s : List Char} {x : α} (h : leaves.sized s x) : Derives leaves .item s [x]
  | itemSlice {s : List Char} {x : α} (h : leaves.slice s x) : Derives leaves .item s [x]
  | itemName {s : List Char} {x : α} (h : leaves.name s x) : Derives leaves .item s [x]

theorem Derives.leaves_ne_nil {α : Type} {leaves : Leaves α} {symbol : Symbol} {s : List Char}
    {xs : List α} (h : Derives leaves symbol s xs) : xs ≠ [] := by
  induction h with
  | exprGroup h ih => exact ih
  | exprSlice h => exact List.cons_ne_nil _ _
  | group h ih => exact ih
  | single h ih => exact ih
  | comma h ht ih iht => exact List.append_ne_nil_of_left_ne_nil ih _
  | itemGroup h ih => exact ih
  | itemSized h => exact List.cons_ne_nil _ _
  | itemSlice h => exact List.cons_ne_nil _ _
  | itemName h => exact List.cons_ne_nil _ _

theorem Derives.length_le {α : Type} {leaves : Leaves α} {symbol : Symbol} {s : List Char}
    {xs : List α} (h : Derives leaves symbol s xs)
    (hleaf : ∀ s x, leaves.sized s x ∨ leaves.slice s x ∨ leaves.name s x → s ≠ []) :
    xs.length ≤ s.length := by
  induction h with
  | exprGroup h ih => exact ih
  | exprSlice h => exact List.length_pos_iff.mpr (hleaf _ _ (.inr (.inl h)))
  | group h ih =>
    simp only [List.length_cons, List.length_append]
    omega
  | single h ih => exact ih
  | comma h ht ih iht =>
    simp only [List.length_append, List.length_cons]
    omega
  | itemGroup h ih => exact ih
  | itemSized h => exact List.length_pos_iff.mpr (hleaf _ _ (.inl h))
  | itemSlice h => exact List.length_pos_iff.mpr (hleaf _ _ (.inr (.inl h)))
  | itemName h => exact List.length_pos_iff.mpr (hleaf _ _ (.inr (.inr h)))

/-- Leaves may be read in another way, each for itself. -/
theorem Derives.map {α β : Type} {leaves : Leaves α} {other : Leaves β} {f : α → β}
    (hsized : ∀ s x, leaves.sized s x → other.sized s (f x))
    (hslice : ∀ s x, leaves.slice s x → other.slice s (f x))
    (hname : ∀ s x, leaves.name s x → other.name s (f x)) {symbol : Symbol} {s : List Char}
    {xs : List α} (h : Derives leaves symbol s xs) : Derives other symbol s (xs.map f) := by
  induction h with
  | exprGroup h ih => exact .exprGroup ih
  | exprSlice h => exact .exprSlice (hslice _ _ h)
  | group h ih => exact .group ih
  | single h ih => exact .single ih
  | comma h ht ih iht =>
    rw [List.map_append]
    exact .comma ih iht
  | itemGroup h ih => exact .itemGroup ih
  | itemSized h => exact .itemSized (hsized _ _ h)
  | itemSlice h => exact .itemSlice (hslice _ _ h)
  | itemName h => exact .itemName (hname _ _ h)

/-! ### Leaves -/

/-- Decimal digits of a number of at most 32 bits. -/
def Number (digits : List Char) (n : Nat) : Prop := Spells 10 digits n ∧ n < 2 ^ 32

/-- A single bit, or a high bit and a low bit. -/
inductive Range : List Char → Nat → Nat → Prop where
  | bit {digits : List Char} {n : Nat} (hn : Number digits n) : Range digits n n
  | bits {highDigits lowDigits : List Char} {high low : Nat} (hhigh : Number highDigits high)
      (hlow : Number lowDigits low) : Range (highDigits ++ ':' :: lowDigits) high low

/-- A name with a bit range. The bits are in order, and bits of a word, because a `Slice` has no
others. -/
inductive Sliced : List Char → Segment → Prop where
  | mk {range : List Char} {s : Slice} (hrange : Range range s.high s.low) :
      Sliced (s.field.toList ++ '[' :: (range ++ [']'])) (.slice s)

/-- The letters of the radixes. -/
inductive Radix : Char → Nat → Prop where
  | lowerBinary : Radix 'b' 2
  | upperBinary : Radix 'B' 2
  | lowerHex : Radix 'h' 16
  | upperHex : Radix 'H' 16
  | lowerDecimal : Radix 'd' 10
  | upperDecimal : Radix 'D' 10

/-- A width, a radix and digits among which underscores do not count. The value fits the width, and
the width is one of 1 to 64, because a `BitString` has no others. -/
inductive Sized : List Char → Segment → Prop where
  | mk {width : List Char} {letter : Char} {radix : Nat} {body : List Char} {bits : BitString}
      (hwidth : Number width bits.width) (hradix : Radix letter radix)
      (hbody : ∀ c ∈ body, isIdentifierPart c = true)
      (hvalue : Spells radix (body.filter (· != '_')) bits.value.toNat) :
      Sized (width ++ '\'' :: letter :: body) (.fixed bits)

/-- A bare name, which stands for all the bits of its declared width. -/
inductive Named (widthOf : String → Option Nat) : List Char → Segment → Prop where
  | mk {s : Slice} (hlow : s.low = 0) (hwidth : widthOf s.field = some (s.high + 1)) :
      Named widthOf s.field.toList (.slice s)

/-- The leaves of bit expressions, where `widthOf` declares the widths of bare names. -/
def leaves (widthOf : String → Option Nat) : Leaves Segment := ⟨Sized, Sliced, Named widthOf⟩

/-! ### First characters -/

theorem toNat_of_isAlpha {c : Char} (h : c.isAlpha = true) :
    (65 ≤ c.toNat ∧ c.toNat ≤ 90) ∨ (97 ≤ c.toNat ∧ c.toNat ≤ 122) := by
  rcases Bool.or_eq_true_iff.mp h with hupper | hlower
  · have hrange : 'A'.val ≤ c.val ∧ c.val ≤ 'Z'.val := of_decide_eq_true hupper
    exact .inl ⟨UInt32.le_iff_toNat_le.mp hrange.1, UInt32.le_iff_toNat_le.mp hrange.2⟩
  · obtain ⟨hlow, hhigh⟩ := Bool.and_eq_true_iff.mp hlower
    have hlow : 'a'.val ≤ c.val := of_decide_eq_true hlow
    have hhigh : c.val ≤ 'z'.val := of_decide_eq_true hhigh
    exact .inr ⟨UInt32.le_iff_toNat_le.mp hlow, UInt32.le_iff_toNat_le.mp hhigh⟩

theorem not_isDigit_of_isIdentifierStart {c : Char} (h : isIdentifierStart c = true) :
    ¬ c.isDigit = true := by
  rw [isIdentifierStart, Bool.or_eq_true, beq_iff_eq] at h
  rcases h with halpha | rfl
  · intro hdigit
    have hnine : c.toNat ≤ 57 := (Char.isDigit_iff_toNat.mp hdigit).2
    have hrange := toNat_of_isAlpha halpha
    omega
  · decide

theorem exists_cons_of_identifier {name : String} (h : IsIdentifier name) :
    ∃ c rest, name.toList = c :: rest ∧ isIdentifierStart c = true ∧
      ∀ d ∈ rest, isIdentifierPart d = true := by
  unfold IsIdentifier at h
  cases hname : name.toList with
  | nil =>
    rw [hname] at h
    cases h
  | cons c rest =>
    rw [hname, spellsIdentifier, Bool.and_eq_true, List.all_eq_true] at h
    exact ⟨c, rest, rfl, h.1, h.2⟩

theorem Number.exists_cons {digits : List Char} {n : Nat} (h : Number digits n) :
    ∃ c rest, digits = c :: rest ∧ c.isDigit = true := by
  obtain ⟨c, rest, hdigits⟩ := List.exists_cons_of_ne_nil h.1.ne_nil
  refine ⟨c, rest, hdigits, h.1.isDigit c ?_⟩
  rw [hdigits]
  exact List.mem_cons_self ..

end OpTable.BitExpr.Grammar
