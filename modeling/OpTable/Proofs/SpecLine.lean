import Mathlib.Data.List.TakeWhile
import OpTable.Proofs.Text.Blank
import OpTable.Proofs.Token
import OpTable.Record.Basic
import OpTable.SpecLine

/-!
# Lines and their tokens

Tokens that are written with spaces between them are found again, if none has a blank or a number
sign in it. No token that has a class does, so a line can be written from its classified tokens.
-/

namespace OpTable

/-! ### Characters of tokens -/

/-- The character can stand in a token of a line: it is no blank and starts no comment. -/
def IsPlain (c : Char) : Prop := Text.isBlank c = false ∧ c ≠ '#'

instance (c : Char) : Decidable (IsPlain c) := inferInstanceAs (Decidable (_ ∧ _))

/-- The text is a token of a line. -/
def IsPlainText (text : List Char) : Prop := text ≠ [] ∧ ∀ c ∈ text, IsPlain c

theorem isPlain_of_toNat {c : Char} (h : 48 ≤ c.toNat) (hle : c.toNat ≤ 122) : IsPlain c := by
  refine ⟨?_, ?_⟩
  · simp only [Text.isBlank, Bool.or_eq_false_iff, Bool.and_eq_false_iff, decide_eq_false_iff_not,
      beq_eq_false_iff_ne]
    omega
  · rintro rfl
    exact absurd h (by decide)

theorem isPlain_of_isIdentifierPart {c : Char} (h : isIdentifierPart c = true) : IsPlain c := by
  rw [isIdentifierPart, Bool.or_eq_true, beq_iff_eq] at h
  rcases h with h | rfl
  · have hrange : 48 ≤ c.toNat ∧ c.toNat ≤ 122 := by
      rcases Bool.or_eq_true_iff.mp h with halpha | hdigit
      · have halpha := BitExpr.Grammar.toNat_of_isAlpha halpha
        omega
      · obtain ⟨hlow, hhigh⟩ := Char.isDigit_iff_toNat.mp hdigit
        have hlow : 48 ≤ c.toNat := hlow
        have hhigh : c.toNat ≤ 57 := hhigh
        omega
    exact isPlain_of_toNat hrange.1 hrange.2
  · decide

/-! ### Texts of tokens -/

namespace BitExpr.Grammar

theorem Number.isPlain {digits : List Char} {n : Nat} (h : Number digits n) :
    ∀ c ∈ digits, IsPlain c := by
  intro c hc
  have hdigit := Char.isDigit_iff_toNat.mp (h.1.isDigit c hc)
  exact isPlain_of_toNat hdigit.1 (by have hle : c.toNat ≤ 57 := hdigit.2; omega)

theorem Range.isPlain {text : List Char} {high low : Nat} (h : Range text high low) :
    ∀ c ∈ text, IsPlain c := by
  cases h with
  | bit hn => exact hn.isPlain
  | bits hhigh hlow =>
    rw [List.forall_mem_append, List.forall_mem_cons]
    exact ⟨hhigh.isPlain, by decide, hlow.isPlain⟩

end BitExpr.Grammar

theorem isPlainText_of_isIdentifier {name : String} (h : IsIdentifier name) :
    IsPlainText name.toList := by
  obtain ⟨c, rest, hname, hc, hrest⟩ := BitExpr.Grammar.exists_cons_of_identifier h
  have hpart : isIdentifierPart c = true := by
    rw [isIdentifierStart, Bool.or_eq_true] at hc
    rw [isIdentifierPart, Char.isAlphanum, Bool.or_eq_true, Bool.or_eq_true]
    exact hc.imp_left .inl
  rw [IsPlainText, hname, List.forall_mem_cons]
  exact ⟨List.cons_ne_nil _ _, isPlain_of_isIdentifierPart hpart,
    fun d hd => isPlain_of_isIdentifierPart (hrest d hd)⟩

namespace BitExpr.Grammar

variable {text : List Char} {s : Segment}

theorem Sliced.isPlainText (h : Sliced text s) : IsPlainText text := by
  cases h with
  | @mk range slice hrange =>
    refine ⟨List.append_ne_nil_of_right_ne_nil _ (List.cons_ne_nil _ _), ?_⟩
    rw [List.forall_mem_append, List.forall_mem_cons, List.forall_mem_append,
      List.forall_mem_singleton]
    exact ⟨(isPlainText_of_isIdentifier slice.identifier).2, by decide, hrange.isPlain, by decide⟩

theorem Sized.isPlainText (h : Sized text s) : IsPlainText text := by
  cases h with
  | @mk width letter radix body bits hwidth hradix hbody hvalue =>
    have hletter : IsPlain letter := by cases hradix <;> decide
    refine ⟨List.append_ne_nil_of_right_ne_nil _ (List.cons_ne_nil _ _), ?_⟩
    rw [List.forall_mem_append, List.forall_mem_cons, List.forall_mem_cons]
    exact ⟨hwidth.isPlain, by decide, hletter, fun c hc => isPlain_of_isIdentifierPart (hbody c hc)⟩

theorem Named.isPlainText {widthOf : String → Option Nat} (h : Named widthOf text s) :
    IsPlainText text := by
  cases h with
  | @mk slice hlow hwidth => exact isPlainText_of_isIdentifier slice.identifier

theorem Derives.isPlainText {widthOf : String → Option Nat} {symbol : Symbol}
    {segments : List Segment} (h : Derives (leaves widthOf) symbol text segments) :
    IsPlainText text := by
  induction h with
  | exprGroup h ih => exact ih
  | exprSlice h => exact Sliced.isPlainText h
  | group h ih =>
    refine ⟨List.cons_ne_nil _ _, ?_⟩
    rw [List.forall_mem_cons, List.forall_mem_append, List.forall_mem_singleton]
    exact ⟨by decide, ih.2, by decide⟩
  | single h ih => exact ih
  | comma h ht ih iht =>
    refine ⟨List.append_ne_nil_of_left_ne_nil ih.1 _, ?_⟩
    rw [List.forall_mem_append, List.forall_mem_cons]
    exact ⟨ih.2, by decide, iht.2⟩
  | itemGroup h ih => exact ih
  | itemSized h => exact Sized.isPlainText h
  | itemSlice h => exact Sliced.isPlainText h
  | itemName h => exact Named.isPlainText h

end BitExpr.Grammar

theorem Token.isPlainText {schema : Schema} {text : String} {token : Token}
    (h : classify schema text = .ok token) : IsPlainText text.toList := by
  cases classify_eq_ok_iff.mp h with
  | literal hliteral hbits =>
    obtain ⟨hne, hall⟩ := BitString.isLiteral_iff.mp hliteral
    refine ⟨hne, ?_⟩
    intro c hc
    rcases hall c hc with rfl | rfl <;> decide
  | expression hliteral hlooks he => exact (BitExpr.ofText_eq_ok_iff.mp he).isPlainText
  | role hliteral hlooks hname hrole => exact isPlainText_of_isIdentifier hname

/-! ### Mnemonics -/

theorem toNat_toUpper (c : Char) : c.toUpper.toNat =
    if 97 ≤ c.toNat ∧ c.toNat ≤ 122 then c.toNat - 32 else c.toNat := by
  have hrange : ('a'.val ≤ c.val ∧ c.val ≤ 'z'.val) ↔ 97 ≤ c.toNat ∧ c.toNat ≤ 122 := by
    rw [UInt32.le_iff_toNat_le, UInt32.le_iff_toNat_le]
    exact Iff.rfl
  unfold Char.toUpper
  split
  next h =>
    have hle := hrange.mp h
    have hshift : ('A'.val - 'a'.val).toNat = 2 ^ 32 - 32 := rfl
    have hval : c.val.toNat = c.toNat := rfl
    rw [if_pos hle]
    show (c.val + ('A'.val - 'a'.val)).toNat = c.toNat - 32
    rw [UInt32.toNat_add, hshift, hval]
    omega
  next h => rw [if_neg fun hn => h (hrange.mpr hn)]

theorem toUpper_toUpper (c : Char) : c.toUpper.toUpper = c.toUpper := by
  rw [Char.ext_iff, ← UInt32.toNat_inj]
  show c.toUpper.toUpper.toNat = c.toUpper.toNat
  rw [toNat_toUpper c.toUpper, if_neg]
  rw [toNat_toUpper]
  split
  · omega
  · omega

theorem isPlain_toUpper {c : Char} (h : IsPlain c) : IsPlain c.toUpper := by
  by_cases hc : 97 ≤ c.toNat ∧ c.toNat ≤ 122
  · have hupper : c.toUpper.toNat = c.toNat - 32 := by rw [toNat_toUpper, if_pos hc]
    exact isPlain_of_toNat (by omega) (by omega)
  · have hupper : c.toUpper = c := by
      rw [Char.ext_iff, ← UInt32.toNat_inj]
      exact (toNat_toUpper c).trans (if_neg hc)
    rwa [hupper]

theorem normalizeMnemonic_normalizeMnemonic (mnemonic : String) :
    normalizeMnemonic (normalizeMnemonic mnemonic) = normalizeMnemonic mnemonic := by
  rw [String.ext_iff, normalizeMnemonic, normalizeMnemonic, String.toList_map, String.toList_map,
    List.map_map]
  exact List.map_congr_left fun c _ => toUpper_toUpper c

theorem isPlainText_normalizeMnemonic {mnemonic : String} (h : IsPlainText mnemonic.toList) :
    IsPlainText (normalizeMnemonic mnemonic).toList := by
  rw [normalizeMnemonic, String.toList_map, IsPlainText, List.forall_mem_map]
  exact ⟨fun hnil => h.1 (List.map_eq_nil_iff.mp hnil), fun c hc => isPlain_toUpper (h.2 c hc)⟩

namespace SpecLine

/-! ### Lines from tokens -/

theorem code_of_forall {text : List Char} (h : ∀ c ∈ text, c ≠ '#') : code text = text := by
  rw [code, List.takeWhile_eq_self_iff]
  exact fun c hc => bne_iff_ne.mpr (h c hc)

/-- Tokens that are written with spaces between them are the tokens of the line. -/
theorem Content.ofText_intercalate {tokens : List String}
    (h : ∀ token ∈ tokens, IsPlainText token.toList) :
    ofText (" ".intercalate tokens) = .ofTokens tokens := by
  have hwords : Text.words ([' '].intercalate (tokens.map String.toList)) =
      tokens.map String.toList := by
    apply Text.words_intercalate
    rw [List.forall_mem_map]
    exact fun token ht => ⟨(h token ht).1, fun c hc => ((h token ht).2 c hc).1⟩
  have hcode : code ([' '].intercalate (tokens.map String.toList)) =
      [' '].intercalate (tokens.map String.toList) := by
    refine code_of_forall fun c hc => ?_
    rcases Text.mem_intercalate hc with rfl | ⟨token, ht, hc⟩
    · decide
    · obtain ⟨t, hmem, rfl⟩ := List.mem_map.mp ht
      exact ((h t hmem).2 c hc).2
  have htext : (" ".intercalate tokens).toList = [' '].intercalate (tokens.map String.toList) :=
    String.toList_intercalate
  rw [ofText, htext, hcode, hwords, List.map_map]
  congr 1
  exact (List.map_congr_left fun token _ => String.ofList_toList).trans (List.map_id _)

theorem Content.ofTokens_definition (mnemonic opcode : String) (fields : List String) :
    ofTokens (mnemonic :: (fields ++ [opcode])) = .definition ⟨mnemonic, fields, opcode⟩ := by
  cases fields with
  | nil => rfl
  | cons first rest =>
    have hlist : first :: (rest ++ [opcode]) = (first :: rest) ++ [opcode] := rfl
    have hdrop : (first :: (rest ++ [opcode])).dropLast = first :: rest := by
      rw [hlist, List.dropLast_concat]
    have hlast : (first :: (rest ++ [opcode])).getLast (List.cons_ne_nil _ _) = opcode :=
      List.getLast_concat (l := first :: rest)
    rw [List.cons_append, ofTokens, hdrop, hlast]

/-- The tokens of the line with a space between any two. -/
def text (line : SpecLine) : String :=
  " ".intercalate (line.mnemonic :: (line.fields ++ [line.opcode]))

/-- Every token of the line can be found again in its text. -/
structure IsPlain (line : SpecLine) : Prop where
  mnemonic : IsPlainText line.mnemonic.toList
  fields : ∀ field ∈ line.fields, IsPlainText field.toList
  opcode : IsPlainText line.opcode.toList

theorem IsPlain.forall_tokens {line : SpecLine} (h : line.IsPlain) :
    ∀ token ∈ line.mnemonic :: (line.fields ++ [line.opcode]), IsPlainText token.toList := by
  rw [List.forall_mem_cons, List.forall_mem_append, List.forall_mem_singleton]
  exact ⟨h.mnemonic, h.fields, h.opcode⟩

theorem Content.ofText_text {line : SpecLine} (h : line.IsPlain) :
    ofText line.text = .definition line := by
  rw [SpecLine.text, ofText_intercalate h.forall_tokens]
  exact ofTokens_definition ..

theorem toList_text (line : SpecLine) : line.text.toList =
    [' '].intercalate ((line.mnemonic :: (line.fields ++ [line.opcode])).map String.toList) :=
  String.toList_intercalate

theorem IsPlain.of_mem_text {line : SpecLine} (h : line.IsPlain) {c : Char}
    (hc : c ∈ line.text.toList) : c ≠ '\n' ∧ c ≠ '\r' := by
  rw [toList_text] at hc
  rcases Text.mem_intercalate hc with rfl | ⟨chars, hchars, hc⟩
  · decide
  · obtain ⟨token, ht, rfl⟩ := List.mem_map.mp hchars
    have hplain := (h.forall_tokens token ht).2 c hc
    refine ⟨?_, ?_⟩
    · rintro rfl
      exact absurd hplain (by decide)
    · rintro rfl
      exact absurd hplain (by decide)

theorem IsPlain.text_ne_nil {line : SpecLine} (h : line.IsPlain) : line.text.toList ≠ [] := by
  obtain ⟨c, rest, hrest⟩ := List.exists_cons_of_ne_nil h.mnemonic.1
  have hfields : line.fields ++ [line.opcode] ≠ [] :=
    List.append_ne_nil_of_right_ne_nil _ (List.cons_ne_nil _ _)
  obtain ⟨second, tokens, htokens⟩ := List.exists_cons_of_ne_nil hfields
  rw [toList_text, htokens, List.map_cons, List.map_cons, List.intercalate_cons_cons, hrest]
  exact List.cons_ne_nil _ _

/-- Every token of a line can stand in a line again. -/
theorem isPlainText_of_mem_words {text word : List Char} (h : word ∈ Text.words (code text)) :
    IsPlainText word := by
  obtain ⟨hne, hword⟩ := Text.of_mem_words h
  refine ⟨hne, fun c hc => ⟨(hword c hc).1, ?_⟩⟩
  have hmem : c ∈ text.takeWhile (· != '#') := (hword c hc).2
  simpa using List.mem_takeWhile_imp hmem

theorem Content.ofTokens_eq_definition {tokens : List String} {line : SpecLine}
    (h : ofTokens tokens = .definition line) :
    tokens = line.mnemonic :: (line.fields ++ [line.opcode]) := by
  cases tokens with
  | nil => cases h
  | cons mnemonic rest =>
    cases rest with
    | nil => cases h
    | cons second rest =>
      cases h
      exact congrArg (mnemonic :: ·) (List.dropLast_concat_getLast (List.cons_ne_nil _ _)).symm

/-- The words of a text before its comment are the tokens of the line that it defines. -/
theorem words_of_ofText {text : String} {line : SpecLine}
    (h : Content.ofText text = .definition line) :
    Text.words (code text.toList) =
      (line.mnemonic :: (line.fields ++ [line.opcode])).map String.toList := by
  rw [← Content.ofTokens_eq_definition h, List.map_map]
  exact ((List.map_congr_left fun word _ => String.toList_ofList).trans (List.map_id _)).symm

theorem isPlainText_mnemonic {text : String} {line : SpecLine}
    (h : Content.ofText text = .definition line) : IsPlainText line.mnemonic.toList := by
  have hmem : line.mnemonic.toList ∈ Text.words (code text.toList) := by
    rw [words_of_ofText h]
    exact List.mem_cons_self ..
  exact isPlainText_of_mem_words hmem

end SpecLine

end OpTable
