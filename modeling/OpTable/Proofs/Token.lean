import OpTable.Proofs.BitString
import OpTable.Proofs.Expr.Reading
import OpTable.Proofs.Schema.Validity
import OpTable.Schema.Presets
import OpTable.Token

/-!
# Classes of tokens

Tokens are told apart by their first look: all bits, a brace or a bracket, an identifier. No token
of one class has the look of another, so each class is what its own grammar says.
-/

namespace OpTable

open BitExpr.Grammar

namespace BitString

theorem isLiteral_iff {text : String} :
    isLiteral text = true ↔ text.toList ≠ [] ∧ ∀ c ∈ text.toList, c = '0' ∨ c = '1' := by
  rw [isLiteral, Bool.and_eq_true, Bool.not_eq_true', List.isEmpty_eq_false_iff, List.all_eq_true]
  simp only [isBit, Bool.or_eq_true, beq_iff_eq]

end BitString

namespace Token

variable {schema : Schema} {text : String}

/-- The ways in which a text becomes a token. -/
inductive Branch (schema : Schema) (text : String) : Token → Prop where
  | literal {bits : BitString} (hliteral : BitString.isLiteral text = true)
      (hbits : BitString.ofText text = .ok bits) : Branch schema text (.literal bits)
  | expression {e : BitExpr} (hliteral : ¬ BitString.isLiteral text = true)
      (hlooks : looksLikeExpression text = true)
      (he : BitExpr.ofText schema.fieldWidth? text = .ok e) : Branch schema text (.expression e)
  | role (hliteral : ¬ BitString.isLiteral text = true)
      (hlooks : ¬ looksLikeExpression text = true) (hname : IsIdentifier text)
      (hrole : schema.IsRole text) : Branch schema text (.role text)

theorem classify_eq_ok_iff {token : Token} :
    classify schema text = .ok token ↔ Branch schema text token := by
  constructor
  · intro h
    unfold classify at h
    split at h
    next hliteral =>
      split at h
      next bits hbits =>
        cases h
        exact .literal hliteral hbits
      · cases h
    next hliteral =>
    split at h
    next hlooks =>
      split at h
      next e he =>
        cases h
        exact .expression hliteral hlooks he
      · cases h
    next hlooks =>
    split at h
    next hname =>
      split at h
      next hrole =>
        cases h
        exact .role hliteral hlooks hname hrole
      · cases h
    · cases h
  · intro h
    unfold classify
    cases h with
    | literal hliteral hbits => rw [if_pos hliteral, hbits]
    | expression hliteral hlooks he => rw [if_neg hliteral, if_pos hlooks, he]
    | role hliteral hlooks hname hrole =>
      rw [if_neg hliteral, if_neg hlooks, if_pos hname, if_pos hrole]

/-! ### The look of a token -/

theorem not_isLiteral_of_isIdentifierStart {c : Char} {rest : List Char}
    (hc : isIdentifierStart c = true) (htext : text.toList = c :: rest) :
    ¬ BitString.isLiteral text = true := by
  intro hliteral
  have hbit : c = '0' ∨ c = '1' := by
    apply (BitString.isLiteral_iff.mp hliteral).2
    rw [htext]
    exact List.mem_cons_self ..
  apply not_isDigit_of_isIdentifierStart hc
  rcases hbit with rfl | rfl <;> decide

theorem looks_of_isIdentifier (h : IsIdentifier text) :
    ¬ BitString.isLiteral text = true ∧ ¬ looksLikeExpression text = true := by
  obtain ⟨c, rest, htext, hc, hrest⟩ := exists_cons_of_identifier h
  refine ⟨not_isLiteral_of_isIdentifierStart hc htext, ?_⟩
  intro hlooks
  rw [looksLikeExpression, htext, Bool.or_eq_true, beq_iff_eq, List.contains_eq_mem,
    decide_eq_true_iff, List.mem_cons] at hlooks
  rcases hlooks with hbrace | rfl | hmem
  · cases hbrace
    cases hc
  · cases hc
  · exact absurd (hrest _ hmem) (by decide)

theorem looks_of_derives {widthOf : String → Option Nat} {segments : List Segment}
    (h : Derives (leaves widthOf) .expr text.toList segments) :
    ¬ BitString.isLiteral text = true ∧ looksLikeExpression text = true := by
  rw [looksLikeExpression, Bool.or_eq_true, beq_iff_eq, List.contains_eq_mem, decide_eq_true_iff]
  generalize htext : text.toList = chars at h
  cases h with
  | exprGroup h =>
    cases h with
    | group h =>
      refine ⟨fun hliteral => ?_, .inl rfl⟩
      have hbit := (BitString.isLiteral_iff.mp hliteral).2 '\x7b'
      rw [htext] at hbit
      exact absurd (hbit (List.mem_cons_self ..)) (by decide)
  | exprSlice h =>
    cases h with
    | @mk range slice hrange =>
      obtain ⟨c, rest, hfield, hc, -⟩ := exists_cons_of_identifier slice.identifier
      refine ⟨?_, .inr (List.mem_append_right _ (List.mem_cons_self ..))⟩
      rw [hfield, List.cons_append] at htext
      exact not_isLiteral_of_isIdentifierStart hc htext

/-! ### Classes -/

theorem exists_literal_iff :
    (∃ bits, classify schema text = .ok (.literal bits)) ↔
      1 ≤ text.length ∧ text.length ≤ 64 ∧ ∀ c ∈ text.toList, c = '0' ∨ c = '1' := by
  simp only [classify_eq_ok_iff]
  rw [← String.length_toList]
  constructor
  · intro h
    obtain ⟨bits, hbranch⟩ := h
    cases hbranch with
    | literal hliteral hbits =>
      have h := BitString.exists_ofChars_iff.mp ⟨bits, hbits⟩
      exact ⟨h.length_pos, h.length_le, h.bits⟩
  · intro h
    obtain ⟨hpos, hle, hall⟩ := h
    have hliteral := BitString.isLiteral_iff.mpr ⟨List.length_pos_iff.mp hpos, hall⟩
    obtain ⟨bits, hbits⟩ := BitString.exists_ofChars_iff.mpr ⟨hpos, hle, hall⟩
    exact ⟨bits, .literal hliteral hbits⟩

/-- The name of a role is an identifier, so it never looks like anything else. -/
theorem role_iff (hvalid : schema.Valid) {name : String} :
    classify schema text = .ok (.role name) ↔
      name = text ∧ ∃ role ∈ schema.operandRoles, role.name = text := by
  rw [classify_eq_ok_iff]
  constructor
  · intro hbranch
    cases hbranch with
    | role hliteral hlooks hname hrole => exact ⟨rfl, Schema.isRole_iff.mp hrole⟩
  · intro h
    obtain ⟨rfl, hrole⟩ := h
    have hname : IsIdentifier name := by
      obtain ⟨role, hmem, rfl⟩ := hrole
      exact hvalid.isIdentifier (List.mem_append_left _ hmem)
    obtain ⟨hliteral, hlooks⟩ := looks_of_isIdentifier hname
    exact .role hliteral hlooks hname (Schema.isRole_iff.mpr hrole)

theorem expression_iff {e : BitExpr} :
    classify schema text = .ok (.expression e) ↔
      Derives (leaves schema.fieldWidth?) .expr text.toList e.segments := by
  rw [classify_eq_ok_iff, ← BitExpr.ofText_eq_ok_iff]
  constructor
  · intro hbranch
    cases hbranch with
    | expression hliteral hlooks he => exact he
  · intro he
    obtain ⟨hliteral, hlooks⟩ := looks_of_derives (BitExpr.ofText_eq_ok_iff.mp he)
    exact .expression hliteral hlooks he

/-- Under a valid schema, a text is literal bits when it is 1 to 64 bits, a role when an operand
role has it as its name, and an expression of certain segments when the grammar derives it with
them and they have at most 64 bits. -/
theorem classify_iff (hvalid : schema.Valid) (text : String) :
    ((∃ bits, classify schema text = .ok (.literal bits)) ↔
        1 ≤ text.length ∧ text.length ≤ 64 ∧ ∀ c ∈ text.toList, c = '0' ∨ c = '1') ∧
      (∀ name, classify schema text = .ok (.role name) ↔
        name = text ∧ ∃ role ∈ schema.operandRoles, role.name = text) ∧
      ∀ segments,
        (∃ e : BitExpr, e.segments = segments ∧ classify schema text = .ok (.expression e)) ↔
          Derives (leaves schema.fieldWidth?) .expr text.toList segments ∧
            Segment.totalWidth segments ≤ 64 := by
  refine ⟨exists_literal_iff, fun name => role_iff hvalid, ?_⟩
  intro segments
  constructor
  · intro h
    obtain ⟨e, rfl, hclass⟩ := h
    exact ⟨expression_iff.mp hclass, e.totalWidth_le⟩
  · intro h
    obtain ⟨hderives, hwidth⟩ := h
    have hne := hderives.leaves_ne_nil
    exact ⟨⟨segments, hne, hwidth⟩, rfl, expression_iff.mpr hderives⟩

def nested : BitExpr where
  segments :=
    [.fixed ⟨3#64, 2, by decide, by decide, by decide⟩,
      .slice ⟨"off", 9, 9, by decide, by decide, by decide⟩,
      .slice ⟨"off", 7, 6, by decide, by decide, by decide⟩,
      .slice ⟨"shamt", 4, 0, by decide, by decide, by decide⟩]
  segments_ne_nil := by decide
  totalWidth_le := by decide

theorem classify_iff_nested :
    Schema.qcpu.Valid ∧
      (∃ bits, classify Schema.qcpu "0110" = .ok (.literal bits)) ∧
      classify Schema.qcpu "rd" = .ok (.role "rd") ∧
      Derives (leaves Schema.qcpu.fieldWidth?) .expr
        "\x7b2'h_3,\x7boff[9],\x7boff[7:6]\x7d\x7d,shamt\x7d".toList nested.segments := by
  have hvalid : Schema.qcpu.Valid := rfl
  refine ⟨hvalid, ?_, ?_, ?_⟩
  · have hbits := BitString.isLiteral_iff.mp (by decide : BitString.isLiteral "0110" = true)
    exact (classify_iff hvalid "0110").1.mpr ⟨by decide, by decide, hbits.2⟩
  · exact ((classify_iff hvalid "rd").2.1 "rd").mpr (by decide)
  · refine (((classify_iff hvalid _).2.2 _).mp ⟨nested, rfl, ?_⟩).1
    exact Except.eq_ok_of_toOption (by decide +kernel)

end Token

end OpTable
