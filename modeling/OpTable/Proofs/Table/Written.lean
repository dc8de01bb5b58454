import Mathlib.Data.List.Basic
import OpTable.Proofs.BitString.NormalForm
import OpTable.Proofs.Expr.Printing
import OpTable.Proofs.Json.Written
import OpTable.Render.Format

/-!
# Tables from their data

The data of a table holds the table: no two tables have the same JSON (`render_json_eq_iff`). Bit
strings keep their width in their digits, and the role of a slot says how its value is to be read.
-/

namespace OpTable

theorem SlotContent.eq_of_text {a b : SlotContent} (hrole : a.roleName = b.roleName)
    (hvalue : a.valueText = b.valueText) : a = b := by
  cases a <;> cases b
  case opcode.opcode => exact congrArg opcode (BitString.marked_injective hvalue)
  case funct3.funct3 => exact congrArg funct3 (BitString.marked_injective hvalue)
  case funct7.funct7 => exact congrArg funct7 (BitString.marked_injective hvalue)
  case literal.literal => exact congrArg literal (BitString.marked_injective hvalue)
  case register.register => exact congrArg register hvalue
  case expression.expression => exact congrArg expression (BitExpr.text_injective hvalue)
  all_goals simp [roleName] at hrole

namespace Json

theorem text_injective : Function.Injective text := fun _ _ => text.inj

theorem ofOption_injective {α : Type} {toJson : α → Json} (h : Function.Injective toJson)
    (hnull : ∀ a, toJson a ≠ null) : Function.Injective (ofOption toJson) := by
  intro a b heq
  cases a with
  | none =>
    cases b with
    | none => rfl
    | some b => exact absurd heq.symm (hnull b)
  | some a =>
    cases b with
    | none => exact absurd heq (hnull a)
    | some b => exact congrArg some (h heq)

end Json

namespace Record

theorem segmentToJson_injective : Function.Injective segmentToJson := by
  intro a b h
  obtain ⟨⟨field, high, low, _, _, _⟩, lsb, signed⟩ := a
  obtain ⟨⟨field', high', low', _, _, _⟩, lsb', signed'⟩ := b
  simp only [segmentToJson, Json.object.injEq, List.cons.injEq, Prod.mk.injEq, true_and, and_true,
    Json.text.injEq, Json.number.injEq, Json.boolean.injEq] at h
  obtain ⟨rfl, rfl, rfl, rfl, rfl⟩ := h
  rfl

theorem slotToJson_injective : Function.Injective slotToJson := by
  intro a b h
  obtain ⟨lsb, width, content⟩ := a
  obtain ⟨lsb', width', content'⟩ := b
  simp only [slotToJson, Json.object.injEq, List.cons.injEq, Prod.mk.injEq, true_and, and_true,
    Json.text.injEq, Json.number.injEq] at h
  obtain ⟨rfl, rfl, hrole, hvalue⟩ := h
  rw [SlotContent.eq_of_text hrole hvalue]

theorem toJson_injective : Function.Injective toJson := by
  have hmarked : Function.Injective fun bits : BitString => Json.text bits.marked :=
    Json.text_injective.comp BitString.marked_injective
  have hfunct := Json.ofOption_injective hmarked fun _ => nofun
  intro a b h
  obtain ⟨⟨opcode, funct3, funct7, roles, assembly, layout⟩, mnemonic, line⟩ := a
  obtain ⟨⟨opcode', funct3', funct7', roles', assembly', layout'⟩, mnemonic', line'⟩ := b
  simp only [toJson, Json.object.injEq, List.cons.injEq, Prod.mk.injEq, true_and, and_true,
    Json.text.injEq, Json.number.injEq, Json.array.injEq, BitString.marked_injective.eq_iff,
    hfunct.eq_iff, (List.map_injective_iff.mpr Json.text_injective).eq_iff,
    (List.map_injective_iff.mpr segmentToJson_injective).eq_iff,
    (List.map_injective_iff.mpr slotToJson_injective).eq_iff] at h
  obtain ⟨rfl, rfl, rfl, rfl, rfl, rfl, rfl, rfl⟩ := h
  rfl

end Record

namespace Table

/-- The index is not written. -/
theorem toJson_eq_iff {t u : Table} :
    t.toJson = u.toJson ↔ t.schemaName = u.schemaName ∧ t.records = u.records := by
  simp only [toJson, Json.object.injEq, List.cons.injEq, Prod.mk.injEq, true_and, and_true,
    Json.text.injEq, Json.array.injEq,
    (List.map_injective_iff.mpr Record.toJson_injective).eq_iff]

/-- Tables with the same JSON are the same: the name of the schema and everything that the records
hold can be found in the text. -/
theorem render_json_eq_iff (t u : Table) :
    t.render .json = u.render .json ↔ t.schemaName = u.schemaName ∧ t.records = u.records := by
  rw [← toJson_eq_iff]
  constructor
  · intro h
    have hpretty : t.toJson.pretty = u.toJson.pretty := by
      have hchars := congrArg String.toList h
      simp only [render, String.toList_append] at hchars
      exact String.toList_inj.mp (List.append_cancel_right hchars)
    exact Json.pretty_injective hpretty
  · intro h
    rw [render, render, h]

end Table

end OpTable
