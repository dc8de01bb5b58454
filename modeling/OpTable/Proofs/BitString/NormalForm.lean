import OpTable.Proofs.BitString
import OpTable.Proofs.Except
import OpTable.Proofs.Json.Strings

/-!
# Bit strings as a normal form

A bit string is made from a value and a width, from a text, or from data, and in each way only where
the value fits the width (`normal_form`). Its texts give it back: the bits as they stand, and the
bits with the mark `0b`, in data and in a document.
-/

namespace OpTable.BitString

theorem ofValue_eq_ok_iff {value : Word} {width : Nat} {b : BitString} :
    ofValue value width = .ok b ↔
      (1 ≤ width ∧ width ≤ 64 ∧ value.toNat < 2 ^ width) ∧ b.value = value ∧ b.width = width := by
  constructor
  · intro h
    unfold ofValue at h
    split at h
    · cases h
    next hpos =>
    split at h
    · cases h
    next hle =>
    split at h
    next hlt =>
      cases h
      exact ⟨⟨by omega, by omega, hlt⟩, rfl, rfl⟩
    · cases h
  · rintro ⟨⟨hpos, hle, hlt⟩, rfl, rfl⟩
    rw [ofValue, dif_neg (by omega), dif_neg (by omega), dif_pos hlt]

/-! ### Marked texts -/

theorem toList_marked (b : BitString) : b.marked.toList = '0' :: 'b' :: b.digits := by
  rw [marked, String.toList_append, toList_text]
  rfl

theorem ofMarked_marked (b : BitString) : ofMarked b.marked = .ok b := by
  rw [ofMarked, toList_marked]
  exact b.ofChars_digits

theorem marked_injective : Function.Injective marked := by
  intro a b h
  have hsame := a.ofMarked_marked
  rw [h, b.ofMarked_marked] at hsame
  exact (Except.ok.inj hsame).symm

/-- The mark may stand in front of the bits, once. -/
theorem ofMarked_eq_ok_iff {text : String} {b : BitString} :
    ofMarked text = .ok b ↔ text = b.text ∨ text = b.marked := by
  constructor
  · intro h
    unfold ofMarked at h
    rw [String.ext_iff, String.ext_iff, toList_text, toList_marked]
    split at h
    next chars htext =>
      rw [htext, ofChars_eq_ok_iff.mp h]
      exact .inr rfl
    · exact .inl (ofChars_eq_ok_iff.mp h)
  · rintro (rfl | rfl)
    · unfold ofMarked
      split
      next chars htext =>
        -- a printed bit string has no letter, so it never looks as if it had a mark
        have hmem : 'b' ∈ b.digits := by
          rw [← toList_text, htext]
          exact List.mem_cons_of_mem _ (List.mem_cons_self ..)
        rcases bit_of_mem_digits hmem with hb | hb <;> cases hb
      · rw [toList_text]
        exact b.ofChars_digits
    · exact b.ofMarked_marked

theorem asBitString_eq_ok_iff {datum : Datum} {b : BitString} :
    datum.asBitString = .ok b ↔ datum = .text b.text ∨ datum = .text b.marked := by
  cases datum with
  | text value =>
    have hread : (Datum.text value).asBitString = .ok b ↔ ofMarked value = .ok b := by
      have htext : (Datum.text value).asText = .ok value := rfl
      rw [Datum.asBitString, htext, Except.bind_eq_ok_iff]
      simp only [Except.ok.injEq, exists_eq_left']
      cases ofMarked value with
      | ok bits => simp
      | error reason => simp
    rw [hread, ofMarked_eq_ok_iff, Datum.text.injEq, Datum.text.injEq]
  | _ =>
    constructor
    · intro h
      cases h
    · rintro (h | h) <;> cases h

theorem isPlain_of_mem_marked {b : BitString} {c : Char} (h : c ∈ b.marked.toList) :
    Json.Document.isPlain c = true := by
  rw [toList_marked, List.mem_cons, List.mem_cons] at h
  rcases h with rfl | rfl | h
  · rfl
  · rfl
  · rcases bit_of_mem_digits h with rfl | rfl <;> rfl

/-! ### The normal form -/

/-- The bit string comes from a value and a width, from a text, or from data. -/
def IsMade (b : BitString) : Prop :=
  (∃ value width, ofValue value width = .ok b) ∨ (∃ text, ofText text = .ok b) ∨
    ∃ datum : Datum, datum.asBitString = .ok b

/-- A text is read exactly where it is 1 to 64 bits, as the number that they spell in as many bits;
so the bit string and the text determine each other. Data are read where they are such a text, with
the mark in front or without it, and the form in which data hold a bit string gives it back. -/
theorem normal_form :
    (∀ b : BitString, b.IsMade → 1 ≤ b.width ∧ b.width ≤ 64 ∧ b.value.toNat < 2 ^ b.width) ∧
      (∀ value width b, ofValue value width = .ok b ↔
        (1 ≤ width ∧ width ≤ 64 ∧ value.toNat < 2 ^ width) ∧ b.value = value ∧ b.width = width) ∧
      (∀ text, (∃ b, ofText text = .ok b) ↔
        1 ≤ text.length ∧ text.length ≤ 64 ∧ ∀ c ∈ text.toList, c = '0' ∨ c = '1') ∧
      (∀ text b, ofText text = .ok b → b.width = text.length ∧
        Text.Numeral.Spells 2 text.toList b.value.toNat ∧ b.text = text) ∧
      (∀ b : BitString, ofText b.text = .ok b ∧ (Datum.text b.marked).asBitString = .ok b ∧
        Json.Document.read? (Json.text b.marked).pretty = some (.text b.marked)) ∧
      ∀ (datum : Datum) b, datum.asBitString = .ok b ↔
        ∃ bits, ofText bits = .ok b ∧ (datum = .text bits ∨ datum = .text ("0b" ++ bits)) := by
  refine ⟨fun b _ => ⟨b.width_pos, b.width_le, b.value_lt⟩, fun _ _ _ => ofValue_eq_ok_iff,
    ?_, ?_, ?_, ?_⟩
  · intro text
    rw [← String.length_toList]
    exact exists_ofChars_iff.trans ⟨fun h => ⟨h.1, h.2, h.3⟩, fun h => ⟨h.1, h.2.1, h.2.2⟩⟩
  · rintro text b h
    obtain rfl := ofText_eq_ok_iff.mp h
    rw [← String.length_toList, toList_text]
    exact ⟨b.length_digits.symm, b.spells_digits, rfl⟩
  · intro b
    exact ⟨ofText_eq_ok_iff.mpr rfl, asBitString_eq_ok_iff.mpr (.inr rfl),
      Json.Document.read?_pretty_text fun c hc => isPlain_of_mem_marked hc⟩
  · intro datum b
    simp only [ofText_eq_ok_iff, exists_eq_left]
    exact asBitString_eq_ok_iff

end OpTable.BitString
