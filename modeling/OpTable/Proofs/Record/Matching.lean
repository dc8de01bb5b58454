import OpTable.Proofs.Record.Resolved

/-!
# Matching by slots

A word is compared with a record through one mask and one value. `matches_iff` says that this is
the comparison of every slot that is looked at, on its own.
-/

namespace OpTable

namespace Word

/-- A comparison under the union of a mask above bit `n` and a mask below it is two comparisons. -/
theorem and_or_eq_or_iff {w high low vhigh vlow : Word} {n : Nat}
    (hhigh : ∀ i, i < n → high.getLsbD i = false) (hvhigh : ∀ i, i < n → vhigh.getLsbD i = false)
    (hlow : low.toNat < 2 ^ n) (hvlow : vlow.toNat < 2 ^ n) :
    w &&& (high ||| low) = vhigh ||| vlow ↔ w &&& high = vhigh ∧ w &&& low = vlow := by
  constructor
  · intro h
    have hbit : ∀ i, (w.getLsbD i && (high.getLsbD i || low.getLsbD i)) =
        (vhigh.getLsbD i || vlow.getLsbD i) := by
      intro i
      have hi := congrArg (·.getLsbD i) h
      simpa only [BitVec.getLsbD_and, BitVec.getLsbD_or] using hi
    refine ⟨?_, ?_⟩
    · apply BitVec.eq_of_getLsbD_eq
      intro i _
      rw [BitVec.getLsbD_and]
      by_cases hi : i < n
      · rw [hhigh i hi, hvhigh i hi, Bool.and_false]
      · have h1 := hbit i
        rw [getLsbD_of_toNat_lt hlow (by omega), getLsbD_of_toNat_lt hvlow (by omega),
          Bool.or_false, Bool.or_false] at h1
        exact h1
    · apply BitVec.eq_of_getLsbD_eq
      intro i _
      rw [BitVec.getLsbD_and]
      by_cases hi : i < n
      · have h1 := hbit i
        rw [hhigh i hi, hvhigh i hi, Bool.false_or, Bool.false_or] at h1
        exact h1
      · rw [getLsbD_of_toNat_lt hlow (by omega), getLsbD_of_toNat_lt hvlow (by omega),
          Bool.and_false]
  · intro h
    obtain ⟨h1, h2⟩ := h
    rw [BitVec.and_or_distrib_left, h1, h2]

theorem or_and_or_of_and_eq {v m w n : Word} (hv : v &&& m = v) (hw : w &&& n = w) :
    (v ||| w) &&& (m ||| n) = v ||| w := by
  apply BitVec.eq_of_getLsbD_eq
  intro i _
  have hvi := congrArg (·.getLsbD i) hv
  have hwi := congrArg (·.getLsbD i) hw
  simp only [BitVec.getLsbD_and, BitVec.getLsbD_or] at hvi hwi ⊢
  grind

end Word

theorem SlotContent.fixed?_of_matched? {content : SlotContent} {bits : BitString}
    (h : content.matched? = some bits) : content.fixed? = some bits := by
  cases content <;> first | exact h | cases h

theorem Slot.IsFilled.matched_lt {slot : Slot} (h : slot.IsFilled) {bits : BitString}
    (hb : slot.content.matched? = some bits) : bits.value.toNat < 2 ^ slot.width := by
  rw [← h.fixed_width bits (SlotContent.fixed?_of_matched? hb)]
  exact bits.value_lt

namespace Record

open Layout

/-- The mask of a slot that is looked at. -/
def slotMask? (slot : Slot) : Option Word := slot.content.matched?.map fun _ => slot.mask

/-- The bits that a slot has to hold, where it is looked at. -/
def slotValue? (slot : Slot) : Option Word :=
  slot.content.matched?.map fun bits => slot.place bits.value

theorem maskOf_eq (layout : List Slot) :
    maskOf layout = Word.union (layout.filterMap slotMask?) := by
  have hstep : ∀ (word : Word) (slot : Slot),
      (if slot.content.matched?.isSome then word ||| slot.mask else word) =
        word ||| (slotMask? slot).getD 0#64 := by
    intro word slot
    unfold slotMask?
    cases slot.content.matched? with
    | none => exact BitVec.or_zero.symm
    | some bits => rfl
  exact (Word.foldl_eq_union hstep layout 0#64).trans BitVec.zero_or

theorem matchValueOf_eq (layout : List Slot) :
    matchValueOf layout = Word.union (layout.filterMap slotValue?) := by
  refine (Word.foldl_eq_union ?_ layout 0#64).trans BitVec.zero_or
  intro word slot
  unfold slotValue?
  cases slot.content.matched? with
  | none => exact BitVec.or_zero.symm
  | some bits => rfl

theorem toNat_maskOf_lt {layout : List Slot} (h : Stacked layout) :
    (maskOf layout).toNat < 2 ^ widthOf layout := by
  rw [maskOf_eq]
  apply Word.toNat_union_lt
  intro mask hmask
  obtain ⟨slot, hs, hmask⟩ := List.mem_filterMap.mp hmask
  obtain ⟨bits, -, rfl⟩ := Option.map_eq_some_iff.mp hmask
  exact Word.toNat_lt_mono (Word.toNat_shiftLeft_lt (Word.toNat_lowMask_lt _)) (h.le_widthOf hs)

theorem toNat_matchValueOf_lt {layout : List Slot} (h : Stacked layout) :
    (matchValueOf layout).toNat < 2 ^ widthOf layout := by
  rw [matchValueOf_eq]
  apply Word.toNat_union_lt
  intro value hvalue
  obtain ⟨slot, hs, hvalue⟩ := List.mem_filterMap.mp hvalue
  obtain ⟨bits, hbits, rfl⟩ := Option.map_eq_some_iff.mp hvalue
  have hlt := (h.filled slot hs).matched_lt hbits
  exact Word.toNat_lt_mono (Word.toNat_shiftLeft_lt hlt) (h.le_widthOf hs)

/-! ### Values under masks -/

theorem slotValue_and_slotMask {slot : Slot} (h : slot.IsFilled) {bits : BitString}
    (hb : slot.content.matched? = some bits) :
    slot.place bits.value &&& slot.mask = slot.place bits.value := by
  have hlt := h.matched_lt hb
  rw [Slot.place, Slot.mask, ← BitVec.shiftLeft_and_distrib]
  congr 1
  apply BitVec.eq_of_getLsbD_eq
  intro i hi
  by_cases hw : i < slot.width
  · simp [Word.getLsbD_lowMask, hw, hi]
  · simp [Word.getLsbD_of_toNat_lt hlt (by omega : slot.width ≤ i)]

theorem matchValueOf_and_maskOf {layout : List Slot} (h : ∀ slot ∈ layout, slot.IsFilled) :
    matchValueOf layout &&& maskOf layout = matchValueOf layout := by
  rw [matchValueOf_eq, maskOf_eq]
  induction layout with
  | nil => rfl
  | cons slot rest ih =>
    have hrest := ih fun s hs => h s (List.mem_cons_of_mem _ hs)
    have hslot := h slot (List.mem_cons_self ..)
    rw [List.filterMap_cons, List.filterMap_cons]
    cases hm : slot.content.matched? with
    | none =>
      simp only [slotMask?, slotValue?, hm, Option.map_none]
      exact hrest
    | some bits =>
      simp only [slotMask?, slotValue?, hm, Option.map_some, Word.union_cons]
      exact Word.or_and_or_of_and_eq (slotValue_and_slotMask hslot hm) hrest

theorem Resolved.matchValue_and_mask {r : Record} (h : r.Resolved) :
    r.matchValue &&& r.mask = r.matchValue := by
  obtain ⟨schema, -, hr⟩ := h
  exact matchValueOf_and_maskOf hr.wellFormed.stacked.filled

/-! ### Slots that are looked at -/

/-- The slots that are looked at hold their bits in the word. -/
def SlotsMatch (layout : List Slot) (word : Word) : Prop :=
  ∀ slot ∈ layout, ∀ bits, slot.content.matched? = some bits → slot.extract word = bits.value

theorem slotsMatch_cons {slot : Slot} {rest : List Slot} {word : Word} :
    SlotsMatch (slot :: rest) word ↔
      (∀ bits, slot.content.matched? = some bits → slot.extract word = bits.value) ∧
        SlotsMatch rest word :=
  List.forall_mem_cons

theorem and_maskOf_eq_iff {layout : List Slot} (h : Stacked layout) (hwidth : widthOf layout ≤ 64)
    (word : Word) : word &&& maskOf layout = matchValueOf layout ↔ SlotsMatch layout word := by
  induction h with
  | nil => exact ⟨fun _ _ hs => absurd hs List.not_mem_nil, fun _ => BitVec.and_zero⟩
  | @cons slot rest hlsb hfilled hrest ih =>
    rw [widthOf_cons] at hwidth
    rw [slotsMatch_cons, ← ih (by omega), maskOf_eq, matchValueOf_eq, List.filterMap_cons,
      List.filterMap_cons]
    cases hm : slot.content.matched? with
    | none =>
      rw [slotMask?, slotValue?, hm]
      dsimp only [Option.map_none]
      rw [← maskOf_eq, ← matchValueOf_eq]
      exact (and_iff_right (fun _ hb => nomatch hb)).symm
    | some bits =>
      have hlt := hfilled.matched_lt hm
      have hlow : ∀ (w : Word) (i : Nat), i < widthOf rest →
          (w <<< slot.lsb).getLsbD i = false := by
        intro w i hi
        rw [BitVec.getLsbD_shiftLeft, hlsb, decide_eq_true hi, Bool.not_true, Bool.and_false,
          Bool.false_and]
      rw [slotMask?, slotValue?, hm]
      dsimp only [Option.map_some]
      rw [Word.union_cons, Word.union_cons, ← maskOf_eq, ← matchValueOf_eq, Slot.mask, Slot.place,
        Word.and_or_eq_or_iff (hlow _) (hlow _) (toNat_maskOf_lt hrest)
          (toNat_matchValueOf_lt hrest), Word.and_mask_eq_iff hlt (by omega)]
      refine and_congr_left fun _ => ⟨?_, ?_⟩
      · intro hword bits' hb
        cases hb
        exact hword
      · intro hword
        exact hword bits rfl

theorem WellFormed.matches_iff {schema : Schema} {r : Record} (h : r.WellFormed schema)
    (word : Word) : r.Matches word ↔ SlotsMatch r.layout word :=
  and_maskOf_eq_iff h.stacked h.wordWidth_le word

theorem WellFormed.opcode_eq_of_matches {schema : Schema} {r : Record} (h : r.WellFormed schema)
    {word : Word} (hword : r.Matches word) :
    word &&& Word.lowMask r.opcode.width = r.opcode.value := by
  have hslot := (h.matches_iff word).mp hword _ h.opcode_mem r.opcode rfl
  rw [← hslot, Slot.extract, Word.bits, BitVec.ushiftRight_zero]

end Record

end OpTable
