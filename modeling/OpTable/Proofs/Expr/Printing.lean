import OpTable.Proofs.BitString
import OpTable.Proofs.Except
import OpTable.Proofs.Expr.Reading
import OpTable.Schema.Presets

/-!
# Reading printed expressions

An expression is printed in a form that the grammar derives with the same segments, whatever widths
bare names have, since none is printed. So it is read back as it was (`ofText_printed`), and no two
expressions are printed alike.
-/

namespace OpTable.BitExpr

open Grammar Text.Numeral

theorem number_toDigits {n : Nat} (h : n < 64) : Number (Nat.toDigits 10 n) n :=
  ⟨spells_toDigits (by decide) (by decide) n, by omega⟩

/-! ### Leaves -/

theorem toList_rangeText (high low : Nat) :
    (Slice.rangeText high low).toList =
      if high = low then '[' :: (Nat.toDigits 10 high ++ [']'])
      else '[' :: (Nat.toDigits 10 high ++ ':' :: (Nat.toDigits 10 low ++ [']'])) := by
  unfold Slice.rangeText
  split
  · simp only [String.toList_append, toString, Nat.toList_repr]
    rfl
  · simp only [String.toList_append, toString, Nat.toList_repr, List.append_assoc]
    rfl

theorem sliced_text (s : Slice) : Sliced s.text.toList (.slice s) := by
  have hhigh := s.high_lt
  have hlow := s.low_le_high
  rw [Slice.text, String.toList_append, toList_rangeText]
  by_cases he : s.high = s.low
  · rw [if_pos he]
    refine .mk ?_
    have hbit := Range.bit (number_toDigits hhigh)
    rwa [← he]
  · rw [if_neg he]
    have hbits := Range.bits (number_toDigits hhigh) (number_toDigits (by omega : s.low < 64))
    have hsliced := Sliced.mk hbits
    rwa [List.append_assoc] at hsliced

theorem sized_text (b : BitString) : Sized (Segment.fixed b).text.toList (.fixed b) := by
  have hle := b.width_le
  have hwidth : Number (Nat.toDigits 10 b.width) b.width :=
    ⟨spells_toDigits (by decide) (by decide) _, by omega⟩
  have hbody : ∀ c ∈ b.digits, isIdentifierPart c = true := by
    intro c hc
    rcases BitString.bit_of_mem_digits hc with rfl | rfl <;> decide
  have hfilter : b.digits.filter (· != '_') = b.digits := by
    rw [List.filter_eq_self]
    intro c hc
    rcases BitString.bit_of_mem_digits hc with rfl | rfl <;> decide
  have hvalue : Spells 2 (b.digits.filter (· != '_')) b.value.toNat := by
    rw [hfilter]
    exact b.spells_digits
  have htext : (Segment.fixed b).text.toList =
      Nat.toDigits 10 b.width ++ '\'' :: 'b' :: b.digits := by
    simp only [Segment.text, String.toList_append, toString, Nat.toList_repr, BitString.toList_text,
      List.append_assoc]
    rfl
  rw [htext]
  exact .mk hwidth .lowerBinary hbody hvalue

theorem derives_segment (widthOf : String → Option Nat) (s : Segment) :
    Derives (leaves widthOf) .item s.text.toList [s] := by
  cases s with
  | fixed b => exact .itemSized (sized_text b)
  | slice x => exact .itemSlice (sliced_text x)

/-! ### Whole expressions -/

theorem derives_segments (widthOf : String → Option Nat) {segments : List Segment}
    (h : segments ≠ []) :
    Derives (leaves widthOf) .items
      ([','].intercalate (segments.map fun s => s.text.toList)) segments := by
  induction segments with
  | nil => exact absurd rfl h
  | cons s rest ih =>
    have hs := derives_segment widthOf s
    cases rest with
    | nil =>
      simp only [List.map_cons, List.map_nil, List.intercalate_singleton]
      exact .single hs
    | cons t rest =>
      have hrest := ih (List.cons_ne_nil t rest)
      simp only [List.map_cons, List.intercalate_cons_cons, List.append_assoc] at hrest ⊢
      exact .comma hs hrest

theorem derives_text (widthOf : String → Option Nat) (e : BitExpr) :
    Derives (leaves widthOf) .expr e.text.toList e.segments := by
  unfold text
  split
  next s hs =>
    rw [hs]
    exact .exprSlice (sliced_text s)
  · have hsegments := derives_segments widthOf e.segments_ne_nil
    have hgroup := Derives.exprGroup (Derives.group hsegments)
    rw [String.toList_append, String.toList_append, String.toList_intercalate, List.map_map]
    exact hgroup

/-- An expression is read back from its text, even where no bare name has a width. -/
theorem ofText_text (widthOf : String → Option Nat) (e : BitExpr) : ofText widthOf e.text = .ok e :=
  ofText_eq_ok_iff.mpr (derives_text widthOf e)

theorem text_injective : Function.Injective text := by
  intro a b h
  have hread := ofText_text (fun _ => none) a
  rw [h, ofText_text] at hread
  exact (Except.ok.inj hread).symm

/-- The printed form of what a text says. -/
def reprint (widthOf : String → Option Nat) (text : String) : Except Error String :=
  (ofText widthOf text).map BitExpr.text

/-- The printed form of what was read is read as the same again, whatever widths bare names have
then. No other expression is printed alike, and the printed form is its own printed form. -/
theorem ofText_printed {widthOf : String → Option Nat} {source : String} {e : BitExpr}
    (h : ofText widthOf source = .ok e) :
    (∀ others, ofText others e.text = .ok e) ∧
      (∀ e' : BitExpr, e'.text = e.text → e' = e) ∧
      ∀ printed, reprint widthOf source = .ok printed →
        ∀ others, reprint others printed = .ok printed := by
  refine ⟨fun others => ofText_text others e, fun e' htext => text_injective htext, ?_⟩
  intro printed hprinted others
  have htext : e.text = printed := by
    rw [reprint, h] at hprinted
    exact Except.ok.inj hprinted
  rw [reprint, ← htext, ofText_text]
  rfl

/-- The literal changes its base, the inner group is gone, and the shift amount no longer needs the
width that the schema gives it. -/
theorem ofText_printed_offsetShift :
    ∃ e, ofText Schema.qcpu.fieldWidth? "\x7b2'h3,\x7boff[9],off[7:0]\x7d,shamt\x7d" = .ok e ∧
      e.text = "\x7b2'b11,off[9],off[7:0],shamt[4:0]\x7d" ∧
      ofText (fun _ => none) "\x7b2'b11,off[9],off[7:0],shamt[4:0]\x7d" = .ok e ∧
      reprint (fun _ => none) "\x7b2'b11,off[9],off[7:0],shamt[4:0]\x7d" =
        .ok "\x7b2'b11,off[9],off[7:0],shamt[4:0]\x7d" := by
  have hprinted : reprint Schema.qcpu.fieldWidth? "\x7b2'h3,\x7boff[9],off[7:0]\x7d,shamt\x7d" =
      .ok "\x7b2'b11,off[9],off[7:0],shamt[4:0]\x7d" := Except.eq_ok_of_toOption (by decide +kernel)
  obtain ⟨e, hread, htext⟩ := Except.map_eq_ok_iff.mp hprinted
  obtain ⟨hagain, -, hsame⟩ := ofText_printed hread
  rw [htext] at hagain
  exact ⟨e, hread, htext, hagain _, hsame _ hprinted _⟩

end OpTable.BitExpr
