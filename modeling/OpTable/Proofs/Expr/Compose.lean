import OpTable.Expr.Basic
import OpTable.Proofs.Word

/-!
# Composing bit expressions

`BitExpr.compose` puts the bits of the segments side by side (`compose_eq_concat`), so the result is
no wider than the expression and every segment can be read back from its place (`bits_compose`).
-/

namespace OpTable

/-- A bit of a range that is moved to the place of the slice is a bit of the slice. -/
theorem Slice.getLsbD_moved (s : Slice) (word : Word) (base bit : Nat) :
    (word.bits base s.width <<< s.low).getLsbD bit = true ↔
      s.low ≤ bit ∧ bit ≤ s.high ∧ word.getLsbD (base + (bit - s.low)) = true := by
  have hlow := s.low_le_high
  have hhigh := s.high_lt
  have hwidth : s.width = s.high - s.low + 1 := rfl
  rw [BitVec.getLsbD_shiftLeft, Word.getLsbD_bits]
  simp only [Bool.and_eq_true, Bool.not_eq_true', decide_eq_true_eq, decide_eq_false_iff_not]
  constructor
  · rintro ⟨⟨hlt, hge⟩, hbit, hmoved, -⟩
    exact ⟨by omega, by omega, hbit⟩
  · rintro ⟨hge, hle, hbit⟩
    exact ⟨by omega, hbit, by omega⟩

namespace Segment

/-- The slice, where the segment is one. -/
def slice? : Segment → Option Slice
  | fixed _ => none
  | slice s => some s

/-- The segment as a part of a word. -/
def part (valueOf : String → Word) (s : Segment) : Word.Part := ⟨s.width, s.bits valueOf⟩

theorem part_fits (valueOf : String → Word) (s : Segment) : (s.part valueOf).Fits := by
  cases s with
  | fixed bits => exact bits.value_lt
  | slice s => exact Word.toNat_bits_lt _ _ _

@[simp] theorem totalWidth_cons (s : Segment) (rest : List Segment) :
    totalWidth (s :: rest) = s.width + totalWidth rest := List.sum_cons

theorem totalWidth_append (above below : List Segment) :
    totalWidth (above ++ below) = totalWidth above + totalWidth below := by
  rw [totalWidth, List.map_append, List.sum_append, totalWidth, totalWidth]

theorem totalWidth_map_part (valueOf : String → Word) (segments : List Segment) :
    Word.totalWidth (segments.map (part valueOf)) = totalWidth segments := by
  rw [Word.totalWidth, List.map_map]
  rfl

/-- What was read before moves up by the width of what is read after it. -/
theorem foldl_bits (valueOf : String → Word) (segments : List Segment) (word : Word) :
    segments.foldl (fun word s => (word <<< s.width) ||| s.bits valueOf) word =
      (word <<< totalWidth segments) ||| Word.concat (segments.map (part valueOf)) := by
  induction segments generalizing word with
  | nil => exact (BitVec.or_zero.trans (BitVec.shiftLeft_zero word)).symm
  | cons s rest ih =>
    rw [List.foldl_cons, ih, List.map_cons, Word.concat, totalWidth_cons, totalWidth_map_part,
      BitVec.shiftLeft_or_distrib, BitVec.shiftLeft_add, BitVec.or_assoc]
    rfl

/-- A word that holds every segment at its place holds them side by side. -/
theorem concat_part_eq {valueOf : String → Word} {word : Word} {segments : List Segment}
    (h : ∀ above s below, segments = above ++ s :: below →
      word.bits (totalWidth below) s.width = s.bits valueOf) :
    Word.concat (segments.map (part valueOf)) = word.bits 0 (totalWidth segments) := by
  induction segments with
  | nil => exact BitVec.and_zero.symm
  | cons s rest ih =>
    have hrest := ih fun above t below he => h (s :: above) t below (by rw [he]; rfl)
    have hs := h [] s rest rfl
    rw [List.map_cons, Word.concat, totalWidth_map_part, hrest, totalWidth_cons]
    show s.bits valueOf <<< totalWidth rest ||| _ = _
    rw [← hs, ← Word.bits_append, Nat.zero_add]

end Segment

namespace BitExpr

theorem compose_eq_concat (e : BitExpr) (valueOf : String → Word) :
    e.compose valueOf = Word.concat (e.segments.map (Segment.part valueOf)) := by
  rw [compose, Segment.foldl_bits, BitVec.zero_shiftLeft, BitVec.zero_or]

theorem toNat_compose_lt (e : BitExpr) (valueOf : String → Word) :
    (e.compose valueOf).toNat < 2 ^ e.width := by
  rw [compose_eq_concat, width, ← Segment.totalWidth_map_part valueOf]
  apply Word.toNat_concat_lt
  intro p hp
  obtain ⟨s, -, rfl⟩ := List.mem_map.mp hp
  exact s.part_fits valueOf

theorem bits_compose (e : BitExpr) (valueOf : String → Word) {above below : List Segment}
    {s : Segment} (he : e.segments = above ++ s :: below) :
    (e.compose valueOf).bits (Segment.totalWidth below) s.width = s.bits valueOf := by
  have hwidth := e.totalWidth_le
  rw [← Segment.totalWidth_map_part valueOf, he, List.map_append, List.map_cons] at hwidth
  rw [compose_eq_concat, he, List.map_append, List.map_cons,
    ← Segment.totalWidth_map_part valueOf below]
  refine Word.bits_concat ?_ hwidth
  intro p hp
  rw [← List.map_cons, ← List.map_append] at hp
  obtain ⟨s, -, rfl⟩ := List.mem_map.mp hp
  exact s.part_fits valueOf

theorem compose_eq_bits {e : BitExpr} {valueOf : String → Word} {word : Word}
    (h : ∀ above s below, e.segments = above ++ s :: below →
      word.bits (Segment.totalWidth below) s.width = s.bits valueOf) :
    e.compose valueOf = word.bits 0 e.width :=
  (e.compose_eq_concat valueOf).trans (Segment.concat_part_eq h)

theorem compose_congr {e : BitExpr} {valueOf other : String → Word}
    (h : ∀ s ∈ e.segments, s.bits valueOf = s.bits other) :
    e.compose valueOf = e.compose other := by
  rw [compose_eq_concat, compose_eq_concat]
  congr 1
  apply List.map_congr_left
  intro s hs
  rw [Segment.part, Segment.part, h s hs]

end BitExpr

end OpTable
