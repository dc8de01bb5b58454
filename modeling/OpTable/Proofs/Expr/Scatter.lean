import OpTable.Proofs.BitString
import OpTable.Proofs.Expr.Compose

/-!
# Bits of composed and scattered words

Side by side, the segments of an expression give each place of a word one bit: a fixed one, or a
bit of a field. `BitExpr.compose` writes these bits down from the highest place, and
`BitExpr.scatter` adds what a word has at the places of a field to the field's value.
-/

namespace OpTable

namespace Segment

/-! ### Digits -/

/-- The bits of the segment, the highest first, when `valueOf` gives the values of the fields. -/
def digits (valueOf : String → Word) : Segment → List Bool
  | fixed bits => bits.bits
  | slice s => (List.range s.width).reverse.map fun i => (valueOf s.field).getLsbD (s.low + i)

theorem length_digits (valueOf : String → Word) (s : Segment) :
    (s.digits valueOf).length = s.width := by
  cases s with
  | fixed bits => exact bits.length_bits
  | slice x => simp [digits, width]

theorem numberOf_digits (valueOf : String → Word) (s : Segment) :
    BitString.numberOf (s.digits valueOf) = (s.bits valueOf).toNat := by
  cases s with
  | fixed bits => exact bits.numberOf_bits
  | slice x =>
    have hdigits : (slice x).digits valueOf =
        (List.range x.width).reverse.map fun i =>
          ((valueOf x.field).bits x.low x.width).getLsbD i := by
      apply List.map_congr_left
      intro i hi
      have hlt : i < x.width := List.mem_range.mp (List.mem_reverse.mp hi)
      have hwidth : x.width = x.high - x.low + 1 := rfl
      have hhigh := x.high_lt
      have h64 : i < 64 := by omega
      simp only [Word.getLsbD_bits, hlt, h64, decide_true, Bool.and_true]
    rw [hdigits, BitString.numberOf_range]
    exact Nat.mod_eq_of_lt (Word.toNat_bits_lt _ _ _)

theorem length_flatMap_digits (valueOf : String → Word) (segments : List Segment) :
    (segments.flatMap (digits valueOf)).length = totalWidth segments := by
  induction segments with
  | nil => rfl
  | cons s rest ih =>
    rw [List.flatMap_cons, List.length_append, length_digits, ih, totalWidth_cons]

theorem toNat_concat_part (valueOf : String → Word) {segments : List Segment}
    (h : totalWidth segments ≤ 64) :
    (Word.concat (segments.map (part valueOf))).toNat =
      BitString.numberOf (segments.flatMap (digits valueOf)) := by
  induction segments with
  | nil => rfl
  | cons s rest ih =>
    have hfits : ∀ p ∈ (s :: rest).map (part valueOf), p.Fits := by
      intro p hp
      obtain ⟨t, -, rfl⟩ := List.mem_map.mp hp
      exact t.part_fits valueOf
    have hwidth : Word.totalWidth ((s :: rest).map (part valueOf)) ≤ 64 := by
      rw [totalWidth_map_part]
      exact h
    rw [totalWidth_cons] at h
    rw [List.map_cons] at hfits hwidth ⊢
    rw [Word.toNat_concat_cons hfits hwidth, ih (by omega), totalWidth_map_part, List.flatMap_cons,
      BitString.numberOf_append, numberOf_digits, length_flatMap_digits]
    rfl

/-! ### Places -/

/-- The segment stands above `base` places of the segments that follow it. -/
def StandsAt (segments : List Segment) (s : Segment) (base : Nat) : Prop :=
  ∃ above below, segments = above ++ s :: below ∧ base = totalWidth below

/-- The place has a bit of a fixed segment. -/
def FixedAt (segments : List Segment) (place : Nat) : Prop :=
  ∃ bits base, StandsAt segments (.fixed bits) base ∧ base ≤ place ∧ place < base + bits.width

/-- The place has the bit `bit` of the field. -/
def HoldsAt (segments : List Segment) (place : Nat) (field : String) (bit : Nat) : Prop :=
  ∃ s base, StandsAt segments (.slice s) base ∧ s.field = field ∧
    s.low ≤ bit ∧ bit ≤ s.high ∧ place = base + (bit - s.low)

/-- The fields of the slices, in their order. -/
def fields (segments : List Segment) : List String := (segments.filterMap slice?).map (·.field)

section Places

variable {s t : Segment} {x : Slice} {rest segments : List Segment} {base place : Nat}

theorem standsAt_cons :
    StandsAt (t :: rest) s base ↔ s = t ∧ base = totalWidth rest ∨ StandsAt rest s base := by
  constructor
  · intro h
    obtain ⟨above, below, hsegments, hbase⟩ := h
    cases above with
    | nil =>
      obtain ⟨rfl, rfl⟩ := List.cons.inj hsegments
      exact .inl ⟨rfl, hbase⟩
    | cons u above => exact .inr ⟨above, below, (List.cons.inj hsegments).2, hbase⟩
  · intro h
    rcases h with ⟨rfl, hbase⟩ | ⟨above, below, hrest, hbase⟩
    · exact ⟨[], rest, rfl, hbase⟩
    · exact ⟨t :: above, below, by rw [hrest]; rfl, hbase⟩

theorem StandsAt.le (h : StandsAt segments s base) : base + s.width ≤ totalWidth segments := by
  obtain ⟨above, below, rfl, rfl⟩ := h
  rw [totalWidth_append, totalWidth_cons]
  omega

/-- No place belongs to two segments. -/
theorem StandsAt.eq {other : Nat} (hs : StandsAt segments s base) (ht : StandsAt segments t other)
    (hplace : base ≤ place ∧ place < base + s.width)
    (hother : other ≤ place ∧ place < other + t.width) : s = t := by
  induction segments with
  | nil =>
    obtain ⟨above, below, hnil, -⟩ := hs
    cases above <;> cases hnil
  | cons u rest ih =>
    rcases standsAt_cons.mp hs with ⟨rfl, rfl⟩ | hbelow
    · rcases standsAt_cons.mp ht with ⟨rfl, rfl⟩ | hbelow
      · rfl
      · have hle := hbelow.le
        omega
    · rcases standsAt_cons.mp ht with ⟨rfl, rfl⟩ | hbelow'
      · have hle := hbelow.le
        omega
      · exact ih hbelow hbelow'

theorem HoldsAt.not_fixedAt {field : String} {bit : Nat} (h : HoldsAt segments place field bit) :
    place < totalWidth segments ∧ ¬ FixedAt segments place := by
  obtain ⟨x, base, hx, -, hlow, hhigh, rfl⟩ := h
  have hwidth : (slice x).width = x.high - x.low + 1 := rfl
  have hle := hx.le
  refine ⟨by omega, ?_⟩
  intro hfixed
  obtain ⟨bits, other, hbits, hother⟩ := hfixed
  cases hx.eq hbits (by omega) hother

theorem holdsAt_fixed {bits : BitString} {field : String} {bit : Nat} :
    HoldsAt (.fixed bits :: rest) place field bit ↔ HoldsAt rest place field bit := by
  constructor
  · intro h
    obtain ⟨x, base, hx, hplace⟩ := h
    rcases standsAt_cons.mp hx with ⟨heq, -⟩ | hbelow
    · cases heq
    · exact ⟨x, base, hbelow, hplace⟩
  · intro h
    obtain ⟨x, base, hx, hplace⟩ := h
    exact ⟨x, base, standsAt_cons.mpr (.inr hx), hplace⟩

theorem holdsAt_slice {field : String} {bit : Nat} :
    HoldsAt (.slice x :: rest) place field bit ↔
      (x.field = field ∧ x.low ≤ bit ∧ bit ≤ x.high ∧ place = totalWidth rest + (bit - x.low)) ∨
        HoldsAt rest place field bit := by
  constructor
  · intro h
    obtain ⟨y, base, hy, hplace⟩ := h
    rcases standsAt_cons.mp hy with ⟨heq, rfl⟩ | hbelow
    · cases heq
      exact .inl hplace
    · exact .inr ⟨y, base, hbelow, hplace⟩
  · intro h
    rcases h with hplace | ⟨y, base, hy, hplace⟩
    · exact ⟨x, totalWidth rest, standsAt_cons.mpr (.inl ⟨rfl, rfl⟩), hplace⟩
    · exact ⟨y, base, standsAt_cons.mpr (.inr hy), hplace⟩

end Places

/-! ### Scattered words -/

section Scatter

variable (word : Word) (segments : List Segment) (values : NameMap) (field : String)

theorem get?_scatterAll_of_not_mem (h : field ∉ fields segments) :
    (scatterAll word segments values).get? field = values.get? field := by
  induction segments with
  | nil => rfl
  | cons s rest ih =>
    cases s with
    | fixed bits => exact ih h
    | slice x =>
      have hx : field ∉ x.field :: fields rest := h
      rw [List.mem_cons, not_or] at hx
      rw [scatterAll, NameMap.get?_alter, if_neg hx.1]
      exact ih hx.2

theorem exists_get?_scatterAll (h : field ∈ fields segments) :
    ∃ value, (scatterAll word segments values).get? field = some value := by
  induction segments with
  | nil => exact absurd h List.not_mem_nil
  | cons s rest ih =>
    cases s with
    | fixed bits => exact ih h
    | slice x =>
      rw [scatterAll, NameMap.get?_alter]
      by_cases hx : field = x.field
      · rw [if_pos hx]
        exact ⟨_, rfl⟩
      · rw [if_neg hx]
        exact ih ((List.mem_cons.mp h).resolve_left hx)

theorem getLsbD_scatterAll (bit : Nat) :
    (((scatterAll word segments values).get? field).getD 0#64).getLsbD bit = true ↔
      ((values.get? field).getD 0#64).getLsbD bit = true ∨
        ∃ place, HoldsAt segments place field bit ∧ word.getLsbD place = true := by
  induction segments with
  | nil =>
    refine ⟨.inl, fun h => h.resolve_right ?_⟩
    rintro ⟨place, ⟨x, base, ⟨above, below, hnil, -⟩, -⟩, -⟩
    cases above <;> cases hnil
  | cons s rest ih =>
    cases s with
    | fixed bits =>
      simp only [holdsAt_fixed]
      exact ih
    | slice x =>
      rw [scatterAll, NameMap.get?_alter]
      by_cases hx : field = x.field
      · subst hx
        rw [if_pos rfl, Option.getD_some, BitVec.getLsbD_or, Bool.or_eq_true, ih,
          x.getLsbD_moved, or_assoc]
        refine or_congr_right ?_
        constructor
        · rintro (⟨place, hplace, hbit⟩ | ⟨hlow, hhigh, hbit⟩)
          · exact ⟨place, holdsAt_slice.mpr (.inr hplace), hbit⟩
          · exact ⟨_, holdsAt_slice.mpr (.inl ⟨rfl, hlow, hhigh, rfl⟩), hbit⟩
        · rintro ⟨place, hplace, hbit⟩
          rcases holdsAt_slice.mp hplace with ⟨-, hlow, hhigh, rfl⟩ | hplace
          · exact .inr ⟨hlow, hhigh, hbit⟩
          · exact .inl ⟨place, hplace, hbit⟩
      · rw [if_neg hx, ih]
        simp only [holdsAt_slice, Ne.symm hx, false_and, false_or]

end Scatter

/-- Places without a bit of a field are not looked at. -/
theorem scatterAll_congr {word other : Word} {segments : List Segment} (values : NameMap)
    (h : ∀ place field bit, HoldsAt segments place field bit →
      word.getLsbD place = other.getLsbD place) :
    scatterAll word segments values = scatterAll other segments values := by
  induction segments with
  | nil => rfl
  | cons s rest ih =>
    cases s with
    | fixed bits => exact ih fun place field bit hp => h place field bit (holdsAt_fixed.mpr hp)
    | slice x =>
      have hrest := ih fun place field bit hp => h place field bit (holdsAt_slice.mpr (.inr hp))
      have hbits : word.bits (totalWidth rest) x.width = other.bits (totalWidth rest) x.width := by
        apply BitVec.eq_of_getLsbD_eq
        intro i hi
        rw [Word.getLsbD_bits, Word.getLsbD_bits]
        by_cases hlt : i < x.width
        · have hwidth : x.width = x.high - x.low + 1 := rfl
          have hlow := x.low_le_high
          rw [h (totalWidth rest + i) x.field (x.low + i)
            (holdsAt_slice.mpr (.inl ⟨rfl, by omega, by omega, by omega⟩))]
        · rw [decide_eq_false hlt, Bool.false_and, Bool.and_false, Bool.and_false]
      rw [scatterAll, scatterAll, hrest, hbits]

end Segment

namespace BitExpr

open Segment

theorem toNat_compose (e : BitExpr) (valueOf : String → Word) :
    (e.compose valueOf).toNat = BitString.numberOf (e.segments.flatMap (digits valueOf)) := by
  rw [compose_eq_concat]
  exact toNat_concat_part valueOf e.totalWidth_le

theorem getLsbD_compose (e : BitExpr) (valueOf : String → Word) {place bit : Nat} {field : String}
    (h : HoldsAt e.segments place field bit) :
    (e.compose valueOf).getLsbD place = (valueOf field).getLsbD bit := by
  obtain ⟨x, base, ⟨above, below, hsegments, rfl⟩, rfl, hlow, hhigh, rfl⟩ := h
  have hwidth : x.width = x.high - x.low + 1 := rfl
  have hx := x.high_lt
  have hlt : bit - x.low < x.width := by omega
  have h64 : bit - x.low < 64 := by omega
  have hbit := congrArg (·.getLsbD (bit - x.low)) (e.bits_compose valueOf hsegments)
  have hslice : (Segment.slice x).bits valueOf = (valueOf x.field).bits x.low x.width := rfl
  have hsegment : (Segment.slice x).width = x.width := rfl
  simp only [hslice, hsegment, Word.getLsbD_bits, hlt, h64, decide_true, Bool.and_true] at hbit
  rw [hbit, Nat.add_sub_cancel' hlow]

theorem exists_get?_scatter (e : BitExpr) (word : Word) (values : NameMap) {field : String}
    (h : field ∈ fields e.segments) :
    ∃ value, (e.scatter word values).get? field = some value ∧
      ∀ bit, value.getLsbD bit = true ↔
        ((values.get? field).getD 0#64).getLsbD bit = true ∨
          ∃ place, HoldsAt e.segments place field bit ∧ word.getLsbD place = true := by
  obtain ⟨value, hvalue⟩ := exists_get?_scatterAll word e.segments values field h
  refine ⟨value, hvalue, fun bit => ?_⟩
  have hbit := getLsbD_scatterAll word e.segments values field bit
  rw [hvalue] at hbit
  exact hbit

/-- A composed word has the digits of the segments side by side. A scattered word adds to each field
of the expression what it has at the places of the field's bits, and nothing else of the word
counts; for a composed word, these are the bits of the field that the expression takes. -/
theorem compose_scatter_bits (e : BitExpr) (valueOf : String → Word) (word : Word)
    (values : NameMap) :
    ((e.compose valueOf).toNat = BitString.numberOf (e.segments.flatMap (digits valueOf)) ∧
        (e.segments.flatMap (digits valueOf)).length = e.width ∧
        (e.compose valueOf).toNat < 2 ^ e.width) ∧
      (∀ field ∉ fields e.segments,
        (e.scatter word values).get? field = values.get? field) ∧
      (∀ field ∈ fields e.segments, ∃ value, (e.scatter word values).get? field = some value ∧
        ∀ bit, value.getLsbD bit = true ↔
          ((values.get? field).getD 0#64).getLsbD bit = true ∨
            ∃ place, HoldsAt e.segments place field bit ∧ word.getLsbD place = true) ∧
      (∀ other : Word, (∀ place < e.width, ¬ FixedAt e.segments place →
          word.getLsbD place = other.getLsbD place) →
        e.scatter word values = e.scatter other values) ∧
      (∀ field ∉ fields e.segments, (e.scatter (e.compose valueOf) ∅).get? field = none) ∧
      ∀ field ∈ fields e.segments, ∃ value,
        (e.scatter (e.compose valueOf) ∅).get? field = some value ∧
          ∀ bit, value.getLsbD bit = true ↔ (valueOf field).getLsbD bit = true ∧
            ∃ place, HoldsAt e.segments place field bit := by
  refine ⟨⟨e.toNat_compose valueOf, length_flatMap_digits valueOf _, e.toNat_compose_lt valueOf⟩,
    ?_, fun field hf => e.exists_get?_scatter word values hf, ?_, ?_, ?_⟩
  · exact fun field hf => get?_scatterAll_of_not_mem word e.segments values field hf
  · intro other hagree
    apply scatterAll_congr
    intro place field bit hplace
    obtain ⟨hlt, hfree⟩ := hplace.not_fixedAt
    exact hagree place hlt hfree
  · exact fun field hf => get?_scatterAll_of_not_mem _ e.segments ∅ field hf
  · intro field hf
    obtain ⟨value, hvalue, hbits⟩ := e.exists_get?_scatter (e.compose valueOf) ∅ hf
    refine ⟨value, hvalue, fun bit => (hbits bit).trans ?_⟩
    rw [NameMap.get?_empty, Option.getD_none, BitVec.getLsbD_zero]
    constructor
    · intro h
      obtain ⟨place, hplace, hbit⟩ := h.resolve_left Bool.false_ne_true
      rw [e.getLsbD_compose valueOf hplace] at hbit
      exact ⟨hbit, place, hplace⟩
    · intro h
      obtain ⟨hbit, place, hplace⟩ := h
      rw [← e.getLsbD_compose valueOf hplace] at hbit
      exact .inr ⟨place, hplace, hbit⟩

end BitExpr

end OpTable
