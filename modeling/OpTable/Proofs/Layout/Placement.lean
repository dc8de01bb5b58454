import OpTable.Layout.Encoding
import OpTable.Proofs.Expr.Compose

/-!
# Placed slices

The assembler of immediates counts places down from the top of an expression (`placeBelow`), the
decoder counts them up from the bottom (`Segment.scatterAll`). `placeAbove` gives each slice the
place above the segments that follow it, and both agree with it: `placeBelow_eq` for the places,
`get?_scatter` for the values that are read there.
-/

namespace OpTable

/-- The bits that a word holds for the slice, moved to their place in the field. -/
def PlacedSlice.part (p : PlacedSlice) (word : Word) : Word :=
  word.bits p.lsb p.width <<< p.slice.low

namespace Layout

/-- The slices among segments that stand on bit `base`. -/
def placeAbove (schema : Schema) (base : Nat) : List Segment → List PlacedSlice
  | [] => []
  | .fixed _ :: rest => placeAbove schema base rest
  | .slice s :: rest =>
    ⟨s, base + Segment.totalWidth rest, schema.isSignedField s.field⟩ :: placeAbove schema base rest

theorem placeBelow_eq (schema : Schema) (base : Nat) (segments : List Segment) :
    placeBelow schema (base + Segment.totalWidth segments) segments =
      placeAbove schema base segments := by
  induction segments with
  | nil => rfl
  | cons s rest ih =>
    have hlsb : base + Segment.totalWidth (s :: rest) - s.width =
        base + Segment.totalWidth rest := by
      rw [Segment.totalWidth_cons]
      omega
    cases s with
    | fixed bits => rw [placeBelow, hlsb, ih, placeAbove]
    | slice x => rw [placeBelow, hlsb, ih, placeAbove]

theorem mem_placeAbove {schema : Schema} {base : Nat} {segments : List Segment} {p : PlacedSlice}
    (h : p ∈ placeAbove schema base segments) :
    ∃ above below, segments = above ++ .slice p.slice :: below ∧
      p.lsb = base + Segment.totalWidth below ∧ p.signed = schema.isSignedField p.slice.field := by
  induction segments with
  | nil => exact absurd h List.not_mem_nil
  | cons s rest ih =>
    cases s with
    | fixed bits =>
      obtain ⟨above, below, hrest, hp⟩ := ih h
      exact ⟨.fixed bits :: above, below, by rw [hrest]; rfl, hp⟩
    | slice x =>
      rcases List.mem_cons.mp h with hp | hp
      · subst hp
        exact ⟨[], rest, rfl, rfl, rfl⟩
      · obtain ⟨above, below, hrest, hp⟩ := ih hp
        exact ⟨.slice x :: above, below, by rw [hrest]; rfl, hp⟩

theorem placeAbove_within {schema : Schema} {base : Nat} {segments : List Segment}
    {p : PlacedSlice} (h : p ∈ placeAbove schema base segments) :
    base ≤ p.lsb ∧ p.lsb + p.width ≤ base + Segment.totalWidth segments := by
  obtain ⟨above, below, hsegments, hlsb, -⟩ := mem_placeAbove h
  have hwidth : p.width = (Segment.slice p.slice).width := rfl
  rw [hsegments, Segment.totalWidth_append, Segment.totalWidth_cons]
  omega

/-- The second slice lies wholly below the first. -/
def IsAbove (p q : PlacedSlice) : Prop := q.lsb + q.width ≤ p.lsb

theorem pairwise_placeAbove (schema : Schema) (base : Nat) (segments : List Segment) :
    (placeAbove schema base segments).Pairwise IsAbove := by
  induction segments with
  | nil => exact List.Pairwise.nil
  | cons s rest ih =>
    cases s with
    | fixed bits => exact ih
    | slice x =>
      refine List.Pairwise.cons ?_ ih
      intro q hq
      exact (placeAbove_within hq).2

theorem map_slice_placeAbove (schema : Schema) (base : Nat) (segments : List Segment) :
    (placeAbove schema base segments).map (·.slice) = segments.filterMap Segment.slice? := by
  induction segments with
  | nil => rfl
  | cons s rest ih =>
    cases s with
    | fixed bits => exact ih
    | slice x => rw [placeAbove, List.map_cons, ih]; rfl

/-! ### Values of fields -/

/-- The bits that a word holds for a field in placed slices. -/
def gather (word : Word) (field : String) (placed : List PlacedSlice) : Word :=
  Word.union ((placed.filter (·.slice.field = field)).map (·.part word))

/-- The value of a field that was `old` when the placed slices of a word have been added to it. -/
def collect (word : Word) (field : String) (placed : List PlacedSlice) (old : Option Word) :
    Option Word :=
  if field ∈ placed.map (·.slice.field) then some (old.getD 0#64 ||| gather word field placed)
  else old

theorem gather_of_not_mem {word : Word} {field : String} {placed : List PlacedSlice}
    (h : field ∉ placed.map (·.slice.field)) : gather word field placed = 0#64 := by
  have hnil : placed.filter (·.slice.field = field) = [] := by
    rw [List.filter_eq_nil_iff]
    intro p hp
    rw [decide_eq_true_iff]
    exact fun he => h (List.mem_map.mpr ⟨p, hp, he⟩)
  rw [gather, hnil]
  rfl

theorem gather_cons (word : Word) (field : String) (p : PlacedSlice) (placed : List PlacedSlice) :
    gather word field (p :: placed) =
      if field = p.slice.field then p.part word ||| gather word field placed
      else gather word field placed := by
  rw [gather, List.filter_cons]
  by_cases hp : p.slice.field = field
  · rw [if_pos (decide_eq_true hp), if_pos hp.symm, List.map_cons, Word.union_cons]
    rfl
  · rw [if_neg (by rw [decide_eq_true_iff]; exact hp), if_neg (fun he => hp he.symm)]
    rfl

theorem gather_append (word : Word) (field : String) (placed others : List PlacedSlice) :
    gather word field (placed ++ others) =
      gather word field placed ||| gather word field others := by
  rw [gather, List.filter_append, List.map_append, Word.union_append]
  rfl

theorem getD_collect (word : Word) (field : String) (placed : List PlacedSlice)
    (old : Option Word) :
    (collect word field placed old).getD 0#64 = old.getD 0#64 ||| gather word field placed := by
  unfold collect
  split
  · rfl
  next h => rw [gather_of_not_mem h, BitVec.or_zero]

/-- The order in which slices are added does not matter. -/
theorem collect_append (word : Word) (field : String) (placed others : List PlacedSlice)
    (old : Option Word) :
    collect word field (placed ++ others) old =
      collect word field others (collect word field placed old) := by
  by_cases ho : field ∈ others.map (·.slice.field)
  · have hmem : field ∈ (placed ++ others).map (·.slice.field) := by
      rw [List.map_append]
      exact List.mem_append_right _ ho
    rw [collect, if_pos hmem, gather_append, collect, if_pos ho, getD_collect, BitVec.or_assoc]
  · have hmem : field ∈ (placed ++ others).map (·.slice.field) ↔
        field ∈ placed.map (·.slice.field) := by
      rw [List.map_append, List.mem_append]
      exact or_iff_left ho
    rw [collect, gather_append, gather_of_not_mem ho, BitVec.or_zero]
    simp only [hmem]
    rw [collect, if_neg ho, collect]

theorem collect_cons (word : Word) (field : String) (p : PlacedSlice) (placed : List PlacedSlice)
    (old : Option Word) :
    collect word field (p :: placed) old =
      if field = p.slice.field then
        some ((collect word field placed old).getD 0#64 ||| p.part word)
      else collect word field placed old := by
  by_cases hp : field = p.slice.field
  · have hmem : field ∈ (p :: placed).map (·.slice.field) := by
      rw [List.map_cons, hp]
      exact List.mem_cons_self ..
    rw [collect, if_pos hmem, if_pos hp, getD_collect, gather_cons, if_pos hp,
      BitVec.or_comm (p.part word), BitVec.or_assoc]
  · have hmem : field ∈ (p :: placed).map (·.slice.field) ↔
        field ∈ placed.map (·.slice.field) := by
      rw [List.map_cons, List.mem_cons]
      exact or_iff_right hp
    rw [if_neg hp, collect, gather_cons, if_neg hp]
    simp only [hmem]
    rfl

/-- Adding the slices of a range from the bottom up collects them from the whole word. -/
theorem get?_scatterAll (schema : Schema) (word : Word) (field : String) {base width : Nat}
    {segments : List Segment} (hwidth : Segment.totalWidth segments ≤ width) (values : NameMap) :
    (Segment.scatterAll (word.bits base width) segments values).get? field =
      collect word field (placeAbove schema base segments) (values.get? field) := by
  induction segments with
  | nil => rfl
  | cons s rest ih =>
    rw [Segment.totalWidth_cons] at hwidth
    cases s with
    | fixed bits => exact ih (by omega)
    | slice x =>
      -- the slice stands inside the range, so it can be read from the word itself
      have hbits : (word.bits base width).bits (Segment.totalWidth rest) x.width =
          word.bits (base + Segment.totalWidth rest) x.width := by
        refine Word.bits_bits word ?_
        have hx : (Segment.slice x).width = x.width := rfl
        omega
      rw [Segment.scatterAll, NameMap.get?_alter, placeAbove, collect_cons, hbits]
      by_cases hf : field = x.field
      · subst hf
        rw [if_pos rfl, if_pos rfl, ih (by omega)]
        rfl
      · rw [if_neg hf, if_neg hf, ih (by omega)]

theorem get?_scatter (schema : Schema) (e : BitExpr) (word : Word) (base : Nat) (values : NameMap)
    (field : String) :
    (e.scatter (word.bits base e.width) values).get? field =
      collect word field (placeAbove schema base e.segments) (values.get? field) :=
  get?_scatterAll schema word field (Nat.le_refl _) values

end Layout

end OpTable
