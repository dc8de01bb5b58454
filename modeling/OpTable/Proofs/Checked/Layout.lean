import OpTable.Proofs.Checked.Reading
import OpTable.Proofs.Layout.Stacked

/-!
# Checked layouts

The tokens of a line are placed with operations that can fail. Places are added up from the opcode
before the total width is looked at, so what keeps the sum in range is that a line has few tokens
for its length and that none of them is wider than 64 bits.
-/

namespace OpTable

/-! ### Lengths of lines -/

/-- Every token of the line is short, and there are not too many of them. -/
structure SpecLine.IsShort (line : SpecLine) : Prop where
  fields_length : line.fields.length + 1 < 2 ^ 26
  opcode_short : line.opcode.toList.length < 2 ^ 26
  field_short : ∀ field ∈ line.fields, field.toList.length < 2 ^ 26

theorem SpecLine.isShort_of_ofText {text : String} {line : SpecLine}
    (h : Content.ofText text = .definition line) (hlength : text.toList.length < 2 ^ 26) :
    line.IsShort := by
  have hwords := words_of_ofText h
  have hcode : (code text.toList).length ≤ text.toList.length :=
    (List.takeWhile_sublist _).length_le
  have hcount : line.fields.length + 2 ≤ (code text.toList).length := by
    have hle := Text.length_words_le (code text.toList)
    simp only [hwords, List.length_map, List.length_cons, List.length_append,
      List.length_nil] at hle
    omega
  have hshort : ∀ token ∈ line.fields ++ [line.opcode], token.toList.length < 2 ^ 26 := by
    intro token htoken
    have hmem : token.toList ∈ Text.words (code text.toList) := by
      rw [hwords]
      exact List.mem_map_of_mem (List.mem_cons_of_mem _ htoken)
    have hle := Text.length_le_of_mem_words hmem
    omega
  rw [List.forall_mem_append, List.forall_mem_singleton] at hshort
  exact ⟨by omega, hshort.2, hshort.1⟩

theorem Token.width_le {schema : Schema} (hs : schema.Valid) {token : Token} {width : Nat}
    (h : token.width? schema = some width) : width ≤ 64 := by
  cases token with
  | literal bits =>
    cases h
    exact bits.width_le
  | role name => exact (hs.isWidth_of_roleWidth? h).2
  | expression e =>
    cases h
    exact e.totalWidth_le

namespace Layout

theorem totalWidth_le_length {schema : Schema} (hs : schema.Valid) {tokens : List SizedToken}
    (h : ∀ sized ∈ tokens, sized.token.width? schema = some sized.width) :
    totalWidth tokens ≤ 64 * tokens.length := by
  induction tokens with
  | nil => exact Nat.zero_le _
  | cons sized rest ih =>
    have hsized := Token.width_le hs (h sized (List.mem_cons_self ..))
    have hrest := ih fun s hmem => h s (List.mem_cons_of_mem _ hmem)
    rw [totalWidth_cons, List.length_cons]
    omega

theorem length_results {α : Type} (outcomes : List (Except CompileError α)) :
    (results outcomes).length ≤ outcomes.length := List.length_filterMap_le _ _

/-- The tokens with the places of their lowest bits. -/
def placed (base : Nat) : List SizedToken → List (Nat × SizedToken)
  | [] => []
  | sized :: rest => (base + totalWidth rest, sized) :: placed base rest

end Layout

namespace Checked

open Layout

/-! ### Tokens -/

def classify (schema : Schema) (text : String) : Option (Except TokenFault Token) :=
  if BitString.isLiteral text then do
    let read ← ofChars text.toList
    match read with
    | .ok bits => some (.ok (.literal bits))
    | .error reason => some (.error (.bits reason))
  else if Token.looksLikeExpression text then do
    let read ← exprOfText schema.fieldWidth? text
    match read with
    | .ok e => some (.ok (.expression e))
    | .error reason => some (.error (.expression reason))
  else if IsIdentifier text then
    if schema.IsRole text then some (.ok (.role text))
    else some (.error (.unknownRole text schema.name))
  else some (.error .unrecognized)

def tokenWidth (schema : Schema) : Token → Option (Option Nat)
  | .literal bits => some (some bits.width)
  | .role name => some (schema.roleWidth? name)
  | .expression e => do
    let width ← exprWidth e
    some (some width)

theorem classify_eq (schema : Schema) {text : String} (h : text.toList.length < 2 ^ 26) :
    classify schema text = some (Token.classify schema text) := by
  unfold classify Token.classify
  by_cases hliteral : BitString.isLiteral text = true
  · rw [if_pos hliteral, if_pos hliteral, ofChars_eq, ← BitString.ofText]
    cases BitString.ofText text with
    | error reason => rfl
    | ok bits => rfl
  · rw [if_neg hliteral, if_neg hliteral]
    by_cases hlooks : Token.looksLikeExpression text = true
    · rw [if_pos hlooks, if_pos hlooks, exprOfText_eq _ h]
      cases BitExpr.ofText schema.fieldWidth? text with
      | error reason => rfl
      | ok e => rfl
    · rw [if_neg hlooks, if_neg hlooks]
      split
      · split
        · rfl
        · rfl
      · rfl

theorem tokenWidth_eq (schema : Schema) (token : Token) :
    tokenWidth schema token = some (token.width? schema) := by
  cases token with
  | literal bits => rfl
  | role name => rfl
  | expression e =>
    simp only [tokenWidth, exprWidth_eq, Option.bind_eq_bind, Option.bind_some]
    rfl

def fieldToken (schema : Schema) (text : String) : Option (Except CompileError SizedToken) := do
  let read ← classify schema text
  match read with
  | .error reason => some (.error (.unclassifiableToken text reason))
  | .ok token => do
    let width ← tokenWidth schema token
    match width with
    | some width => some (.ok ⟨token, width⟩)
    | none => some (.error (.unclassifiableToken text .noWidth))

def opcodeToken (schema : Schema) (text : String) : Option (Except CompileError BitString) := do
  let read ← classify schema text
  match read with
  | .error reason => some (.error (.unclassifiableToken text reason))
  | .ok (.literal bits) =>
    if bits.width = schema.opcodeWidth then some (.ok bits)
    else some (.error (.invalidOpcode text (.width schema.opcodeWidth bits.width)))
  | .ok token => some (.error (.invalidOpcode text (.kind token)))

theorem fieldToken_eq (schema : Schema) {text : String} (h : text.toList.length < 2 ^ 26) :
    fieldToken schema text = some (Layout.fieldToken schema text) := by
  simp only [fieldToken, classify_eq schema h, Option.bind_eq_bind, Option.bind_some]
  unfold Layout.fieldToken
  cases Token.classify schema text with
  | error reason => rfl
  | ok token =>
    simp only [tokenWidth_eq, Option.bind_some]
    cases token.width? schema with
    | none => rfl
    | some width => rfl

theorem opcodeToken_eq (schema : Schema) {text : String} (h : text.toList.length < 2 ^ 26) :
    opcodeToken schema text = some (Layout.opcodeToken schema text) := by
  simp only [opcodeToken, classify_eq schema h, Option.bind_eq_bind, Option.bind_some]
  unfold Layout.opcodeToken
  cases Token.classify schema text with
  | error reason => rfl
  | ok token =>
    cases token with
    | literal bits => exact (apply_ite some _ _ _).symm
    | role name => rfl
    | expression e => rfl

/-! ### Places -/

/-- Gives places to the tokens from the last one up, the first free place being `base`. With the
tokens comes the place above them all. -/
def place (base : Nat) : List SizedToken → Option (List (Nat × SizedToken) × Nat)
  | [] => some ([], base)
  | sized :: rest => do
    let (others, lsb) ← place base rest
    let top ← add lsb sized.width
    some ((lsb, sized) :: others, top)

def slots (schema : Schema) (count : Nat) : Nat → List (Nat × SizedToken) → List Slot
  | _, [] => []
  | index, (lsb, sized) :: rest =>
    ⟨lsb, sized.width, slotContent schema count index sized.token⟩
      :: slots schema count (index + 1) rest

def placeBelow (schema : Schema) (cursor : Nat) : List Segment → Option (List PlacedSlice)
  | [] => some []
  | segment :: rest => do
    let width ← segmentWidth segment
    let lsb ← sub cursor width
    let others ← placeBelow schema lsb rest
    match segment with
    | .fixed _ => some others
    | .slice x => some (⟨x, lsb, schema.isSignedField x.field⟩ :: others)

def assembly (schema : Schema) : List (Nat × SizedToken) → Option (List PlacedSlice)
  | [] => some []
  | (lsb, sized) :: rest =>
    match sized.token with
    | .expression e => do
      let top ← add lsb sized.width
      let slices ← placeBelow schema top e.segments
      let others ← assembly schema rest
      some (slices ++ others)
    | _ => assembly schema rest

theorem place_eq {base : Nat} {tokens : List SizedToken}
    (h : base + Layout.totalWidth tokens < 2 ^ 32) :
    place base tokens = some (placed base tokens, base + Layout.totalWidth tokens) := by
  induction tokens with
  | nil => rfl
  | cons sized rest ih =>
    rw [Layout.totalWidth_cons] at h
    have hrest := ih (by omega)
    have hsum : base + Layout.totalWidth rest + sized.width < 2 ^ 32 := by omega
    have htop : base + Layout.totalWidth rest + sized.width =
        base + (sized.width + Layout.totalWidth rest) := by omega
    simp only [place, hrest, add_eq hsum, htop, Option.bind_eq_bind, Option.bind_some, placed,
      Layout.totalWidth_cons]

theorem slots_eq (schema : Schema) (count base index : Nat) (tokens : List SizedToken) :
    slots schema count index (placed base tokens) =
      Layout.slots schema count base index tokens := by
  induction tokens generalizing index with
  | nil => rfl
  | cons sized rest ih => rw [placed, slots, Layout.slots, ih]

theorem placeBelow_eq (schema : Schema) {cursor : Nat} {segments : List Segment}
    (h : Segment.totalWidth segments ≤ cursor) :
    placeBelow schema cursor segments = some (Layout.placeBelow schema cursor segments) := by
  induction segments generalizing cursor with
  | nil => rfl
  | cons s rest ih =>
    rw [Segment.totalWidth_cons] at h
    have hrest := ih (by omega : Segment.totalWidth rest ≤ cursor - s.width)
    have hsub := sub_eq (by omega : s.width ≤ cursor)
    cases s with
    | fixed bits =>
      simp only [placeBelow, segmentWidth_eq, hsub, hrest, Option.bind_eq_bind, Option.bind_some,
        Layout.placeBelow]
    | slice x =>
      simp only [placeBelow, segmentWidth_eq, hsub, hrest, Option.bind_eq_bind, Option.bind_some,
        Layout.placeBelow]

theorem assembly_eq {schema : Schema} {base : Nat} {tokens : List SizedToken}
    (hwidth : ∀ sized ∈ tokens, sized.token.width? schema = some sized.width)
    (h : base + Layout.totalWidth tokens < 2 ^ 32) :
    assembly schema (placed base tokens) = some (Layout.assembly schema base tokens) := by
  induction tokens with
  | nil => rfl
  | cons sized rest ih =>
    rw [Layout.totalWidth_cons] at h
    have hsized := hwidth sized (List.mem_cons_self ..)
    have hrest := ih (fun s hs => hwidth s (List.mem_cons_of_mem _ hs)) (by omega)
    obtain ⟨token, width⟩ := sized
    dsimp only at h hsized
    cases token with
    | literal bits => exact hrest
    | role name => exact hrest
    | expression e =>
      have he : e.width = width := Option.some.inj hsized
      have hsum : base + Layout.totalWidth rest + width < 2 ^ 32 := by omega
      have hplace := placeBelow_eq schema
        (by rw [← he]; exact Nat.le_add_left _ _ :
          Segment.totalWidth e.segments ≤ base + Layout.totalWidth rest + width)
      simp only [placed, assembly, add_eq hsum, hplace, hrest, Option.bind_eq_bind,
        Option.bind_some, Layout.assembly]

/-! ### Lines -/

def ofLine (schema : Schema) (line : SpecLine) : Option (Except (List CompileError) Encoding) :=
  if line.fields = [] then some (.error [.malformedLine line.arity])
  else do
    let read ← opcodeToken schema line.opcode
    let outcomes ← line.fields.mapM (fieldToken schema)
    match read, faults outcomes with
    | .error e, errors => some (.error (e :: errors))
    | .ok _, e :: errors => some (.error (e :: errors))
    | .ok opcode, [] => do
      let tokens := results outcomes
      let (places, total) ← place opcode.width tokens
      match wantedWidth? schema total with
      | some expected => some (.error [.widthMismatch schema.name expected total])
      | none => do
        let slices ← assembly schema places
        some (.ok {
          opcode
          funct3 := funct3? schema tokens
          funct7 := funct7? schema tokens
          operandRoles := tokens.filterMap (·.token.role?)
          immediateAssembly := slices
          layout := slots schema tokens.length 0 places ++ [⟨0, opcode.width, .opcode opcode⟩] })

theorem width?_of_mem_results {schema : Schema} {fields : List String} {sized : SizedToken}
    (h : sized ∈ results (fields.map (Layout.fieldToken schema))) :
    sized.token.width? schema = some sized.width := by
  obtain ⟨outcome, hmem, hok⟩ := List.mem_filterMap.mp h
  obtain ⟨text, -, rfl⟩ := List.mem_map.mp hmem
  cases hread : Layout.fieldToken schema text with
  | error e =>
    rw [hread] at hok
    cases hok
  | ok token =>
    rw [hread] at hok
    cases hok
    exact (fieldToken_eq_ok hread).2

theorem ofLine_eq {schema : Schema} (hs : schema.Valid) {line : SpecLine} (h : line.IsShort) :
    ofLine schema line = some (Encoding.ofLine schema line) := by
  have hread := mapM_eq fun field hf => fieldToken_eq schema (h.field_short field hf)
  unfold ofLine Encoding.ofLine
  by_cases hne : line.fields = []
  · rw [if_pos hne, if_pos hne]
  · rw [if_neg hne, if_neg hne]
    simp only [opcodeToken_eq schema h.opcode_short, hread, Option.bind_eq_bind, Option.bind_some]
    generalize houtcomes : line.fields.map (Layout.fieldToken schema) = outcomes
    cases Layout.opcodeToken schema line.opcode with
    | error e => rfl
    | ok opcode =>
      cases hfaults : faults outcomes with
      | cons e errors => rfl
      | nil =>
        have hwidth : ∀ sized ∈ results outcomes, sized.token.width? schema = some sized.width := by
          rw [← houtcomes]
          exact fun sized hmem => width?_of_mem_results hmem
        -- fewer than 2^26 tokens, the opcode among them, of at most 64 bits each
        have htotal : opcode.width + Layout.totalWidth (results outcomes) < 2 ^ 32 := by
          have hle := totalWidth_le_length hs hwidth
          have hcount := length_results outcomes
          have hfields := h.fields_length
          have hopcode := opcode.width_le
          rw [← houtcomes, List.length_map] at hcount
          rw [← houtcomes] at hle ⊢
          omega
        simp only [place_eq htotal, Option.bind_some]
        cases wantedWidth? schema (opcode.width + Layout.totalWidth (results outcomes)) with
        | some expected => rfl
        | none =>
          simp only [assembly_eq hwidth htotal, slots_eq, Option.bind_some]

end Checked

end OpTable
