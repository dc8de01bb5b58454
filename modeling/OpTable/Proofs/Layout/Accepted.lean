import OpTable.Proofs.Record.Resolved
import OpTable.Proofs.Schema.Validity

/-!
# Layouts of accepted lines

The fields of an accepted line become slots one for one, from the top of the word down, with the
opcode below them. `Encoding.LaysOut` says what each slot holds, how wide it is and where it stands,
which literals are function codes, and that all else in the encoding is read off the slots.
-/

namespace OpTable

namespace SlotContent

def opcode? : SlotContent → Option BitString
  | .opcode bits => some bits
  | _ => none

def funct3? : SlotContent → Option BitString
  | .funct3 bits => some bits
  | _ => none

def funct7? : SlotContent → Option BitString
  | .funct7 bits => some bits
  | _ => none

end SlotContent

/-- What slot number `index` holds, the highest slot being number 0. -/
def Encoding.contentAt? (encoding : Encoding) (index : Nat) : Option SlotContent :=
  encoding.layout[index]?.map (·.content)

/-- The encoding lays out the tokens of a line. -/
structure Encoding.LaysOut (schema : Schema) (tokens : List Token) (encoding : Encoding) :
    Prop where
  length_layout : encoding.layout.length = tokens.length + 1
  getLast?_layout :
    encoding.layout.getLast? = some ⟨0, schema.opcodeWidth, .opcode encoding.opcode⟩
  lsb_eq : ∀ (i : Nat) (upper lower : Slot), encoding.layout[i]? = some upper →
    encoding.layout[i + 1]? = some lower → upper.lsb = lower.lsb + lower.width
  width_eq : ∀ (i : Nat) (slot : Slot) (token : Token), encoding.layout[i]? = some slot →
    tokens[i]? = some token → token.width? schema = some slot.width
  width_pos : ∀ slot ∈ encoding.layout, 1 ≤ slot.width
  width_le : (encoding.layout.map (·.width)).sum ≤ 64
  wordWidth_eq : ∀ width, schema.wordWidth? = some width →
    (encoding.layout.map (·.width)).sum = width
  funct7_iff : ∀ i bits, encoding.contentAt? i = some (.funct7 bits) ↔
    i = 0 ∧ tokens[i]? = some (.literal bits) ∧ bits.width = schema.funct7Width
  funct3_iff : ∀ i bits, encoding.contentAt? i = some (.funct3 bits) ↔
    i + 2 = tokens.length ∧ tokens[i]? = some (.literal bits) ∧
      bits.width = schema.funct3Width ∧ encoding.contentAt? i ≠ some (.funct7 bits)
  literal_iff : ∀ i bits, encoding.contentAt? i = some (.literal bits) ↔
    tokens[i]? = some (.literal bits) ∧ encoding.contentAt? i ≠ some (.funct7 bits) ∧
      encoding.contentAt? i ≠ some (.funct3 bits)
  register_iff : ∀ i role, encoding.contentAt? i = some (.register role) ↔
    tokens[i]? = some (.role role)
  expression_iff : ∀ i e, encoding.contentAt? i = some (.expression e) ↔
    tokens[i]? = some (.expression e)
  opcode_eq : encoding.layout.filterMap (·.content.opcode?) = [encoding.opcode]
  funct3_eq : encoding.layout.filterMap (·.content.funct3?) = encoding.funct3.toList
  funct7_eq : encoding.layout.filterMap (·.content.funct7?) = encoding.funct7.toList
  operandRoles_eq : encoding.operandRoles = encoding.layout.filterMap (·.content.role?)
  assembly_eq : encoding.immediateAssembly = encoding.layout.flatMap (Slot.placed schema)

/-! ### Widths -/

theorem Segment.width_pos (s : Segment) : 0 < s.width := by
  cases s with
  | fixed bits => exact bits.width_pos
  | slice s => exact Nat.succ_pos _

theorem BitExpr.width_pos (e : BitExpr) : 0 < e.width := by
  have hne := e.segments_ne_nil
  unfold BitExpr.width
  cases h : e.segments with
  | nil => exact absurd h hne
  | cons s rest =>
    have hs := s.width_pos
    simp only [Segment.totalWidth_cons]
    omega

theorem Token.width_pos {schema : Schema} (hs : schema.Valid) {token : Token} {width : Nat}
    (h : token.width? schema = some width) : 0 < width := by
  cases token with
  | literal bits =>
    have hw : bits.width = width := Option.some.inj h
    have hpos := bits.width_pos
    omega
  | role name => exact (hs.isWidth_of_roleWidth? h).1
  | expression e =>
    have hw : e.width = width := Option.some.inj h
    have hpos := e.width_pos
    omega

namespace Layout

theorem wordWidth_of_wantedWidth? {schema : Schema} {total width : Nat}
    (h : wantedWidth? schema total = none) (hw : schema.wordWidth? = some width) :
    total = width := by
  by_cases he : width = total
  · exact he.symm
  · simp [wantedWidth?, hw, he] at h

/-! ### Places -/

theorem Stacked.lsb_eq_next {layout : List Slot} (h : Stacked layout) {i : Nat}
    {upper lower : Slot} (hu : layout[i]? = some upper) (hl : layout[i + 1]? = some lower) :
    upper.lsb = lower.lsb + lower.width := by
  induction h generalizing i with
  | nil => simp at hu
  | @cons slot rest hlsb hfilled hrest ih =>
    cases i with
    | succ i =>
      simp only [List.getElem?_cons_succ] at hu hl
      exact ih hu hl
    | zero =>
      simp only [List.getElem?_cons_zero, List.getElem?_cons_succ, Option.some.injEq] at hu hl
      subst hu
      -- the slot below is the first of the rest, so the rest is its width and what is under it
      cases hrest with
      | nil => simp at hl
      | @cons below _ hbelow =>
        simp only [List.getElem?_cons_zero, Option.some.injEq] at hl
        subst hl
        rw [hlsb, widthOf_cons, hbelow]
        omega

theorem getElem?_slots (schema : Schema) (count base index : Nat) (tokens : List SizedToken)
    (i : Nat) : (slots schema count base index tokens)[i]? = tokens[i]?.map fun sized =>
      ⟨base + totalWidth (tokens.drop (i + 1)), sized.width,
        slotContent schema count (index + i) sized.token⟩ := by
  induction tokens generalizing index i with
  | nil => simp [slots]
  | cons sized rest ih =>
    cases i with
    | zero => simp [slots]
    | succ i =>
      have hindex : index + 1 + i = index + (i + 1) := by omega
      simp [slots, ih, hindex]

theorem length_slots (schema : Schema) (count base index : Nat) (tokens : List SizedToken) :
    (slots schema count base index tokens).length = tokens.length := by
  induction tokens generalizing index with
  | nil => rfl
  | cons sized rest ih => simp [slots, ih]

theorem slots_append (schema : Schema) (count base index : Nat) (above below : List SizedToken) :
    slots schema count base index (above ++ below) =
      slots schema count (base + totalWidth below) index above ++
        slots schema count base (index + above.length) below := by
  induction above generalizing index with
  | nil => rfl
  | cons sized rest ih =>
    have htotal : totalWidth (rest ++ below) = totalWidth rest + totalWidth below := by
      simp [totalWidth]
    have hindex : index + 1 + rest.length = index + (sized :: rest).length := by
      simp only [List.length_cons]
      omega
    have hlsb : base + (totalWidth rest + totalWidth below) =
        base + totalWidth below + totalWidth rest := by omega
    simp only [List.cons_append, slots, ih, htotal, hindex, hlsb]

/-! ### What the slots hold -/

section SlotContent

variable {schema : Schema} {count index : Nat} {token : Token} {bits : BitString}

theorem slotContent_eq_funct7_iff :
    slotContent schema count index token = .funct7 bits ↔
      token = .literal bits ∧ index = 0 ∧ bits.width = schema.funct7Width := by
  cases token with
  | literal own =>
    simp only [slotContent, literalContent, Token.literal.injEq]
    split
    next h => grind
    next h => grind
  | role name => simp [slotContent]
  | expression e => simp [slotContent]

theorem slotContent_eq_funct3_iff :
    slotContent schema count index token = .funct3 bits ↔
      token = .literal bits ∧ index + 2 = count ∧ bits.width = schema.funct3Width ∧
        ¬ (index = 0 ∧ bits.width = schema.funct7Width) := by
  cases token with
  | literal own =>
    simp only [slotContent, literalContent, Token.literal.injEq]
    grind
  | role name => simp [slotContent]
  | expression e => simp [slotContent]

theorem slotContent_eq_literal_iff :
    slotContent schema count index token = .literal bits ↔
      token = .literal bits ∧ ¬ (index = 0 ∧ bits.width = schema.funct7Width) ∧
        ¬ (index + 2 = count ∧ bits.width = schema.funct3Width) := by
  cases token with
  | literal own =>
    simp only [slotContent, literalContent, Token.literal.injEq]
    grind
  | role name => simp [slotContent]
  | expression e => simp [slotContent]

theorem slotContent_eq_register_iff {role : String} :
    slotContent schema count index token = .register role ↔ token = .role role := by
  cases token with
  | literal own =>
    simp only [slotContent, literalContent]
    grind
  | role name => simp [slotContent]
  | expression e => simp [slotContent]

theorem slotContent_eq_expression_iff {e : BitExpr} :
    slotContent schema count index token = .expression e ↔ token = .expression e := by
  cases token with
  | literal own =>
    simp only [slotContent, literalContent]
    grind
  | role name => simp [slotContent]
  | expression own => simp [slotContent]

theorem opcode?_slotContent (schema : Schema) (count index : Nat) (token : Token) :
    (slotContent schema count index token).opcode? = none := by
  cases token with
  | literal bits =>
    simp only [slotContent, literalContent]
    split
    · rfl
    · split
      · rfl
      · rfl
  | role name => rfl
  | expression e => rfl

theorem funct7?_slotContent (schema : Schema) (count index : Nat) (token : Token) :
    (slotContent schema count index token).funct7? = token.literal?.bind fun bits =>
      if index = 0 ∧ bits.width = schema.funct7Width then some bits else none := by
  cases token with
  | literal bits =>
    simp only [slotContent, literalContent, Token.literal?, Option.bind_some]
    by_cases h7 : index = 0 ∧ bits.width = schema.funct7Width
    · rw [if_pos h7, if_pos h7]
      rfl
    · rw [if_neg h7, if_neg h7]
      split
      · rfl
      · rfl
  | role name => rfl
  | expression e => rfl

theorem funct3?_slotContent (schema : Schema) (count index : Nat) (token : Token) :
    (slotContent schema count index token).funct3? = token.literal?.bind fun bits =>
      if index + 2 = count ∧ bits.width = schema.funct3Width ∧
        ¬ (index = 0 ∧ bits.width = schema.funct7Width) then some bits else none := by
  cases token with
  | literal bits =>
    simp only [slotContent, literalContent, Token.literal?, Option.bind_some]
    by_cases h7 : index = 0 ∧ bits.width = schema.funct7Width
    · rw [if_pos h7, if_neg fun h => h.2.2 h7]
      rfl
    · rw [if_neg h7]
      by_cases h3 : index + 2 = count ∧ bits.width = schema.funct3Width
      · rw [if_pos h3, if_pos ⟨h3.1, h3.2, h7⟩]
        rfl
      · rw [if_neg h3, if_neg fun h => h3 ⟨h.1, h.2.1⟩]
        rfl
  | role name => rfl
  | expression e => rfl

end SlotContent

/-! ### Function codes -/

theorem filterMap_opcode?_slots (schema : Schema) (count base index : Nat)
    (tokens : List SizedToken) :
    (slots schema count base index tokens).filterMap (·.content.opcode?) = [] := by
  induction tokens generalizing index with
  | nil => rfl
  | cons sized rest ih => simp [slots, opcode?_slotContent, ih]

/-- Only the highest field can be the code in the highest position. -/
theorem filterMap_funct7?_slots_succ (schema : Schema) (count base index : Nat)
    (tokens : List SizedToken) :
    (slots schema count base (index + 1) tokens).filterMap (·.content.funct7?) = [] := by
  induction tokens generalizing index with
  | nil => rfl
  | cons sized rest ih => simp [slots, funct7?_slotContent, ih]

theorem funct7?_cons (schema : Schema) (sized : SizedToken) (rest : List SizedToken) :
    funct7? schema (sized :: rest) = sized.token.literal?.bind fun bits =>
      if bits.width = schema.funct7Width then some bits else none := rfl

theorem filterMap_funct7?_slots (schema : Schema) (count base : Nat) (tokens : List SizedToken) :
    (slots schema count base 0 tokens).filterMap (·.content.funct7?) =
      (funct7? schema tokens).toList := by
  cases tokens with
  | nil => rfl
  | cons sized rest =>
    have hrest := filterMap_funct7?_slots_succ schema count base 0 rest
    have hfirst : (slotContent schema count 0 sized.token).funct7? =
        funct7? schema (sized :: rest) := by
      simp only [funct7?_slotContent, funct7?_cons, true_and]
    simp only [slots, List.filterMap_cons, hrest, hfirst]
    cases funct7? schema (sized :: rest) with
    | none => rfl
    | some bits => rfl

/-- No field above the last but one is the code before the destination. -/
theorem filterMap_funct3?_slots_of_lt {schema : Schema} {count base index : Nat}
    {tokens : List SizedToken} (h : index + tokens.length + 1 < count) :
    (slots schema count base index tokens).filterMap (·.content.funct3?) = [] := by
  induction tokens generalizing index with
  | nil => rfl
  | cons sized rest ih =>
    simp only [List.length_cons] at h
    have hne : index + 2 ≠ count := by omega
    have hrest : index + 1 + rest.length + 1 < count := by omega
    simp [slots, funct3?_slotContent, ih hrest, hne]

/-- The condition on the place among the fields, said with the fields above it. -/
theorem not_funct7_iff {schema : Schema} {sized : SizedToken} {bits : BitString}
    (before : List SizedToken) (last : SizedToken) (h : sized.token.literal? = some bits) :
    ¬ (before.length = 0 ∧ bits.width = schema.funct7Width) ↔
      ¬ (before = [] ∧ (funct7? schema (before.reverse ++ [sized, last])).isSome) := by
  cases before with
  | nil =>
    by_cases hw : bits.width = schema.funct7Width
    · simp [funct7?_cons, h, hw]
    · simp [funct7?_cons, h, hw]
  | cons first rest => simp

theorem filterMap_funct3?_slots (schema : Schema) (base : Nat) (tokens : List SizedToken) :
    (slots schema tokens.length base 0 tokens).filterMap (·.content.funct3?) =
      (funct3? schema tokens).toList := by
  cases hrev : tokens.reverse with
  | nil =>
    rw [List.reverse_eq_nil_iff] at hrev
    subst hrev
    rfl
  | cons last before =>
    cases before with
    | nil =>
      have htokens : tokens = [last] := by simpa using congrArg List.reverse hrev
      subst htokens
      simp [slots, funct3?_slotContent, funct3?]
    | cons sized before =>
      have htokens : tokens = before.reverse ++ [sized, last] := by
        simpa using congrArg List.reverse hrev
      have hlength : tokens.length = before.length + 2 := by simp [htokens]
      have habove : (slots schema (before.length + 2) (base + totalWidth [sized, last]) 0
          before.reverse).filterMap (·.content.funct3?) = [] :=
        filterMap_funct3?_slots_of_lt (by simp)
      have hlast : (slotContent schema (before.length + 2) (before.length + 1)
          last.token).funct3? = none := by
        simp [funct3?_slotContent]
      have hsized : (slotContent schema (before.length + 2) before.length sized.token).funct3? =
          funct3? schema tokens := by
        rw [funct3?_slotContent, funct3?, hrev]
        cases hbits : sized.token.literal? with
        | none => simp only [hbits, Option.bind_none]
        | some bits =>
          simp only [hbits, Option.bind_some, true_and, not_funct7_iff before last hbits, htokens]
      rw [hlength, ← hsized, htokens, slots_append, List.filterMap_append, habove]
      simp only [slots, List.length_reverse, Nat.zero_add, List.nil_append, List.filterMap_cons,
        hlast, List.filterMap_nil]
      cases (slotContent schema (before.length + 2) before.length sized.token).funct3? with
      | none => rfl
      | some bits => rfl

/-! ### The whole line -/

variable {schema : Schema} {opcode : BitString} {tokens : List SizedToken}

theorem getElem?_layout_of_lt {i : Nat} (hi : i < tokens.length) :
    (Encoding.ofTokens schema opcode tokens).layout[i]? = tokens[i]?.map fun sized =>
      ⟨opcode.width + totalWidth (tokens.drop (i + 1)), sized.width,
        slotContent schema tokens.length i sized.token⟩ := by
  have hlt : i < (slots schema tokens.length opcode.width 0 tokens).length := by
    rw [length_slots]
    exact hi
  show (slots schema tokens.length opcode.width 0 tokens ++ _)[i]? = _
  rw [List.getElem?_append_left hlt, getElem?_slots, Nat.zero_add]

theorem getElem?_layout_of_ge {i : Nat} (hi : tokens.length ≤ i) :
    (Encoding.ofTokens schema opcode tokens).layout[i]? =
      if i = tokens.length then some ⟨0, opcode.width, .opcode opcode⟩ else none := by
  show (slots schema tokens.length opcode.width 0 tokens ++ _)[i]? = _
  rw [List.getElem?_append_right (by rw [length_slots]; exact hi), length_slots]
  by_cases he : i = tokens.length
  · simp [he]
  · have hsub : i - tokens.length ≠ 0 := by omega
    simp [he, hsub]

/-- Apart from the opcode, what a slot holds comes from the token of the same number. -/
theorem contentAt?_ofTokens_iff {i : Nat} {content : SlotContent}
    (hne : ∀ bits, content ≠ .opcode bits) :
    (Encoding.ofTokens schema opcode tokens).contentAt? i = some content ↔
      ∃ token, (tokens.map (·.token))[i]? = some token ∧
        slotContent schema tokens.length i token = content := by
  unfold Encoding.contentAt?
  by_cases hi : i < tokens.length
  · simp [getElem?_layout_of_lt hi, List.getElem?_eq_getElem hi]
  · have hge : tokens.length ≤ i := by omega
    rw [getElem?_layout_of_ge hge]
    by_cases he : i = tokens.length
    · simpa [he] using (hne opcode).symm
    · simp [he, hge]

theorem length_layout_ofTokens :
    (Encoding.ofTokens schema opcode tokens).layout.length = tokens.length + 1 := by
  show (slots schema tokens.length opcode.width 0 tokens ++ _).length = _
  simp [length_slots]

theorem widthOf_layout_ofTokens :
    widthOf (Encoding.ofTokens schema opcode tokens).layout =
      opcode.width + totalWidth tokens := by
  show widthOf (slots schema tokens.length opcode.width 0 tokens ++ _) = _
  rw [widthOf_append, widthOf_slots, Nat.add_comm]
  rfl

theorem contentAt?_eq_funct7_iff {i : Nat} {bits : BitString} :
    (Encoding.ofTokens schema opcode tokens).contentAt? i = some (.funct7 bits) ↔
      i = 0 ∧ (tokens.map (·.token))[i]? = some (.literal bits) ∧
        bits.width = schema.funct7Width := by
  rw [contentAt?_ofTokens_iff (by rintro _ ⟨⟩)]
  simp only [slotContent_eq_funct7_iff]
  grind

theorem contentAt?_eq_funct3_iff {i : Nat} {bits : BitString} :
    (Encoding.ofTokens schema opcode tokens).contentAt? i = some (.funct3 bits) ↔
      i + 2 = tokens.length ∧ (tokens.map (·.token))[i]? = some (.literal bits) ∧
        bits.width = schema.funct3Width ∧
          (Encoding.ofTokens schema opcode tokens).contentAt? i ≠ some (.funct7 bits) := by
  rw [contentAt?_ofTokens_iff (by rintro _ ⟨⟩), Ne, contentAt?_eq_funct7_iff]
  simp only [slotContent_eq_funct3_iff]
  grind

theorem contentAt?_eq_literal_iff {i : Nat} {bits : BitString} :
    (Encoding.ofTokens schema opcode tokens).contentAt? i = some (.literal bits) ↔
      (tokens.map (·.token))[i]? = some (.literal bits) ∧
        (Encoding.ofTokens schema opcode tokens).contentAt? i ≠ some (.funct7 bits) ∧
        (Encoding.ofTokens schema opcode tokens).contentAt? i ≠ some (.funct3 bits) := by
  rw [contentAt?_ofTokens_iff (by rintro _ ⟨⟩), Ne, Ne, contentAt?_eq_funct3_iff,
    Ne, contentAt?_eq_funct7_iff]
  simp only [slotContent_eq_literal_iff]
  grind

theorem contentAt?_eq_register_iff {i : Nat} {role : String} :
    (Encoding.ofTokens schema opcode tokens).contentAt? i = some (.register role) ↔
      (tokens.map (·.token))[i]? = some (.role role) := by
  rw [contentAt?_ofTokens_iff (by rintro _ ⟨⟩)]
  simp only [slotContent_eq_register_iff, exists_eq_right]

theorem contentAt?_eq_expression_iff {i : Nat} {e : BitExpr} :
    (Encoding.ofTokens schema opcode tokens).contentAt? i = some (.expression e) ↔
      (tokens.map (·.token))[i]? = some (.expression e) := by
  rw [contentAt?_ofTokens_iff (by rintro _ ⟨⟩)]
  simp only [slotContent_eq_expression_iff, exists_eq_right]

theorem width?_of_getElem?_layout {i : Nat} {slot : Slot} {token : Token}
    (hwidth : ∀ sized ∈ tokens, sized.token.width? schema = some sized.width)
    (hslot : (Encoding.ofTokens schema opcode tokens).layout[i]? = some slot)
    (htoken : (tokens.map (·.token))[i]? = some token) :
    token.width? schema = some slot.width := by
  rw [List.getElem?_map] at htoken
  obtain ⟨sized, hsized, rfl⟩ := Option.map_eq_some_iff.mp htoken
  obtain ⟨hi, -⟩ := List.getElem?_eq_some_iff.mp hsized
  rw [getElem?_layout_of_lt hi, hsized, Option.map_some, Option.some.injEq] at hslot
  rw [← hslot]
  exact hwidth sized (List.mem_of_getElem? hsized)

theorem width_pos_of_mem_layout (hs : schema.Valid)
    (hwidth : ∀ sized ∈ tokens, sized.token.width? schema = some sized.width) {slot : Slot}
    (h : slot ∈ (Encoding.ofTokens schema opcode tokens).layout) : 1 ≤ slot.width := by
  obtain ⟨i, hi⟩ := List.mem_iff_getElem?.mp h
  by_cases hlt : i < tokens.length
  · have htoken : (tokens.map (·.token))[i]? = some tokens[i].token := by simp [hlt]
    exact Token.width_pos hs (width?_of_getElem?_layout hwidth hi htoken)
  · rw [getElem?_layout_of_ge (by omega)] at hi
    split at hi
    · cases hi
      exact opcode.width_pos
    · cases hi

end Layout

open Layout

/-- An accepted line has its fields and its opcode as slots without gaps. Which literals are
function codes depends on place and width alone, and the rest of the encoding repeats the slots. -/
theorem Encoding.layout_ofLine {schema : Schema} (hs : schema.Valid) {line : SpecLine}
    {encoding : Encoding} (h : ofLine schema line = .ok encoding) :
    ∃ tokens, line.fields.map (Token.classify schema) = tokens.map .ok ∧
      Token.classify schema line.opcode = .ok (.literal encoding.opcode) ∧
      encoding.LaysOut schema tokens := by
  have hwell : (Record.define line.mnemonic 0 encoding).WellFormed schema :=
    Record.ResolvedUnder.wellFormed ⟨line, 0, encoding, h, rfl⟩
  obtain ⟨opcode, tokens, hreads, hwanted, rfl⟩ := ofLine_eq_ok_iff.mp h
  have hwidth := hreads.width_eq
  obtain ⟨hopcode, hopcodeWidth⟩ := opcodeToken_eq_ok hreads.opcode_eq
  refine ⟨tokens.map (·.token), map_classify_of_map_fieldToken hreads.fields_eq, hopcode, ?_⟩
  exact {
    length_layout := by rw [length_layout_ofTokens, List.length_map]
    getLast?_layout := by
      rw [← hopcodeWidth]
      exact List.getLast?_concat
    lsb_eq := fun i upper lower => hwell.stacked.lsb_eq_next
    width_eq := fun i slot token => width?_of_getElem?_layout hwidth
    width_pos := fun slot => width_pos_of_mem_layout hs hwidth
    width_le := hwell.wordWidth_le
    wordWidth_eq := fun width hw =>
      widthOf_layout_ofTokens.trans (wordWidth_of_wantedWidth? hwanted hw)
    funct7_iff := fun i bits => contentAt?_eq_funct7_iff
    funct3_iff := fun i bits => by
      rw [List.length_map]
      exact contentAt?_eq_funct3_iff
    literal_iff := fun i bits => contentAt?_eq_literal_iff
    register_iff := fun i role => contentAt?_eq_register_iff
    expression_iff := fun i e => contentAt?_eq_expression_iff
    opcode_eq := by
      show (slots schema tokens.length opcode.width 0 tokens ++ _).filterMap _ = _
      rw [List.filterMap_append, filterMap_opcode?_slots]
      rfl
    funct3_eq := by
      show (slots schema tokens.length opcode.width 0 tokens ++ _).filterMap _ = _
      rw [List.filterMap_append, filterMap_funct3?_slots]
      exact List.append_nil _
    funct7_eq := by
      show (slots schema tokens.length opcode.width 0 tokens ++ _).filterMap _ = _
      rw [List.filterMap_append, filterMap_funct7?_slots]
      exact List.append_nil _
    operandRoles_eq := hwell.operandRoles_eq
    assembly_eq := hwell.assembly_eq }

/-- Both function codes are four bits wide. -/
def Schema.evenCodes : Schema :=
  { Schema.qcpu with name := "even", wordWidth? := some 14, funct3Width := 4, funct7Width := 4 }

def SpecLine.twoFields : SpecLine := ⟨"two", ["0101", "rd"], "0011"⟩

/-- The first field is the last but one too, and is the code in the highest position only. -/
def Encoding.twoFields : Encoding where
  opcode := .ofBits [false, false, true, true] (by decide) (by decide)
  funct3 := none
  funct7 := some (.ofBits [false, true, false, true] (by decide) (by decide))
  operandRoles := ["rd"]
  immediateAssembly := []
  layout :=
    [⟨10, 4, .funct7 (.ofBits [false, true, false, true] (by decide) (by decide))⟩,
      ⟨4, 6, .register "rd"⟩,
      ⟨0, 4, .opcode (.ofBits [false, false, true, true] (by decide) (by decide))⟩]

theorem Encoding.layout_ofLine_twoFields :
    Schema.evenCodes.Valid ∧ ofLine Schema.evenCodes SpecLine.twoFields = .ok twoFields ∧
      ∃ tokens, SpecLine.twoFields.fields.map (Token.classify Schema.evenCodes) =
          tokens.map .ok ∧
        Token.classify Schema.evenCodes SpecLine.twoFields.opcode =
          .ok (.literal twoFields.opcode) ∧
        twoFields.LaysOut Schema.evenCodes tokens := by
  have hvalid : Schema.evenCodes.Valid := rfl
  have hline : ofLine Schema.evenCodes SpecLine.twoFields = .ok twoFields :=
    Except.eq_ok_of_toOption (by decide)
  exact ⟨hvalid, hline, layout_ofLine hvalid hline⟩

end OpTable
