import OpTable.Proofs.Layout.Placement

/-!
# Stacked slots

The slots of an accepted line stand on each other without gaps, and each is as wide as what it
holds. `ofLine_eq_ok_iff` says which lines are accepted and what they give; the rest of the module
reads the layout, the roles and the placed slices off the tokens.
-/

namespace OpTable

/-- What the slot holds is as wide as the slot, where it has a width of its own. -/
structure Slot.IsFilled (slot : Slot) : Prop where
  fixed_width : ∀ bits, slot.content.fixed? = some bits → bits.width = slot.width
  expression_width : ∀ e, slot.content = .expression e → e.width = slot.width

/-- The role of a register. -/
def SlotContent.role? : SlotContent → Option String
  | .register role => some role
  | _ => none

/-- The slices in the slot with their places in the word. -/
def Slot.placed (schema : Schema) (slot : Slot) : List PlacedSlice :=
  match slot.content with
  | .expression e => Layout.placeAbove schema slot.lsb e.segments
  | _ => []

theorem SlotContent.role?_of_fixed? {content : SlotContent} {bits : BitString}
    (h : content.fixed? = some bits) : content.role? = none := by
  cases content <;> first | rfl | cases h

theorem SlotContent.eq_register_of_role? {content : SlotContent} {role : String}
    (h : content.role? = some role) : content = .register role := by
  cases content <;> cases h
  rfl

theorem Slot.placed_of_fixed? {slot : Slot} {bits : BitString} (schema : Schema)
    (h : slot.content.fixed? = some bits) : slot.placed schema = [] := by
  unfold Slot.placed
  split
  next e he =>
    rw [he] at h
    cases h
  · rfl

/-- The encoding of tokens that are sound. -/
def Encoding.ofTokens (schema : Schema) (opcode : BitString) (tokens : List SizedToken) :
    Encoding where
  opcode := opcode
  funct3 := Layout.funct3? schema tokens
  funct7 := Layout.funct7? schema tokens
  operandRoles := tokens.filterMap (·.token.role?)
  immediateAssembly := Layout.assembly schema opcode.width tokens
  layout := Layout.slots schema tokens.length opcode.width 0 tokens
    ++ [⟨0, opcode.width, .opcode opcode⟩]

namespace Layout

/-! ### Accepted lines -/

theorem faults_map_ok {α : Type} (results : List α) :
    faults (results.map (.ok : α → Except CompileError α)) = [] := by
  induction results with
  | nil => rfl
  | cons a rest ih => exact ih

theorem results_map_ok {α : Type} (values : List α) :
    results (values.map (.ok : α → Except CompileError α)) = values := by
  induction values with
  | nil => rfl
  | cons a rest ih => exact congrArg (a :: ·) ih

theorem eq_map_ok_of_faults {α : Type} {outcomes : List (Except CompileError α)}
    (h : faults outcomes = []) : outcomes = (results outcomes).map .ok := by
  induction outcomes with
  | nil => rfl
  | cons outcome rest ih =>
    cases outcome with
    | error e => exact absurd h (List.cons_ne_nil e _)
    | ok a => exact congrArg (.ok a :: ·) (ih h)

/-- The tokens of a line, classified and with their widths. -/
structure Reads (schema : Schema) (line : SpecLine) (opcode : BitString)
    (tokens : List SizedToken) : Prop where
  fields_ne_nil : line.fields ≠ []
  opcode_eq : opcodeToken schema line.opcode = .ok opcode
  fields_eq : line.fields.map (fieldToken schema) = tokens.map .ok

theorem ofLine_eq_ok_iff {schema : Schema} {line : SpecLine} {encoding : Encoding} :
    Encoding.ofLine schema line = .ok encoding ↔
      ∃ opcode tokens, Reads schema line opcode tokens ∧
        wantedWidth? schema (opcode.width + totalWidth tokens) = none ∧
        encoding = Encoding.ofTokens schema opcode tokens := by
  constructor
  · intro h
    unfold Encoding.ofLine at h
    split at h
    · cases h
    next hne =>
    dsimp only at h
    split at h
    · cases h
    · cases h
    next opcode hopcode hfaults =>
    split at h
    · cases h
    next hwidth =>
    cases h
    exact ⟨opcode, _, ⟨hne, hopcode, eq_map_ok_of_faults hfaults⟩, hwidth, rfl⟩
  · intro h
    obtain ⟨opcode, tokens, ⟨hne, hopcode, hfields⟩, hwidth, rfl⟩ := h
    unfold Encoding.ofLine
    rw [if_neg hne, hfields]
    dsimp only
    rw [hopcode, faults_map_ok, results_map_ok]
    dsimp only
    rw [hwidth]
    rfl

theorem fieldToken_eq_ok {schema : Schema} {text : String} {sized : SizedToken}
    (h : fieldToken schema text = .ok sized) :
    Token.classify schema text = .ok sized.token ∧
      sized.token.width? schema = some sized.width := by
  unfold fieldToken at h
  split at h
  · cases h
  next token htoken =>
  split at h
  next width hwidth =>
    cases h
    exact ⟨htoken, hwidth⟩
  · cases h

theorem opcodeToken_eq_ok {schema : Schema} {text : String} {bits : BitString}
    (h : opcodeToken schema text = .ok bits) :
    Token.classify schema text = .ok (.literal bits) ∧ bits.width = schema.opcodeWidth := by
  unfold opcodeToken at h
  split at h
  · cases h
  next bits' hbits =>
    split at h
    next hwidth =>
      cases h
      exact ⟨hbits, hwidth⟩
    · cases h
  · cases h

theorem Reads.width_eq {schema : Schema} {line : SpecLine} {opcode : BitString}
    {tokens : List SizedToken} (h : Reads schema line opcode tokens) :
    ∀ sized ∈ tokens, sized.token.width? schema = some sized.width := by
  intro sized hs
  have hmem : Except.ok sized ∈ line.fields.map (fieldToken schema) := by
    rw [h.fields_eq]
    exact List.mem_map_of_mem hs
  obtain ⟨text, -, htext⟩ := List.mem_map.mp hmem
  exact (fieldToken_eq_ok htext).2

/-- What holds of the text and the token of every field holds of the texts and the tokens. -/
theorem map_eq_of_map_fieldToken {schema : Schema} {fields : List String}
    {tokens : List SizedToken} {α : Type} {f : String → α} {g : SizedToken → α}
    (hfield : ∀ text sized, fieldToken schema text = .ok sized → f text = g sized)
    (h : fields.map (fieldToken schema) = tokens.map .ok) : fields.map f = tokens.map g := by
  induction fields generalizing tokens with
  | nil =>
    cases tokens with
    | nil => rfl
    | cons sized rest => cases h
  | cons text rest ih =>
    cases tokens with
    | nil => cases h
    | cons sized tokens =>
      simp only [List.map_cons, List.cons.injEq] at h ⊢
      exact ⟨hfield text sized h.1, ih h.2⟩

theorem map_classify_of_map_fieldToken {schema : Schema} {fields : List String}
    {tokens : List SizedToken} (h : fields.map (fieldToken schema) = tokens.map .ok) :
    fields.map (Token.classify schema) = (tokens.map (·.token)).map .ok := by
  rw [List.map_map]
  exact map_eq_of_map_fieldToken (fun text sized hread => (fieldToken_eq_ok hread).1) h

theorem le_of_wantedWidth? {schema : Schema} {total : Nat}
    (h : wantedWidth? schema total = none) : total ≤ 64 := by
  unfold wantedWidth? at h
  split at h
  · split at h
    · cases h
    · split at h
      · cases h
      · omega
  · split at h
    · cases h
    · omega

/-! ### Slots -/

/-- The width of slots side by side. -/
def widthOf (layout : List Slot) : Nat := (layout.map (·.width)).sum

@[simp] theorem widthOf_cons (slot : Slot) (rest : List Slot) :
    widthOf (slot :: rest) = slot.width + widthOf rest := List.sum_cons

theorem widthOf_append (above below : List Slot) :
    widthOf (above ++ below) = widthOf above + widthOf below := by
  rw [widthOf, List.map_append, List.sum_append, widthOf, widthOf]

theorem totalWidth_cons (sized : SizedToken) (rest : List SizedToken) :
    totalWidth (sized :: rest) = sized.width + totalWidth rest := List.sum_cons

/-- Every slot is filled and stands on the slots that follow it. -/
inductive Stacked : List Slot → Prop where
  | nil : Stacked []
  | cons {slot : Slot} {rest : List Slot} (lsb_eq : slot.lsb = widthOf rest)
      (filled : slot.IsFilled) (below : Stacked rest) : Stacked (slot :: rest)

theorem Stacked.of_append {above below : List Slot} (h : Stacked (above ++ below)) :
    Stacked below := by
  induction above with
  | nil => exact h
  | cons slot above ih =>
    cases h with
    | cons _ _ hrest => exact ih hrest

theorem Stacked.filled {layout : List Slot} (h : Stacked layout) :
    ∀ slot ∈ layout, slot.IsFilled := by
  intro slot hs
  obtain ⟨above, below, rfl⟩ := List.append_of_mem hs
  cases h.of_append with
  | cons _ hfilled _ => exact hfilled

theorem Stacked.lsb_eq {above below : List Slot} {slot : Slot}
    (h : Stacked (above ++ slot :: below)) : slot.lsb = widthOf below := by
  cases h.of_append with
  | cons hlsb _ _ => exact hlsb

theorem Stacked.le_widthOf {layout : List Slot} (h : Stacked layout) {slot : Slot}
    (hs : slot ∈ layout) : slot.lsb + slot.width ≤ widthOf layout := by
  obtain ⟨above, below, rfl⟩ := List.append_of_mem hs
  rw [h.lsb_eq, widthOf_append, widthOf_cons]
  omega

theorem widthOf_slots (schema : Schema) (count base index : Nat) (tokens : List SizedToken) :
    widthOf (slots schema count base index tokens) = totalWidth tokens := by
  induction tokens generalizing index with
  | nil => rfl
  | cons sized rest ih => rw [slots, widthOf_cons, ih, totalWidth_cons]

theorem fixed?_literalContent (schema : Schema) (count index : Nat) (bits : BitString) :
    (literalContent schema count index bits).fixed? = some bits := by
  unfold literalContent
  split
  · rfl
  · split
    · rfl
    · rfl

theorem isFilled_slotContent {schema : Schema} {sized : SizedToken} (count index lsb : Nat)
    (h : sized.token.width? schema = some sized.width) :
    (⟨lsb, sized.width, slotContent schema count index sized.token⟩ : Slot).IsFilled := by
  obtain ⟨token, width⟩ := sized
  cases token with
  | literal bits =>
    have hbits : bits.width = width := Option.some.inj h
    have hfixed := fixed?_literalContent schema count index bits
    refine ⟨?_, ?_⟩
    · intro bits' hb
      rw [← Option.some.inj (hfixed.symm.trans hb)]
      exact hbits
    · intro e he
      have he : literalContent schema count index bits = .expression e := he
      rw [he] at hfixed
      cases hfixed
  | role name =>
    refine ⟨?_, ?_⟩
    · intro bits hb
      cases hb
    · intro e he
      cases he
  | expression e =>
    refine ⟨?_, ?_⟩
    · intro bits hb
      cases hb
    · intro e' he
      cases he
      exact Option.some.inj h

theorem stacked_slots {schema : Schema} {tokens : List SizedToken} {below : List Slot} {base : Nat}
    (count index : Nat) (hwidth : ∀ sized ∈ tokens, sized.token.width? schema = some sized.width)
    (hbelow : Stacked below) (hbase : widthOf below = base) :
    Stacked (slots schema count base index tokens ++ below) := by
  induction tokens generalizing index with
  | nil => exact hbelow
  | cons sized rest ih =>
    refine Stacked.cons ?_ ?_ ?_
    · show base + totalWidth rest = widthOf (slots schema count base (index + 1) rest ++ below)
      rw [widthOf_append, widthOf_slots, hbase, Nat.add_comm]
    · exact isFilled_slotContent count index _ (hwidth sized (List.mem_cons_self ..))
    · exact ih (index + 1) fun s hs => hwidth s (List.mem_cons_of_mem _ hs)

theorem role?_slotContent (schema : Schema) (count index : Nat) (token : Token) :
    (slotContent schema count index token).role? = token.role? := by
  cases token with
  | literal bits =>
    exact SlotContent.role?_of_fixed? (fixed?_literalContent schema count index bits)
  | role name => rfl
  | expression e => rfl

theorem filterMap_role?_slots (schema : Schema) (count base index : Nat)
    (tokens : List SizedToken) :
    (slots schema count base index tokens).filterMap (·.content.role?) =
      tokens.filterMap (·.token.role?) := by
  induction tokens generalizing index with
  | nil => rfl
  | cons sized rest ih =>
    rw [slots, List.filterMap_cons, List.filterMap_cons, ih, role?_slotContent]

theorem placed_slotContent {schema : Schema} {sized : SizedToken} (count index base : Nat)
    (rest : List SizedToken) (h : sized.token.width? schema = some sized.width) :
    assembly schema base (sized :: rest) =
      (⟨base + totalWidth rest, sized.width, slotContent schema count index sized.token⟩ :
        Slot).placed schema ++ assembly schema base rest := by
  obtain ⟨token, width⟩ := sized
  cases token with
  | literal bits =>
    have hplaced : (⟨base + totalWidth rest, width, literalContent schema count index bits⟩ :
        Slot).placed schema = [] :=
      Slot.placed_of_fixed? schema (fixed?_literalContent schema count index bits)
    exact (congrArg (· ++ assembly schema base rest) hplaced).symm
  | role name => rfl
  | expression e =>
    have he : e.width = width := Option.some.inj h
    subst he
    exact congrArg (· ++ assembly schema base rest)
      (placeBelow_eq schema (base + totalWidth rest) e.segments)

theorem flatMap_placed_slots {schema : Schema} {tokens : List SizedToken} (count base index : Nat)
    (hwidth : ∀ sized ∈ tokens, sized.token.width? schema = some sized.width) :
    (slots schema count base index tokens).flatMap (Slot.placed schema) =
      assembly schema base tokens := by
  induction tokens generalizing index with
  | nil => rfl
  | cons sized rest ih =>
    rw [slots, List.flatMap_cons, ih (index + 1) fun s hs => hwidth s (List.mem_cons_of_mem _ hs),
      placed_slotContent count index base rest (hwidth sized (List.mem_cons_self ..))]

end Layout

end OpTable
