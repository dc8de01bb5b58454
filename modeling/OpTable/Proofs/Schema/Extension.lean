import OpTable.Proofs.Layout.Stacked
import OpTable.Proofs.Token

/-!
# Extended schemas

A schema may declare more operand roles than another, and everything in another order. Names keep
their meaning: no name is declared twice, so a look-up does not depend on the order, and a new role
is no name that had a width before. Hence a line that is accepted under the smaller schema is
accepted under the larger one, with the same encoding.
-/

namespace OpTable

open BitExpr.Grammar

/-- The schema `t` declares what `s` declares: the same widths, the same fields in any order, and
the roles of `s` with their widths, in any order and perhaps among others. -/
structure Schema.Extends (t s : Schema) : Prop where
  wordWidth_eq : t.wordWidth? = s.wordWidth?
  opcodeWidth_eq : t.opcodeWidth = s.opcodeWidth
  funct3Width_eq : t.funct3Width = s.funct3Width
  funct7Width_eq : t.funct7Width = s.funct7Width
  fields_perm : t.fields.Perm s.fields
  roles : ∀ role ∈ s.operandRoles,
    ∃ other ∈ t.operandRoles, other.name = role.name ∧ other.width = role.width

theorem BitExpr.ofText_mono {widthOf other : String → Option Nat}
    (h : ∀ name width, widthOf name = some width → other name = some width) {text : String}
    {e : BitExpr} (he : ofText widthOf text = .ok e) : ofText other text = .ok e := by
  rw [ofText_eq_ok_iff] at he ⊢
  have hother : Derives (leaves other) .expr text.toList (e.segments.map id) := by
    refine Derives.map ?_ ?_ ?_ he
    · exact fun _ _ hs => hs
    · exact fun _ _ hs => hs
    · rintro _ _ ⟨hlow, hwidth⟩
      exact .mk hlow (h _ _ hwidth)
  rwa [List.map_id] at hother

namespace Schema.Extends

variable {s t : Schema} (h : t.Extends s)

/-! ### Names -/

include h

theorem find?_fields (hs : s.Valid) (name : String) :
    Declaration.find? t.fields name = Declaration.find? s.fields name :=
  List.find?_key_eq_of_perm h.fields_perm hs.nodup.2.1 name

theorem isSignedField (hs : s.Valid) (name : String) :
    t.isSignedField name = s.isSignedField name := by
  rw [Schema.isSignedField, h.find?_fields hs, Schema.isSignedField]

theorem roleWidth? (ht : t.Valid) {name : String} {width : Nat}
    (hw : s.roleWidth? name = some width) : t.roleWidth? name = some width := by
  obtain ⟨role, hrole, rfl⟩ := Option.map_eq_some_iff.mp hw
  have hfound := List.find?_some hrole
  have hname : role.name = name := of_decide_eq_true hfound
  obtain ⟨other, hother, hsame, hwidth⟩ := h.roles role (List.mem_of_find?_eq_some hrole)
  have hfind : Declaration.find? t.operandRoles name = some other :=
    (List.find?_key_eq_some_iff ht.nodup.1).mpr ⟨hother, hsame.trans hname⟩
  rw [Schema.roleWidth?, hfind, Option.map_some, hwidth]

theorem fieldWidth? (hs : s.Valid) (ht : t.Valid) {name : String} {width : Nat}
    (hw : s.fieldWidth? name = some width) : t.fieldWidth? name = some width := by
  rw [Schema.fieldWidth?] at hw ⊢
  rw [h.find?_fields hs]
  cases hfind : Declaration.find? s.fields name with
  | some field =>
    rw [hfind] at hw
    exact hw
  | none =>
    rw [hfind] at hw
    exact h.roleWidth? ht hw

/-! ### Tokens -/

theorem classify (hs : s.Valid) (ht : t.Valid) {text : String} {token : Token}
    (hc : Token.classify s text = .ok token) : Token.classify t text = .ok token := by
  rw [Token.classify_eq_ok_iff] at hc ⊢
  cases hc with
  | literal hliteral hbits => exact .literal hliteral hbits
  | expression hliteral hlooks he =>
    exact .expression hliteral hlooks (BitExpr.ofText_mono (fun _ _ => h.fieldWidth? hs ht) he)
  | role hliteral hlooks hname hrole =>
    obtain ⟨width, hwidth⟩ := Option.isSome_iff_exists.mp hrole
    exact .role hliteral hlooks hname (Option.isSome_iff_exists.mpr ⟨width, h.roleWidth? ht hwidth⟩)

theorem fieldToken (hs : s.Valid) (ht : t.Valid) {text : String} {sized : SizedToken}
    (hread : Layout.fieldToken s text = .ok sized) : Layout.fieldToken t text = .ok sized := by
  obtain ⟨hclass, hwidth⟩ := Layout.fieldToken_eq_ok hread
  have hother : sized.token.width? t = some sized.width := by
    cases htoken : sized.token with
    | role name =>
      rw [htoken] at hwidth
      exact h.roleWidth? ht hwidth
    | _ => rw [htoken] at hwidth; exact hwidth
  rw [Layout.fieldToken, h.classify hs ht hclass]
  dsimp only
  rw [hother]

theorem opcodeToken (hs : s.Valid) (ht : t.Valid) {text : String} {bits : BitString}
    (hread : Layout.opcodeToken s text = .ok bits) : Layout.opcodeToken t text = .ok bits := by
  obtain ⟨hclass, hwidth⟩ := Layout.opcodeToken_eq_ok hread
  rw [Layout.opcodeToken, h.classify hs ht hclass]
  exact if_pos (hwidth.trans h.opcodeWidth_eq.symm)

/-! ### Encodings -/

theorem slots (count base index : Nat) (tokens : List SizedToken) :
    Layout.slots t count base index tokens = Layout.slots s count base index tokens := by
  induction tokens generalizing index with
  | nil => rfl
  | cons sized rest ih =>
    have hcontent : Layout.slotContent t count index sized.token =
        Layout.slotContent s count index sized.token := by
      cases sized.token with
      | literal bits =>
        rw [Layout.slotContent, Layout.literalContent, h.funct7Width_eq, h.funct3Width_eq]
        rfl
      | _ => rfl
    rw [Layout.slots, Layout.slots, ih, hcontent]

theorem placeBelow (hs : s.Valid) (top : Nat) (segments : List Segment) :
    Layout.placeBelow t top segments = Layout.placeBelow s top segments := by
  induction segments generalizing top with
  | nil => rfl
  | cons segment rest ih =>
    cases segment with
    | fixed bits => rw [Layout.placeBelow, Layout.placeBelow, ih]
    | slice x => rw [Layout.placeBelow, Layout.placeBelow, ih, h.isSignedField hs]

theorem assembly (hs : s.Valid) (base : Nat) (tokens : List SizedToken) :
    Layout.assembly t base tokens = Layout.assembly s base tokens := by
  induction tokens with
  | nil => rfl
  | cons sized rest ih =>
    rw [Layout.assembly, Layout.assembly, ih]
    cases sized.token with
    | expression e =>
      dsimp only
      rw [h.placeBelow hs]
    | _ => rfl

theorem ofTokens (hs : s.Valid) (opcode : BitString) (tokens : List SizedToken) :
    Encoding.ofTokens t opcode tokens = Encoding.ofTokens s opcode tokens := by
  have hfunct7 : Layout.funct7? t tokens = Layout.funct7? s tokens := by
    rw [Layout.funct7?, Layout.funct7?, h.funct7Width_eq]
  have hfunct3 : Layout.funct3? t tokens = Layout.funct3? s tokens := by
    rw [Layout.funct3?, Layout.funct3?, hfunct7, h.funct3Width_eq]
  rw [Encoding.ofTokens, Encoding.ofTokens, hfunct3, hfunct7, h.slots, h.assembly hs]

/-- An accepted line keeps its encoding. -/
theorem ofLine (hs : s.Valid) (ht : t.Valid) {line : SpecLine} {encoding : Encoding}
    (he : Encoding.ofLine s line = .ok encoding) : Encoding.ofLine t line = .ok encoding := by
  obtain ⟨opcode, tokens, ⟨hne, hopcode, hfields⟩, hwanted, rfl⟩ := Layout.ofLine_eq_ok_iff.mp he
  refine Layout.ofLine_eq_ok_iff.mpr ⟨opcode, tokens, ⟨hne, h.opcodeToken hs ht hopcode, ?_⟩, ?_,
    (h.ofTokens hs opcode tokens).symm⟩
  · rw [← hfields]
    apply List.map_congr_left
    intro text htext
    have hmem : Layout.fieldToken s text ∈ tokens.map .ok := by
      rw [← hfields]
      exact List.mem_map_of_mem htext
    obtain ⟨sized, -, hsized⟩ := List.mem_map.mp hmem
    rw [← hsized]
    exact h.fieldToken hs ht hsized.symm
  · rw [← hwanted, Layout.wantedWidth?, Layout.wantedWidth?, h.wordWidth_eq]

end Schema.Extends

end OpTable
