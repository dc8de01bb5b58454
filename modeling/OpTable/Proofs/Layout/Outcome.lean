import OpTable.Proofs.Layout.Stacked
import OpTable.Proofs.Schema.Validity
import OpTable.Proofs.Token

/-!
# What becomes of a line

A line without fields is refused at once. A line with fields is refused for all of its bad tokens
together, each named once and in order, the opcode first; or else for the width of its tokens in
all; or else it is accepted (`Encoding.ofLine_outcome`).
-/

namespace OpTable

namespace Token

/-- The number of bits of the text, where it is a token. -/
def widthOf? (schema : Schema) (text : String) : Option Nat :=
  (classify schema text).toOption.bind (·.width? schema)

/-- Why the text is no token, where it is none. -/
def fault? (schema : Schema) (text : String) : Option TokenFault :=
  match classify schema text with
  | .error reason => some reason
  | .ok _ => none

theorem exists_width? {schema : Schema} {text : String} {token : Token}
    (h : classify schema text = .ok token) : ∃ width, token.width? schema = some width := by
  cases classify_eq_ok_iff.mp h with
  | literal hliteral hbits => exact ⟨_, rfl⟩
  | expression hliteral hlooks he => exact ⟨_, rfl⟩
  -- a role is a token only where it is declared
  | role hliteral hlooks hname hrole => exact Option.isSome_iff_exists.mp hrole

theorem classify_ne_noWidth (schema : Schema) (text : String) :
    classify schema text ≠ .error .noWidth := by
  unfold classify
  split
  · split <;> rintro ⟨⟩
  · split
    · split <;> rintro ⟨⟩
    · split
      · split <;> rintro ⟨⟩
      · rintro ⟨⟩

theorem fault?_eq_some_iff {schema : Schema} {text : String} {reason : TokenFault} :
    fault? schema text = some reason ↔ classify schema text = .error reason := by
  unfold fault?
  cases classify schema text with
  | error own => rw [Option.some.injEq, Except.error.injEq]
  | ok token => exact iff_of_false (fun h => nomatch h) (fun h => nomatch h)

end Token

namespace SpecLine

/-- What is wrong with an opcode: it is no token, or a token other than literal bits, or literal
bits of another width. -/
def opcodeErrors (schema : Schema) (text : String) : List CompileError :=
  match Token.classify schema text with
  | .error reason => [.unclassifiableToken text reason]
  | .ok (.literal bits) =>
    if bits.width = schema.opcodeWidth then []
    else [.invalidOpcode text (.width schema.opcodeWidth bits.width)]
  | .ok token => [.invalidOpcode text (.kind token)]

def fieldErrors (schema : Schema) (fields : List String) : List CompileError :=
  fields.filterMap fun text => (Token.fault? schema text).map (.unclassifiableToken text)

/-- What is wrong with the tokens of a line, the opcode first. -/
def tokenErrors (schema : Schema) (line : SpecLine) : List CompileError :=
  opcodeErrors schema line.opcode ++ fieldErrors schema line.fields

/-- The fields and the opcode are tokens, of `total` bits in all. -/
def Spans (schema : Schema) (line : SpecLine) (total : Nat) : Prop :=
  ∃ widths : List Nat,
    (line.fields ++ [line.opcode]).map (Token.widthOf? schema) = widths.map some ∧
      widths.sum = total

theorem Spans.eq {schema : Schema} {line : SpecLine} {total other : Nat}
    (h : line.Spans schema total) (h' : line.Spans schema other) : total = other := by
  obtain ⟨widths, hwidths, rfl⟩ := h
  obtain ⟨widths', hwidths', rfl⟩ := h'
  rw [hwidths] at hwidths'
  rw [List.map_injective_iff.mpr (fun _ _ => Option.some.inj) hwidths']

end SpecLine

namespace Layout

variable {schema : Schema} {line : SpecLine}

/-! ### Bad tokens -/

theorem fieldToken_eq_error {text : String} {reason : TokenFault}
    (h : Token.classify schema text = .error reason) :
    fieldToken schema text = .error (.unclassifiableToken text reason) := by
  rw [fieldToken, h]

theorem exists_fieldToken {text : String} {token : Token}
    (h : Token.classify schema text = .ok token) :
    ∃ width, fieldToken schema text = .ok ⟨token, width⟩ := by
  obtain ⟨width, hwidth⟩ := Token.exists_width? h
  refine ⟨width, ?_⟩
  rw [fieldToken, h]
  dsimp only
  rw [hwidth]

theorem faults_map_fieldToken (schema : Schema) (fields : List String) :
    faults (fields.map (fieldToken schema)) = SpecLine.fieldErrors schema fields := by
  rw [faults, SpecLine.fieldErrors, List.filterMap_map]
  apply List.filterMap_congr
  intro text _
  rw [Function.comp_apply, Token.fault?]
  cases h : Token.classify schema text with
  | error reason => rw [fieldToken_eq_error h]; rfl
  | ok token =>
    obtain ⟨width, hwidth⟩ := exists_fieldToken h
    rw [hwidth]
    rfl

theorem opcodeErrors_eq (schema : Schema) (text : String) :
    SpecLine.opcodeErrors schema text =
      match opcodeToken schema text with
      | .error e => [e]
      | .ok _ => [] := by
  unfold SpecLine.opcodeErrors opcodeToken
  cases Token.classify schema text with
  | error reason => rfl
  | ok token =>
    cases token with
    | literal bits =>
      dsimp only
      split
      · rfl
      · rfl
    | role name => rfl
    | expression e => rfl

theorem noWidth_not_mem_tokenErrors (schema : Schema) (line : SpecLine) (text : String) :
    .unclassifiableToken text .noWidth ∉ line.tokenErrors schema := by
  intro hmem
  rcases List.mem_append.mp hmem with hopcode | hfields
  · unfold SpecLine.opcodeErrors at hopcode
    split at hopcode
    next reason h =>
      cases List.mem_singleton.mp hopcode
      exact Token.classify_ne_noWidth schema _ h
    · split at hopcode
      · exact absurd hopcode List.not_mem_nil
      · cases List.mem_singleton.mp hopcode
    · cases List.mem_singleton.mp hopcode
  · obtain ⟨field, -, hfault⟩ := List.mem_filterMap.mp hfields
    obtain ⟨reason, hreason, heq⟩ := Option.map_eq_some_iff.mp hfault
    cases heq
    exact Token.classify_ne_noWidth schema _ (Token.fault?_eq_some_iff.mp hreason)

theorem ofLine_of_tokenErrors (hfields : line.fields ≠ [])
    (herrors : line.tokenErrors schema ≠ []) :
    Encoding.ofLine schema line = .error (line.tokenErrors schema) := by
  unfold SpecLine.tokenErrors at herrors ⊢
  rw [Encoding.ofLine, if_neg hfields]
  dsimp only
  rw [faults_map_fieldToken]
  rw [opcodeErrors_eq] at herrors ⊢
  cases hopcode : opcodeToken schema line.opcode with
  | error e => rfl
  | ok opcode =>
    rw [hopcode] at herrors
    cases hfaults : SpecLine.fieldErrors schema line.fields with
    | nil =>
      rw [hfaults] at herrors
      exact absurd rfl herrors
    | cons e errors => rfl

/-! ### Sound tokens -/

theorem exists_reads (hfields : line.fields ≠ []) (herrors : line.tokenErrors schema = []) :
    ∃ opcode tokens, Reads schema line opcode tokens := by
  obtain ⟨hopcode, hfaults⟩ := List.append_eq_nil_iff.mp herrors
  rw [← faults_map_fieldToken] at hfaults
  rw [opcodeErrors_eq] at hopcode
  cases h : opcodeToken schema line.opcode with
  | error e =>
    rw [h] at hopcode
    cases hopcode
  | ok opcode => exact ⟨opcode, _, hfields, h, eq_map_ok_of_faults hfaults⟩

theorem Reads.spans {opcode : BitString} {tokens : List SizedToken}
    (h : Reads schema line opcode tokens) :
    line.Spans schema (opcode.width + totalWidth tokens) := by
  have hfields : line.fields.map (Token.widthOf? schema) = tokens.map fun sized =>
      some sized.width := by
    refine map_eq_of_map_fieldToken ?_ h.fields_eq
    intro text sized hread
    obtain ⟨hclass, hwidth⟩ := fieldToken_eq_ok hread
    rw [Token.widthOf?, hclass]
    exact hwidth
  have hopcode : Token.widthOf? schema line.opcode = some opcode.width := by
    rw [Token.widthOf?, (opcodeToken_eq_ok h.opcode_eq).1]
    rfl
  refine ⟨tokens.map (·.width) ++ [opcode.width], ?_, ?_⟩
  · rw [List.map_append, List.map_append, hfields, List.map_map, List.map_singleton,
      List.map_singleton, hopcode]
    rfl
  · rw [List.sum_append, List.sum_singleton, Nat.add_comm]
    rfl

theorem ofLine_of_reads {opcode : BitString} {tokens : List SizedToken}
    (h : Reads schema line opcode tokens) :
    Encoding.ofLine schema line =
      match wantedWidth? schema (opcode.width + totalWidth tokens) with
      | some expected =>
        .error [.widthMismatch schema.name expected (opcode.width + totalWidth tokens)]
      | none => .ok (Encoding.ofTokens schema opcode tokens) := by
  rw [Encoding.ofLine, if_neg h.fields_ne_nil, h.fields_eq]
  dsimp only
  rw [h.opcode_eq, faults_map_ok, results_map_ok]
  rfl

theorem wantedWidth?_of_ne {total width : Nat} (hw : schema.wordWidth? = some width)
    (hne : total ≠ width) : wantedWidth? schema total = some width := by
  rw [wantedWidth?, hw]
  exact if_pos hne.symm

theorem wantedWidth?_of_lt {total : Nat} (hw : schema.wordWidth? = none) (h : 64 < total) :
    wantedWidth? schema total = some 64 := by
  rw [wantedWidth?, hw]
  exact if_pos h

theorem wantedWidth?_eq_none (hs : schema.Valid) {total : Nat}
    (h : schema.wordWidth? = some total ∨ schema.wordWidth? = none ∧ total ≤ 64) :
    wantedWidth? schema total = none := by
  unfold wantedWidth?
  rcases h with hw | ⟨hw, hle⟩
  · have hle := (hs.isWidth_of_wordWidth? hw).2
    simp [hw, hle]
  · simp [hw, hle]

/-! ### Whole lines -/

theorem ofLine_of_fields_eq_nil (h : line.fields = []) :
    Encoding.ofLine schema line = .error [.malformedLine 2] := by
  rw [Encoding.ofLine, if_pos h, SpecLine.arity, h]
  rfl

theorem noWidth_not_mem_of_ofLine {errors : List CompileError}
    (h : Encoding.ofLine schema line = .error errors) (text : String) :
    .unclassifiableToken text .noWidth ∉ errors := by
  by_cases hfields : line.fields = []
  · rw [ofLine_of_fields_eq_nil hfields] at h
    cases h
    simp
  by_cases herrors : line.tokenErrors schema = []
  · obtain ⟨opcode, tokens, hreads⟩ := exists_reads hfields herrors
    rw [ofLine_of_reads hreads] at h
    split at h
    · cases h
      simp
    · cases h
  · rw [ofLine_of_tokenErrors hfields herrors] at h
    cases h
    exact noWidth_not_mem_tokenErrors schema line text

end Layout

open Layout

/-- Whether a line is accepted, and what is wrong with it if it is not. Without fields it is too
short. With fields, the errors are those of all its tokens; when they are sound, the sum of their
widths has to be the word width of the schema, or at most 64 where the schema sets none. A token
never lacks a width. -/
theorem Encoding.ofLine_outcome {schema : Schema} (hs : schema.Valid) (line : SpecLine) :
    (line.fields = [] → ofLine schema line = .error [.malformedLine 2]) ∧
      (line.fields ≠ [] →
        (line.tokenErrors schema ≠ [] →
          ofLine schema line = .error (line.tokenErrors schema)) ∧
        (line.tokenErrors schema = [] → ∃ total, line.Spans schema total ∧
          (∀ width, schema.wordWidth? = some width → total ≠ width →
            ofLine schema line = .error [.widthMismatch schema.name width total]) ∧
          (schema.wordWidth? = none → 64 < total →
            ofLine schema line = .error [.widthMismatch schema.name 64 total]) ∧
          (schema.wordWidth? = some total ∨ schema.wordWidth? = none ∧ total ≤ 64 →
            ∃ encoding, ofLine schema line = .ok encoding))) ∧
      (∀ text token, Token.classify schema text = .ok token →
        ∃ width, token.width? schema = some width) ∧
      ∀ errors, ofLine schema line = .error errors →
        ∀ text, .unclassifiableToken text .noWidth ∉ errors := by
  refine ⟨ofLine_of_fields_eq_nil, ?_, fun text token => Token.exists_width?,
    fun errors => noWidth_not_mem_of_ofLine⟩
  intro hfields
  refine ⟨ofLine_of_tokenErrors hfields, ?_⟩
  intro herrors
  obtain ⟨opcode, tokens, hreads⟩ := exists_reads hfields herrors
  have hline := ofLine_of_reads hreads
  refine ⟨_, hreads.spans, ?_, ?_, ?_⟩
  · intro width hw hne
    rw [hline, wantedWidth?_of_ne hw hne]
  · intro hw hlt
    rw [hline, wantedWidth?_of_lt hw hlt]
  · intro hw
    rw [hline, wantedWidth?_eq_none hs hw]
    exact ⟨_, rfl⟩

/-- The opcode is a role, and two of the fields are no tokens. -/
def SpecLine.threeFaults : SpecLine := ⟨"add", ["0000000", "foo", "rs1", "01xyz", "rd"], "rd"⟩

/-- The tokens are sound, but one bit short of a word. -/
def SpecLine.short : SpecLine := ⟨"lui", ["\x7b1'b0,imm[31:12]\x7d", "rd"], "1000"⟩

theorem Encoding.ofLine_threeFaults :
    Schema.qcpu.Valid ∧ SpecLine.threeFaults.fields ≠ [] ∧
      ofLine Schema.qcpu SpecLine.threeFaults =
        .error [.invalidOpcode "rd" (.kind (.role "rd")),
          .unclassifiableToken "foo" (.unknownRole "foo" "qcpu"),
          .unclassifiableToken "01xyz" .unrecognized] ∧
      SpecLine.short.fields ≠ [] ∧ SpecLine.short.tokenErrors Schema.qcpu = [] ∧
      ofLine Schema.qcpu SpecLine.short = .error [.widthMismatch "qcpu" 32 31] := by
  have hvalid : Schema.qcpu.Valid := rfl
  have hfields : SpecLine.threeFaults.fields ≠ [] := List.cons_ne_nil _ _
  have herrors : SpecLine.threeFaults.tokenErrors Schema.qcpu =
      [.invalidOpcode "rd" (.kind (.role "rd")),
        .unclassifiableToken "foo" (.unknownRole "foo" "qcpu"),
        .unclassifiableToken "01xyz" .unrecognized] := rfl
  have hbad := ((ofLine_outcome hvalid SpecLine.threeFaults).2.1 hfields).1 (by simp [herrors])
  have hfields' : SpecLine.short.fields ≠ [] := List.cons_ne_nil _ _
  have hsound : SpecLine.short.tokenErrors Schema.qcpu = [] :=
    List.isEmpty_iff.mp (by decide +kernel)
  have hspans : SpecLine.short.Spans Schema.qcpu 31 := ⟨[21, 6, 4], by decide +kernel, rfl⟩
  obtain ⟨total, htotal, hwide, -⟩ :=
    ((ofLine_outcome hvalid SpecLine.short).2.1 hfields').2 hsound
  cases htotal.eq hspans
  exact ⟨hvalid, hfields, hbad.trans (congrArg Except.error herrors), hfields', hsound,
    hwide 32 rfl (by decide)⟩

end OpTable
