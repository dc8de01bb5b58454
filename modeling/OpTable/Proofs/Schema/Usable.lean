import OpTable.Proofs.Record.Resolved
import OpTable.Proofs.Token

/-!
# Schemas that can be used

Which schemas pass the check is said by `Usable`, without the order in which the check looks at
them. Under such a schema every look-up of a declared name finds its own declaration: no other one
has the name, be it a role or a field.
-/

namespace OpTable

/-! ### Names -/

/-- The character is one of `[A-Za-z_]`. -/
def IsNameStart (c : Char) : Prop := ('A' ≤ c ∧ c ≤ 'Z') ∨ ('a' ≤ c ∧ c ≤ 'z') ∨ c = '_'

/-- The character is one of `[A-Za-z0-9_]`. -/
def IsNamePart (c : Char) : Prop := IsNameStart c ∨ ('0' ≤ c ∧ c ≤ '9')

def IsName (text : String) : Prop :=
  ∃ first rest, text.toList = first :: rest ∧ IsNameStart first ∧ ∀ c ∈ rest, IsNamePart c

theorem isIdentifierStart_iff {c : Char} : isIdentifierStart c = true ↔ IsNameStart c := by
  rw [isIdentifierStart, IsNameStart]
  delta Char.isAlpha Char.isUpper Char.isLower
  simp [Char.le_def, or_assoc]

theorem isIdentifierPart_iff {c : Char} : isIdentifierPart c = true ↔ IsNamePart c := by
  rw [IsNamePart, ← isIdentifierStart_iff, isIdentifierPart, isIdentifierStart, Char.isAlphanum,
    Char.isDigit]
  simp [Char.le_def, or_assoc, or_comm, or_left_comm]

theorem isIdentifier_iff {text : String} : IsIdentifier text ↔ IsName text := by
  unfold IsIdentifier IsName
  cases text.toList with
  | nil =>
    constructor
    · intro h
      cases h
    · rintro ⟨first, rest, h, -⟩
      cases h
  | cons first rest =>
    rw [spellsIdentifier, Bool.and_eq_true, List.all_eq_true, isIdentifierStart_iff]
    simp only [isIdentifierPart_iff]
    constructor
    · rintro ⟨hfirst, hrest⟩
      exact ⟨first, rest, rfl, hfirst, hrest⟩
    · rintro ⟨_, _, h, hfirst, hrest⟩
      cases h
      exact ⟨hfirst, hrest⟩

namespace Schema

/-- The widths are those of ranges of a word, and no name stands for two things. -/
structure Usable (s : Schema) : Prop where
  wordWidth : ∀ width, s.wordWidth? = some width → 1 ≤ width ∧ width ≤ 64
  opcodeWidth : 1 ≤ s.opcodeWidth ∧ s.opcodeWidth ≤ 64
  funct3Width : 1 ≤ s.funct3Width ∧ s.funct3Width ≤ 64
  funct7Width : 1 ≤ s.funct7Width ∧ s.funct7Width ≤ 64
  widths : ∀ d ∈ s.operandRoles ++ s.fields, 1 ≤ d.width ∧ d.width ≤ 64
  names : ∀ d ∈ s.operandRoles ++ s.fields, IsName d.name
  nodup : ((s.operandRoles ++ s.fields).map (·.name)).Nodup

theorem valid_iff_usable {s : Schema} : s.Valid ↔ s.Usable := by
  rw [Valid, check_eq_ok_iff, checkDeclared_eq_ok_iff]
  constructor
  · rintro ⟨hword, hopcode, hfunct3, hfunct7, hall, hnodup⟩
    exact ⟨hword, hopcode, hfunct3, hfunct7, fun d hd => (hall d hd).1,
      fun d hd => isIdentifier_iff.mp (hall d hd).2.1, hnodup⟩
  · intro h
    refine ⟨h.wordWidth, h.opcodeWidth, h.funct3Width, h.funct7Width, fun d hd => ?_, h.nodup⟩
    exact ⟨h.widths d hd, isIdentifier_iff.mpr (h.names d hd), List.not_mem_nil⟩

/-! ### Look-ups -/

theorem Valid.roleWidth?_eq {s : Schema} (h : s.Valid) {role : Declaration}
    (hrole : role ∈ s.operandRoles) : s.roleWidth? role.name = some role.width := by
  have hfind : Declaration.find? s.operandRoles role.name = some role :=
    (List.find?_key_eq_some_iff h.nodup.1).mpr ⟨hrole, rfl⟩
  rw [roleWidth?, hfind, Option.map_some]

theorem Valid.fieldWidth?_eq {s : Schema} (h : s.Valid) {d : Declaration} (hd : d ∈ s.declared) :
    s.fieldWidth? d.name = some d.width := by
  unfold fieldWidth?
  cases hfind : Declaration.find? s.fields d.name with
  | some field =>
    -- a field of this name is the declaration itself, since a role has no name of a field
    obtain ⟨hfield, hname⟩ := (List.find?_key_eq_some_iff h.nodup.2.1).mp hfind
    rcases List.mem_append.mp hd with hrole | hd
    · exact absurd hname.symm (h.nodup.2.2 d hrole field hfield)
    · rw [List.inj_on_of_nodup_map h.nodup.2.1 hfield hd hname]
  | none =>
    have hnone := List.find?_eq_none.mp hfind
    rcases List.mem_append.mp hd with hrole | hfield
    · exact h.roleWidth?_eq hrole
    · exact absurd (decide_eq_true rfl) (hnone d hfield)

end Schema

theorem BitExpr.ofText_braced {widthOf : String → Option Nat} {x : Slice} (hlow : x.low = 0)
    (hwidth : widthOf x.field = some (x.high + 1)) :
    ∃ e, ofText widthOf s!"\x7b{x.field}\x7d" = .ok e ∧ e.segments = [.slice x] := by
  have hhigh := x.high_lt
  have htotal : Segment.totalWidth [.slice x] ≤ 64 := by
    show x.high - x.low + 1 + 0 ≤ 64
    omega
  refine ⟨⟨[.slice x], List.cons_ne_nil _ _, htotal⟩, ?_, rfl⟩
  have hname : Grammar.Derives (Grammar.leaves widthOf) .item x.field.toList [.slice x] :=
    .itemName (.mk hlow hwidth)
  have htext : s!"\x7b{x.field}\x7d".toList = '\x7b' :: (x.field.toList ++ ['\x7d']) := by
    simp [String.toList_append, toString]
  rw [ofText_eq_ok_iff, htext]
  exact .exprGroup (.group (.single hname))

namespace Schema

/-- A declared name in braces stands for all its bits. -/
theorem Valid.ofText_declared {s : Schema} (h : s.Valid) {d : Declaration} (hd : d ∈ s.declared) :
    ∃ (e : BitExpr) (x : Slice), BitExpr.ofText s.fieldWidth? s!"\x7b{d.name}\x7d" = .ok e ∧
      e.segments = [.slice x] ∧ x.field = d.name ∧ x.high = d.width - 1 ∧ x.low = 0 := by
  obtain ⟨hpos, hle⟩ := h.isWidth hd
  let x : Slice := ⟨d.name, d.width - 1, 0, h.isIdentifier hd, Nat.zero_le _, by omega⟩
  have hwidth : s.fieldWidth? x.field = some (x.high + 1) := by
    rw [h.fieldWidth?_eq hd, Nat.sub_add_cancel hpos]
  obtain ⟨e, he, hsegments⟩ := BitExpr.ofText_braced (x := x) rfl hwidth
  exact ⟨e, x, he, hsegments, rfl, rfl, rfl⟩

/-- The check passes over the usable schemas and over no others. Under a schema that passes, the
name of a role is the token of the role, with the width that the role declares; a declared name in
braces is the slice of all its bits; and the slices of a declared field have the sign of the field,
in every line. -/
theorem check_exact (s : Schema) :
    (s.check = .ok () ↔ s.Usable) ∧
      (s.check = .ok () →
        (∀ role ∈ s.operandRoles, Token.classify s role.name = .ok (.role role.name) ∧
          (Token.role role.name).width? s = some role.width) ∧
        (∀ d ∈ s.operandRoles ++ s.fields, ∃ (e : BitExpr) (x : Slice),
          BitExpr.ofText s.fieldWidth? s!"\x7b{d.name}\x7d" = .ok e ∧
            e.segments = [.slice x] ∧ x.field = d.name ∧ x.high = d.width - 1 ∧ x.low = 0) ∧
        ∀ line encoding, Encoding.ofLine s line = .ok encoding →
          ∀ p ∈ encoding.immediateAssembly, ∀ field ∈ s.fields,
            p.slice.field = field.name → p.signed = field.signed) := by
  refine ⟨valid_iff_usable, fun hvalid => ⟨?_, ?_, ?_⟩⟩
  · intro role hrole
    exact ⟨(Token.role_iff hvalid).mpr ⟨rfl, role, hrole, rfl⟩, Valid.roleWidth?_eq hvalid hrole⟩
  · exact fun d hd => Valid.ofText_declared hvalid hd
  · intro line encoding hline p hp field hfield hname
    have hwell : (Record.define line.mnemonic 0 encoding).WellFormed s :=
      Record.ResolvedUnder.wellFormed ⟨line, 0, encoding, hline, rfl⟩
    rw [hwell.signed_eq hp, hname, Valid.isSignedField_eq hvalid hfield]

/-- Names at the edges of the alphabet, with the smallest width and the largest. -/
def edges : Schema where
  name := ""
  wordWidth? := none
  opcodeWidth := 1
  funct3Width := 64
  funct7Width := 1
  operandRoles := [⟨"_", 1, true⟩, ⟨"Z9", 64, false⟩]
  fields := [⟨"a_0", 64, true⟩, ⟨"A", 1, false⟩]

theorem check_exact_edges :
    edges.check = .ok () ∧ edges.Usable ∧ Token.classify edges "_" = .ok (.role "_") ∧
      (Token.role "_").width? edges = some 1 ∧
      (∃ (e : BitExpr) (x : Slice), BitExpr.ofText edges.fieldWidth? "\x7ba_0\x7d" = .ok e ∧
        e.segments = [.slice x] ∧ x.field = "a_0" ∧ x.high = 63 ∧ x.low = 0) ∧
      ∃ encoding, Encoding.ofLine edges ⟨"op", ["\x7bA,a_0[63]\x7d", "_"], "1"⟩ = .ok encoding ∧
        encoding.immediateAssembly.map (·.slice.field) = ["A", "a_0"] ∧
        ∀ p ∈ encoding.immediateAssembly, p.slice.field = "A" → p.signed = false := by
  have hcheck : edges.check = .ok () := rfl
  obtain ⟨hiff, huse⟩ := check_exact edges
  obtain ⟨hroles, hbraced, hsigned⟩ := huse hcheck
  obtain ⟨hclass, hwidth⟩ := hroles ⟨"_", 1, true⟩ (by decide)
  have hline : ((Encoding.ofLine edges ⟨"op", ["\x7bA,a_0[63]\x7d", "_"], "1"⟩).toOption.map
      fun encoding => encoding.immediateAssembly.map (·.slice.field)) = some ["A", "a_0"] := by
    decide +kernel
  obtain ⟨encoding, hencoding, hfields⟩ := Option.map_eq_some_iff.mp hline
  have hencoding := Except.eq_ok_of_toOption hencoding
  refine ⟨hcheck, hiff.mp hcheck, hclass, hwidth, hbraced ⟨"a_0", 64, true⟩ (by decide), encoding,
    hencoding, hfields, ?_⟩
  exact fun p hp => hsigned _ _ hencoding p hp ⟨"A", 1, false⟩ (by decide)

end Schema

end OpTable
