import OpTable.Proofs.Except
import OpTable.Proofs.Keys
import OpTable.Schema.Presets
import OpTable.Schema.Validity

/-!
# What a valid schema declares
-/

namespace OpTable.Schema

theorem checkWidth_eq_ok_iff {what : String} {width : Nat} :
    checkWidth what width = .ok () ↔ IsWidth width := by
  unfold checkWidth
  constructor
  · intro h
    split at h
    next hwidth => exact hwidth
    · cases h
  · intro hwidth
    rw [if_pos hwidth]

theorem bind_checkWidth_eq_ok_iff {what : String} {width : Nat} {rest : Except SchemaFault Unit} :
    (do checkWidth what width; rest) = .ok () ↔ IsWidth width ∧ rest = .ok () := by
  rw [Except.bind_eq_ok_iff]
  constructor
  · rintro ⟨⟨⟩, hwidth, hrest⟩
    exact ⟨checkWidth_eq_ok_iff.mp hwidth, hrest⟩
  · rintro ⟨hwidth, hrest⟩
    exact ⟨(), checkWidth_eq_ok_iff.mpr hwidth, hrest⟩

theorem checkDeclared_cons_eq_ok_iff {seen : List String} {d : Declaration}
    {rest : List Declaration} :
    checkDeclared seen (d :: rest) = .ok () ↔
      IsWidth d.width ∧ IsIdentifier d.name ∧ d.name ∉ seen ∧
        checkDeclared (d.name :: seen) rest = .ok () := by
  rw [checkDeclared, bind_checkWidth_eq_ok_iff]
  refine and_congr_right fun _ => ?_
  constructor
  · intro h
    split at h
    · cases h
    next hname =>
    split at h
    · cases h
    next hseen => exact ⟨Decidable.not_not.mp hname, hseen, h⟩
  · intro h
    obtain ⟨hname, hseen, hrest⟩ := h
    rw [if_neg (Decidable.not_not.mpr hname), if_neg hseen]
    exact hrest

/-- Declarations pass after the names `seen` when each is good in itself and no name comes twice. -/
theorem checkDeclared_eq_ok_iff {seen : List String} {declarations : List Declaration} :
    checkDeclared seen declarations = .ok () ↔
      (∀ d ∈ declarations, IsWidth d.width ∧ IsIdentifier d.name ∧ d.name ∉ seen) ∧
        (declarations.map (·.name)).Nodup := by
  induction declarations generalizing seen with
  | nil => exact ⟨fun _ => ⟨fun _ hd => absurd hd List.not_mem_nil, List.nodup_nil⟩, fun _ => rfl⟩
  | cons declaration rest ih =>
    rw [checkDeclared_cons_eq_ok_iff, ih, List.forall_mem_cons, List.map_cons, List.nodup_cons]
    constructor
    · intro h
      obtain ⟨hwidth, hname, hseen, hrest, hnodup⟩ := h
      refine ⟨⟨⟨hwidth, hname, hseen⟩, fun d hd => ?_⟩, ?_, hnodup⟩
      · obtain ⟨hw, hn, hs⟩ := hrest d hd
        exact ⟨hw, hn, fun hmem => hs (List.mem_cons_of_mem _ hmem)⟩
      · intro hmem
        obtain ⟨d, hd, hsame⟩ := List.mem_map.mp hmem
        exact (hrest d hd).2.2 (List.mem_cons.mpr (.inl hsame))
    · intro h
      obtain ⟨⟨⟨hwidth, hname, hseen⟩, hrest⟩, hfresh, hnodup⟩ := h
      refine ⟨hwidth, hname, hseen, fun d hd => ?_, hnodup⟩
      obtain ⟨hw, hn, hs⟩ := hrest d hd
      refine ⟨hw, hn, fun hmem => ?_⟩
      rcases List.mem_cons.mp hmem with heq | hmem
      · exact hfresh (List.mem_map.mpr ⟨d, hd, heq⟩)
      · exact hs hmem

theorem check_eq_ok_iff {s : Schema} :
    s.check = .ok () ↔ (∀ width, s.wordWidth? = some width → IsWidth width) ∧
      IsWidth s.opcodeWidth ∧ IsWidth s.funct3Width ∧ IsWidth s.funct7Width ∧
        checkDeclared [] s.declared = .ok () := by
  have hrest : (do
      checkWidth "opcode" s.opcodeWidth
      checkWidth "funct3" s.funct3Width
      checkWidth "funct7" s.funct7Width
      checkDeclared [] s.declared) = .ok () ↔
        IsWidth s.opcodeWidth ∧ IsWidth s.funct3Width ∧ IsWidth s.funct7Width ∧
          checkDeclared [] s.declared = .ok () := by
    rw [bind_checkWidth_eq_ok_iff, bind_checkWidth_eq_ok_iff, bind_checkWidth_eq_ok_iff]
  rw [← hrest]
  unfold check
  cases s.wordWidth? with
  | none =>
    refine ⟨fun h => ⟨?_, h⟩, And.right⟩
    intro width hw
    cases hw
  | some width =>
    dsimp only
    rw [bind_checkWidth_eq_ok_iff]
    simp only [Option.some.injEq, forall_eq']

theorem Valid.checkDeclared {s : Schema} (h : s.Valid) : checkDeclared [] s.declared = .ok () :=
  (check_eq_ok_iff.mp h).2.2.2.2

theorem Valid.isWidth_of_wordWidth? {s : Schema} (h : s.Valid) {width : Nat}
    (hw : s.wordWidth? = some width) : IsWidth width :=
  (check_eq_ok_iff.mp h).1 width hw

theorem Valid.isWidth {s : Schema} (h : s.Valid) {d : Declaration} (hd : d ∈ s.declared) :
    IsWidth d.width :=
  ((checkDeclared_eq_ok_iff.mp h.checkDeclared).1 d hd).1

theorem Valid.isIdentifier {s : Schema} (h : s.Valid) {d : Declaration} (hd : d ∈ s.declared) :
    IsIdentifier d.name :=
  ((checkDeclared_eq_ok_iff.mp h.checkDeclared).1 d hd).2.1

/-- No name is declared twice, be it as a role or as a field. -/
theorem Valid.nodup {s : Schema} (h : s.Valid) :
    (s.operandRoles.map (·.name)).Nodup ∧ (s.fields.map (·.name)).Nodup ∧
      ∀ role ∈ s.operandRoles, ∀ field ∈ s.fields, role.name ≠ field.name := by
  have hnodup : (s.declared.map (·.name)).Nodup :=
    (checkDeclared_eq_ok_iff.mp h.checkDeclared).2
  rw [declared, List.map_append, List.nodup_append] at hnodup
  obtain ⟨hroles, hfields, hapart⟩ := hnodup
  refine ⟨hroles, hfields, ?_⟩
  intro role hrole field hfield
  exact hapart _ (List.mem_map_of_mem hrole) _ (List.mem_map_of_mem hfield)

theorem Valid.isSignedField_eq {s : Schema} (h : s.Valid) {d : Declaration} (hd : d ∈ s.fields) :
    s.isSignedField d.name = d.signed := by
  have hfind : Declaration.find? s.fields d.name = some d :=
    (List.find?_key_eq_some_iff h.nodup.2.1).mpr ⟨hd, rfl⟩
  rw [isSignedField, hfind]

theorem Valid.isWidth_of_roleWidth? {s : Schema} (h : s.Valid) {name : String} {width : Nat}
    (hw : s.roleWidth? name = some width) : IsWidth width := by
  obtain ⟨role, hrole, rfl⟩ := Option.map_eq_some_iff.mp hw
  exact h.isWidth (List.mem_append_left _ (List.mem_of_find?_eq_some hrole))

theorem isRole_iff {s : Schema} {name : String} :
    s.IsRole name ↔ ∃ role ∈ s.operandRoles, role.name = name := by
  rw [IsRole, roleWidth?, Option.isSome_map, Declaration.find?, List.find?_isSome]
  simp only [decide_eq_true_eq]

/-- The integer preset for words of any width. -/
def loose : Schema := { Schema.qcpu with name := "loose", wordWidth? := none }

theorem loose_valid : loose.Valid := rfl

/-- The same with opcodes of eight bits. -/
def wide : Schema := { loose with name := "wide", opcodeWidth := 8 }

theorem wide_valid : wide.Valid := rfl

end OpTable.Schema
