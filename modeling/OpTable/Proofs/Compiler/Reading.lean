import OpTable.Compiler

/-!
# What a line does

A line of a source matters to a compiler by what it reads as: the builder takes in the record that
it defines, and there are things to say of it (`compileLine_eq`).
-/

namespace OpTable.Compiler

theorem Reading.ofLine_eq_defines_iff {schema : Schema} {line : Nat} {text : String} {r : Record} :
    ofLine schema line text = .defines r ↔
      ∃ spec encoding, SpecLine.Content.ofText text = .definition spec ∧
        Encoding.ofLine schema spec = .ok encoding ∧ r = .define spec.mnemonic line encoding := by
  constructor
  · intro h
    unfold ofLine at h
    split at h
    · cases h
    · cases h
    next spec hspec =>
    split at h
    next encoding hencoding =>
      cases h
      exact ⟨spec, encoding, hspec, hencoding, rfl⟩
    · cases h
  · intro h
    obtain ⟨spec, encoding, hspec, hencoding, rfl⟩ := h
    rw [ofLine, hspec]
    dsimp only
    rw [hencoding]

/-- The builder after a line that reads so. -/
def Reading.taken (b : TableBuilder) : Reading → TableBuilder
  | .blank => b
  | .faulty _ => b
  | .defines r => (b.add r).1

/-- What there is to say of a line that reads so and has not been taken in yet. -/
def Reading.remarks (b : TableBuilder) : Reading → List (Severity × CompileError)
  | .blank => []
  | .faulty errors => errors.map fun error => (.error, error)
  | .defines r => (duplicate? b.policy r.mnemonic (b.add r).2).toList

/-- A line is taken in by the builder, and what there is to say of it is reported. -/
theorem compileLine_eq (c : Compiler) (origin : String) (line : Nat) (text : String) :
    c.compileLine origin line text =
      ⟨c.schema, (Reading.ofLine c.schema line text).taken c.builder,
        c.diagnostics ++ ((Reading.ofLine c.schema line text).remarks c.builder).map
          fun remark => .about origin line text remark.1 remark.2⟩ := by
  unfold compileLine
  cases Reading.ofLine c.schema line text with
  | blank => simp [Reading.taken, Reading.remarks]
  | faulty errors => simp [Reading.taken, Reading.remarks]
  | defines r =>
    simp only [Reading.taken, Reading.remarks]
    cases duplicate? c.builder.policy r.mnemonic (c.builder.add r).2 with
    | none => simp
    | some remark => rfl

theorem schema_compileLine (c : Compiler) (origin : String) (line : Nat) (text : String) :
    (c.compileLine origin line text).schema = c.schema := by
  rw [compileLine_eq]

theorem builder_compileLine_eq (c : Compiler) (origin : String) (line : Nat) (text : String) :
    (c.compileLine origin line text).builder =
      (Reading.ofLine c.schema line text).taken c.builder := by
  rw [compileLine_eq]

/-- A line leaves the builder alone, or hands it the record that it defines. -/
theorem builder_compileLine (c : Compiler) (origin : String) (line : Nat) (text : String) :
    (c.compileLine origin line text).builder = c.builder ∨
      ∃ r, Reading.ofLine c.schema line text = .defines r ∧
        (c.compileLine origin line text).builder = (c.builder.add r).1 := by
  rw [builder_compileLine_eq]
  cases hr : Reading.ofLine c.schema line text with
  | blank => exact .inl rfl
  | faulty errors => exact .inl rfl
  | defines r => exact .inr ⟨r, rfl, rfl⟩

end OpTable.Compiler
