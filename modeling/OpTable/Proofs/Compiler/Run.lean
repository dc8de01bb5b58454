import OpTable.Proofs.Compiler.Reading
import OpTable.Proofs.Record.Resolved
import OpTable.Proofs.Table.Building

/-!
# Compiler runs

Texts, byte streams and bundled specifications are all taken in line by line, so a run is composed
of lines and of diagnostics (`performAll_composition`), and what these keep is kept by every run
(`performAll_induction`). The records of a run are indexed by their mnemonics and resolved under the
schema of the compiler.
-/

namespace OpTable

namespace Compiler

/-! ### Induction over a run -/

section Composition

variable {P : (Compiler → Compiler) → Prop} (hid : P id)
  (hcomp : ∀ f g, P f → P g → P fun c => g (f c))
  (hline : ∀ origin line text, P fun c => c.compileLine origin line text)
  (hreport : ∀ d, P fun c => { c with diagnostics := c.diagnostics ++ [d] })

include hid hcomp hline

theorem compileLines_composition (origin : String) (line : Nat) (texts : List (List Char)) :
    P fun c => c.compileLines origin line texts := by
  induction texts generalizing line with
  | nil => exact hid
  | cons text rest ih => exact hcomp _ _ (hline origin line (String.ofList text)) (ih (line + 1))

theorem compileBundled_composition (bundled : Bundled) : P fun c => c.compileBundled bundled := by
  unfold compileBundled
  induction bundled.sources with
  | nil => exact hid
  | cons source rest ih =>
    exact hcomp _ _ (compileLines_composition hid hcomp hline source.origin 1 _) ih

include hreport

theorem compileByteLines_composition (origin : String) (line : Nat) (lines : List (List UInt8)) :
    P fun c => c.compileByteLines origin line lines := by
  induction lines generalizing line with
  | nil => exact hid
  | cons bytes rest ih =>
    refine hcomp (fun c => c.compileByteLine origin line bytes) _ ?_ (ih (line + 1))
    unfold compileByteLine
    split
    · exact hline origin line _
    · exact hreport _

/-- Every run is composed of single lines and of reports. -/
theorem performAll_composition (steps : List Step) : P fun c => c.performAll steps := by
  unfold performAll
  induction steps with
  | nil => exact hid
  | cons step rest ih =>
    refine hcomp (fun c => c.perform step) _ ?_ ih
    cases step with
    | line origin number text => exact hline origin number text
    | text origin text => exact compileLines_composition hid hcomp hline origin 1 _
    | bytes origin bytes => exact compileByteLines_composition hid hcomp hline hreport origin 1 _
    | bundled choice => exact compileBundled_composition hid hcomp hline choice

end Composition

theorem performAll_induction {P : Compiler → Prop}
    (hline : ∀ c origin line text, P c → P (c.compileLine origin line text))
    (hreport : ∀ (c : Compiler) (d : Diagnostic), P c →
      P { c with diagnostics := c.diagnostics ++ [d] })
    {c : Compiler} (steps : List Step) (hc : P c) : P (c.performAll steps) := by
  refine performAll_composition (P := fun f => ∀ c, P c → P (f c)) ?_ ?_ ?_ ?_ steps c hc
  · exact fun c hc => hc
  · exact fun f g hf hg c hc => hg _ (hf c hc)
  · exact fun origin line text c hc => hline c origin line text hc
  · exact fun d c hc => hreport c d hc

/-! ### Builders -/

theorem start_eq_ok {schema : Schema} (policy : DuplicatePolicy) (h : schema.Valid) :
    start schema policy = .ok ⟨schema, .start schema.name policy, []⟩ := by
  rw [start, h]

theorem eq_of_start {schema : Schema} {policy : DuplicatePolicy} {c : Compiler}
    (hc : start schema policy = .ok c) :
    schema.Valid ∧ c = ⟨schema, .start schema.name policy, []⟩ := by
  unfold start at hc
  split at hc
  next hvalid =>
    cases hc
    exact ⟨hvalid, rfl⟩
  · cases hc

/-- What is kept by every record that a line defines holds of the builder after every run. -/
theorem builder_performAll {schema : Schema} {policy : DuplicatePolicy} {c : Compiler}
    {P : TableBuilder → Prop} (hc : start schema policy = .ok c)
    (hstart : P (.start schema.name policy))
    (hadd : ∀ b line text r, Reading.ofLine schema line text = .defines r → P b → P (b.add r).1)
    (steps : List Step) :
    (c.performAll steps).schema = schema ∧ P (c.performAll steps).builder := by
  refine performAll_induction (P := fun c => c.schema = schema ∧ P c.builder) ?_
    (fun _ _ hc => hc) steps ?_
  · intro c origin line text h
    obtain ⟨hschema, hbuilder⟩ := h
    refine ⟨(schema_compileLine c origin line text).trans hschema, ?_⟩
    rcases builder_compileLine c origin line text with he | ⟨r, hr, he⟩
    · rwa [he]
    · rw [he]
      rw [hschema] at hr
      exact hadd c.builder line text r hr hbuilder
  · obtain ⟨-, rfl⟩ := eq_of_start hc
    exact ⟨rfl, hstart⟩

/-- Every run keeps the index a bijection between mnemonics and positions. -/
theorem isIndexed_performAll {schema : Schema} {policy : DuplicatePolicy} {c : Compiler}
    (hc : start schema policy = .ok c) (steps : List Step) :
    (c.performAll steps).builder.IsIndexed :=
  (builder_performAll hc (TableBuilder.isIndexed_start _ _)
    (fun _ _ _ r _ h => TableBuilder.isIndexed_add h r) steps).2

/-! ### Resolved records -/

/-- The records that were taken in are resolved under the schema, and the schema is this one. -/
def IsResolved (schema : Schema) (c : Compiler) : Prop :=
  c.schema = schema ∧ ∀ r ∈ c.builder.records, r.ResolvedUnder schema

theorem resolvedUnder_of_ofLine {schema : Schema} {line : Nat} {text : String} {r : Record}
    (h : Reading.ofLine schema line text = .defines r) : r.ResolvedUnder schema := by
  obtain ⟨spec, encoding, -, hencoding, rfl⟩ := Reading.ofLine_eq_defines_iff.mp h
  exact ⟨spec, line, encoding, hencoding, rfl⟩

theorem isResolved_performAll {schema : Schema} {policy : DuplicatePolicy} {c : Compiler}
    (hc : start schema policy = .ok c) (steps : List Step) :
    (c.performAll steps).IsResolved schema := by
  refine builder_performAll (P := fun b => ∀ r ∈ b.records, r.ResolvedUnder schema) hc ?_ ?_ steps
  · exact fun _ hr => absurd hr List.not_mem_nil
  · intro b line text r hr hb s hs
    rcases TableBuilder.mem_records_add hs with rfl | hs
    · exact resolvedUnder_of_ofLine hr
    · exact hb s hs

end Compiler

end OpTable
