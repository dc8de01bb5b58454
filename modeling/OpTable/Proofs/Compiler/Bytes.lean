import Mathlib.Data.List.Forall2
import OpTable.Proofs.Compiler.Reading
import OpTable.Proofs.SpecLine
import OpTable.Proofs.Text.Utf8

/-!
# Byte streams and texts

A byte stream is read like the text that is left when the lines that are not UTF-8 are emptied
(`Line.keepUtf8`): the same records are taken in, under the same positions in the index, and the
same is said about them. Each emptied line adds one error of its own.

The two readers do not end their lines alike: a text keeps a carriage return that no newline
follows. That is a blank at the end of a line, which no line shows.
-/

namespace OpTable

namespace Text

open Utf8

theorem toNat_newline : '\n'.toNat = (0x0A : UInt8).toNat := rfl

theorem toNat_return : '\r'.toNat = (0x0D : UInt8).toNat := rfl

theorem isUtf8_dropLastMark_iff {content : List UInt8} :
    IsUtf8 (Line.dropLastMark 0x0D content) ↔ IsUtf8 content := by
  constructor
  · intro h
    obtain ⟨text, htext⟩ := h
    rw [decode_eq_ok_iff] at htext
    rcases Line.eq_or_eq_concat_mark 0x0D content with he | he
    · rw [he] at htext
      rw [htext]
      exact isUtf8_encode text
    · rw [he, htext, ← encode_concat (by decide) toNat_return]
      exact isUtf8_encode _
  · intro h
    obtain ⟨text, htext⟩ := h
    rw [decode_eq_ok_iff] at htext
    rw [htext, dropLastMark_encode (by decide) toNat_return]
    exact isUtf8_encode _

/-- The line, emptied unless it is UTF-8. -/
def Line.keepUtf8 (line : Line UInt8) : Line UInt8 :=
  if IsUtf8 line.content then line else { line with content := [] }

/-- The bytes with every line emptied that is not UTF-8. -/
def Line.keepUtf8Lines (bytes : List UInt8) : List UInt8 :=
  join 0x0A ((cut 0x0A bytes).map keepUtf8)

theorem Line.keepUtf8Lines_append_cons {content : List UInt8} (h : 0x0A ∉ content)
    (rest : List UInt8) : keepUtf8Lines (content ++ 0x0A :: rest) =
      (if IsUtf8 content then content else []) ++ 0x0A :: keepUtf8Lines rest := by
  have hline : (keepUtf8 ⟨content, true⟩).ended = true ∧
      (keepUtf8 ⟨content, true⟩).content = if IsUtf8 content then content else [] := by
    unfold keepUtf8
    split <;> exact ⟨rfl, rfl⟩
  rw [keepUtf8Lines, cut_append_cons h, List.map_cons, join_cons, if_pos hline.1, hline.2,
    List.append_assoc]
  rfl

theorem Line.keepUtf8Lines_of_not_mem {content : List UInt8} (hne : content ≠ [])
    (h : 0x0A ∉ content) : keepUtf8Lines content = if IsUtf8 content then content else [] := by
  have hline : (keepUtf8 ⟨content, false⟩).ended = false ∧
      (keepUtf8 ⟨content, false⟩).content = if IsUtf8 content then content else [] := by
    unfold keepUtf8
    split <;> exact ⟨rfl, rfl⟩
  rw [keepUtf8Lines, cut_of_not_mem hne h, List.map_singleton, join_cons, hline.1, hline.2]
  exact List.append_nil _

theorem encode_append_newline (text more : List Char) :
    encode (text ++ '\n' :: more) = encode text ++ 0x0A :: encode more := by
  rw [encode_append, encode_cons_ascii (by decide) toNat_newline]

theorem isUtf8_of_mem_cut_encode (text : List Char) :
    ∀ line ∈ Line.cut 0x0A (encode text), IsUtf8 line.content := by
  induction text using Line.cut_induction '\n' with
  | nil => exact fun _ hline => absurd hline List.not_mem_nil
  | last content hne h =>
    have hbytes : (0x0A : UInt8) ∉ encode content :=
      fun hmem => h (mem_of_mem_encode (by decide) toNat_newline hmem)
    by_cases hnil : encode content = []
    · rw [hnil]
      exact fun _ hline => absurd hline List.not_mem_nil
    · rw [Line.cut_of_not_mem hnil hbytes, List.forall_mem_singleton]
      exact isUtf8_encode content
  | ended content rest h ih =>
    have hbytes : (0x0A : UInt8) ∉ encode content :=
      fun hmem => h (mem_of_mem_encode (by decide) toNat_newline hmem)
    rw [encode_append_newline, Line.cut_append_cons hbytes, List.forall_mem_cons]
    exact ⟨isUtf8_encode content, ih⟩

theorem Line.keepUtf8Lines_encode (text : List Char) :
    keepUtf8Lines (encode text) = encode text := by
  have hkeep : (cut 0x0A (encode text)).map keepUtf8 = cut 0x0A (encode text) := by
    refine (List.map_congr_left fun line hline => ?_).trans (List.map_id _)
    exact if_pos (isUtf8_of_mem_cut_encode text line hline)
  rw [keepUtf8Lines, hkeep, join_cut]

end Text

/-! ### What lines report -/

def CompileError.isInvalidUtf8 : CompileError → Bool
  | .invalidUtf8 _ => true
  | _ => false

namespace Layout

variable {schema : Schema}

theorem isInvalidUtf8_of_fieldToken {text : String} {e : CompileError}
    (h : fieldToken schema text = .error e) : e.isInvalidUtf8 = false := by
  unfold fieldToken at h
  split at h
  · cases h
    rfl
  · split at h
    · cases h
    · cases h
      rfl

theorem isInvalidUtf8_of_opcodeToken {text : String} {e : CompileError}
    (h : opcodeToken schema text = .error e) : e.isInvalidUtf8 = false := by
  unfold opcodeToken at h
  split at h
  · cases h
    rfl
  · split at h
    · cases h
    · cases h
      rfl
  · cases h
    rfl

theorem mem_faults {α : Type} {outcomes : List (Except CompileError α)} {e : CompileError}
    (h : e ∈ faults outcomes) : .error e ∈ outcomes := by
  obtain ⟨outcome, hmem, he⟩ := List.mem_filterMap.mp h
  cases outcome with
  | error e' =>
    cases he
    exact hmem
  | ok a => cases he

theorem isInvalidUtf8_of_ofLine {line : SpecLine} {errors : List CompileError}
    (h : Encoding.ofLine schema line = .error errors) : ∀ e ∈ errors, e.isInvalidUtf8 = false := by
  have hfields : ∀ e ∈ faults (line.fields.map (fieldToken schema)), e.isInvalidUtf8 = false := by
    intro e he
    obtain ⟨text, -, htext⟩ := List.mem_map.mp (mem_faults he)
    exact isInvalidUtf8_of_fieldToken htext
  unfold Encoding.ofLine at h
  split at h
  · cases h
    exact fun e he => List.mem_singleton.mp he ▸ rfl
  · dsimp only at h
    split at h
    next e hopcode =>
      cases h
      rw [List.forall_mem_cons]
      exact ⟨isInvalidUtf8_of_opcodeToken hopcode, hfields⟩
    next e errors hopcode hfaults =>
      cases h
      rw [← hfaults]
      exact hfields
    · split at h
      · cases h
        exact fun e he => List.mem_singleton.mp he ▸ rfl
      · cases h

end Layout

namespace Compiler

theorem isInvalidUtf8_of_faulty {schema : Schema} {line : Nat} {text : String}
    {errors : List CompileError} (h : Reading.ofLine schema line text = .faulty errors) :
    ∀ e ∈ errors, e.isInvalidUtf8 = false := by
  unfold Reading.ofLine at h
  split at h
  · cases h
  · cases h
    exact fun e he => List.mem_singleton.mp he ▸ rfl
  · split at h
    · cases h
    next hline =>
      cases h
      exact Layout.isInvalidUtf8_of_ofLine hline

theorem isInvalidUtf8_of_duplicate? {policy : DuplicatePolicy} {mnemonic : String} {added : Added}
    {severity : Severity} {e : CompileError}
    (h : duplicate? policy mnemonic added = some (severity, e)) : e.isInvalidUtf8 = false := by
  unfold duplicate? at h
  split at h
  · cases h
  · split at h
    · cases h
      rfl
    · cases h
  · cases h
    rfl

/-- The diagnostic is one about this line, and not for its bytes. -/
def IsRemark (line : Nat) (d : Diagnostic) : Prop := d.line = line ∧ d.error.isInvalidUtf8 = false

theorem isInvalidUtf8_of_mem_remarks {schema : Schema} {builder : TableBuilder} {line : Nat}
    {text : String} {remark : Severity × CompileError}
    (h : remark ∈ (Reading.ofLine schema line text).remarks builder) :
    remark.2.isInvalidUtf8 = false := by
  cases hr : Reading.ofLine schema line text with
  | blank =>
    rw [hr] at h
    exact absurd h List.not_mem_nil
  | faulty errors =>
    rw [hr] at h
    obtain ⟨e, he, rfl⟩ := List.mem_map.mp h
    exact isInvalidUtf8_of_faulty hr e he
  | defines r =>
    rw [hr] at h
    exact isInvalidUtf8_of_duplicate? (Option.mem_toList.mp h)

/-- A line adds remarks about itself to whatever was said before. -/
theorem compileLine_remarks (schema : Schema) (builder : TableBuilder) (origin : String)
    (line : Nat) (text : String) :
    ∃ builder' remarks, (∀ d ∈ remarks, IsRemark line d) ∧
      ∀ diagnostics, compileLine ⟨schema, builder, diagnostics⟩ origin line text =
        ⟨schema, builder', diagnostics ++ remarks⟩ := by
  refine ⟨(Reading.ofLine schema line text).taken builder,
    ((Reading.ofLine schema line text).remarks builder).map fun remark =>
      .about origin line text remark.1 remark.2,
    ?_, fun diagnostics => compileLine_eq ⟨schema, builder, diagnostics⟩ origin line text⟩
  rw [List.forall_mem_map]
  exact fun remark hremark => ⟨rfl, isInvalidUtf8_of_mem_remarks hremark⟩

/-! ### Lines that show nothing of their end -/

theorem ofText_concat {blank : Char} (hblank : Text.isBlank blank = true) (text : List Char) :
    SpecLine.Content.ofText (String.ofList (text ++ [blank])) =
      SpecLine.Content.ofText (String.ofList text) := by
  have hne : blank ≠ '#' := by
    rintro rfl
    cases hblank
  have hend : [blank].takeWhile (· != '#') = [blank] := by simp [hne]
  have hwords : Text.words (SpecLine.code (text ++ [blank])) = Text.words (SpecLine.code text) := by
    rw [SpecLine.code, SpecLine.code, List.takeWhile_append]
    split
    next hall =>
      have hself : text.takeWhile (· != '#') = text :=
        (List.takeWhile_prefix _).eq_of_length hall
      rw [hend, Text.words_concat hblank, hself]
    · rfl
  rw [SpecLine.Content.ofText, SpecLine.Content.ofText, String.toList_ofList, String.toList_ofList,
    hwords]

theorem compileLine_concat {blank : Char} (hblank : Text.isBlank blank = true) (c : Compiler)
    (origin : String) (line : Nat) (text : List Char) :
    c.compileLine origin line (String.ofList (text ++ [blank])) =
      c.compileLine origin line (String.ofList text) := by
  have habout : Diagnostic.about origin line (String.ofList (text ++ [blank])) =
      Diagnostic.about origin line (String.ofList text) := by
    funext severity error
    simp only [Diagnostic.about, String.toList_ofList, Text.trim_concat hblank]
  have hread : ∀ schema, Reading.ofLine schema line (String.ofList (text ++ [blank])) =
      Reading.ofLine schema line (String.ofList text) := by
    intro schema
    rw [Reading.ofLine, ofText_concat hblank]
    rfl
  rw [compileLine_eq, hread, habout, ← compileLine_eq]

theorem compileLine_nil (c : Compiler) (origin : String) (line : Nat) :
    c.compileLine origin line (String.ofList []) = c := by
  have hread : Reading.ofLine c.schema line (String.ofList []) = .blank := rfl
  rw [compileLine_eq, hread, Reading.remarks, List.map_nil, List.append_nil]
  rfl

/-! ### Reports on byte streams -/

/-- The diagnostic is the error about this line, whose number comes with it. -/
def IsUtf8Error (origin : String) (d : Diagnostic) (entry : Text.Line UInt8 × Nat) : Prop :=
  let content := Text.Line.dropLastMark 0x0D entry.1.content
  ∃ fault, Text.Utf8.decode content = .error fault ∧
    d = .about origin entry.2 (String.ofList (Text.Utf8.decodeLossy content)) .error
      (.invalidUtf8 fault)

/-- What is said about the lines of a byte stream, of which the first is number `line`: the remarks
on their texts and an error for each line that is not UTF-8, in the order of the lines. -/
structure Reports (origin : String) (line : Nat) (lines : List (Text.Line UInt8))
    (remarks reports : List Diagnostic) : Prop where
  line_le : ∀ d ∈ reports, line ≤ d.line
  ordered : reports.Pairwise fun d e => d.line ≤ e.line
  remarks_eq : reports.filter (fun d => !d.error.isInvalidUtf8) = remarks
  errors : List.Forall₂ (IsUtf8Error origin) (reports.filter fun d => d.error.isInvalidUtf8)
    ((lines.zipIdx line).filter fun entry => !decide (Text.Utf8.IsUtf8 entry.1.content))

namespace Reports

variable {origin : String} {line : Nat} {lines : List (Text.Line UInt8)}
  {remarks reports : List Diagnostic} {first : Text.Line UInt8}

theorem nil : Reports origin line [] [] [] where
  line_le := fun _ hd => absurd hd List.not_mem_nil
  ordered := List.Pairwise.nil
  remarks_eq := rfl
  errors := List.Forall₂.nil

theorem cons_utf8 {added : List Diagnostic} (h : Reports origin (line + 1) lines remarks reports)
    (hfirst : Text.Utf8.IsUtf8 first.content) (hadded : ∀ d ∈ added, IsRemark line d) :
    Reports origin line (first :: lines) (added ++ remarks) (added ++ reports) where
  line_le := by
    rw [List.forall_mem_append]
    refine ⟨fun d hd => Nat.le_of_eq (hadded d hd).1.symm, fun d hd => ?_⟩
    have hle := h.line_le d hd
    omega
  ordered := by
    refine List.pairwise_append.mpr ⟨?_, h.ordered, ?_⟩
    · refine List.pairwise_of_forall_mem_list ?_
      intro d hd e he
      have hline := (hadded d hd).1
      have hline' := (hadded e he).1
      omega
    · intro d hd e he
      have hline := (hadded d hd).1
      have hle := h.line_le e he
      omega
  remarks_eq := by
    have hall : added.filter (fun d => !d.error.isInvalidUtf8) = added := by
      rw [List.filter_eq_self]
      intro d hd
      rw [(hadded d hd).2]
      rfl
    rw [List.filter_append, hall, h.remarks_eq]
  errors := by
    have hnone : added.filter (fun d => d.error.isInvalidUtf8) = [] := by
      rw [List.filter_eq_nil_iff]
      intro d hd
      rw [(hadded d hd).2]
      exact Bool.false_ne_true
    rw [List.filter_append, hnone, List.nil_append, List.zipIdx_cons, List.filter_cons_of_neg]
    · exact h.errors
    · simpa using hfirst

theorem cons_error {d : Diagnostic} (h : Reports origin (line + 1) lines remarks reports)
    (hfirst : ¬ Text.Utf8.IsUtf8 first.content) (hd : IsUtf8Error origin d (first, line)) :
    Reports origin line (first :: lines) remarks (d :: reports) := by
  have herror : d.error.isInvalidUtf8 = true ∧ d.line = line := by
    obtain ⟨fault, -, rfl⟩ := hd
    exact ⟨rfl, rfl⟩
  obtain ⟨herror, hline⟩ := herror
  have hle : ∀ e ∈ reports, d.line ≤ e.line := by
    intro e he
    have hle := h.line_le e he
    omega
  exact {
    line_le := by
      rw [List.forall_mem_cons]
      refine ⟨Nat.le_of_eq hline.symm, fun e he => ?_⟩
      have hle := hle e he
      omega
    ordered := List.Pairwise.cons hle h.ordered
    remarks_eq := by
      rw [List.filter_cons_of_neg, h.remarks_eq]
      simpa using herror
    errors := by
      rw [List.filter_cons, if_pos herror, List.zipIdx_cons, List.filter_cons_of_pos]
      · exact List.Forall₂.cons hd h.errors
      · simpa using hfirst }

/-- Without lines that are not UTF-8 there is nothing to report but the remarks. -/
theorem eq_remarks (h : Reports origin line lines remarks reports)
    (hlines : ∀ l ∈ lines, Text.Utf8.IsUtf8 l.content) : reports = remarks := by
  have hnone : (lines.zipIdx line).filter
      (fun entry => !decide (Text.Utf8.IsUtf8 entry.1.content)) = [] := by
    rw [List.filter_eq_nil_iff]
    intro entry hentry
    have hutf8 := hlines entry.1 (List.fst_mem_of_mem_zipIdx hentry)
    simpa using hutf8
  have herrors := h.errors
  rw [hnone, List.forall₂_nil_right_iff, List.filter_eq_nil_iff] at herrors
  rw [← h.remarks_eq, List.filter_eq_self.mpr]
  intro d hd
  simpa using herrors d hd

end Reports

/-! ### Byte streams -/

open Text Utf8

theorem compileByteLine_utf8 (c : Compiler) (origin : String) (line : Nat) (text : List Char) :
    c.compileByteLine origin line (Line.dropLastMark 0x0D (encode text)) =
      c.compileLine origin line (String.ofList (Line.dropLastMark '\r' text)) := by
  have hdecode := decode_eq_ok_iff.mpr (dropLastMark_encode (by decide) toNat_return text)
  rw [compileByteLine, hdecode]

theorem compileByteLine_error {content : List UInt8} (h : ¬ IsUtf8 content) (origin : String)
    (line : Nat) (ended : Bool) :
    ∃ d, IsUtf8Error origin d (⟨content, ended⟩, line) ∧
      ∀ schema builder diagnostics, compileByteLine ⟨schema, builder, diagnostics⟩ origin line
        (Line.dropLastMark 0x0D content) = ⟨schema, builder, diagnostics ++ [d]⟩ := by
  cases hdecode : decode (Line.dropLastMark 0x0D content) with
  | ok text => exact absurd (isUtf8_dropLastMark_iff.mp ⟨text, hdecode⟩) h
  | error fault =>
    refine ⟨_, ⟨fault, hdecode, rfl⟩, fun schema builder diagnostics => ?_⟩
    rw [compileByteLine, hdecode]

/-- A carriage return at the end of a line is not seen. -/
theorem compileLine_dropLastMark (c : Compiler) (origin : String) (line : Nat)
    (text : List Char) :
    c.compileLine origin line (String.ofList (Line.dropLastMark '\r' text)) =
      c.compileLine origin line (String.ofList text) := by
  rcases Line.eq_or_eq_concat_mark '\r' text with he | he
  · rw [he]
  · have hconcat := compileLine_concat (by decide : isBlank '\r' = true) c origin line
      (Line.dropLastMark '\r' text)
    rw [← hconcat, ← he]

/-- The lines of the stream and of the text have the same effect, but for what is reported. -/
def Agree (origin : String) (bytes : List UInt8) (text : List Char) : Prop :=
  ∀ schema builder line, ∃ builder' remarks reports,
    (∀ diagnostics, compileLines ⟨schema, builder, diagnostics⟩ origin line (Line.ofText text) =
      ⟨schema, builder', diagnostics ++ remarks⟩) ∧
    (∀ diagnostics, compileByteLines ⟨schema, builder, diagnostics⟩ origin line
      (Line.ofBytes bytes) = ⟨schema, builder', diagnostics ++ reports⟩) ∧
    Reports origin line (Line.cut 0x0A bytes) remarks reports

theorem agree_nil (origin : String) : Agree origin [] [] := by
  intro schema builder line
  refine ⟨builder, [], [], ?_, ?_, .nil⟩
  · exact fun diagnostics => congrArg _ (List.append_nil diagnostics).symm
  · exact fun diagnostics => congrArg _ (List.append_nil diagnostics).symm

theorem agree_last_utf8 {text : List Char} (hne : encode text ≠ []) (h : 0x0A ∉ encode text)
    (origin : String) : Agree origin (encode text) text := by
  have htext : text ≠ [] := by
    rintro rfl
    exact hne rfl
  have hnewline : '\n' ∉ text := fun hmem => h (mem_encode_of_mem (by decide) toNat_newline hmem)
  intro schema builder line
  obtain ⟨builder', remarks, hremarks, hline⟩ :=
    compileLine_remarks schema builder origin line (String.ofList text)
  refine ⟨builder', remarks, remarks, ?_, ?_, ?_⟩
  · intro diagnostics
    rw [Line.ofText_of_not_mem htext hnewline]
    exact hline diagnostics
  · intro diagnostics
    rw [Line.ofBytes_of_not_mem hne h, compileByteLines, compileByteLine_utf8,
      compileLine_dropLastMark, hline]
    rfl
  · rw [Line.cut_of_not_mem hne h]
    have hreports : Reports origin line [⟨encode text, false⟩] (remarks ++ []) (remarks ++ []) :=
      Reports.nil.cons_utf8 (isUtf8_encode text) hremarks
    rwa [List.append_nil] at hreports

theorem agree_last_error {content : List UInt8} (hne : content ≠ []) (h : 0x0A ∉ content)
    (hcontent : ¬ IsUtf8 content) (origin : String) : Agree origin content [] := by
  intro schema builder line
  obtain ⟨d, hd, hline⟩ := compileByteLine_error hcontent origin line false
  refine ⟨builder, [], [d], ?_, ?_, ?_⟩
  · exact fun diagnostics => congrArg _ (List.append_nil diagnostics).symm
  · intro diagnostics
    rw [Line.ofBytes_of_not_mem hne h, compileByteLines, hline]
    rfl
  · rw [Line.cut_of_not_mem hne h]
    exact Reports.nil.cons_error hcontent hd

theorem agree_ended_utf8 {text more : List Char} {rest : List UInt8} {origin : String}
    (h : 0x0A ∉ encode text) (hrest : Agree origin rest more) :
    Agree origin (encode text ++ 0x0A :: rest) (text ++ '\n' :: more) := by
  have hnewline : '\n' ∉ text := fun hmem => h (mem_encode_of_mem (by decide) toNat_newline hmem)
  intro schema builder line
  obtain ⟨builder₁, remarks₁, hremarks, hline⟩ :=
    compileLine_remarks schema builder origin line (String.ofList (Line.dropLastMark '\r' text))
  obtain ⟨builder₂, remarks₂, reports₂, hlines, hbytes, hreports⟩ :=
    hrest schema builder₁ (line + 1)
  refine ⟨builder₂, remarks₁ ++ remarks₂, remarks₁ ++ reports₂, ?_, ?_, ?_⟩
  · intro diagnostics
    rw [Line.ofText_append_cons hnewline, compileLines, hline, hlines, List.append_assoc]
  · intro diagnostics
    rw [Line.ofBytes_append_cons h, compileByteLines, compileByteLine_utf8, hline, hbytes,
      List.append_assoc]
  · rw [Line.cut_append_cons h]
    exact hreports.cons_utf8 (isUtf8_encode text) hremarks

theorem agree_ended_error {content rest : List UInt8} {more : List Char} {origin : String}
    (h : 0x0A ∉ content) (hcontent : ¬ IsUtf8 content) (hrest : Agree origin rest more) :
    Agree origin (content ++ 0x0A :: rest) ('\n' :: more) := by
  intro schema builder line
  obtain ⟨d, hd, hline⟩ := compileByteLine_error hcontent origin line true
  obtain ⟨builder', remarks, reports, hlines, hbytes, hreports⟩ := hrest schema builder (line + 1)
  refine ⟨builder', remarks, d :: reports, ?_, ?_, ?_⟩
  · intro diagnostics
    have hfirst : Line.ofText ('\n' :: more) = [] :: Line.ofText more :=
      Line.ofText_append_cons List.not_mem_nil more
    rw [hfirst, compileLines, compileLine_nil, hlines]
  · intro diagnostics
    rw [Line.ofBytes_append_cons h, compileByteLines, hline, hbytes, List.append_assoc]
    rfl
  · rw [Line.cut_append_cons h]
    exact hreports.cons_error hcontent hd

theorem exists_agree (origin : String) (bytes : List UInt8) :
    ∃ text, Line.keepUtf8Lines bytes = encode text ∧ Agree origin bytes text := by
  induction bytes using Line.cut_induction (0x0A : UInt8) with
  | nil => exact ⟨[], rfl, agree_nil origin⟩
  | last content hne h =>
    rw [Line.keepUtf8Lines_of_not_mem hne h]
    by_cases hcontent : IsUtf8 content
    · obtain ⟨text, htext⟩ := hcontent
      rw [if_pos ⟨text, htext⟩]
      rw [decode_eq_ok_iff] at htext
      subst htext
      exact ⟨text, rfl, agree_last_utf8 hne h origin⟩
    · rw [if_neg hcontent]
      exact ⟨[], rfl, agree_last_error hne h hcontent origin⟩
  | ended content rest h ih =>
    obtain ⟨more, hmore, hagree⟩ := ih
    rw [Line.keepUtf8Lines_append_cons h, hmore]
    by_cases hcontent : IsUtf8 content
    · obtain ⟨text, htext⟩ := hcontent
      rw [if_pos ⟨text, htext⟩]
      rw [decode_eq_ok_iff] at htext
      subst htext
      exact ⟨text ++ '\n' :: more, (encode_append_newline text more).symm,
        agree_ended_utf8 h hagree⟩
    · rw [if_neg hcontent]
      exact ⟨'\n' :: more, (encode_append_newline [] more).symm,
        agree_ended_error h hcontent hagree⟩

theorem exists_compileText (c : Compiler) (origin : String) (bytes : List UInt8) :
    ∃ text remarks reports, decode (Line.keepUtf8Lines bytes) = .ok text ∧
      c.compileText origin (String.ofList text) =
        { c.compileBytes origin bytes with diagnostics := c.diagnostics ++ remarks } ∧
      (c.compileBytes origin bytes).diagnostics = c.diagnostics ++ reports ∧
      Reports origin 1 (Line.cut 0x0A bytes) remarks reports := by
  obtain ⟨text, htext, hagree⟩ := exists_agree origin bytes
  obtain ⟨builder, remarks, reports, hlines, hread, hreports⟩ := hagree c.schema c.builder 1
  have hcompiled : c.compileText origin (String.ofList text) =
      ⟨c.schema, builder, c.diagnostics ++ remarks⟩ := by
    rw [compileText, String.toList_ofList]
    exact hlines c.diagnostics
  have hbytes : c.compileBytes origin bytes = ⟨c.schema, builder, c.diagnostics ++ reports⟩ :=
    hread c.diagnostics
  refine ⟨text, remarks, reports, decode_eq_ok_iff.mpr htext, ?_, ?_, hreports⟩
  · rw [hcompiled, hbytes]
  · rw [hbytes]

/-- A byte stream leaves the builder, with its records and its index, that its text leaves when the
lines that are not UTF-8 are emptied. To the remarks on that text come the errors about those lines,
and a stream that is UTF-8 does what its text does. -/
theorem compileBytes_keepUtf8Lines (c : Compiler) (origin : String) :
    (∀ bytes, ∃ text remarks reports, decode (Line.keepUtf8Lines bytes) = .ok text ∧
      c.compileText origin (String.ofList text) =
        { c.compileBytes origin bytes with diagnostics := c.diagnostics ++ remarks } ∧
      (c.compileBytes origin bytes).diagnostics = c.diagnostics ++ reports ∧
      Reports origin 1 (Line.cut 0x0A bytes) remarks reports) ∧
    ∀ text : String, c.compileBytes origin (encode text.toList) = c.compileText origin text := by
  refine ⟨exists_compileText c origin, fun text => ?_⟩
  obtain ⟨read, remarks, reports, hdecode, hcompiled, hdiagnostics, hreports⟩ :=
    exists_compileText c origin (encode text.toList)
  rw [Line.keepUtf8Lines_encode, decode_eq_ok_iff] at hdecode
  have hall := hreports.eq_remarks (isUtf8_of_mem_cut_encode text.toList)
  rw [← encode_injective hdecode, String.ofList_toList, ← hall, ← hdiagnostics] at hcompiled
  exact hcompiled.symm

end Compiler

end OpTable
