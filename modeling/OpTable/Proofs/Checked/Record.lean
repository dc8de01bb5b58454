import OpTable.Proofs.Checked.Layout
import OpTable.Proofs.Compiler.Run
import OpTable.Proofs.Layout.Accepted
import OpTable.Proofs.Record.Encoding

/-!
# Checked records

The words of a record are built, compared and taken apart with operations that can fail. The slots
of a line that was accepted stand inside a word of 64 bits and are filled by what they hold, so no
shift reaches 64 places and nothing is shifted out. `inRange_of_valid` collects this with what holds
for the line itself.

Everywhere else widths and positions are natural numbers, and results that put no bound on the
length of a line speak of these: `Decoder.decode?_performAll`, `Record.encode_withSignedImmediate`,
`Record.immediateValue?_unsigned`, `Record.matches_iff_codes`, `Render.Constants.numbers_exact`.
Widths that are kept in 32 bits are the same numbers for lines of less than 2^26 bytes, which is
what `inRange_of_valid` says, and for longer lines these results say nothing about them.
-/

namespace OpTable

/-! ### Slots -/

/-- The slot stands inside a word and is filled. -/
structure Slot.IsInWord (slot : Slot) : Prop where
  lsb_lt : slot.lsb < 64
  top_le : slot.width + slot.lsb ≤ 64
  filled : slot.IsFilled

theorem Record.ResolvedUnder.isInWord {schema : Schema} (hs : schema.Valid) {r : Record}
    (hr : r.ResolvedUnder schema) : ∀ slot ∈ r.layout, slot.IsInWord := by
  intro slot hslot
  have hwell := hr.wellFormed
  have htop := hwell.stacked.le_widthOf hslot
  have hword : Layout.widthOf r.layout ≤ 64 := hwell.wordWidth_le
  have hpos : 1 ≤ slot.width := by
    obtain ⟨spec, line, encoding, hencoding, rfl⟩ := hr
    obtain ⟨opcode, tokens, hreads, -, rfl⟩ := Layout.ofLine_eq_ok_iff.mp hencoding
    exact Layout.width_pos_of_mem_layout hs hreads.width_eq hslot
  exact ⟨by omega, by omega, hwell.stacked.filled slot hslot⟩

namespace Checked

def slotMask (slot : Slot) : Option Word := do
  let low ← lowMask slot.width
  raise low slot.lsb

def extract (slot : Slot) (word : Word) : Option Word := bits word slot.lsb slot.width

theorem slotMask_eq {slot : Slot} (h : slot.IsInWord) : slotMask slot = some slot.mask := by
  simp only [slotMask, lowMask_eq, Option.bind_eq_bind, Option.bind_some,
    raise_eq (Word.toNat_lowMask_lt slot.width) h.top_le h.lsb_lt]
  rfl

theorem extract_eq {slot : Slot} (h : slot.IsInWord) (word : Word) :
    extract slot word = some (slot.extract word) := bits_eq word slot.width h.lsb_lt

/-- What fits the slot is put into the word whole. -/
theorem raise_place {slot : Slot} (h : slot.IsInWord) {bits : Word}
    (hbits : bits.toNat < 2 ^ slot.width) : raise bits slot.lsb = some (slot.place bits) :=
  raise_eq hbits h.top_le h.lsb_lt

/-! ### Matching -/

def mask (r : Record) : Option Word :=
  r.layout.foldlM
    (fun word slot =>
      if slot.content.matched?.isSome then do
        let bits ← slotMask slot
        some (word ||| bits)
      else some word) 0#64

def matchValue (r : Record) : Option Word :=
  r.layout.foldlM
    (fun word slot =>
      match slot.content.matched? with
      | some bits => do
        let placed ← raise bits.value slot.lsb
        some (word ||| placed)
      | none => some word) 0#64

def matchesWord (r : Record) (word : Word) : Option Bool := do
  let mask ← mask r
  let value ← matchValue r
  some (decide (word &&& mask = value))

section Matching

variable {r : Record} (h : ∀ slot ∈ r.layout, slot.IsInWord)

include h

theorem mask_eq : mask r = some r.mask := by
  refine foldlM_eq (fun slot hslot word => ?_) _
  simp only [slotMask_eq (h slot hslot), Option.bind_eq_bind, Option.bind_some]
  exact (apply_ite some _ _ _).symm

theorem matchValue_eq : matchValue r = some r.matchValue := by
  refine foldlM_eq (fun slot hslot word => ?_) _
  cases hmatched : slot.content.matched? with
  | none => rfl
  | some bits =>
    have hslot := h slot hslot
    simp only [raise_place hslot (hslot.filled.matched_lt hmatched), Option.bind_eq_bind,
      Option.bind_some]

theorem matchesWord_eq (word : Word) : matchesWord r word = some (decide (r.Matches word)) := by
  simp only [matchesWord, mask_eq h, matchValue_eq h, Option.bind_eq_bind, Option.bind_some]
  rfl

end Matching

/-! ### Immediates -/

def immediateWidth (r : Record) (field : String) : Option (Option Nat) := do
  let widths ← (r.immediateAssembly.filter (·.slice.field = field)).mapM fun segment =>
    add segment.slice.high 1
  some widths.max?

def immediateValue (r : Record) (field : String) (raw : Word) : Option (Option Int) := do
  let width ← immediateWidth r field
  match width with
  | none => some none
  | some width =>
    if r.isSignedImmediate field then do
      let value ← signExtend raw width
      some (some value)
    else do
      let mask ← lowMask width
      some (some (raw &&& mask).toInt)

theorem immediateWidth_eq (r : Record) (field : String) :
    immediateWidth r field = some (r.immediateWidth? field) := by
  have hwidths := mapM_eq (l := r.immediateAssembly.filter (·.slice.field = field))
    fun (segment : PlacedSlice) _ =>
      add_eq (by have hhigh := segment.slice.high_lt; omega : segment.slice.high + 1 < 2 ^ 32)
  simp only [immediateWidth, hwidths, Option.bind_eq_bind, Option.bind_some]
  rfl

theorem immediateValue_eq (r : Record) (field : String) (raw : Word) :
    immediateValue r field raw = some (r.immediateValue? field raw) := by
  simp only [immediateValue, immediateWidth_eq, Option.bind_eq_bind, Option.bind_some]
  unfold Record.immediateValue?
  cases r.immediateWidth? field with
  | none => rfl
  | some width =>
    simp only [signExtend_eq, lowMask_eq, Option.bind_some]
    exact (apply_ite some _ _ _).symm

/-! ### Encoding -/

def immediateFits (signed : Bool) (value : Word) (width : Nat) : Option Bool :=
  if signed then fitsSigned value width else fitsUnsigned value width

def checkImmediate (r : Record) (ops : Operands) (field : String) :
    Option (Except OperandError Unit) :=
  match ops.immediates.get? field with
  | none => some (.error (.missingImmediate r.mnemonic field))
  | some value => do
    let known ← immediateWidth r field
    let width := known.getD 64
    let fits ← immediateFits (r.isSignedImmediate field) value width
    if fits then some (.ok ())
    else some (.error (.immediateOutOfRange r.mnemonic field value width))

def checkImmediates (r : Record) (ops : Operands) :
    List String → Option (Except OperandError Unit)
  | [] => some (.ok ())
  | field :: rest => do
    let checked ← checkImmediate r ops field
    match checked with
    | .ok () => checkImmediates r ops rest
    | .error e => some (.error e)

def slotBits (r : Record) (ops : Operands) (slot : Slot) : Option (Except OperandError Word) :=
  match slot.content with
  | .opcode bits => some (.ok bits.value)
  | .funct3 bits => some (.ok bits.value)
  | .funct7 bits => some (.ok bits.value)
  | .literal bits => some (.ok bits.value)
  | .register role =>
    match ops.registers.get? role with
    | none => some (.error (.missingRegister r.mnemonic role))
    | some value => do
      let mask ← lowMask slot.width
      if value &&& ~~~ mask = 0#64 then some (.ok value)
      else some (.error (.registerOutOfRange r.mnemonic role value slot.width))
  | .expression e => do
    let word ← compose (fun field => (ops.immediates.get? field).getD 0#64) 0#64 e.segments
    some (.ok word)

def encodeSlots (r : Record) (ops : Operands) (word : Word) :
    List Slot → Option (Except OperandError Word)
  | [] => some (.ok word)
  | slot :: rest => do
    let read ← slotBits r ops slot
    match read with
    | .ok bits => do
      let placed ← raise bits slot.lsb
      encodeSlots r ops (word ||| placed) rest
    | .error e => some (.error e)

def encode (r : Record) (ops : Operands) : Option (Except OperandError Word) := do
  let checked ← checkImmediates r ops r.immediateFields
  match checked with
  | .ok () => encodeSlots r ops 0#64 r.layout
  | .error e => some (.error e)

theorem immediateFits_eq (signed : Bool) (value : Word) {width : Nat} (hpos : 0 < width) :
    immediateFits signed value width = some (decide (Record.ImmediateFits signed value width)) := by
  cases signed with
  | false => exact fitsUnsigned_eq value width
  | true => exact fitsSigned_eq value hpos

theorem checkImmediate_eq (r : Record) (ops : Operands) (field : String) :
    checkImmediate r ops field = some (Record.checkImmediate r ops field) := by
  unfold checkImmediate Record.checkImmediate
  cases ops.immediates.get? field with
  | none => rfl
  | some value =>
    have hpos : 0 < (r.immediateWidth? field).getD 64 := by
      cases hwidth : r.immediateWidth? field with
      | none => decide
      | some width => exact (Record.immediateWidth?_bounds hwidth).1
    simp only [immediateWidth_eq, immediateFits_eq _ value hpos, Option.bind_eq_bind,
      Option.bind_some, decide_eq_true_eq]
    exact (apply_ite some _ _ _).symm

theorem checkImmediates_eq (r : Record) (ops : Operands) (fields : List String) :
    checkImmediates r ops fields = some (Record.checkImmediates r ops fields) := by
  induction fields with
  | nil => rfl
  | cons field rest ih =>
    simp only [checkImmediates, checkImmediate_eq, ih, Option.bind_eq_bind, Option.bind_some,
      Record.checkImmediates]
    cases Record.checkImmediate r ops field with
    | ok checked => rfl
    | error e => rfl

theorem slotBits_eq (r : Record) (ops : Operands) (slot : Slot) :
    slotBits r ops slot = some (Record.slotBits r ops slot) := by
  unfold slotBits Record.slotBits
  cases slot.content with
  | register role =>
    dsimp only
    cases ops.registers.get? role with
    | none => rfl
    | some value =>
      simp only [lowMask_eq, Option.bind_eq_bind, Option.bind_some]
      exact (apply_ite some _ _ _).symm
  | expression e =>
    have hzero : (0#64).toNat < 2 ^ 0 := by decide
    have hwidth : 0 + Segment.totalWidth e.segments ≤ 64 := by
      rw [Nat.zero_add]
      exact e.totalWidth_le
    simp only [compose_eq hzero hwidth, Option.bind_eq_bind, Option.bind_some]
    rfl
  | _ => rfl

section Encoding

variable {r : Record} {ops : Operands}

theorem encodeSlots_eq {layout : List Slot} (h : ∀ slot ∈ layout, slot.IsInWord) (word : Word) :
    encodeSlots r ops word layout = some (Record.encodeSlots r ops word layout) := by
  induction layout generalizing word with
  | nil => rfl
  | cons slot rest ih =>
    have hslot := h slot (List.mem_cons_self ..)
    have hrest := ih fun s hs => h s (List.mem_cons_of_mem _ hs)
    simp only [encodeSlots, slotBits_eq, Option.bind_eq_bind, Option.bind_some, Record.encodeSlots]
    cases hbits : Record.slotBits r ops slot with
    | error e => rfl
    | ok bits =>
      obtain ⟨rfl, hfits, -⟩ := Record.slotBits_eq_ok hslot.filled hbits
      have hplaced : raise (Record.slotValue ops slot) slot.lsb =
          some (slot.place (Record.slotValue ops slot)) := raise_place hslot hfits
      simp only [hplaced, hrest, Option.bind_some]

theorem encode_eq (h : ∀ slot ∈ r.layout, slot.IsInWord) : encode r ops = some (r.encode ops) := by
  simp only [encode, checkImmediates_eq, Option.bind_eq_bind, Option.bind_some, encodeSlots_eq h]
  unfold Record.encode
  cases Record.checkImmediates r ops r.immediateFields with
  | ok checked => rfl
  | error e => rfl

end Encoding

/-! ### Decoding -/

def decodeSlot (word : Word) (ops : Operands) (slot : Slot) : Option Operands :=
  match slot.content with
  | .register role => do
    let value ← extract slot word
    some (ops.withRegister role value)
  | .expression e => do
    let bits ← extract slot word
    let immediates ← scatter e bits ops.immediates
    some { ops with immediates }
  | _ => some ops

def decodeOperands (r : Record) (word : Word) : Option Operands :=
  r.layout.foldlM (decodeSlot word) ∅

theorem decodeOperands_eq {r : Record} (h : ∀ slot ∈ r.layout, slot.IsInWord) (word : Word) :
    decodeOperands r word = some (r.decodeOperands word) := by
  refine foldlM_eq (fun slot hslot ops => ?_) _
  have hextract := extract_eq (h slot hslot) word
  unfold decodeSlot Record.decodeSlot
  cases slot.content with
  | register role => simp only [hextract, Option.bind_eq_bind, Option.bind_some]
  | expression e => simp only [hextract, scatter_eq, Option.bind_eq_bind, Option.bind_some]
  | _ => rfl

end Checked

/-! ### Lines and their records -/

open Checked

/-- No operation fails when the text is read, be it as an expression, as a token or as a line. -/
structure ReadsInRange (schema : Schema) (text : String) : Prop where
  expression : ∀ widthOf, exprOfText widthOf text = some (BitExpr.ofText widthOf text)
  token : classify schema text = some (Token.classify schema text)
  line : ∀ spec, SpecLine.Content.ofText text = .definition spec →
    ofLine schema spec = some (Encoding.ofLine schema spec)

/-- No operation fails when words of the record are compared, built and taken apart. -/
structure Record.RunsInRange (r : Record) : Prop where
  mask : Checked.mask r = some r.mask
  matchValue : Checked.matchValue r = some r.matchValue
  matchesWord : ∀ word, Checked.matchesWord r word = some (decide (r.Matches word))
  encode : ∀ ops, Checked.encode r ops = some (r.encode ops)
  decodeOperands : ∀ word, Checked.decodeOperands r word = some (r.decodeOperands word)
  immediateWidth : ∀ field, Checked.immediateWidth r field = some (r.immediateWidth? field)
  immediateValue : ∀ field raw,
    Checked.immediateValue r field raw = some (r.immediateValue? field raw)

theorem Record.ResolvedUnder.runsInRange {schema : Schema} (hs : schema.Valid) {r : Record}
    (hr : r.ResolvedUnder schema) : r.RunsInRange where
  mask := mask_eq (hr.isInWord hs)
  matchValue := matchValue_eq (hr.isInWord hs)
  matchesWord := matchesWord_eq (hr.isInWord hs)
  encode := fun _ => encode_eq (hr.isInWord hs)
  decodeOperands := decodeOperands_eq (hr.isInWord hs)
  immediateWidth := immediateWidth_eq r
  immediateValue := immediateValue_eq r

/-- No sum, difference or shift leaves its range for a line of less than 2^26 bytes under a valid
schema, neither in reading the line nor in using the record that it defines. -/
theorem inRange_of_valid {schema : Schema} (hs : schema.Valid) {text : String}
    (hlength : Text.Utf8.byteLength text.toList < 2 ^ 26) (number : Nat) :
    ReadsInRange schema text ∧
      ∀ r, Compiler.Reading.ofLine schema number text = .defines r → r.RunsInRange := by
  have hchars : text.toList.length < 2 ^ 26 :=
    Nat.lt_of_le_of_lt (BitString.length_le_byteLength text.toList) hlength
  refine ⟨?_, ?_⟩
  · exact ⟨fun widthOf => exprOfText_eq widthOf hchars, classify_eq schema hchars,
      fun spec hspec => ofLine_eq hs (SpecLine.isShort_of_ofText hspec hchars)⟩
  · exact fun r hr => (Compiler.resolvedUnder_of_ofLine hr).runsInRange hs

theorem inRange_of_valid_overlapping :
    Schema.qcpu.Valid ∧ Text.Utf8.byteLength Record.overlappingLine.text.toList < 2 ^ 26 ∧
      ReadsInRange Schema.qcpu Record.overlappingLine.text ∧ Record.overlapping.RunsInRange := by
  have hs : Schema.qcpu.Valid := rfl
  have hlength : Text.Utf8.byteLength Record.overlappingLine.text.toList < 2 ^ 26 := by
    decide +kernel
  have hspec : SpecLine.Content.ofText Record.overlappingLine.text =
      .definition Record.overlappingLine := by decide +kernel
  have hencoding : Encoding.ofLine Schema.qcpu Record.overlappingLine =
      .ok Record.overlapping.toEncoding := Except.eq_ok_of_toOption (by decide +kernel)
  have hdefine : Record.define Record.overlappingLine.mnemonic 1 Record.overlapping.toEncoding =
      Record.overlapping := by decide +kernel
  have hr : Compiler.Reading.ofLine Schema.qcpu 1 Record.overlappingLine.text =
      .defines Record.overlapping :=
    Compiler.Reading.ofLine_eq_defines_iff.mpr ⟨_, _, hspec, hencoding, hdefine.symm⟩
  have h := inRange_of_valid hs hlength 1
  exact ⟨hs, hlength, h.1, h.2 Record.overlapping hr⟩

end OpTable
