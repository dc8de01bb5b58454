import OpTable.Proofs.Record.Decoding
import OpTable.Proofs.Record.Matching

/-!
# Encoded words

An encoded word is the parts of the slots side by side (`WellFormed.encodes`), so every slot reads
its own bits back from it (`Encodes.extract`). `decode_encode` collects what follows for the word
and for the operands that are decoded from it.
-/

namespace OpTable

/-- The bits of a field that the slice takes. -/
def Slice.cover (s : Slice) : Word := Word.lowMask s.width <<< s.low

/-- The slices in the slot. -/
def Slot.slices (slot : Slot) : List Slice :=
  match slot.content with
  | .expression e => e.segments.filterMap Segment.slice?
  | _ => []

theorem Slot.map_slice_placed (schema : Schema) (slot : Slot) :
    (slot.placed schema).map (·.slice) = slot.slices := by
  unfold Slot.placed Slot.slices
  cases slot.content with
  | expression e => exact Layout.map_slice_placeAbove _ _ _
  | _ => rfl

theorem Slot.mem_slices_of_segment {slot : Slot} {e : BitExpr} (hc : slot.content = .expression e)
    {s : Slice} (hs : .slice s ∈ e.segments) : s ∈ slot.slices := by
  rw [slices, hc]
  exact List.mem_filterMap.mpr ⟨.slice s, hs, rfl⟩

theorem Slot.compose_congr {slot : Slot} {e : BitExpr} (hc : slot.content = .expression e)
    {valueOf other : String → Word}
    (h : ∀ s ∈ slot.slices,
      (valueOf s.field).bits s.low s.width = (other s.field).bits s.low s.width) :
    e.compose valueOf = e.compose other := by
  apply BitExpr.compose_congr
  intro segment hsegment
  cases segment with
  | fixed bits => rfl
  | slice s => exact h s (mem_slices_of_segment hc hsegment)

namespace Record

open Layout

theorem immediateWidth?_bounds {r : Record} {field : String} {width : Nat}
    (h : r.immediateWidth? field = some width) : 0 < width ∧ width ≤ 64 := by
  obtain ⟨p, -, rfl⟩ := List.mem_map.mp (List.max?_mem h)
  exact ⟨Nat.succ_pos _, p.slice.high_lt⟩

theorem high_lt_immediateWidth? {r : Record} {field : String} {width : Nat}
    (hwidth : r.immediateWidth? field = some width) :
    ∀ p ∈ r.immediateAssembly, p.slice.field = field → p.slice.high + 1 ≤ width := by
  intro p hp hfield
  have hmem : p.slice.high + 1 ∈
      (r.immediateAssembly.filter (·.slice.field = field)).map (·.slice.high + 1) :=
    List.mem_map.mpr ⟨p, List.mem_filter.mpr ⟨hp, decide_eq_true hfield⟩, rfl⟩
  exact (List.max?_eq_some_iff.mp hwidth).2 _ hmem

/-- The bits of a field that some slice of the record takes. -/
def covered (r : Record) (field : String) : Word :=
  Word.union (((r.layout.flatMap Slot.slices).filter (·.field = field)).map Slice.cover)

theorem WellFormed.slices_eq {schema : Schema} {r : Record} (h : r.WellFormed schema) :
    r.layout.flatMap Slot.slices = r.immediateAssembly.map (·.slice) := by
  rw [h.assembly_eq, List.map_flatMap]
  simp only [Slot.map_slice_placed]

/-! ### Slots -/

/-- The value of an immediate, zero if it has none. -/
def immediateOf (ops : Operands) (field : String) : Word := (ops.immediates.get? field).getD 0#64

/-- The bits that a slot holds when all operands are there. -/
def slotValue (ops : Operands) (slot : Slot) : Word :=
  match slot.content with
  | .register role => (ops.registers.get? role).getD 0#64
  | .expression e => e.compose (immediateOf ops)
  | content => (content.fixed?.map (·.value)).getD 0#64

/-- The slot as a part of the word. -/
def slotPart (ops : Operands) (slot : Slot) : Word.Part := ⟨slot.width, slotValue ops slot⟩

theorem slotValue_of_fixed? {slot : Slot} {bits : BitString} (ops : Operands)
    (h : slot.content.fixed? = some bits) : slotValue ops slot = bits.value := by
  obtain ⟨lsb, width, content⟩ := slot
  cases content <;> first | cases h; rfl | cases h

theorem slotBits_of_fixed? {slot : Slot} {bits : BitString} (r : Record) (ops : Operands)
    (h : slot.content.fixed? = some bits) : slotBits r ops slot = .ok bits.value := by
  obtain ⟨lsb, width, content⟩ := slot
  cases content <;> first | cases h; rfl | cases h

theorem slotBits_register_eq_ok_iff {r : Record} {ops : Operands} {slot : Slot} {role : String}
    {bits : Word} (hc : slot.content = .register role) :
    slotBits r ops slot = .ok bits ↔
      ops.registers.get? role = some bits ∧ bits.toNat < 2 ^ slot.width := by
  unfold slotBits
  rw [hc]
  dsimp only
  cases ops.registers.get? role with
  | none => simp
  | some value =>
    simp only [Word.and_not_lowMask_eq_zero_iff, Option.some.injEq]
    constructor
    · intro h
      split at h
      next hrange =>
        cases h
        exact ⟨rfl, hrange⟩
      · cases h
    · intro h
      obtain ⟨rfl, hrange⟩ := h
      exact if_pos hrange

theorem slotBits_of_expression {r : Record} {ops : Operands} {slot : Slot} {e : BitExpr}
    (hc : slot.content = .expression e) : slotBits r ops slot = .ok (slotValue ops slot) := by
  unfold slotBits slotValue
  rw [hc]
  rfl

theorem slotBits_eq_ok {r : Record} {ops : Operands} {slot : Slot} {bits : Word}
    (hfilled : slot.IsFilled) (h : slotBits r ops slot = .ok bits) :
    slotValue ops slot = bits ∧ (slotPart ops slot).Fits ∧
      ∀ role, slot.content = .register role → (ops.registers.get? role).isSome := by
  cases hfixed : slot.content.fixed? with
  | some fixed =>
    rw [slotBits_of_fixed? r ops hfixed] at h
    cases h
    have hvalue := slotValue_of_fixed? ops hfixed
    refine ⟨hvalue, ?_, ?_⟩
    · rw [Word.Part.Fits, slotPart, hvalue, ← hfilled.fixed_width fixed hfixed]
      exact fixed.value_lt
    · intro role hrole
      rw [hrole] at hfixed
      cases hfixed
  | none =>
    cases hc : slot.content with
    | register role =>
      obtain ⟨hget, hrange⟩ := (slotBits_register_eq_ok_iff hc).mp h
      have hvalue : slotValue ops slot = bits := by simp [slotValue, hc, hget]
      refine ⟨hvalue, ?_, ?_⟩
      · rw [Word.Part.Fits, slotPart, hvalue]
        exact hrange
      · intro role' hrole
        cases hrole
        rw [hget]
        rfl
    | expression e =>
      rw [slotBits_of_expression hc] at h
      have hvalue : slotValue ops slot = e.compose (immediateOf ops) := by rw [slotValue, hc]
      refine ⟨Except.ok.inj h, ?_, ?_⟩
      · rw [Word.Part.Fits, slotPart, hvalue, ← hfilled.expression_width e hc]
        exact e.toNat_compose_lt _
      · intro role hrole
        cases hrole
    | _ => rw [hc] at hfixed; cases hfixed

/-! ### Words -/

theorem totalWidth_map_slotPart (ops : Operands) (layout : List Slot) :
    Word.totalWidth (layout.map (slotPart ops)) = widthOf layout := by
  rw [Word.totalWidth, List.map_map]
  rfl

/-- What is known of operands for which there is a word, and of the word. -/
structure Encodes (r : Record) (ops : Operands) (word : Word) : Prop where
  word_eq : word = Word.concat (r.layout.map (slotPart ops))
  fits : ∀ slot ∈ r.layout, (slotPart ops slot).Fits
  register_given : ∀ slot ∈ r.layout, ∀ role, slot.content = .register role →
    (ops.registers.get? role).isSome
  immediate_given : ∀ field ∈ r.immediateFields, (ops.immediates.get? field).isSome

theorem isSome_of_checkImmediate {r : Record} {ops : Operands} {field : String}
    (h : checkImmediate r ops field = .ok ()) : (ops.immediates.get? field).isSome := by
  unfold checkImmediate at h
  split at h
  · cases h
  next value hget =>
    rw [hget]
    rfl

theorem checkImmediates_eq_ok_iff_forall {r : Record} {ops : Operands} {fields : List String} :
    checkImmediates r ops fields = .ok () ↔
      ∀ field ∈ fields, checkImmediate r ops field = .ok () := by
  induction fields with
  | nil => exact iff_of_true rfl fun _ hf => absurd hf List.not_mem_nil
  | cons name rest ih =>
    rw [checkImmediates, List.forall_mem_cons, ← ih]
    cases checkImmediate r ops name with
    | ok _ => simp
    | error e => simp

theorem exists_encodeSlots_iff {r : Record} {ops : Operands} {layout : List Slot} {word : Word} :
    (∃ out, encodeSlots r ops word layout = .ok out) ↔
      ∀ slot ∈ layout, ∃ bits, slotBits r ops slot = .ok bits := by
  induction layout generalizing word with
  | nil => exact iff_of_true ⟨word, rfl⟩ fun _ hs => absurd hs List.not_mem_nil
  | cons slot rest ih =>
    rw [encodeSlots, List.forall_mem_cons]
    cases slotBits r ops slot with
    | ok bits => simp [ih]
    | error e => simp

theorem encodeSlots_of_slotBits {r : Record} {ops : Operands} {layout : List Slot}
    (hstacked : Stacked layout)
    (h : ∀ slot ∈ layout, slotBits r ops slot = .ok (slotValue ops slot)) (word : Word) :
    encodeSlots r ops word layout = .ok (word ||| Word.concat (layout.map (slotPart ops))) := by
  induction hstacked generalizing word with
  | nil => exact congrArg Except.ok BitVec.or_zero.symm
  | @cons slot rest hlsb hfilled hrest ih =>
    have hslot := h slot (List.mem_cons_self ..)
    have hrests := ih fun s hs => h s (List.mem_cons_of_mem _ hs)
    rw [encodeSlots, hslot]
    dsimp only
    rw [hrests, List.map_cons, Word.concat, totalWidth_map_slotPart, ← hlsb, BitVec.or_assoc]
    rfl

theorem encodeSlots_eq_ok {r : Record} {ops : Operands} {layout : List Slot} {word out : Word}
    (hstacked : Stacked layout) (h : encodeSlots r ops word layout = .ok out) :
    out = word ||| Word.concat (layout.map (slotPart ops)) ∧
      ∀ slot ∈ layout, (slotPart ops slot).Fits ∧
        ∀ role, slot.content = .register role → (ops.registers.get? role).isSome := by
  have hslots : ∀ slot ∈ layout, ∃ bits, slotBits r ops slot = .ok bits ∧
      slotValue ops slot = bits ∧ (slotPart ops slot).Fits ∧
        ∀ role, slot.content = .register role → (ops.registers.get? role).isSome := by
    intro slot hs
    obtain ⟨bits, hbits⟩ := exists_encodeSlots_iff.mp ⟨out, h⟩ slot hs
    exact ⟨bits, hbits, slotBits_eq_ok (hstacked.filled slot hs) hbits⟩
  constructor
  · rw [encodeSlots_of_slotBits hstacked ?_ word] at h
    · exact (Except.ok.inj h).symm
    · intro slot hs
      obtain ⟨bits, hbits, hvalue, -⟩ := hslots slot hs
      rw [hvalue, hbits]
  · intro slot hs
    obtain ⟨bits, -, -, hfits, hgiven⟩ := hslots slot hs
    exact ⟨hfits, hgiven⟩

theorem WellFormed.encodes {schema : Schema} {r : Record} (h : r.WellFormed schema) {ops : Operands}
    {word : Word} (hword : r.encode ops = .ok word) : r.Encodes ops word := by
  unfold encode at hword
  split at hword
  next hcheck =>
    obtain ⟨hout, hslots⟩ := encodeSlots_eq_ok h.stacked hword
    rw [BitVec.zero_or] at hout
    have hchecks := checkImmediates_eq_ok_iff_forall.mp hcheck
    exact ⟨hout, fun slot hs => (hslots slot hs).1, fun slot hs => (hslots slot hs).2,
      fun field hf => isSome_of_checkImmediate (hchecks field hf)⟩
  · cases hword

/-! ### Acceptable operands -/

theorem slotBits_of_register {r : Record} {ops : Operands} {slot : Slot}
    (h : ∀ role, slot.content = .register role →
      ∃ value, ops.registers.get? role = some value ∧ value.toNat < 2 ^ slot.width) :
    slotBits r ops slot = .ok (slotValue ops slot) := by
  cases hc : slot.content with
  | register role =>
    obtain ⟨value, hget, hlt⟩ := h role hc
    have hvalue : slotValue ops slot = value := by simp [slotValue, hc, hget]
    rw [hvalue]
    exact (slotBits_register_eq_ok_iff hc).mpr ⟨hget, hlt⟩
  | expression e => exact slotBits_of_expression hc
  | _ =>
    have hfixed := congrArg SlotContent.fixed? hc
    rw [slotBits_of_fixed? r ops hfixed, slotValue_of_fixed? ops hfixed]

theorem WellFormed.encode_eq_ok {schema : Schema} {r : Record} (h : r.WellFormed schema)
    {ops : Operands}
    (himmediates : ∀ field ∈ r.immediateFields, checkImmediate r ops field = .ok ())
    (hregisters : ∀ slot ∈ r.layout, ∀ role, slot.content = .register role →
      ∃ value, ops.registers.get? role = some value ∧ value.toNat < 2 ^ slot.width) :
    r.encode ops = .ok (Word.concat (r.layout.map (slotPart ops))) := by
  have hslots : ∀ slot ∈ r.layout, slotBits r ops slot = .ok (slotValue ops slot) :=
    fun slot hs => slotBits_of_register (hregisters slot hs)
  rw [encode, checkImmediates_eq_ok_iff_forall.mpr himmediates]
  dsimp only
  rw [encodeSlots_of_slotBits h.stacked hslots, BitVec.zero_or]

end Record

end OpTable
