import OpTable.Proofs.Record.Reencoding
import OpTable.Proofs.Word.Signed

/-!
# Acceptable operands

A record accepts operands when each of its immediates has a value in the range of its width and
sign, and each register slot a value that is no wider than the slot. Anything else is refused for
the first immediate that is not acceptable, or else for the first register: `encode_acceptable` says
so, and that no other operands play a part.
-/

namespace OpTable

/-! ### The first fault in a list -/

/-- Some element has the fault, and all before it are accepted. -/
def FirstFault {α ε : Type} (accepts : α → Prop) (fault : α → ε → Prop) (l : List α) (e : ε) :
    Prop :=
  ∃ before a after, l = before ++ a :: after ∧ (∀ b ∈ before, accepts b) ∧ fault a e

section FirstFault

variable {α ε : Type} {accepts : α → Prop} {fault : α → ε → Prop} {e : ε}

theorem not_firstFault_nil : ¬ FirstFault accepts fault [] e := by
  rintro ⟨before, a, after, h, -⟩
  cases before <;> cases h

theorem firstFault_cons {a : α} {rest : List α} :
    FirstFault accepts fault (a :: rest) e ↔
      fault a e ∨ accepts a ∧ FirstFault accepts fault rest e := by
  constructor
  · rintro ⟨before, b, after, h, hbefore, hb⟩
    cases before with
    | nil =>
      cases h
      exact .inl hb
    | cons first before =>
      cases h
      have hfirst := hbefore a (List.mem_cons_self ..)
      exact .inr ⟨hfirst, before, b, after, rfl, fun c hc => hbefore c (List.mem_cons_of_mem _ hc),
        hb⟩
  · rintro (ha | ⟨ha, before, b, after, rfl, hbefore, hb⟩)
    · exact ⟨[], a, rest, rfl, fun _ hb => absurd hb List.not_mem_nil, ha⟩
    · refine ⟨a :: before, b, after, rfl, ?_, hb⟩
      rw [List.forall_mem_cons]
      exact ⟨ha, hbefore⟩

end FirstFault

namespace Record

/-! ### Immediates -/

/-- The number is in the range of immediates of this sign and width: as an unsigned number, or as a
negative one in two's complement. -/
def Allows (signed : Bool) (width : Nat) (value : Word) : Prop :=
  value.toNat < 2 ^ width ∨ signed = true ∧ 2 ^ 64 - 2 ^ (width - 1) ≤ value.toNat

instance (signed : Bool) (width : Nat) (value : Word) : Decidable (Allows signed width value) :=
  inferInstanceAs (Decidable (_ ∨ _ ∧ _))

/-- The immediate has a value in range. -/
def AcceptsImmediate (r : Record) (ops : Operands) (field : String) : Prop :=
  ∃ value width, ops.immediates.get? field = some value ∧ r.immediateWidth? field = some width ∧
    Allows (r.isSignedImmediate field) width value

inductive ImmediateFault (r : Record) (ops : Operands) (field : String) : OperandError → Prop where
  | missing (hvalue : ops.immediates.get? field = none) :
    ImmediateFault r ops field (.missingImmediate r.mnemonic field)
  | outOfRange {value : Word} {width : Nat} (hvalue : ops.immediates.get? field = some value)
      (hwidth : r.immediateWidth? field = some width)
      (hrange : ¬ Allows (r.isSignedImmediate field) width value) :
    ImmediateFault r ops field (.immediateOutOfRange r.mnemonic field value width)

theorem immediateFits_iff {signed : Bool} {value : Word} {width : Nat} (hpos : 0 < width)
    (hle : width ≤ 64) : ImmediateFits signed value width ↔ Allows signed width value := by
  cases signed with
  | false =>
    have hunsigned : ImmediateFits false value width ↔ value.FitsUnsigned width := Iff.rfl
    rw [hunsigned, Word.fitsUnsigned_iff, Allows]
    simp only [Bool.false_eq_true, false_and, or_false]
  | true =>
    have hsigned : ImmediateFits true value width ↔ value.FitsSigned width := Iff.rfl
    rw [hsigned, Word.fitsSigned_iff hpos hle, Allows]
    simp only [true_and]

theorem exists_immediateWidth? {r : Record} {field : String} (hf : field ∈ r.immediateFields) :
    ∃ width, r.immediateWidth? field = some width := by
  obtain ⟨p, hp, rfl⟩ := List.mem_map.mp (List.mem_eraseDups.mp hf)
  have hmem : p.slice.high + 1 ∈ (r.immediateAssembly.filter
      (·.slice.field = p.slice.field)).map (·.slice.high + 1) :=
    List.mem_map.mpr ⟨p, List.mem_filter.mpr ⟨hp, decide_eq_true rfl⟩, rfl⟩
  cases hwidth : r.immediateWidth? p.slice.field with
  | some width => exact ⟨width, rfl⟩
  | none =>
    rw [immediateWidth?, List.max?_eq_none_iff] at hwidth
    rw [hwidth] at hmem
    exact absurd hmem List.not_mem_nil

theorem mem_immediateFields_of_immediateWidth? {r : Record} {field : String} {width : Nat}
    (h : r.immediateWidth? field = some width) : field ∈ r.immediateFields := by
  obtain ⟨p, hp, -⟩ := List.mem_map.mp (List.max?_mem h)
  obtain ⟨hmem, hfield⟩ := List.mem_filter.mp hp
  exact List.mem_eraseDups.mpr (List.mem_map.mpr ⟨p, hmem, of_decide_eq_true hfield⟩)

section Checks

variable {r : Record} {ops : Operands}

theorem checkImmediate_of_some {field : String} {value : Word} {width : Nat}
    (hvalue : ops.immediates.get? field = some value)
    (hwidth : r.immediateWidth? field = some width) :
    (Allows (r.isSignedImmediate field) width value → checkImmediate r ops field = .ok ()) ∧
      (¬ Allows (r.isSignedImmediate field) width value →
        checkImmediate r ops field =
          .error (.immediateOutOfRange r.mnemonic field value width)) := by
  obtain ⟨hpos, hle⟩ := immediateWidth?_bounds hwidth
  rw [checkImmediate, hvalue]
  dsimp only
  rw [hwidth, Option.getD_some, ← immediateFits_iff hpos hle]
  exact ⟨fun h => if_pos h, fun h => if_neg h⟩

theorem checkImmediate_eq_ok_iff {field : String} (hf : field ∈ r.immediateFields) :
    checkImmediate r ops field = .ok () ↔ r.AcceptsImmediate ops field := by
  obtain ⟨width, hwidth⟩ := exists_immediateWidth? hf
  constructor
  · intro h
    cases hvalue : ops.immediates.get? field with
    | none =>
      rw [checkImmediate, hvalue] at h
      cases h
    | some value =>
      refine ⟨value, width, hvalue, hwidth, Classical.byContradiction fun hrange => ?_⟩
      rw [(checkImmediate_of_some hvalue hwidth).2 hrange] at h
      cases h
  · rintro ⟨value, width', hvalue, hwidth', hrange⟩
    exact (checkImmediate_of_some hvalue hwidth').1 hrange

theorem checkImmediate_eq_error_iff {field : String} (hf : field ∈ r.immediateFields)
    {e : OperandError} :
    checkImmediate r ops field = .error e ↔ r.ImmediateFault ops field e := by
  obtain ⟨width, hwidth⟩ := exists_immediateWidth? hf
  constructor
  · intro h
    cases hvalue : ops.immediates.get? field with
    | none =>
      rw [checkImmediate, hvalue] at h
      cases h
      exact .missing hvalue
    | some value =>
      obtain ⟨hok, herror⟩ := checkImmediate_of_some hvalue hwidth
      by_cases hrange : Allows (r.isSignedImmediate field) width value
      · rw [hok hrange] at h
        cases h
      · rw [herror hrange] at h
        cases h
        exact .outOfRange hvalue hwidth hrange
  · intro h
    cases h with
    | missing hvalue => rw [checkImmediate, hvalue]
    | outOfRange hvalue hwidth hrange => exact (checkImmediate_of_some hvalue hwidth).2 hrange

theorem checkImmediates_eq_ok_iff {fields : List String}
    (hfields : ∀ field ∈ fields, field ∈ r.immediateFields) :
    checkImmediates r ops fields = .ok () ↔ ∀ field ∈ fields, r.AcceptsImmediate ops field := by
  rw [checkImmediates_eq_ok_iff_forall]
  exact forall₂_congr fun field hf => checkImmediate_eq_ok_iff (hfields field hf)

theorem checkImmediates_eq_error_iff {fields : List String}
    (hfields : ∀ field ∈ fields, field ∈ r.immediateFields) {e : OperandError} :
    checkImmediates r ops fields = .error e ↔
      FirstFault (r.AcceptsImmediate ops) (r.ImmediateFault ops) fields e := by
  induction fields with
  | nil => exact iff_of_false (fun h => nomatch h) not_firstFault_nil
  | cons name rest ih =>
    obtain ⟨hname, hrest⟩ := List.forall_mem_cons.mp hfields
    rw [checkImmediates, firstFault_cons, ← ih hrest, ← checkImmediate_eq_ok_iff hname,
      ← checkImmediate_eq_error_iff hname]
    cases checkImmediate r ops name with
    | ok _ => simp
    | error e => simp

/-! ### Registers -/

/-- If the slot holds a register, that has a value no wider than the slot. -/
def AcceptsRegister (ops : Operands) (slot : Slot) : Prop :=
  ∀ role, slot.content = .register role →
    ∃ value, ops.registers.get? role = some value ∧ value.toNat < 2 ^ slot.width

inductive RegisterFault (r : Record) (ops : Operands) (slot : Slot) : OperandError → Prop where
  | missing {role : String} (hrole : slot.content = .register role)
      (hvalue : ops.registers.get? role = none) :
    RegisterFault r ops slot (.missingRegister r.mnemonic role)
  | outOfRange {role : String} {value : Word} (hrole : slot.content = .register role)
      (hvalue : ops.registers.get? role = some value) (hrange : 2 ^ slot.width ≤ value.toNat) :
    RegisterFault r ops slot (.registerOutOfRange r.mnemonic role value slot.width)

theorem slotBits_eq_error_iff {slot : Slot} {e : OperandError} :
    slotBits r ops slot = .error e ↔ r.RegisterFault ops slot e := by
  constructor
  · intro h
    cases hc : slot.content with
    | register role =>
      simp only [slotBits, hc] at h
      split at h
      next hnone =>
        cases h
        exact .missing hc hnone
      next value hvalue =>
        simp only [Word.and_not_lowMask_eq_zero_iff] at h
        split at h
        · cases h
        next hrange =>
          cases h
          exact .outOfRange hc hvalue (Nat.le_of_not_lt hrange)
    | _ => simp [slotBits, hc] at h
  · intro h
    cases h with
    | missing hrole hvalue => simp only [slotBits, hrole, hvalue]
    | outOfRange hrole hvalue hrange =>
      simp only [slotBits, hrole, hvalue, Word.and_not_lowMask_eq_zero_iff, Nat.not_lt.mpr hrange,
        if_false]

theorem acceptsRegister_iff {slot : Slot} :
    AcceptsRegister ops slot ↔ ∃ bits, slotBits r ops slot = .ok bits := by
  constructor
  · intro h
    exact ⟨_, slotBits_of_register h⟩
  · rintro ⟨bits, h⟩ role hrole
    exact ⟨bits, (slotBits_register_eq_ok_iff hrole).mp h⟩

theorem encodeSlots_eq_ok_iff {layout : List Slot} {word : Word} :
    (∃ out, encodeSlots r ops word layout = .ok out) ↔
      ∀ slot ∈ layout, AcceptsRegister ops slot := by
  rw [exists_encodeSlots_iff]
  exact forall₂_congr fun _ _ => acceptsRegister_iff.symm

theorem encodeSlots_eq_error_iff {layout : List Slot} {word : Word} {e : OperandError} :
    encodeSlots r ops word layout = .error e ↔
      FirstFault (AcceptsRegister ops) (r.RegisterFault ops) layout e := by
  induction layout generalizing word with
  | nil => exact iff_of_false (fun h => nomatch h) not_firstFault_nil
  | cons slot rest ih =>
    rw [encodeSlots, firstFault_cons, ← slotBits_eq_error_iff, acceptsRegister_iff (r := r)]
    cases slotBits r ops slot with
    | ok bits => simp [ih]
    | error e => simp

/-! ### Encoding -/

theorem encode_eq_ok_iff :
    (∃ word, r.encode ops = .ok word) ↔
      (∀ field ∈ r.immediateFields, r.AcceptsImmediate ops field) ∧
        ∀ slot ∈ r.layout, AcceptsRegister ops slot := by
  have himmediates : checkImmediates r ops r.immediateFields = .ok () ↔
      ∀ field ∈ r.immediateFields, r.AcceptsImmediate ops field :=
    checkImmediates_eq_ok_iff fun _ hf => hf
  have hregisters : (∃ word, encodeSlots r ops 0#64 r.layout = .ok word) ↔
      ∀ slot ∈ r.layout, AcceptsRegister ops slot := encodeSlots_eq_ok_iff
  rw [← himmediates, ← hregisters, encode]
  cases checkImmediates r ops r.immediateFields with
  | ok _ => simp
  | error e => simp

theorem encode_eq_error_iff {e : OperandError} :
    r.encode ops = .error e ↔
      FirstFault (r.AcceptsImmediate ops) (r.ImmediateFault ops) r.immediateFields e ∨
        (∀ field ∈ r.immediateFields, r.AcceptsImmediate ops field) ∧
          FirstFault (AcceptsRegister ops) (r.RegisterFault ops) r.layout e := by
  have hok : checkImmediates r ops r.immediateFields = .ok () ↔
      ∀ field ∈ r.immediateFields, r.AcceptsImmediate ops field :=
    checkImmediates_eq_ok_iff fun _ hf => hf
  have herror : checkImmediates r ops r.immediateFields = .error e ↔
      FirstFault (r.AcceptsImmediate ops) (r.ImmediateFault ops) r.immediateFields e :=
    checkImmediates_eq_error_iff fun _ hf => hf
  have hregisters : encodeSlots r ops 0#64 r.layout = .error e ↔
      FirstFault (AcceptsRegister ops) (r.RegisterFault ops) r.layout e := encodeSlots_eq_error_iff
  rw [← hok, ← herror, ← hregisters, encode]
  cases checkImmediates r ops r.immediateFields with
  | ok _ => simp
  | error e => simp

end Checks

/-! ### Operands that play a part -/

/-- The two give the same values to what the record names. -/
structure AgreeOn (r : Record) (ops other : Operands) : Prop where
  immediates : ∀ field ∈ r.immediateFields,
    ops.immediates.get? field = other.immediates.get? field
  registers : ∀ role ∈ r.operandRoles, ops.registers.get? role = other.registers.get? role

section AgreeOn

variable {schema : Schema} {r : Record} {ops other : Operands} (hr : r.WellFormed schema)
  (h : r.AgreeOn ops other)

include hr h

theorem slotBits_congr {slot : Slot} (hs : slot ∈ r.layout) :
    slotBits r ops slot = slotBits r other slot := by
  cases hc : slot.content with
  | register role =>
    have hrole : role ∈ r.operandRoles := by
      rw [hr.operandRoles_eq]
      exact List.mem_filterMap.mpr ⟨slot, hs, by rw [hc]; rfl⟩
    simp only [slotBits, hc, h.registers role hrole]
  | expression e =>
    have hcompose : e.compose (immediateOf ops) = e.compose (immediateOf other) := by
      refine Slot.compose_congr hc fun x hx => ?_
      have hfield := hr.mem_immediateFields_of_slice (List.mem_flatMap.mpr ⟨slot, hs, hx⟩)
      rw [immediateOf, immediateOf, h.immediates x.field hfield]
    simp only [slotBits, hc]
    exact congrArg Except.ok hcompose
  | _ => simp only [slotBits, hc]

theorem encode_congr : r.encode ops = r.encode other := by
  have hcheck : ∀ fields : List String, (∀ field ∈ fields, field ∈ r.immediateFields) →
      checkImmediates r ops fields = checkImmediates r other fields := by
    intro fields hfields
    induction fields with
    | nil => rfl
    | cons name rest ih =>
      obtain ⟨hname, hrest⟩ := List.forall_mem_cons.mp hfields
      simp only [checkImmediates, checkImmediate, h.immediates name hname, ih hrest]
  have hslots : ∀ (layout : List Slot) (word : Word), (∀ slot ∈ layout, slot ∈ r.layout) →
      encodeSlots r ops word layout = encodeSlots r other word layout := by
    intro layout word hlayout
    induction layout generalizing word with
    | nil => rfl
    | cons slot rest ih =>
      obtain ⟨hslot, hrest⟩ := List.forall_mem_cons.mp hlayout
      simp only [encodeSlots, slotBits_congr hr h hslot, ih _ hrest]
  rw [encode, encode, hcheck _ fun _ hf => hf, hslots _ _ fun _ hs => hs]

end AgreeOn

theorem isSome_of_acceptsImmediate {schema : Schema} {r : Record} (hr : r.WellFormed schema)
    {ops : Operands} (h : ∀ field ∈ r.immediateFields, r.AcceptsImmediate ops field) {slot : Slot}
    (hs : slot ∈ r.layout) {s : Slice} (hslice : s ∈ slot.slices) :
    (ops.immediates.get? s.field).isSome := by
  have hfield := hr.mem_immediateFields_of_slice (List.mem_flatMap.mpr ⟨slot, hs, hslice⟩)
  obtain ⟨value, width, hvalue, -⟩ := h s.field hfield
  rw [hvalue]
  rfl

/-- A record encodes exactly the operands that it accepts. For all others the error is that of the
first immediate that is not acceptable, or else of the first register. Every immediate has a width
when its value is checked, and every slice has a value when the slots are put together, so nothing
stands in for them; operands that the record does not name play no part. -/
theorem encode_acceptable {schema : Schema} {r : Record} (hr : r.ResolvedUnder schema)
    (ops : Operands) :
    ((∃ word, r.encode ops = .ok word) ↔
        (∀ field ∈ r.immediateFields, r.AcceptsImmediate ops field) ∧
          ∀ slot ∈ r.layout, AcceptsRegister ops slot) ∧
      (∀ e, r.encode ops = .error e ↔
        FirstFault (r.AcceptsImmediate ops) (r.ImmediateFault ops) r.immediateFields e ∨
          (∀ field ∈ r.immediateFields, r.AcceptsImmediate ops field) ∧
            FirstFault (AcceptsRegister ops) (r.RegisterFault ops) r.layout e) ∧
      (∀ field ∈ r.immediateFields, (r.immediateWidth? field).isSome) ∧
      (checkImmediates r ops r.immediateFields = .ok () →
        ∀ slot ∈ r.layout, ∀ s ∈ slot.slices, (ops.immediates.get? s.field).isSome) ∧
      ∀ other, r.AgreeOn ops other → r.encode ops = r.encode other := by
  have h := hr.wellFormed
  refine ⟨encode_eq_ok_iff, fun e => encode_eq_error_iff, ?_, ?_, fun other => encode_congr h⟩
  · intro field hf
    exact Option.isSome_iff_exists.mpr (exists_immediateWidth? hf)
  · intro hcheck slot hs s hslice
    have haccepts := (checkImmediates_eq_ok_iff fun _ hf => hf).mp hcheck
    exact isSome_of_acceptsImmediate h haccepts hs hslice

def overlappingGiven (imm : Int) (rd : Word) : Operands :=
  ((∅ : Operands).withRegister "rd" rd).withSignedImmediate "imm" imm

/-- The immediate has six bits, so -32 is the least number that it can be. -/
theorem encode_acceptable_overlapping :
    overlapping.ResolvedUnder Schema.qcpu ∧
      (∃ word, overlapping.encode (overlappingGiven (-32) 63#64) = .ok word) ∧
      overlapping.encode (overlappingGiven (-33) 64#64) =
        .error (.immediateOutOfRange "MIX" "imm" (BitVec.ofInt 64 (-33)) 6) ∧
      overlapping.encode (overlappingGiven (-32) 64#64) =
        .error (.registerOutOfRange "MIX" "rd" 64#64 6) ∧
      overlapping.encode ((overlappingGiven (-32) 63#64).withImmediate "shamt" 99#64) =
        overlapping.encode (overlappingGiven (-32) 63#64) := by
  have hfields : overlapping.immediateFields = ["imm"] := by decide
  have hwidth : overlapping.immediateWidth? "imm" = some 6 := by decide
  have himmediate : ∀ rd, ∀ field ∈ overlapping.immediateFields,
      overlapping.AcceptsImmediate (overlappingGiven (-32) rd) field := by
    intro rd field hf
    rw [hfields] at hf
    rw [List.mem_singleton.mp hf]
    exact ⟨BitVec.ofInt 64 (-32), 6, rfl, hwidth, .inr ⟨by decide, by decide⟩⟩
  have hregisters : ∀ slot ∈ overlapping.layout, slot.content.role?.isSome →
      slot.content.role? = some "rd" ∧ slot.width = 6 := by
    decide
  refine ⟨overlapping_resolved, ?_, ?_, ?_, ?_⟩
  · refine (encode_acceptable overlapping_resolved _).1.mpr ⟨himmediate _, ?_⟩
    intro slot hs role hrole
    have hsome : slot.content.role? = some role := by rw [hrole]; rfl
    obtain ⟨hname, hwidth⟩ := hregisters slot hs (by rw [hsome]; rfl)
    cases hsome.symm.trans hname
    rw [hwidth]
    exact ⟨63#64, rfl, by decide⟩
  · refine ((encode_acceptable overlapping_resolved _).2.1 _).mpr (.inl ?_)
    refine ⟨[], "imm", [], hfields, fun _ hb => absurd hb List.not_mem_nil, ?_⟩
    exact .outOfRange rfl hwidth (by decide)
  · refine ((encode_acceptable overlapping_resolved _).2.1 _).mpr (.inr ⟨himmediate _, ?_⟩)
    have habove : ∀ slot ∈ overlapping.layout.take 2, slot.content.role? = none := by decide
    refine ⟨overlapping.layout.take 2, ⟨17, 6, .register "rd"⟩, overlapping.layout.drop 3, rfl, ?_,
      .outOfRange rfl rfl (by decide)⟩
    intro slot hs role hrole
    have hnone := habove slot hs
    rw [hrole] at hnone
    cases hnone
  · have hagree : overlapping.AgreeOn (overlappingGiven (-32) 63#64)
        ((overlappingGiven (-32) 63#64).withImmediate "shamt" 99#64) := by
      refine ⟨?_, fun _ _ => rfl⟩
      intro field hf
      rw [hfields] at hf
      rw [List.mem_singleton.mp hf]
      rfl
    exact ((encode_acceptable overlapping_resolved _).2.2.2.2 _ hagree).symm

end Record

end OpTable
