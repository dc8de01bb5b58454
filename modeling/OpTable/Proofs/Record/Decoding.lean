import OpTable.Proofs.Record.Resolved
import OpTable.Record.Operands

/-!
# Decoded operands

`Record.decodeOperands` is a loop over the slots. Its registers come from the last slot of each role
(`get?_registers_decodeOperands`), its immediates from all slices of each field
(`get?_immediates_decodeOperands`). So the assembly of a record and its layout describe the same
immediates: that is `immediates_of_assembly`, together with where the placed slices stand.
-/

namespace OpTable

/-- The bit of the word belongs to the slice. -/
def PlacedSlice.Covers (p : PlacedSlice) (bit : Nat) : Prop := p.lsb ≤ bit ∧ bit < p.lsb + p.width

namespace Layout

theorem Stacked.pairwise_placed {layout : List Slot} (schema : Schema) (h : Stacked layout) :
    (layout.flatMap (Slot.placed schema)).Pairwise IsAbove ∧
      ∀ p ∈ layout.flatMap (Slot.placed schema), p.lsb + p.width ≤ widthOf layout := by
  induction h with
  | nil => exact ⟨List.Pairwise.nil, fun _ hp => absurd hp List.not_mem_nil⟩
  | @cons slot rest hlsb hfilled hrest ih =>
    -- the slices of this slot stand above `widthOf rest`, all others below it
    have hslot : ∀ p ∈ slot.placed schema,
        slot.lsb ≤ p.lsb ∧ p.lsb + p.width ≤ slot.lsb + slot.width := by
      intro p hp
      unfold Slot.placed at hp
      split at hp
      next e he =>
        rw [← hfilled.expression_width e he]
        exact placeAbove_within hp
      · exact absurd hp List.not_mem_nil
    have hpair : (slot.placed schema).Pairwise IsAbove := by
      unfold Slot.placed
      split
      · exact pairwise_placeAbove _ _ _
      · exact List.Pairwise.nil
    rw [List.flatMap_cons, widthOf_cons]
    refine ⟨List.pairwise_append.mpr ⟨hpair, ih.1, ?_⟩, ?_⟩
    · intro p hp q hq
      have hp' := hslot p hp
      have hq' := ih.2 q hq
      unfold IsAbove
      omega
    · intro p hp
      rcases List.mem_append.mp hp with hp | hp
      · have hp' := hslot p hp
        omega
      · have hp' := ih.2 p hp
        omega

end Layout

namespace Record

open Layout

/-! ### One slot -/

theorem get?_registers_decodeSlot (word : Word) (ops : Operands) (slot : Slot) (role : String) :
    (decodeSlot word ops slot).registers.get? role =
      if slot.content.role? = some role then some (slot.extract word)
      else ops.registers.get? role := by
  unfold decodeSlot
  cases hc : slot.content with
  | register name =>
    dsimp only [Operands.withRegister]
    rw [NameMap.get?_insert]
    by_cases hn : role = name
    · have hrole : (SlotContent.register name).role? = some role := congrArg some hn.symm
      rw [if_pos hn, if_pos hrole]
    · have hrole : (SlotContent.register name).role? ≠ some role :=
        fun he => hn (Option.some.inj he).symm
      rw [if_neg hn, if_neg hrole]
  | _ => exact (if_neg (by rintro ⟨⟩)).symm

theorem get?_immediates_decodeSlot (schema : Schema) (word : Word) (ops : Operands) {slot : Slot}
    (h : slot.IsFilled) (field : String) :
    (decodeSlot word ops slot).immediates.get? field =
      collect word field (slot.placed schema) (ops.immediates.get? field) := by
  unfold decodeSlot Slot.placed
  cases hc : slot.content with
  | expression e =>
    have hwidth := h.expression_width e hc
    dsimp only
    rw [Slot.extract, ← hwidth]
    exact get?_scatter schema e word slot.lsb ops.immediates field
  | _ => rfl

/-! ### All slots -/

/-- The slots that hold the register of a role. -/
def registerSlots (layout : List Slot) (role : String) : List Slot :=
  layout.filter (·.content.role? = some role)

theorem get?_registers_foldl (word : Word) (role : String) (layout : List Slot) (ops : Operands) :
    (layout.foldl (decodeSlot word) ops).registers.get? role =
      ((registerSlots layout role).getLast?.map (·.extract word)).or
        (ops.registers.get? role) := by
  induction layout generalizing ops with
  | nil => rfl
  | cons slot rest ih =>
    rw [List.foldl_cons, ih, get?_registers_decodeSlot, registerSlots, registerSlots,
      List.filter_cons]
    by_cases hr : slot.content.role? = some role
    · rw [if_pos hr, if_pos (decide_eq_true hr), List.getLast?_cons]
      cases (rest.filter (·.content.role? = some role)).getLast? with
      | none => rfl
      | some last => rfl
    · rw [if_neg hr, if_neg (by rw [decide_eq_true_iff]; exact hr)]

theorem get?_registers_decodeOperands (r : Record) (word : Word) (role : String) :
    (r.decodeOperands word).registers.get? role =
      (registerSlots r.layout role).getLast?.map (·.extract word) := by
  rw [decodeOperands, get?_registers_foldl]
  exact Option.or_none

theorem get?_registers_of_not_mem {schema : Schema} {r : Record} (h : r.WellFormed schema)
    (word : Word) {role : String} (hrole : role ∉ r.operandRoles) :
    (r.decodeOperands word).registers.get? role = none := by
  have hnil : registerSlots r.layout role = [] := by
    rw [registerSlots, List.filter_eq_nil_iff]
    intro slot hs hslot
    apply hrole
    rw [h.operandRoles_eq]
    exact List.mem_filterMap.mpr ⟨slot, hs, of_decide_eq_true hslot⟩
  rw [get?_registers_decodeOperands, hnil]
  rfl

/-- Every slot of a role decides or is overruled by a later slot of the role. -/
theorem exists_get?_registers (r : Record) (word : Word) {slot : Slot} (hs : slot ∈ r.layout)
    {role : String} (hrole : slot.content = .register role) :
    ∃ last ∈ r.layout, last.content = .register role ∧
      (r.decodeOperands word).registers.get? role = some (last.extract word) := by
  have hmem : slot ∈ registerSlots r.layout role := by
    refine List.mem_filter.mpr ⟨hs, decide_eq_true ?_⟩
    rw [hrole]
    rfl
  cases hlast : (registerSlots r.layout role).getLast? with
  | none =>
    rw [List.getLast?_eq_none_iff.mp hlast] at hmem
    exact absurd hmem List.not_mem_nil
  | some last =>
    obtain ⟨hl, hlrole⟩ := List.mem_filter.mp (List.mem_of_getLast? hlast)
    refine ⟨last, hl, SlotContent.eq_register_of_role? (of_decide_eq_true hlrole), ?_⟩
    rw [get?_registers_decodeOperands, hlast]
    rfl

theorem get?_immediates_foldl (schema : Schema) (word : Word) (field : String)
    {layout : List Slot} (h : ∀ slot ∈ layout, slot.IsFilled) (ops : Operands) :
    (layout.foldl (decodeSlot word) ops).immediates.get? field =
      collect word field (layout.flatMap (Slot.placed schema)) (ops.immediates.get? field) := by
  induction layout generalizing ops with
  | nil => rfl
  | cons slot rest ih =>
    rw [List.foldl_cons, ih (fun s hs => h s (List.mem_cons_of_mem _ hs)), List.flatMap_cons,
      collect_append, get?_immediates_decodeSlot schema word ops (h slot (List.mem_cons_self ..))]

namespace WellFormed

variable {schema : Schema} {r : Record}

theorem get?_immediates_decodeOperands (h : r.WellFormed schema) (word : Word) (field : String) :
    (r.decodeOperands word).immediates.get? field =
      if field ∈ r.immediateAssembly.map (·.slice.field) then
        some (gather word field r.immediateAssembly)
      else none := by
  rw [decodeOperands, get?_immediates_foldl schema word field h.stacked.filled, h.assembly_eq,
    collect]
  by_cases hf : field ∈ (r.layout.flatMap (Slot.placed schema)).map (·.slice.field)
  · rw [if_pos hf, if_pos hf]
    exact congrArg some BitVec.zero_or
  · rw [if_neg hf, if_neg hf]
    rfl

theorem get?_immediates_of_mem (h : r.WellFormed schema) (word : Word) {field : String}
    (hf : field ∈ r.immediateFields) :
    (r.decodeOperands word).immediates.get? field =
      some (gather word field r.immediateAssembly) := by
  rw [h.get?_immediates_decodeOperands, if_pos (List.mem_eraseDups.mp hf)]

theorem get?_immediates_of_not_mem (h : r.WellFormed schema) (word : Word) {field : String}
    (hf : field ∉ r.immediateFields) :
    (r.decodeOperands word).immediates.get? field = none := by
  rw [h.get?_immediates_decodeOperands, if_neg fun hmem => hf (List.mem_eraseDups.mpr hmem)]

theorem mem_assembly (h : r.WellFormed schema) {p : PlacedSlice} (hp : p ∈ r.immediateAssembly) :
    ∃ slot ∈ r.layout, ∃ e above below, slot.content = .expression e ∧
      e.segments = above ++ .slice p.slice :: below ∧
      p.lsb = slot.lsb + Segment.totalWidth below ∧
      p.lsb + p.width ≤ slot.lsb + slot.width := by
  rw [h.assembly_eq] at hp
  obtain ⟨slot, hs, hp⟩ := List.mem_flatMap.mp hp
  unfold Slot.placed at hp
  split at hp
  next e he =>
    have hwithin := placeAbove_within hp
    obtain ⟨above, below, hsegments, hlsb, -⟩ := mem_placeAbove hp
    have hwidth := (h.stacked.filled slot hs).expression_width e he
    refine ⟨slot, hs, e, above, below, he, hsegments, hlsb, ?_⟩
    rw [← hwidth]
    exact hwithin.2
  · exact absurd hp List.not_mem_nil

theorem pairwise_assembly (h : r.WellFormed schema) : r.immediateAssembly.Pairwise IsAbove := by
  rw [h.assembly_eq]
  exact (h.stacked.pairwise_placed schema).1

end WellFormed

/-- The placed slices of a record say the same about its immediates as its layout does: they name
the same fields and give them the same values in every word. Each placed slice stands where the
expression of its slot has it, and the slices stand apart, from the top of the word down. -/
theorem immediates_of_assembly {schema : Schema} {r : Record} (hr : r.ResolvedUnder schema)
    (word : Word) :
    (∀ field, field ∈ r.immediateAssembly.map (·.slice.field) ↔
        ((r.decodeOperands word).immediates.get? field).isSome) ∧
      (∀ field ∈ r.immediateAssembly.map (·.slice.field),
        (r.decodeOperands word).immediates.get? field =
          some (Word.union ((r.immediateAssembly.filter (·.slice.field = field)).map fun p =>
            ((word >>> p.lsb) &&& Word.lowMask (p.slice.high - p.slice.low + 1))
              <<< p.slice.low))) ∧
      (r.immediateAssembly.Pairwise fun p q => ∀ bit, ¬ (p.Covers bit ∧ q.Covers bit)) ∧
      (∀ p ∈ r.immediateAssembly, ∃ slot ∈ r.layout, ∃ e above below,
        slot.content = .expression e ∧ e.segments = above ++ .slice p.slice :: below ∧
          p.lsb = slot.lsb + Segment.totalWidth below ∧
          ∀ bit, p.Covers bit → slot.lsb ≤ bit ∧ bit < slot.lsb + slot.width) ∧
      r.immediateAssembly.Pairwise fun p q => q.lsb < p.lsb := by
  have h := hr.wellFormed
  refine ⟨?_, ?_, ?_, ?_, ?_⟩
  · intro field
    rw [h.get?_immediates_decodeOperands]
    by_cases hf : field ∈ r.immediateAssembly.map (·.slice.field)
    · rw [if_pos hf]
      exact ⟨fun _ => rfl, fun _ => hf⟩
    · rw [if_neg hf]
      exact ⟨fun hf' => absurd hf' hf, fun hn => nomatch hn⟩
  · intro field hf
    rw [h.get?_immediates_decodeOperands, if_pos hf]
    rfl
  · refine h.pairwise_assembly.imp ?_
    intro p q hpq bit hbit
    unfold IsAbove at hpq
    unfold PlacedSlice.Covers at hbit
    omega
  · intro p hp
    obtain ⟨slot, hs, e, above, below, he, hsegments, hlsb, hle⟩ := h.mem_assembly hp
    refine ⟨slot, hs, e, above, below, he, hsegments, hlsb, ?_⟩
    intro bit hbit
    unfold PlacedSlice.Covers at hbit
    omega
  · refine h.pairwise_assembly.imp ?_
    intro p q hpq
    have hwidth : 0 < q.width := Nat.succ_pos _
    unfold IsAbove at hpq
    omega

/-- Bit 3 of the field is set by both of its slices. -/
theorem immediates_of_assembly_overlapping :
    overlapping.ResolvedUnder Schema.qcpu ∧
      "imm" ∈ overlapping.immediateAssembly.map (·.slice.field) ∧
      (overlapping.decodeOperands 0x5000080#64).immediates.get? "imm" = some 0x28#64 := by
  obtain ⟨-, hvalues, -⟩ := immediates_of_assembly overlapping_resolved 0x5000080#64
  have hmem : "imm" ∈ overlapping.immediateAssembly.map (·.slice.field) := by decide
  exact ⟨overlapping_resolved, hmem, (hvalues "imm" hmem).trans rfl⟩

end Record

end OpTable
